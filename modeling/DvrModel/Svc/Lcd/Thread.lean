import DvrModel.Lib.Run
import DvrModel.Svc.Lcd.Keys
import DvrModel.Svc.Lcd.Update

open Svc.Eeprom (Io Device)
open App (VehicleInputs)

namespace Svc.Lcd

-- The places of the loop in `svc_lcd_thread_entry` between which other threads are taken into account:
-- its beginning, the calls that consume an event, the automatic changes of the page, and the three steps
-- of drawing it.
inductive Pc
  | top
  | poll (h : Handler) (k : Key)
  | refresh
  | test
  | render
  | clear
  deriving DecidableEq

namespace Pc

-- Where the loop continues after a key for which there was no event. The handlers of the text and of the
-- phone, as well as the generic one, do not leave the key to anybody else.
def idle (h : Handler) (k : Key) : Pc :=
  match h.next k with
  | some k' => poll h k'
  | none    =>
    match h with
    | .textNormal | .localPhone | .generic => refresh
    | _                                    => poll .generic .s1

-- Where the loop continues after the event of a key has been handled.
def handled : Handler → Key → Pc
  | .home,       .s1 => top
  | .localPhone, k   => idle .localPhone k
  | .generic,    k   => idle .generic k
  | _,           _   => refresh

end Pc

-- The LCD thread together with what it shares with others: the pending events of the keys, the clock and
-- the inputs of the vehicle. The `screen` is what has been rendered last.
structure Thread where
  ui     : Ui
  keys   : Key → Bool
  pc     : Pc
  tick   : UInt32
  inputs : VehicleInputs
  screen : Option View

namespace Thread

def view (t : Thread) : View :=
  t.ui.view t.inputs

-- `svc_adc_consume_s1_event` and its counterparts, followed by the handling of the event.
def poll (t : Thread) (h : Handler) (k : Key) : Io Thread :=
  if t.keys k then do
    let t := { t with keys := Function.update t.keys k false }
    return { t with ui := ← t.ui.handleKey t.tick h k, pc := .handled h k }
  else
    return { t with pc := .idle h k }

-- One step of the loop.
def step (t : Thread) : Io Thread :=
  match t.pc with
  | .top      => return { t with pc := .poll t.ui.currentPageId.handler t.ui.currentPageId.handler.first }
  | .poll h k => t.poll h k
  | .refresh  => do
    let ui ← t.ui.handleAutoReturn t.tick
    return { t with ui := ui.handleDynamicRefresh t.tick t.inputs, pc := .test }
  | .test     => return { t with pc := if t.ui.needRedraw then .render else .top }
  | .render   => return { t with ui := t.ui.render, screen := some t.view, pc := .clear }
  | .clear    => return { t with ui := { t.ui with needRedraw := false }, pc := .top }

end Thread

-- What the threads do: the LCD thread takes a step, the ADC thread posts the event of a key, time
-- passes, the UART thread hands over data, and the inputs change.
inductive Action
  | lcd
  | post   (k : Key)
  | tick
  | update (a : Update)
  | inputs (io : VehicleInputs)

structure State extends Thread where
  device : Device

namespace State

-- After the initialization of the threads, when the loop begins. The commands have been initialized
-- before.
def start (configCache : App.UartCmd.ConfigStatus) (tick : UInt32) (inputs : VehicleInputs)
    (device : Device) : State where
  ui     := .init configCache
  keys _ := false
  pc     := .top
  tick   := tick
  inputs := inputs
  screen := none
  device := device

-- A loss of power ends the run.
def step (s : State) : Action → Option State
  | .lcd       =>
    match s.toThread.step.run s.device with
    | (some t, device) => some { t with device }
    | (none, _)        => none
  | .post k    => some { s with keys := Function.update s.keys k true }
  | .tick      => some { s with tick := s.tick + 1 }
  | .update a  => some { s with ui := s.ui.update a }
  | .inputs io => some { s with inputs := io }

end State

-- The beginning of the loop, whatever has been read from the memory before.
def Started (s : State) : Prop :=
  ∃ configCache tick inputs device, s = .start configCache tick inputs device

abbrev Edge := Lts.Edge State Action

abbrev Run (s₀ : State) (es : List Edge) (s : State) : Prop :=
  Lts.Run (fun s a s' => s.step a = some s') s₀ es s

end Svc.Lcd
