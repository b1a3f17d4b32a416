import DvrModel.App.UartCmd.Mileage
import DvrModel.App.UartCmd.Service
import DvrModel.App.UartCmd.SocStatus
import DvrModel.App.UartCmd.Text
import DvrModel.Svc.Lcd.Thread

-- What `app_usart_cmd_poll` does with the frames that it gets, while the LCD thread goes on with its own work.
open Svc.Eeprom (Io Device)
open Svc.Lcd (Key Location Time Update)
open App (VehicleInputs)

namespace App.UartCmd

def secondsToHms (totalSeconds : UInt32) : UInt8 × UInt8 × UInt8 :=
  let secondsOfDay := totalSeconds % 86400
  ((secondsOfDay / 3600).toUInt8, (secondsOfDay % 3600 / 60).toUInt8, (secondsOfDay % 60).toUInt8)

-- The characters before the terminator.
def bcdToStr18 (raw : Octets 9) : List UInt8 :=
  (Bytes.ofArray raw).flatMap fun (b : UInt8) => ['0'.toUInt8 + (b >>> 4 &&& 0x0F), '0'.toUInt8 + (b &&& 0x0F)]

namespace SocStatusMsg

def time (msg : SocStatusMsg) : Time :=
  let (hour, minute, second) := timeToHms msg.timestamp
  { hour, minute, second }

def driveTime (msg : SocStatusMsg) : Time :=
  let (hour, minute, second) := secondsToHms msg.driverTime
  { hour, minute, second }

def location (msg : SocStatusMsg) : Location where
  latitude           := msg.latitude
  longitude          := msg.longitude
  latitudeDirection  := msg.latitudeDirection.toUInt8
  longitudeDirection := msg.longitudeDirection.toUInt8
  timestamp          := msg.timestamp

-- The calls at the end of the loop of `app_usart_cmd_poll`.
def updates (msg : SocStatusMsg) : List Update := [
  .homeTime msg.time,
  .topStatus msg.usedSatellite,
  .homeSpeed msg.driverSpeed,
  .driveTime msg.driveTime,
  .cardId (some <| bcdToStr18 msg.driverNumber),
  .homeLocation msg.location]

end SocStatusMsg

-- What the thread still has to do for a frame. The calls of the display and the accesses of the memory are
-- steps of their own, between which the LCD thread may run.
inductive Job
  | event (e : Event)
  | sample (speedKmhX10 : UInt16) (timestamp : UInt32)
  | save
  | lcd (a : Update)

namespace Odometer

-- `svc_lcd_update_total_mileage(odo_km, odo_rem_m)`.
def shown (o : Odometer) : Update :=
  .totalMileage o.odoKm o.odoRemM

-- `app_uart_cmd_update_total_mileage` between the load and the save, and what is to be done next.
def count (o : Odometer) (speedKmhX10 : UInt16) (timestamp : UInt32) : Odometer × List Job :=
  if !o.hasLastSample then
    ({ o with hasLastSample := true, lastTimestamp := timestamp }, [])
  else if timestamp ≤ o.lastTimestamp then
    ({ o with lastTimestamp := timestamp }, [])
  else if timestamp - o.lastTimestamp > 5 then
    ({ o with lastTimestamp := timestamp }, [])
  else
    let o' := { o with lastTimestamp := timestamp }.travel speedKmhX10 (timestamp - o.lastTimestamp)
    (o', [.lcd o'.shown, .save])

end Odometer

-- The variables of the service that the frames change.
structure Session where
  msg      : TextMsg
  assemLen : UInt16
  odometer : Odometer

namespace Session

def init : Session where
  msg      := Assembly.init.msg
  assemLen := 0
  odometer := .init

-- The part that a text concerns. The display is not looked at, and its call comes later.
def assembly (s : Session) : Assembly :=
  { Assembly.init with msg := s.msg, assemLen := s.assemLen }

def text (s : Session) (r : Assembly × Option LcdCall) : Session × List Job :=
  ({ s with msg := r.1.msg, assemLen := r.1.assemLen },
    if r.2.isSome
    then [.lcd <| .textMessage r.1.msg.flag r.1.msg.textType (some r.1.msg.text) r.1.msg.textLen]
    else [])

-- The body of the loop of `app_usart_cmd_poll`. The text of a forced finish is published by the parser.
def handle (s : Session) : Event → Session × List Job
  | .forceFinish => s.text s.assembly.forceFinishTextFrame
  | .frame f     =>
    if f.data.getD 2 0 = textFrameType then
      s.text (s.assembly.parseTextFrame f)
    else
      match parseSocStatus f with
      | none     => (s, [])
      | some msg => (s, .sample msg.driverSpeed msg.timestamp :: msg.updates.map .lcd)

end Session

-- The thread and the interrupt of the UART command service, and the LCD with its thread. The thread that has
-- started the one of the service counts a first sample itself, with the same variables of the odometer.
structure Dvr where
  service  : Service
  session  : Session
  jobs     : List Job
  starting : List Job
  lcd      : Svc.Lcd.State

namespace Dvr

-- After `rt_thread_startup` in `app_usart_cmd_task_start`.
def init (configCache : ConfigStatus) (tick : UInt32) (inputs : VehicleInputs) (device : Device) : Dvr where
  service  := .init
  session  := .init
  jobs     := []
  starting := [.sample 0 1]
  lcd      := .start configCache tick inputs device

def setOdometer (d : Dvr) (odometer : Odometer) : Dvr :=
  { d with session := { d.session with odometer } }

-- A computation of the odometer with the memory, which ends the run if the power is lost.
def access (d : Dvr) (x : Io Odometer) : Option Dvr :=
  match x.run d.lcd.device with
  | (none, _)        => none
  | (some o, device) => some { d.setOdometer o with lcd := { d.lcd with device } }

-- What is done for a job, and what is still to be done then.
def job (d : Dvr) : Job → Option (Dvr × List Job)
  | .event e                => some ({ d with session := (d.session.handle e).1 }, (d.session.handle e).2)
  | .lcd a                  => (d.lcd.step (.update a)).map fun lcd => ({ d with lcd }, [])
  | .save                   => (d.access d.session.odometer.saveStorage).map fun d => (d, [])
  | .sample speed timestamp =>
    if d.session.odometer.storageLoaded then
      some (d.setOdometer (d.session.odometer.count speed timestamp).1,
        (d.session.odometer.count speed timestamp).2)
    else
      (d.access d.session.odometer.loadStorage).map fun d =>
        (d, [.lcd d.session.odometer.shown, .sample speed timestamp])

-- The thread of the service takes the next byte when it is done with the one before.
def uart (d : Dvr) : Option Dvr :=
  match d.jobs with
  | []      => some { d with service := d.service.thread.1, jobs := (d.service.thread.2.map .event).toList }
  | j :: js => (d.job j).map fun (d, new) => { d with jobs := new ++ js }

-- The rest of `app_usart_cmd_task_start`.
def start (d : Dvr) : Option Dvr :=
  match d.starting with
  | []      => some d
  | j :: js => (d.job j).map fun (d, new) => { d with starting := new ++ js }

inductive Action
  | rx (size : Nat) (fifo : List UInt8)
  | uart
  | start
  | lcd
  | post (k : Key)
  | tick
  | inputs (io : VehicleInputs)

def act (d : Dvr) : Action → Option Dvr
  | .rx size fifo => some { d with service := d.service.rxIndicate size fifo }
  | .uart         => d.uart
  | .start        => d.start
  | .lcd          => (d.lcd.step .lcd).map fun lcd => { d with lcd }
  | .post k       => (d.lcd.step (.post k)).map fun lcd => { d with lcd }
  | .tick         => (d.lcd.step .tick).map fun lcd => { d with lcd }
  | .inputs io    => (d.lcd.step (.inputs io)).map fun lcd => { d with lcd }

end Dvr

end App.UartCmd
