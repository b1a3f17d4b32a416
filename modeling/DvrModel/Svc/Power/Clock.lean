import DvrModel.Svc.Power.Basic

open App

namespace Svc.Power

-- The moments at which an iteration reads the tick counter, in ticks since the start of the system. The
-- counter has 32 bits, so it shows them only up to its wraps.
structure Moments where
  eval    : Nat
  hold    : Nat
  pending : Nat
  cut     : Nat
  cam     : Nat
  eval_le_hold    : eval ≤ hold
  hold_le_pending : hold ≤ pending
  pending_le_cut  : pending ≤ cut
  cut_le_cam      : cut ≤ cam

def Moments.readings (t : Moments) : Readings where
  eval    := .ofNat t.eval
  hold    := .ofNat t.hold
  pending := .ofNat t.pending
  cut     := .ofNat t.cut
  cam     := .ofNat t.cam

-- An iteration within a single tick.
def Moments.single (t : Nat) : Moments where
  eval    := t
  hold    := t
  pending := t
  cut     := t
  cam     := t
  eval_le_hold    := Nat.le_refl t
  hold_le_pending := Nat.le_refl t
  pending_le_cut  := Nat.le_refl t
  cut_le_cam      := Nat.le_refl t

structure Sample where
  adc     : AdcSnapshot
  vehicle : VehicleIoState
  moments : Moments

-- The power thread together with the time of its latest reading.
structure Clocked where
  state : State
  clock : Nat

def Clocked.next (m : Clocked) (i : Sample) : Option (Clocked × List GpioWrite) :=
  if m.clock ≤ i.moments.eval then
    (loopBody m.state i.adc i.vehicle i.moments.readings).map
      fun (s, writes) => (⟨s, i.moments.cam⟩, writes)
  else
    none

def Clocked.init (now : Nat) (backlight : Bool) : Clocked :=
  ⟨Power.init (.ofNat now) backlight, now⟩

abbrev Clocked.Runs (now : Nat) (backlight : Bool) :
    List (Lts.Edge Clocked (Sample × List GpioWrite)) → Clocked → Prop :=
  Lts.Run (Lts.ofStep Clocked.next) (Clocked.init now backlight)

end Svc.Power
