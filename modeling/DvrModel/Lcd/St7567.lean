import DvrModel.Lcd.Drv
import DvrModel.Lib.Serial

-- The controller at the other end of the pins, as the driver's comments describe it: it takes bytes over
-- while it is selected, A0 tells data from commands, the commands set the address of the display data, and
-- the column moves on by itself after every byte of data.
namespace Lcd.St7567

-- `supply` stands for the bias, the power control and the resistor ratio, `twoBytes` for the contrast and
-- the booster, whose value is the byte that follows.
inductive Command
  | displayOn | segNormal | comNormal | inverseOff | allPixelOff | supply | twoBytes
  | startLine (line : Nat)
  | page (page : Nat)
  | colHi (hi : Nat)
  | colLo (lo : Nat)
  | other (cmd : UInt8)
  deriving DecidableEq

def decode (cmd : UInt8) : Command :=
  if      cmd = 0xAF          then .displayOn
  else if cmd = 0xA0          then .segNormal
  else if cmd = 0xC0          then .comNormal
  else if cmd = 0xA6          then .inverseOff
  else if cmd = 0xA4          then .allPixelOff
  else if cmd = 0xA2          then .supply
  else if cmd = 0x2F          then .supply
  else if cmd &&& 0xF8 = 0x20 then .supply
  else if cmd = 0x81          then .twoBytes
  else if cmd = 0xF8          then .twoBytes
  else if cmd &&& 0xC0 = 0x40 then .startLine (cmd &&& 0x3F).toNat
  else if cmd &&& 0xF0 = 0xB0 then .page (cmd &&& 0x0F).toNat
  else if cmd &&& 0xF0 = 0x10 then .colHi (cmd &&& 0x0F).toNat
  else if cmd &&& 0xF0 = 0x00 then .colLo (cmd &&& 0x0F).toNat
  else .other cmd

structure Core where
  page      : Nat
  col       : Nat
  -- The next command byte is the argument of the command before.
  argument  : Bool
  displayOn : Bool
  startLine : Nat
  segNormal : Bool
  comNormal : Bool
  inverse   : Bool
  allPixels : Bool
  ram       : Nat → Nat → UInt8

-- What the comments leave open: the edge of the clock that samples, the state after a reset, the column
-- that follows the last one, and the other commands.
structure Chip where
  edge    : Serial.Edge
  reset   : Core → Core
  next    : Nat → Nat
  other   : UInt8 → Core → Core
  next_eq : col + 1 < cols → next col = col + 1

namespace Core

-- Whether the panel shows the display data as it is.
structure Shown (c : Core) : Prop where
  displayOn : c.displayOn = true
  startLine : c.startLine = 0
  segNormal : c.segNormal = true
  comNormal : c.comNormal = true
  inverse   : c.inverse = false
  allPixels : c.allPixels = false

def command (chip : Chip) (c : Core) (cmd : UInt8) : Core :=
  if c.argument then { c with argument := false }
  else match decode cmd with
  | .displayOn      => { c with displayOn := true }
  | .startLine line => { c with startLine := line }
  | .segNormal      => { c with segNormal := true }
  | .comNormal      => { c with comNormal := true }
  | .inverseOff     => { c with inverse := false }
  | .allPixelOff    => { c with allPixels := false }
  | .supply         => c
  | .twoBytes       => { c with argument := true }
  | .page page      => { c with page := page }
  | .colHi hi       => { c with col := 16 * hi + c.col % 16 }
  | .colLo lo       => { c with col := 16 * (c.col / 16) + lo }
  | .other cmd      => chip.other cmd c

def data (chip : Chip) (c : Core) (byte : UInt8) : Core :=
  { c with
    ram := fun page col => if page = c.page ∧ col = c.col then byte else c.ram page col
    col := chip.next c.col }

end Core

-- What the controller is told through the pins.
inductive Item
  | reset
  | byte (isData : Bool) (byte : UInt8)

def Core.act (chip : Chip) (c : Core) : Item → Core
  | .reset          => { chip.reset c with argument := false }
  | .byte true  bte => c.data chip bte
  | .byte false bte => c.command chip bte

-- The serial port. It listens to the clock only while it is selected and not held in reset.
structure Port where
  rstb   : Bool
  csn    : Bool
  a0     : Bool
  serial : Serial.Receiver 8

namespace Port

def serialStep (edge : Serial.Edge) (p : Port) (e : Serial.Event) : Port × Option Item :=
  ({ p with serial := (p.serial.step edge e).1 },
    (p.serial.step edge e).2.map (.byte p.a0 <| .ofBitVec ·))

def step (edge : Serial.Edge) (p : Port) : Pin × Bool → Port × Option Item
  | (.rstb, true)   => ({ p with rstb := true }, none)
  | (.rstb, false)  =>
    ({ p with rstb := false, serial := { p.serial with shift := 0, count := 0 } }, some .reset)
  | (.csn, level)   => ({ p with csn := level }, none)
  | (.a0, level)    => ({ p with a0 := level }, none)
  | (.backlight, _) => (p, none)
  | (.sck, level)   =>
    if p.rstb ∧ ¬p.csn
    then p.serialStep edge (.clock level)
    else ({ p with serial := { p.serial with clock := level } }, none)
  | (.sda, level)   =>
    if p.rstb ∧ ¬p.csn
    then p.serialStep edge (.data level)
    else ({ p with serial := { p.serial with data := level } }, none)

end Port

-- The display module: the controller and the backlight.
structure Module where
  port      : Port
  core      : Core
  backlight : Bool

def Module.run (chip : Chip) (m : Module) (t : Trace) : Module where
  port      := (t.foldl (Mealy.drive (Port.step chip.edge) (Core.act chip)) (m.port, m.core)).1
  core      := (t.foldl (Mealy.drive (Port.step chip.edge) (Core.act chip)) (m.port, m.core)).2
  backlight := t.foldl (fun l w => if w.1 = .backlight then w.2 else l) m.backlight

end Lcd.St7567
