import DvrModel.Lcd.Drv

-- The graphics layer (`lcd_graphics.c`) and the calls that reach the display from above it.
namespace Lcd

-- `g_lcd_fb`.
abbrev Fb := Fin pages → Fin cols → UInt8

namespace Fb

def zero : Fb :=
  fun _ _ => 0

-- The new level of one bit of a byte.
def setBit (byte bit : UInt8) (on : Bool) : UInt8 :=
  if on then byte ||| (1 <<< bit) else byte &&& ~~~(1 <<< bit)

def setPixel (fb : Fb) (x y : UInt8) (on : Bool) : Fb :=
  if x ≥ 132 ∨ y ≥ 64 then fb
  else fun page col =>
    if page.val = (y / 8).toNat ∧ col.val = x.toNat
    then setBit (fb page col) (7 - y % 8) on
    else fb page col

def reverseByte (v : UInt8) : UInt8 :=
  let v := ((v &&& 0xF0) >>> 4) ||| ((v &&& 0x0F) <<< 4)
  let v := ((v &&& 0xCC) >>> 2) ||| ((v &&& 0x33) <<< 2)
  ((v &&& 0xAA) >>> 1) ||| ((v &&& 0x55) <<< 1)

-- One page of the source is copied to the page it is mapped to.
def copyPage (src : Nat → UInt8) (srcStride : UInt16) (fb : Fb) (srcPage : Nat) : Fb :=
  fun page col =>
    if page.val = srcPage ^^^ 3
    then reverseByte (src (srcPage * srcStride.toNat + col))
    else fb page col

-- The source is the memory from the pointer on, which may be null.
def copyPages (fb : Fb) (srcStride : UInt16) : Option (Nat → UInt8) → Fb
  | none     => fb
  | some src => (List.range pages).foldl (copyPage src srcStride) fb

def flush (fb : Fb) : Trace :=
  (List.finRange pages).flatMap fun page => Drv.writePage (.ofNat page.val) 0 <| some <| .ofFn (fb page)

end Fb

-- The calls of the graphics layer and of the driver. `u8g2CopyToLcdFb` is what a render function ends with.
inductive Call
  | init
  | fbClear
  | setPixel (x y : UInt8) (on : Bool)
  | copyPages (src : Option (Nat → UInt8)) (srcStride : UInt16)
  | flush
  | u8g2CopyToLcdFb (buf : Nat → UInt8) (tileWidth : UInt8)
  | clear
  | fillAll
  | writePage (page col : UInt8) (buf : Option (List UInt8))
  | backlightOn
  | backlightOff
  | a0Set (isData : Bool)
  | csnSet (active : Bool)
  | rstSet (active : Bool)
  | reset
  | spiSendByte (byte : UInt8)

-- `u8g2_copy_to_lcd_fb`. The width of the buffer is given in tiles of eight columns.
def u8g2CopyToLcdFb (fb : Fb) (buf : Nat → UInt8) (tileWidth : UInt8) : Fb :=
  fb.copyPages (.ofNat (tileWidth.toNat * 8)) (some buf)

namespace Call

-- The framebuffer after the call, and what it writes to the pins.
def exec (fb : Fb) : Call → Fb × Trace
  | init                          => (fb, Drv.init)
  | fbClear                       => (.zero, [])
  | setPixel x y on               => (fb.setPixel x y on, [])
  | copyPages src srcStride       => (fb.copyPages srcStride src, [])
  | flush                         => (fb, fb.flush)
  | u8g2CopyToLcdFb buf tileWidth =>
    (Lcd.u8g2CopyToLcdFb .zero buf tileWidth, (Lcd.u8g2CopyToLcdFb .zero buf tileWidth).flush)
  | clear                         => (fb, Drv.clear)
  | fillAll                       => (fb, Drv.fillAll)
  | writePage page col buf        => (fb, Drv.writePage page col buf)
  | backlightOn                   => (fb, Drv.backlightOn)
  | backlightOff                  => (fb, Drv.backlightOff)
  | a0Set isData                  => (fb, Drv.a0Set isData)
  | csnSet active                 => (fb, Drv.csnSet active)
  | rstSet active                 => (fb, Drv.rstSet active)
  | reset                         => (fb, Drv.reset)
  | spiSendByte byte              => (fb, Drv.spiWriteByte byte)

def execAll (fb : Fb) : List Call → Fb × Trace
  | []      => (fb, [])
  | c :: cs => ((execAll (c.exec fb).1 cs).1, (c.exec fb).2 ++ (execAll (c.exec fb).1 cs).2)

end Call

end Lcd
