import Mathlib.Data.List.OfFn

-- The driver of the ST7567 (`lcd_drv.c`). A function of the driver is given by the levels it writes to the
-- pins, in the order of its `gpio_write_pin` calls. The delays between them are left out.
namespace Lcd

inductive Pin
  | rstb | backlight | csn | a0 | sck | sda
  deriving DecidableEq

abbrev Trace := List (Pin × Bool)

-- `LCD_COLS` and `LCD_PAGES`.
def cols  : Nat := 132
def pages : Nat := 8

namespace Drv

def sckSet (high : Bool) : Trace :=
  [(.sck, high)]

def sdaSet (high : Bool) : Trace :=
  [(.sda, high)]

-- The chip select and the reset are active when they are low.
def csnSet (active : Bool) : Trace :=
  [(.csn, !active)]

def rstSet (active : Bool) : Trace :=
  [(.rstb, !active)]

def a0Set (isData : Bool) : Trace :=
  [(.a0, isData)]

def backlightOn : Trace :=
  [(.backlight, true)]

def backlightOff : Trace :=
  [(.backlight, false)]

def reset : Trace :=
  [(.rstb, false), (.rstb, true)]

-- The rounds that are left of the loop over the bits. The uppermost bit goes out first.
def spiWriteBits : Nat → UInt8 → Trace
  | 0,     _    => []
  | n + 1, byte =>
    sckSet true ++ sdaSet (byte &&& 0x80 != 0) ++ sckSet false ++ spiWriteBits n (byte <<< 1)

def spiWriteByte (byte : UInt8) : Trace :=
  spiWriteBits 8 byte ++ sckSet true

def writeCmd (cmd : UInt8) : Trace :=
  csnSet true ++ a0Set false ++ spiWriteByte cmd ++ csnSet false

def writeDataBuf (buf : List UInt8) : Trace :=
  csnSet true ++ a0Set true ++ buf.flatMap spiWriteByte ++ csnSet false

-- `LCD_HW_COL_OFFSET`.
def hwColOffset : UInt8 := 0

def hwCol (col : UInt8) : UInt8 :=
  if col + hwColOffset ≥ 132 then col + hwColOffset - 132 else col + hwColOffset

-- `ST7567_CMD_SET_PAGE`, `ST7567_CMD_SET_COL_HI` and `ST7567_CMD_SET_COL_LO`.
def cmdSetPage  (page : UInt8) : UInt8 := (0xB0 : UInt8) ||| (page &&& 0x0F)
def cmdSetColHi (col : UInt8)  : UInt8 := (0x10 : UInt8) ||| ((hwCol col >>> 4) &&& 0x0F)
def cmdSetColLo (col : UInt8)  : UInt8 := (0x00 : UInt8) ||| (hwCol col &&& 0x0F)

def setPageCol (page col : UInt8) : Trace :=
  writeCmd (cmdSetPage page) ++ writeCmd (cmdSetColHi col) ++ writeCmd (cmdSetColLo col)

def clear : Trace :=
  (List.range pages).flatMap fun page =>
    setPageCol (.ofNat page) 0 ++ writeDataBuf (.replicate cols 0x00)

def fillAll : Trace :=
  (List.range pages).flatMap fun page =>
    setPageCol (.ofNat page) 0 ++ writeDataBuf (.replicate cols 0xFF)

-- The pointer may be null.
def writePage (page col : UInt8) : Option (List UInt8) → Trace
  | none     => []
  | some buf =>
    if page ≥ 8 ∨ col ≥ 132 ∨ buf.length = 0
    then []
    else setPageCol page col ++ writeDataBuf buf

def initSeq : Trace :=
  reset ++
  writeCmd 0xA2 ++            -- `ST7567_CMD_BIAS_1_9`
  writeCmd 0xA0 ++            -- `ST7567_CMD_SEG_NORMAL`
  writeCmd 0xC0 ++            -- `ST7567_CMD_COM_NORMAL`
  writeCmd (0x40 ||| 0x00) ++ -- `ST7567_CMD_SET_START_LINE`
  writeCmd (0x20 ||| 0x07) ++ -- `ST7567_CMD_REG_RATIO`
  writeCmd 0x81 ++            -- `ST7567_CMD_SET_EV`
  writeCmd 0x28 ++
  writeCmd 0xF8 ++            -- `ST7567_CMD_SET_BOOSTER`
  writeCmd 0x01 ++
  writeCmd 0x2F ++            -- `ST7567_CMD_POWER_ALL_ON`
  writeCmd 0xA6 ++            -- `ST7567_CMD_INVERSE_OFF`
  writeCmd 0xA4 ++            -- `ST7567_CMD_ALL_PIXEL_OFF`
  clear ++
  writeCmd 0xAF               -- `ST7567_CMD_DISPLAY_ON`

def spiHwInit : Trace :=
  sckSet true ++ sdaSet false

-- `lcd_drv_ctrl_pins_init` only makes the pins outputs.
def init : Trace :=
  spiHwInit ++ csnSet false ++ a0Set true ++ backlightOff ++ initSeq

end Drv

end Lcd
