import DvrModel.Lib.Store
import Mathlib.Logic.Function.Basic

namespace App.UartCmd

def frameHead     : UInt8 := 0xAA
def frameTail     : UInt8 := 0x55
def typeSocStatus : UInt8 := 0x01
def textFrameType : UInt8 := 0x02
def frameMaxSize  : Nat   := 512

-- The used part of `app_uart_cmd_frame_t`.
structure Frame where
  length : Nat
  data   : List UInt8
  deriving DecidableEq

def crc16HalfByte : List UInt16 := [
  0x0000, 0x1021, 0x2042, 0x3063, 0x4084, 0x50A5, 0x60C6, 0x70E7,
  0x8108, 0x9129, 0xA14A, 0xB16B, 0xC18C, 0xD1AD, 0xE1CE, 0xF1EF
]

def crc16Nibble (crc : UInt16) (nibble : UInt8) : UInt16 :=
  let da := ((crc >>> 8) >>> 4).toUInt8
  (crc <<< 4) ^^^ crc16HalfByte.getD (da ^^^ nibble).toNat 0

def crc16Byte (crc : UInt16) (byte : UInt8) : UInt16 :=
  crc16Nibble (crc16Nibble crc (byte >>> 4)) (byte &&& 0x0F)

def crc16 (data : List UInt8) : UInt16 :=
  data.foldl crc16Byte 0

def checkCrc (buf : Nat → UInt8) (len : Nat) : Bool :=
  if len < 6 then
    false
  else
    crc16 (Store.read buf 3 (len - 6)) == (buf (len - 3)).toUInt16 ||| ((buf (len - 2)).toUInt16 <<< 8)

def isKnownType (type : UInt8) : Bool :=
  type == typeSocStatus || type == textFrameType

-- The static variables of `app_uart_cmd_try_parse_frame`. Of `temp` the first `index` bytes are in use.
structure Parser where
  temp      : Nat → UInt8
  index     : Nat
  expectLen : Nat

-- What the parser has to tell to the rest of the program: it returns a frame, or it calls
-- `app_uart_cmd_force_finish_text_frame`.
inductive Event
  | frame (f : Frame)
  | forceFinish
  deriving DecidableEq

def Event.frame? : Event → Option Frame
  | frame f     => f
  | forceFinish => none

namespace Parser

def init : Parser where
  temp _    := 0
  index     := 0
  expectLen := 0

def reset (p : Parser) : Parser :=
  { p with index := 0, expectLen := 0 }

def isBadLength (expectLen : Nat) : Bool :=
  expectLen < 6 || expectLen > frameMaxSize

-- The second byte is the length of the frame.
def acceptLength (p : Parser) (byte : UInt8) : Parser :=
  if isBadLength (p.temp 1).toNat then
    if byte = frameHead then
      { temp := Function.update p.temp 0 byte, index := 1, expectLen := 0 }
    else
      p.reset
  else
    { p with expectLen := (p.temp 1).toNat }

def isGood (p : Parser) : Bool :=
  p.temp (p.expectLen - 1) == frameTail && checkCrc p.temp p.expectLen

def isBadTextEnd (p : Parser) : Bool :=
  p.expectLen ≥ 7 && p.temp 2 == textFrameType && p.temp 3 == 1

-- The position of the next `0xAA` in the candidate, zero if there is none.
def nextHead (p : Parser) : Nat :=
  (List.range' 1 (p.index - 1)).find? (p.temp · == frameHead) |>.getD 0

def shiftDown (temp : Nat → UInt8) (nextHead remainLen : Nat) : Nat → UInt8 :=
  (List.range remainLen).foldl (fun t i => Function.update t i (t (nextHead + i))) temp

-- The candidate has failed. The search goes on behind its head.
def resync (p : Parser) : Parser :=
  if p.nextHead = 0 then
    p.reset
  else
    let remainLen := p.index - p.nextHead
    let temp := shiftDown p.temp p.nextHead remainLen
    if remainLen ≥ 2 then
      if isBadLength (temp 1).toNat then
        { temp, index := 0, expectLen := 0 }
      else
        { temp, index := remainLen, expectLen := (temp 1).toNat }
    else
      { temp, index := remainLen, expectLen := 0 }

-- One iteration of the loop of `app_uart_cmd_try_parse_frame` for the byte that has been popped. The
-- index is of type `uint8_t`.
def parseByte (p : Parser) (byte : UInt8) : Parser × Option Event :=
  if p.index = 0 then
    if byte = frameHead then
      ({ temp := Function.update p.temp 0 byte, index := 1, expectLen := 0 }, none)
    else
      (p, none)
  else
    let p := { p with temp := Function.update p.temp p.index byte, index := (p.index + 1) % 256 }
    if p.index = 2 then
      (p.acceptLength byte, none)
    else if p.index = 3 ∧ !isKnownType (p.temp 2) then
      (p.reset, none)
    else if p.index < p.expectLen then
      (p, none)
    else if p.isGood then
      (p.reset, some <| .frame { length := p.expectLen, data := Store.read p.temp 0 p.expectLen })
    else
      (p.resync, if p.isBadTextEnd then some .forceFinish else none)

end Parser

end App.UartCmd
