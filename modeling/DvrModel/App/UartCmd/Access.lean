import DvrModel.App.UartCmd.Text
import DvrModel.Lib.Checked

open Checked (Fault)

namespace App.UartCmd

-- The parser with a look at its array: it must not read anything but the bytes of the candidate, not
-- write behind the array, and its numbers must not leave the range of `uint8_t`. The loop variables are
-- of this type, too, but so are the bounds that they stay below.
namespace Parser

def get (p : Parser) (i : Nat) : Except Fault UInt8 :=
  Checked.load p.temp p.index i

def put (p : Parser) (i : Nat) (byte : UInt8) : Except Fault Parser :=
  return { p with temp := ← Checked.store p.temp frameMaxSize i byte }

-- `app_uart_cmd_crc16(&temp[3], len)`.
def crc16Checked (p : Parser) (len : Nat) : Except Fault UInt16 :=
  (List.range len).foldlM (fun crc i => return crc16Byte crc (← p.get (3 + i))) 0

def recvCrcChecked (p : Parser) (len : Nat) : Except Fault UInt16 := do
  let low  ← p.get (← Checked.sub len 3)
  let high ← p.get (← Checked.sub len 2)
  return low.toUInt16 ||| (high.toUInt16 <<< 8)

def checkCrcChecked (p : Parser) (len : Nat) : Except Fault Bool := do
  if len < 6 then
    return false
  else
    let dataLen ← Checked.sub len 6
    let calcCrc ← p.crc16Checked dataLen
    let recvCrc ← p.recvCrcChecked len
    return calcCrc == recvCrc

def isGoodChecked (p : Parser) : Except Fault Bool := do
  let tail ← p.get (← Checked.sub p.expectLen 1)
  if tail = frameTail then
    p.checkCrcChecked p.expectLen
  else
    return false

-- The call of `rt_memcpy` for a frame, whose data has the same size.
def frameChecked (p : Parser) : Except Fault Frame := do
  let data ← (List.range p.expectLen).mapM p.get
  let length ← Checked.fit (frameMaxSize + 1) p.expectLen
  return { length, data }

def isBadTextEndChecked (p : Parser) : Except Fault Bool := do
  if p.expectLen < 7 then
    return false
  else
    if (← p.get 2) = textFrameType then
      return (← p.get 3) = 1
    else
      return false

-- What is printed of a candidate with a bad end.
def dumpChecked (p : Parser) : Except Fault (UInt16 × UInt16 × UInt8 × List UInt8) := do
  let calcCrc ← p.crc16Checked (← Checked.sub p.expectLen 6)
  let recvCrc ← p.recvCrcChecked p.expectLen
  let tail ← p.get (← Checked.sub p.expectLen 1)
  let data ← (List.range p.expectLen).mapM p.get
  return (calcCrc, recvCrc, tail, data)

def forceFinishChecked (p : Parser) : Except Fault (Option Event) := do
  if (← p.isBadTextEndChecked) then
    let _ ← p.dumpChecked
    return some .forceFinish
  else
    return none

def nextHeadChecked (p : Parser) : Except Fault Nat := do
  let i ← Checked.findM (fun i => return (← p.get i) == frameHead) (List.range' 1 (p.index - 1))
  return i.getD 0

def shiftDownChecked (p : Parser) (nextHead remainLen : Nat) : Except Fault Parser :=
  let shift (temp : Nat → UInt8) (i : Nat) := do
    Checked.store temp frameMaxSize i (← Checked.load temp p.index (nextHead + i))
  return { p with temp := ← (List.range remainLen).foldlM shift p.temp }

def resyncChecked (p : Parser) : Except Fault Parser := do
  let nextHead ← p.nextHeadChecked
  if nextHead = 0 then
    return p.reset
  else
    let remainLen ← Checked.sub p.index nextHead
    let p ← p.shiftDownChecked nextHead remainLen
    let p := { p with index := remainLen, expectLen := 0 }
    if p.index ≥ 2 then
      let expectLen := (← p.get 1).toNat
      if isBadLength expectLen then
        return p.reset
      else
        return { p with expectLen }
    else
      return p

def acceptLengthChecked (p : Parser) (byte : UInt8) : Except Fault Parser := do
  let expectLen := (← p.get 1).toNat
  if isBadLength expectLen then
    if byte = frameHead then
      return { (← p.put 0 byte) with index := 1, expectLen := 0 }
    else
      return p.reset
  else
    return { p with expectLen }

def hasBadTypeChecked (p : Parser) : Except Fault Bool := do
  if p.index = 3 then
    return !isKnownType (← p.get 2)
  else
    return false

def parseByteChecked (p : Parser) (byte : UInt8) : Except Fault (Parser × Option Event) := do
  if p.index = 0 then
    if byte = frameHead then
      return ({ (← p.put 0 byte) with index := 1, expectLen := 0 }, none)
    else
      return (p, none)
  else
    let p := { (← p.put p.index byte) with index := ← Checked.fit 256 (p.index + 1) }
    if p.index = 2 then
      return (← p.acceptLengthChecked byte, none)
    else if (← p.hasBadTypeChecked) then
      return (p.reset, none)
    else if p.index < p.expectLen then
      return (p, none)
    else if (← p.isGoodChecked) then
      return (p.reset, some <| .frame (← p.frameChecked))
    else
      let event ← p.forceFinishChecked
      return (← p.resyncChecked, event)

end Parser

-- `APP_UART_CMD_TEXT_BUF_SIZE`. The buffer of the display has the same size.
def textBufSize : Nat := 4097

-- The assembly of texts, with the same look at its buffers and at the differences of lengths.
namespace Assembly

-- `svc_lcd_update_text_message` copies the text into a buffer of its own and terminates it there.
def publishChecked (s : Assembly) : Except Fault (Assembly × Option LcdCall) := do
  let copyLen := if s.assemLen > Svc.Lcd.textMsgMaxLen then Svc.Lcd.textMsgMaxLen else s.assemLen
  let data ← (List.range copyLen.toNat).mapM (Checked.load s.msg.text textBufSize)
  let text ← Checked.fill s.display.textMsg.text textBufSize 0 data
  let _ ← Checked.store text textBufSize copyLen.toNat 0
  return s.publish

def forceFinishTextFrameChecked (s : Assembly) : Except Fault (Assembly × Option LcdCall) :=
  if s.assemLen = 0 then
    return (s, none)
  else
    s.publishChecked

def appendChecked (s : Assembly) (data : List UInt8) (textOffset : Nat) (chunkLen : UInt16) :
    Except Fault Assembly := do
  if s.assemLen < textMaxSize then
    let remainLen ← Checked.sub textMaxSize s.assemLen
    let copyLen := if chunkLen > remainLen then remainLen else chunkLen
    if copyLen > 0 then
      let chunk ← Checked.slice data textOffset copyLen.toNat
      let text ← Checked.fill s.msg.text textBufSize s.assemLen.toNat chunk
      let assemLen ← Checked.add s.assemLen copyLen
      let text ← Checked.store text textBufSize assemLen.toNat 0
      return { s with msg.text := text, assemLen }
    else
      return s
  else
    return s

def finishChecked (s : Assembly) (transferState : UInt8) : Except Fault (Assembly × Option LcdCall) :=
  if transferState = 1 then s.publishChecked else return (s, none)

-- The payload ends before the checksum, so a chunk has to be taken from before it.
def parseTextFrameChecked (s : Assembly) (f : Frame) : Except Fault (Assembly × Option LcdCall) := do
  if f.length < 7 then
    return (s, none)
  else if (← Checked.item f.data 0 0) ≠ frameHead then
    return (s, none)
  else if (← Checked.item f.data 2 0) ≠ textFrameType then
    return (s, none)
  else
    let payloadLen := UInt8.ofNat (← Checked.fit 256 (← Checked.sub f.length 6))
    let payload := f.data.take (← Checked.sub f.length 3)
    if payloadLen < 2 then
      return (s, none)
    else
      let transferState ← Checked.item payload 3 0
      if s.assemLen = 0 then
        if payloadLen < 3 then
          return (s, none)
        else
          let flag ← Checked.item payload 4 0
          let textType ← Checked.item payload 5 0
          if textType ≠ 1 ∧ textType ≠ 2 then
            return ({ s with msg.valid := 0, assemLen := 0 }, none)
          else
            let s := { s with msg.flag := flag, msg.textType := textType }
            let chunkLen ← Checked.sub payloadLen.toUInt16 3
            (← s.appendChecked payload 6 chunkLen).finishChecked transferState
      else
        let chunkLen ← Checked.sub payloadLen.toUInt16 1
        (← s.appendChecked payload 4 chunkLen).finishChecked transferState

def handleChecked (s : Assembly) : Event → Except Fault (Assembly × Option LcdCall)
  | .forceFinish => s.forceFinishTextFrameChecked
  | .frame f     => do
    if (← Checked.item f.data 2 0) = textFrameType then
      s.parseTextFrameChecked f
    else
      return (s, none)

end Assembly

end App.UartCmd
