import DvrModel.Lib.Mealy
import DvrModel.App.UartCmd.Receiver
import DvrModel.Svc.Lcd.Text

open Svc.Lcd (Display)

namespace App.UartCmd

def textMaxSize : UInt16 := 4096

-- `app_uart_cmd_text_msg_t`. Of `text` the first `APP_UART_CMD_TEXT_BUF_SIZE` cells exist.
structure TextMsg where
  valid    : UInt8
  flag     : UInt8
  textType : UInt8
  textLen  : UInt16
  text     : Nat → UInt8

-- The arguments of a call of `svc_lcd_update_text_message`, with the bytes that it is given.
structure LcdCall where
  flag     : UInt8
  textType : UInt8
  text     : List UInt8
  deriving DecidableEq

-- `g_uart_cmd_text_msg` and `g_uart_cmd_text_assem_len`, together with the display to which the
-- messages go.
structure Assembly where
  msg      : TextMsg
  assemLen : UInt16
  display  : Display

namespace Assembly

def init : Assembly where
  msg      := { valid := 0, flag := 0, textType := 0, textLen := 0, text _ := 0 }
  assemLen := 0
  display  := .init

-- What `app_uart_cmd_parse_text_frame` and `app_uart_cmd_force_finish_text_frame` do at the end of a
-- message. The former also assigns the flag and the type, but to what they are already.
def publish (s : Assembly) : Assembly × Option LcdCall :=
  let msg := { s.msg with valid := 1, textLen := s.assemLen }
  ({ msg, assemLen := 0
     display := s.display.updateTextMessage msg.flag msg.textType msg.text msg.textLen },
    some ⟨msg.flag, msg.textType, Store.read msg.text 0 msg.textLen.toNat⟩)

def forceFinishTextFrame (s : Assembly) : Assembly × Option LcdCall :=
  if s.assemLen = 0 then
    (s, none)
  else
    s.publish

-- As much of a chunk as there is room for is appended to the text, which is terminated again.
def append (s : Assembly) (data : List UInt8) (textOffset : Nat) (chunkLen : UInt16) : Assembly :=
  if s.assemLen < textMaxSize then
    let remainLen := textMaxSize - s.assemLen
    let copyLen := if chunkLen > remainLen then remainLen else chunkLen
    if copyLen > 0 then
      let text := Store.write s.msg.text s.assemLen.toNat (data.drop textOffset |>.take copyLen.toNat)
      let assemLen := s.assemLen + copyLen
      { s with msg.text := Function.update text assemLen.toNat 0, assemLen }
    else
      s
  else
    s

-- The last fragment of a message has the transfer state 1.
def finish (s : Assembly) (transferState : UInt8) : Assembly × Option LcdCall :=
  if transferState = 1 then s.publish else (s, none)

-- The result of `app_uart_cmd_parse_text_frame` is not looked at by its only caller.
def parseTextFrame (s : Assembly) (f : Frame) : Assembly × Option LcdCall :=
  if f.length < 7 ∨ f.data.getD 0 0 ≠ frameHead ∨ f.data.getD 2 0 ≠ textFrameType then
    (s, none)
  else
    let payloadLen := UInt8.ofNat (f.length - 6)
    let transferState := f.data.getD 3 0
    if payloadLen < 2 then
      (s, none)
    else if s.assemLen = 0 then
      if payloadLen < 3 then
        (s, none)
      else
        let flag := f.data.getD 4 0
        let textType := f.data.getD 5 0
        if textType ≠ 1 ∧ textType ≠ 2 then
          ({ s with msg.valid := 0, assemLen := 0 }, none)
        else
          let s := { s with msg.flag := flag, msg.textType := textType }
          s.append f.data 6 (payloadLen.toUInt16 - 3) |>.finish transferState
    else
      s.append f.data 4 (payloadLen.toUInt16 - 1) |>.finish transferState

-- What happens to the texts when the parser calls for a forced finish or when `app_usart_cmd_poll` gets
-- a frame. The frames with the status of the SOC do not concern them.
def handle (s : Assembly) : Event → Assembly × Option LcdCall
  | .forceFinish => s.forceFinishTextFrame
  | .frame f     => if f.data.getD 2 0 = textFrameType then s.parseTextFrame f else (s, none)

-- `app_usart_cmd_get_text_msg`, for a caller that has room for the message.
def getTextMsg (s : Assembly) : Option TextMsg :=
  if s.msg.valid = 0 then none else some s.msg

-- Handles events one after the other, in the order in which they occur during a poll.
def handleAll (s : Assembly) (es : List Event) : Assembly × List LcdCall :=
  Mealy.feed handle s es

end Assembly

-- The UART command service as far as texts are concerned.
structure Command where
  receiver : Receiver
  assembly : Assembly

namespace Command

def init : Command where
  receiver := .init
  assembly := .init

-- The receive thread pushes bytes, the command thread polls. `app_uart_cmd_try_parse_frame` is called by
-- the poll only.
inductive Action
  | push (byte : UInt8)
  | poll

def act (c : Command) : Action → Command × List LcdCall
  | .push byte => ({ c with receiver := c.receiver.pushByte byte }, [])
  | .poll      =>
    let s := c.assembly.handleAll c.receiver.poll.2
    ({ receiver := c.receiver.poll.1, assembly := s.1 }, s.2)

def run (c : Command) : List Action → Command × List LcdCall
  | []      => (c, [])
  | a :: as => ((run (c.act a).1 as).1, (c.act a).2 ++ (run (c.act a).1 as).2)

end Command

end App.UartCmd
