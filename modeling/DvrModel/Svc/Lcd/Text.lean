import DvrModel.Lib.Store
import Mathlib.Logic.Function.Basic

namespace Svc.Lcd

def textMsgMaxLen : UInt16 := 4096

-- `lcd_text_msg_t`. Of `text` the first `LCD_TEXT_MSG_MAX_LEN + 1` cells exist.
structure TextMsg where
  valid     : UInt8
  flag      : UInt8
  textType  : UInt8
  textLen   : UInt16
  text      : Nat → UInt8
  pageIndex : UInt16
  pageCount : UInt16

-- The part of the LCD's state that an incoming text message concerns. Of the current page it only
-- matters whether it is the one that shows the message.
structure Display where
  textMsg      : TextMsg
  onTextNormal : Bool
  needRedraw   : Bool

-- After `lcd_ui_data_reset` and `lcd_ui_core_reset`.
def Display.init : Display where
  textMsg      := {
    valid     := 0
    flag      := 0
    textType  := 0
    textLen   := 0
    text _    := 0
    pageIndex := 0
    pageCount := 0
  }
  onTextNormal := false
  needRedraw   := true

-- The display keeps nothing but the latest message.
def Display.updateTextMessage (d : Display) (flag textType : UInt8) (utf8Text : Nat → UInt8)
    (textLen : UInt16) : Display :=
  let copyLen := if textLen > textMsgMaxLen then textMsgMaxLen else textLen
  let text := Store.write d.textMsg.text 0 (Store.read utf8Text 0 copyLen.toNat)
  { d with
    textMsg    := {
      valid     := 1
      flag      := flag
      textType  := textType
      textLen   := copyLen
      text      := Function.update text copyLen.toNat 0
      pageIndex := 0
      pageCount := 0
    }
    needRedraw := d.needRedraw || d.onTextNormal }

end Svc.Lcd
