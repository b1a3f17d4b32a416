import DvrModel.Svc.Lcd.Text

namespace Svc.Lcd

def textMsgLinesPerPage : Nat := 3
def textMsgLineMaxChars : Nat := 10

-- The code point at an offset and the number of bytes that it takes.
def utf8NextCodepoint (text : Nat → UInt8) (offset : Nat) : UInt16 × Nat :=
  let p₀ := text offset
  let p₁ := text (offset + 1)
  let p₂ := text (offset + 2)
  if p₀ = 0 then
    (0, 0)
  else if p₀ < 0x80 then
    (p₀.toUInt16, 1)
  else if p₀ &&& 0xE0 = 0xC0 ∧ p₁ ≠ 0 then
    (((p₀ &&& 0x1F).toUInt16 <<< 6) ||| (p₁ &&& 0x3F).toUInt16, 2)
  else if p₀ &&& 0xF0 = 0xE0 ∧ p₁ ≠ 0 ∧ p₂ ≠ 0 then
    (((p₀ &&& 0x0F).toUInt16 <<< 12) ||| ((p₁ &&& 0x3F).toUInt16 <<< 6) ||| (p₂ &&& 0x3F).toUInt16, 3)
  else
    ('?'.toUInt8.toUInt16, 1)

-- The loop that counts the characters of a text. Every iteration takes at least one byte, and the text is
-- terminated within its buffer.
def countChars (text : Nat → UInt8) : Nat → Nat → Nat
  | 0,     _      => 0
  | n + 1, offset =>
    if text offset = 0 then
      0
    else
      let (code, consumed) := utf8NextCodepoint text offset
      if code = 0 ∨ consumed = 0 then 0 else countChars text n (offset + consumed) + 1

-- The loop that skips the characters of the pages before, `n` of them.
def skipChars (text : Nat → UInt8) : Nat → Nat → Nat
  | 0,     offset => offset
  | n + 1, offset =>
    if text offset = 0 then
      offset
    else
      let (code, consumed) := utf8NextCodepoint text offset
      if code = 0 ∨ consumed = 0 then offset else skipChars text n (offset + consumed)

-- Line breaks are not drawn.
def isLineBreak (code : UInt16) : Bool :=
  code == 0x0D || code == 0x0A

-- A line of up to `n` characters: what is drawn, and the offset at which the next line begins.
def drawLine (text : Nat → UInt8) : Nat → Nat → List UInt16 × Nat
  | 0,     offset => ([], offset)
  | n + 1, offset =>
    if text offset = 0 then
      ([], offset)
    else
      let (code, consumed) := utf8NextCodepoint text offset
      if code = 0 ∨ consumed = 0 then
        ([], offset)
      else if isLineBreak code then
        ([], offset + consumed)
      else
        let (codes, next) := drawLine text n (offset + consumed)
        (code :: codes, next)

def drawLines (text : Nat → UInt8) : Nat → Nat → List UInt16
  | 0,     _      => []
  | n + 1, offset =>
    let (codes, next) := drawLine text textMsgLineMaxChars offset
    codes ++ drawLines text n next

-- `g_no_text_text`
def noTextText : List UInt16 :=
  [0x65E0, 0x6587, 0x672C]

-- The number of pages that `lcd_render_info_center_text_normal_ui` stores.
def textPageCount (text : Nat → UInt8) : UInt16 :=
  let pageChars := textMsgLinesPerPage * textMsgLineMaxChars
  let charCount := countChars text (textMsgMaxLen.toNat + 1) 0
  let pageCount := UInt16.ofNat ((charCount + pageChars - 1) / pageChars)
  if pageCount = 0 then 1 else pageCount

namespace TextMsg

-- There is something to show.
def isShown (m : TextMsg) : Bool :=
  m.valid != 0 && m.textLen != 0

-- What rendering the message leaves behind.
def render (m : TextMsg) : TextMsg :=
  if m.isShown then { m with pageCount := textPageCount m.text } else m

-- The code points that rendering the message draws, apart from the page number.
def draw (m : TextMsg) : List UInt16 :=
  if m.isShown then
    let pageStartChar := m.pageIndex * .ofNat textMsgLinesPerPage * .ofNat textMsgLineMaxChars
    drawLines m.text textMsgLinesPerPage (skipChars m.text pageStartChar.toNat 0)
  else
    noTextText

-- `lcd_prepare_text_normal_page`
def prepare (m : TextMsg) : TextMsg :=
  { m with pageIndex := 0, pageCount := 1 }

-- The page is turned back or forth. Whether it has been turned decides about drawing it again.
def handleS2 (m : TextMsg) : Option TextMsg :=
  if m.pageIndex > 0 then some { m with pageIndex := m.pageIndex - 1 } else none

def handleS3 (m : TextMsg) : Option TextMsg :=
  if m.pageCount > 0 ∧ m.pageIndex.toNat + 1 < m.pageCount.toNat then
    some { m with pageIndex := m.pageIndex + 1 }
  else
    none

end TextMsg

end Svc.Lcd
