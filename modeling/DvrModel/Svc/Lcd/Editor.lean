import DvrModel.Svc.Adc.Basic
import DvrModel.Svc.Storage.Basic

open Svc.Storage

namespace Svc.Lcd

-- The keys whose events the LCD thread consumes.
abbrev Key := Adc.Key

-- What an editor wants after it has handled a key: to be drawn again, to be left, or to save its value.
inductive Reply
  | redraw
  | leave
  | save
  deriving DecidableEq

def plateLetters : List UInt8 :=
  ['A', 'B', 'C', 'D', 'E', 'F', 'G', 'H', 'I', 'J', 'K', 'L', 'M', 'N', 'O', 'P', 'Q', 'R', 'S', 'T',
    'U', 'V', 'W', 'X', 'Y', 'Z'].map (·.toUInt8)

def plateTailChars : List UInt8 :=
  ['0', '1', '2', '3', '4', '5', '6', '7', '8', '9'].map (·.toUInt8) ++ plateLetters

def plateLetter (i : UInt8) : UInt8 :=
  plateLetters.getD i.toNat 0

def plateTailChar (i : UInt8) : UInt8 :=
  plateTailChars.getD i.toNat 0

-- The position that `strchr` finds, if any. It also finds the terminator.
def strchr (s : List UInt8) (c : UInt8) : Option Nat :=
  (s ++ [0]).findIdx? (· == c)

-- The index of a character in `g_lcd_plate_tail_chars`, or zero.
def plateTailIndex (c : UInt8) : UInt8 :=
  ((strchr plateTailChars c).map UInt8.ofNat).getD 0

-- What the editors of identifiers differ in: the number of positions, the number of characters to choose
-- from and the width of the mask of those positions that are set.
structure Ident where
  len           : UInt8
  charCount     : UInt8
  maskWidth     : Nat
  len_pos       : 0 < len
  charCount_pos : 0 < charCount
  charCount_le  : charCount.toNat ≤ plateTailChars.length
  len_le        : len.toNat ≤ maskWidth

namespace Ident

def vin : Ident where
  len           := 17
  charCount     := 36
  maskWidth     := 32
  len_pos       := by decide
  charCount_pos := by decide
  charCount_le  := by decide
  len_le        := by decide

def provinceId : Ident where
  len           := 2
  charCount     := 10
  maskWidth     := 8
  len_pos       := by decide
  charCount_pos := by decide
  charCount_le  := by decide
  len_le        := by decide

def cityId : Ident where
  len           := 4
  charCount     := 10
  maskWidth     := 8
  len_pos       := by decide
  charCount_pos := by decide
  charCount_le  := by decide
  len_le        := by decide

def completeMask (I : Ident) : BitVec I.maskWidth :=
  .ofNat _ (2 ^ I.len.toNat - 1)

end Ident

inductive Area
  | position
  | charSelect
  | action
  deriving DecidableEq

inductive Button
  | confirm
  | exit
  deriving DecidableEq

def Button.toggle : Button → Button
  | confirm => exit
  | exit    => confirm

-- The editor of an identifier, for which the source has three copies of the same code. Of `chars` the
-- first `I.len` cells exist.
structure Picker (I : Ident) where
  area        : Area
  cursor      : UInt8
  optionIndex : UInt8
  action      : Button
  chars       : Nat → UInt8
  editMask    : BitVec I.maskWidth

namespace Picker

variable {I : Ident}

def init : Picker I where
  area        := .position
  cursor      := 0
  optionIndex := 0
  action      := .exit
  chars _     := 0
  editMask    := 0

-- The state in which a page is entered, with the characters of a valid identifier or without any.
def prepare : Option (Nat → UInt8) → Picker I
  | some chars => { (init : Picker I) with
      editMask := I.completeMask, chars, optionIndex := chars 0 }
  | none       => init

def firstUnset (p : Picker I) : Option Nat :=
  (List.range I.len.toNat).find? fun i => !p.editMask.getLsbD i

def handleS1 (p : Picker I) : Picker I :=
  match p.area with
  | .position   => { p with optionIndex := p.chars p.cursor.toNat, area := .charSelect }
  | .charSelect => { p with action := .exit, area := .action }
  | .action     => { p with area := .position }

def handleS2 (p : Picker I) : Picker I :=
  match p.area with
  | .position   => { p with cursor := if p.cursor > 0 then p.cursor - 1 else I.len - 1 }
  | .charSelect =>
    { p with optionIndex := if p.optionIndex > 0 then p.optionIndex - 1 else I.charCount - 1 }
  | .action     => { p with action := p.action.toggle }

def handleS3 (p : Picker I) : Picker I :=
  match p.area with
  | .position   => { p with cursor := if p.cursor < I.len - 1 then p.cursor + 1 else 0 }
  | .charSelect =>
    { p with optionIndex := if p.optionIndex < I.charCount - 1 then p.optionIndex + 1 else 0 }
  | .action     => { p with action := p.action.toggle }

-- The character at the cursor is set, and the cursor goes on to the next position.
def choose (p : Picker I) : Picker I :=
  let chars := Function.update p.chars p.cursor.toNat p.optionIndex
  let editMask := p.editMask ||| (1#I.maskWidth <<< p.cursor.toNat)
  if p.cursor < I.len - 1 then
    { p with
      chars, editMask
      cursor      := p.cursor + 1
      optionIndex := chars (p.cursor + 1).toNat
      area        := .charSelect }
  else
    { p with chars, editMask, action := .confirm, area := .action }

def handleS4 (p : Picker I) : Picker I × Reply :=
  match p.area with
  | .charSelect => (p.choose, .redraw)
  | .action     =>
    match p.action with
    | .exit    => (p, .leave)
    | .confirm =>
      if p.editMask ≠ I.completeMask then
        ({ p with cursor := p.firstUnset.elim p.cursor UInt8.ofNat, area := .position }, .redraw)
      else
        (p, .save)
  | .position   => (p, .redraw)

def handle (p : Picker I) : Key → Picker I × Reply
  | .s1 => (p.handleS1, .redraw)
  | .s2 => (p.handleS2, .redraw)
  | .s3 => (p.handleS3, .redraw)
  | .s4 => p.handleS4

-- The characters that are saved, with their terminator.
def text (p : Picker I) (n : Nat) : Chars (n + 1) :=
  fun i => if i.val < n then plateTailChar (p.chars i.val) else 0

end Picker

-- The fields of the editor of the plate number that can have the focus.
abbrev PlateFocus := UInt8

namespace PlateFocus

def province : PlateFocus := 0
def letter   : PlateFocus := 1
def digit0   : PlateFocus := 2
def digit4   : PlateFocus := 6
def confirm  : PlateFocus := 7
def exit     : PlateFocus := 8
def max      : PlateFocus := exit

end PlateFocus

-- Of `digits` the first five cells exist. Without a `valid` plate number and before the first change the
-- page shows blanks.
structure PlateEditor where
  focus         : PlateFocus
  valid         : Bool
  dirty         : Bool
  provinceIndex : UInt8
  letterIndex   : UInt8
  digits        : Nat → UInt8

namespace PlateEditor

def init : PlateEditor where
  focus         := .province
  valid         := false
  dirty         := false
  provinceIndex := 0
  letterIndex   := 0
  digits _      := 0

-- `lcd_prepare_plate_set_page`, given the result of `svc_storage_load_plate_number`.
def prepare : Bool × PlateNumber → PlateEditor
  | (result, plate) =>
    if result && plate.valid == 1 && plate.provinceIndex < plateProvinceCount && isUpper plate.letter then
      { init with
        valid         := true
        provinceIndex := plate.provinceIndex
        letterIndex   := plate.letter - 'A'.toUInt8
        digits i      := plateTailIndex ((Bytes.ofArray plate.digits).getD i 0) }
    else
      init

def digitIndex (p : PlateEditor) : Nat :=
  (p.focus - .digit0).toNat

def setProvince (p : PlateEditor) (provinceIndex : UInt8) : PlateEditor :=
  { p with provinceIndex, dirty := true }

def setLetter (p : PlateEditor) (letterIndex : UInt8) : PlateEditor :=
  { p with letterIndex, dirty := true }

def setDigit (p : PlateEditor) (v : UInt8) : PlateEditor :=
  { p with digits := Function.update p.digits p.digitIndex v, dirty := true }

def handleS1 (p : PlateEditor) : PlateEditor :=
  { p with focus := if p.focus < .max then p.focus + 1 else .province }

def handleS2 (p : PlateEditor) : PlateEditor :=
  if p.focus = .province then
    p.setProvince (if p.provinceIndex > 0 then p.provinceIndex - 1 else plateProvinceCount - 1)
  else if p.focus = .letter then
    p.setLetter (if p.letterIndex > 0 then p.letterIndex - 1 else 25)
  else if .digit0 ≤ p.focus ∧ p.focus ≤ .digit4 then
    let digit := p.digits p.digitIndex
    p.setDigit (if digit > 0 then digit - 1 else 35)
  else if p.focus = .confirm then
    { p with focus := .exit }
  else
    { p with focus := .confirm }

def handleS3 (p : PlateEditor) : PlateEditor :=
  if p.focus = .province then
    let provinceIndex := p.provinceIndex + 1
    p.setProvince (if provinceIndex ≥ plateProvinceCount then 0 else provinceIndex)
  else if p.focus = .letter then
    p.setLetter (if p.letterIndex < 25 then p.letterIndex + 1 else 0)
  else if .digit0 ≤ p.focus ∧ p.focus ≤ .digit4 then
    let digit := p.digits p.digitIndex
    p.setDigit (if digit < 35 then digit + 1 else 0)
  else if p.focus = .confirm then
    { p with focus := .exit }
  else
    { p with focus := .confirm }

def handle (p : PlateEditor) : Key → PlateEditor × Reply
  | .s1 => (p.handleS1, .redraw)
  | .s2 => (p.handleS2, .redraw)
  | .s3 => (p.handleS3, .redraw)
  | .s4 =>
    if p.focus = .confirm then
      (p, .save)
    else if p.focus = .exit then
      (p, .leave)
    else
      (p, .redraw)

-- The plate number that `lcd_plate_save_and_ok` saves.
def value (p : PlateEditor) : PlateNumber where
  valid         := 1
  provinceIndex := p.provinceIndex
  letter        := plateLetter p.letterIndex
  digits i      := if i.val < 5 then plateTailChar (p.digits i.val) else 0

-- What `lcd_plate_save_and_ok` notes when the plate number has been saved.
def saved (p : PlateEditor) : PlateEditor :=
  { p with valid := true, dirty := false }

end PlateEditor

inductive PhoneFocus
  | number
  | digit
  | action
  deriving DecidableEq

-- Of `digits` the first twelve cells exist.
structure PhoneEditor where
  digits        : Nat → UInt8
  cursor        : UInt8
  selectedDigit : UInt8
  focus         : PhoneFocus
  funcIndex     : UInt8

namespace PhoneEditor

-- "00000000000"
def zeros : Nat → UInt8 :=
  fun i => if i < 11 then '0'.toUInt8 else 0

-- `lcd_prepare_local_phone_page`, given the result of `svc_storage_load_local_phone`.
def prepare : Bool × Chars 12 → PhoneEditor
  | (result, phone) =>
    let digits := if result then fun i => (Bytes.ofArray phone).getD i 0 else zeros
    { digits
      cursor        := 0
      focus         := .number
      funcIndex     := 1
      selectedDigit := digits 0 - '0'.toUInt8 }

def init : PhoneEditor :=
  prepare (false, fun _ => 0)

def digitAtCursor (p : PhoneEditor) : UInt8 :=
  p.digits p.cursor.toNat - '0'.toUInt8

def moveTo (p : PhoneEditor) (cursor : UInt8) : PhoneEditor :=
  { p with cursor, selectedDigit := p.digits cursor.toNat - '0'.toUInt8 }

def handleS1 (p : PhoneEditor) : PhoneEditor :=
  match p.focus with
  | .number => { p with focus := .digit, selectedDigit := p.digitAtCursor }
  | .digit  => { p with focus := .action }
  | .action => { p with focus := .number }

def handleS2 (p : PhoneEditor) : PhoneEditor :=
  match p.focus with
  | .number => p.moveTo (if p.cursor > 0 then p.cursor - 1 else p.cursor)
  | .digit  => { p with selectedDigit := if p.selectedDigit > 0 then p.selectedDigit - 1 else 9 }
  | .action => { p with funcIndex := if p.funcIndex > 0 then p.funcIndex - 1 else 1 }

def handleS3 (p : PhoneEditor) : PhoneEditor :=
  match p.focus with
  | .number => p.moveTo (if p.cursor < 10 then p.cursor + 1 else p.cursor)
  | .digit  => { p with selectedDigit := if p.selectedDigit < 9 then p.selectedDigit + 1 else 0 }
  | .action => { p with funcIndex := if p.funcIndex < 1 then p.funcIndex + 1 else 0 }

-- The digit at the cursor is set, and the cursor goes on to the next one.
def choose (p : PhoneEditor) : PhoneEditor :=
  { p with digits := Function.update p.digits p.cursor.toNat ('0'.toUInt8 + p.selectedDigit) }.moveTo
    (if p.cursor < 10 then p.cursor + 1 else p.cursor)

def handleS4 (p : PhoneEditor) : PhoneEditor × Reply :=
  match p.focus with
  | .number => ({ p with selectedDigit := p.digitAtCursor }, .redraw)
  | .digit  => (p.choose, .redraw)
  | .action => (p, if p.funcIndex = 0 then .leave else .save)

def handle (p : PhoneEditor) : Key → PhoneEditor × Reply
  | .s1 => (p.handleS1, .redraw)
  | .s2 => (p.handleS2, .redraw)
  | .s3 => (p.handleS3, .redraw)
  | .s4 => p.handleS4

-- The number that is saved.
def value (p : PhoneEditor) : Chars 12 :=
  fun i => p.digits i.val

end PhoneEditor

end Svc.Lcd
