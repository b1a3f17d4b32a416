import DvrModel.Svc.Lcd.Editor
import Mathlib.Tactic.Common

open Svc.Storage

namespace Svc.Lcd

theorem take_36_plateTailChars :
    (plateTailChars.take 36).all (fun c => isDigit c || isUpper c) = true := by
  decide

theorem take_10_plateTailChars : (plateTailChars.take 10).all isDigit = true := by
  decide

theorem plateLetters_valid : plateLetters.all isUpper = true := by
  decide

-- Every character that can be chosen is one that the record check accepts.
theorem plateTailChar_of_lt {isChar : UInt8 → Bool} {n : Nat} {i : UInt8}
    (h : (plateTailChars.take n).all isChar = true) (hi : i.toNat < n) (hn : n ≤ plateTailChars.length) :
    isChar (plateTailChar i) = true := by
  rw [List.all_eq_true] at h
  refine h _ <| List.mem_take_iff_getElem.mpr ⟨i.toNat, by omega, ?_⟩
  simp [plateTailChar, Nat.lt_of_lt_of_le hi hn]

theorem plateLetter_of_lt {i : UInt8} (h : i < 26) : isUpper (plateLetter i) = true := by
  have hi : i.toNat < plateLetters.length := h
  have hv := plateLetters_valid
  rw [List.all_eq_true] at hv
  apply hv
  simp [plateLetter, hi]

theorem isDigit_iff {c : UInt8} : isDigit c = true ↔ 48 ≤ c ∧ c ≤ 57 := by
  show (decide (48 ≤ c) && decide (c ≤ 57)) = true ↔ _
  simp

theorem isUpper_iff {c : UInt8} : isUpper c = true ↔ 65 ≤ c ∧ c ≤ 90 := by
  show (decide (65 ≤ c) && decide (c ≤ 90)) = true ↔ _
  simp

-- What holds of the indices below a bound, one after the other.
theorem forall_of_lt {P : UInt8 → Prop} {m : UInt8} (h : ∀ n < m.toNat, P (.ofNat n)) {i : UInt8}
    (hi : i < m) : P i :=
  UInt8.ofNat_toNat (x := i) ▸ h i.toNat hi

theorem plateTailChar_digit {i : UInt8} (h : i < 10) : plateTailChar i = 48 + i :=
  forall_of_lt (P := fun i => plateTailChar i = 48 + i) (by decide) h

theorem plateTailChar_upper {i : UInt8} (h : i < 26) : plateTailChar (10 + i) = 65 + i :=
  forall_of_lt (P := fun i => plateTailChar (10 + i) = 65 + i) (by decide) h

theorem plateLetter_eq {i : UInt8} (h : i < 26) : plateLetter i = 65 + i :=
  forall_of_lt (P := fun i => plateLetter i = 65 + i) (by decide) h

theorem plateTailIndex_plateTailChar {i : UInt8} (h : i < 36) : plateTailIndex (plateTailChar i) = i :=
  forall_of_lt (P := fun i => plateTailIndex (plateTailChar i) = i) (by decide) h

theorem sub_lt_of_isDigit {c : UInt8} (h : isDigit c = true) : c - '0'.toUInt8 < 10 := by
  have := isDigit_iff.mp h
  show c - 48 < 10
  grind

theorem sub_lt_of_isUpper {c : UInt8} (h : isUpper c = true) : c - 'A'.toUInt8 < 26 := by
  have := isUpper_iff.mp h
  show c - 65 < 26
  grind

-- What the editors make of the characters of a valid record, and back.
theorem plateTailChar_sub {c : UInt8} (h : isDigit c = true) : plateTailChar (c - '0'.toUInt8) = c := by
  rw [plateTailChar_digit (sub_lt_of_isDigit h)]
  show 48 + (c - 48) = c
  grind

theorem plateLetter_sub {c : UInt8} (h : isUpper c = true) : plateLetter (c - 'A'.toUInt8) = c := by
  rw [plateLetter_eq (sub_lt_of_isUpper h)]
  show 65 + (c - 65) = c
  grind

theorem exists_plateTailChar {c : UInt8} (h : (isDigit c || isUpper c) = true) :
    ∃ i < 36, plateTailChar i = c := by
  rcases Bool.or_eq_true_iff.mp h with h | h
  · have hs := sub_lt_of_isDigit h
    exact ⟨_, UInt8.lt_trans hs (by decide), plateTailChar_sub h⟩
  · have hs : c - 65 < 26 := sub_lt_of_isUpper h
    refine ⟨10 + (c - 65), by grind, ?_⟩
    rw [plateTailChar_upper hs]
    grind

theorem plateTailIndex_lt {c : UInt8} (h : (isDigit c || isUpper c) = true) : plateTailIndex c < 36 := by
  obtain ⟨i, hi, rfl⟩ := exists_plateTailChar h
  rwa [plateTailIndex_plateTailChar hi]

theorem plateTailChar_plateTailIndex {c : UInt8} (h : (isDigit c || isUpper c) = true) :
    plateTailChar (plateTailIndex c) = c := by
  obtain ⟨i, hi, rfl⟩ := exists_plateTailChar h
  rw [plateTailIndex_plateTailChar hi]

theorem sub_le_of_isDigit {c : UInt8} (h : isDigit c = true) : c - '0'.toUInt8 ≤ 9 := by
  have := isDigit_iff.mp h
  show c - 48 ≤ 9
  grind

theorem isDigit_add {d : UInt8} (h : d ≤ 9) : isDigit ('0'.toUInt8 + d) = true := by
  rw [isDigit_iff]
  show 48 ≤ 48 + d ∧ 48 + d ≤ 57
  grind

-- The characters of an identifier that is set.
theorem isChar_of_identValid {n i : Nat} {cs : Chars (n + 1)} {isChar : UInt8 → Bool}
    (h : identValid isChar 1 cs = true) (hi : i < n) : isChar ((Bytes.ofArray cs).getD i 0) = true := by
  simp only [identValid, Bool.and_eq_true, Bool.or_eq_true, Bytes.all_take_ofArray] at h
  rw [Bytes.getD_ofArray (Nat.lt_succ_of_lt hi)]
  exact h.right.resolve_left (by decide) _ hi

namespace Picker

variable {I : Ident} {p : Picker I} {k : Key}

-- All indices are inside of what they index, and no bits are set but those of the positions.
structure Safe (p : Picker I) : Prop where
  cursor      : p.cursor < I.len
  optionIndex : p.optionIndex < I.charCount
  chars       : ∀ i < I.len.toNat, p.chars i < I.charCount
  editMask    : p.editMask ||| I.completeMask = I.completeMask

theorem getLsbD_completeMask {i : Nat} : I.completeMask.getLsbD i = decide (i < I.len.toNat) := by
  have := I.len_le
  simp only [Ident.completeMask, BitVec.getLsbD_ofNat, Nat.testBit_two_pow_sub_one]
  by_cases h : i < I.len.toNat
  case pos => simp [h]; omega
  case neg => simp [h]

theorem within_iff {m : BitVec I.maskWidth} :
    m ||| I.completeMask = I.completeMask ↔ ∀ i, m.getLsbD i = true → i < I.len.toNat := by
  constructor
  · intro h i hi
    have hb := congrArg (BitVec.getLsbD · i) h
    simpa [hi, getLsbD_completeMask] using hb
  · intro h
    apply BitVec.eq_of_getLsbD_eq
    intro i _
    rw [BitVec.getLsbD_or, getLsbD_completeMask]
    cases hb : m.getLsbD i
    case false => simp
    case true => simp [h i hb]

theorem Safe.init : (init : Picker I).Safe where
  cursor       := I.len_pos
  optionIndex  := I.charCount_pos
  chars _ _    := I.charCount_pos
  editMask     := by simp [Picker.init]

theorem Safe.prepare {stored : Option (Nat → UInt8)}
    (h : ∀ chars, stored = some chars → ∀ i < I.len.toNat, chars i < I.charCount) :
    (prepare stored : Picker I).Safe := by
  cases stored
  case none => exact .init
  case some chars =>
    have hc := h chars rfl
    exact ⟨I.len_pos, hc 0 I.len_pos, hc, BitVec.or_self⟩

theorem Safe.handleS1 (h : p.Safe) : p.handleS1.Safe := by
  rw [Picker.handleS1]
  split
  case h_1 => exact ⟨h.cursor, h.chars _ h.cursor, h.chars, h.editMask⟩
  case h_2 => exact ⟨h.cursor, h.optionIndex, h.chars, h.editMask⟩
  case h_3 => exact ⟨h.cursor, h.optionIndex, h.chars, h.editMask⟩

-- An index goes back or on by one, or wraps around to the other end of its range.
theorem dec_lt {i m n : UInt8} (h : i < n) (hm : m < n) : (if i > 0 then i - 1 else m) < n := by
  split <;> grind

theorem inc_lt {i m n : UInt8} (hm : m < n) : (if i < m then i + 1 else 0) < n := by
  split <;> grind

theorem sub_one_lt {n : UInt8} (h : 0 < n) : n - 1 < n := by
  grind

theorem succ_lt {i n : UInt8} (hn : i < n - 1) (h : i < n) : i + 1 < n := by
  grind

theorem Safe.handleS2 (h : p.Safe) : p.handleS2.Safe := by
  rw [Picker.handleS2]
  split
  case h_1 => exact ⟨dec_lt h.cursor (sub_one_lt I.len_pos), h.optionIndex, h.chars, h.editMask⟩
  case h_2 => exact ⟨h.cursor, dec_lt h.optionIndex (sub_one_lt I.charCount_pos), h.chars, h.editMask⟩
  case h_3 => exact ⟨h.cursor, h.optionIndex, h.chars, h.editMask⟩

theorem Safe.handleS3 (h : p.Safe) : p.handleS3.Safe := by
  rw [Picker.handleS3]
  split
  case h_1 => exact ⟨inc_lt (sub_one_lt I.len_pos), h.optionIndex, h.chars, h.editMask⟩
  case h_2 => exact ⟨h.cursor, inc_lt (sub_one_lt I.charCount_pos), h.chars, h.editMask⟩
  case h_3 => exact ⟨h.cursor, h.optionIndex, h.chars, h.editMask⟩

theorem getLsbD_set {w n i : Nat} {m : BitVec w} :
    (m ||| (1#w <<< n)).getLsbD i = true ↔ m.getLsbD i = true ∨ (i = n ∧ n < w) := by
  rw [← BitVec.twoPow_eq, BitVec.getLsbD_or, BitVec.getLsbD_twoPow]
  simp
  grind

theorem Safe.choose (h : p.Safe) : p.choose.Safe := by
  have hc : ∀ i < I.len.toNat, Function.update p.chars p.cursor.toNat p.optionIndex i < I.charCount := by
    intro i hi
    by_cases hk : i = p.cursor.toNat
    case pos => simpa [hk] using h.optionIndex
    case neg => simpa [hk] using h.chars i hi
  have hm : p.editMask ||| (1#I.maskWidth <<< p.cursor.toNat) ||| I.completeMask = I.completeMask := by
    rw [within_iff]
    intro i hi
    rcases getLsbD_set.mp hi with hi | ⟨rfl, _⟩
    · exact within_iff.mp h.editMask i hi
    · exact h.cursor
  rw [Picker.choose]
  split
  case isTrue hn =>
    have hn := succ_lt hn h.cursor
    exact ⟨hn, hc _ hn, hc, hm⟩
  case isFalse => exact ⟨h.cursor, h.optionIndex, hc, hm⟩

theorem firstUnset_lt {i : Nat} (h : p.firstUnset = some i) : i < I.len.toNat := by
  simpa using List.mem_of_find?_eq_some h

theorem Safe.handleS4 (h : p.Safe) : p.handleS4.1.Safe := by
  rw [Picker.handleS4]
  split
  case h_1 => exact h.choose
  case h_3 => exact h
  case h_2 =>
    split
    case h_1 => exact h
    case h_2 =>
      split
      case isFalse => exact h
      case isTrue =>
        refine ⟨?_, h.optionIndex, h.chars, h.editMask⟩
        cases hu : p.firstUnset
        case none => exact h.cursor
        case some i =>
          have hi := firstUnset_lt hu
          have := I.len.toNat_lt
          show UInt8.ofNat i < I.len
          rw [UInt8.lt_iff_toNat_lt, UInt8.toNat_ofNat', Nat.mod_eq_of_lt (by omega)]
          exact hi

theorem Safe.handle (h : p.Safe) (k : Key) : (p.handle k).1.Safe := by
  cases k
  case s1 => exact h.handleS1
  case s2 => exact h.handleS2
  case s3 => exact h.handleS3
  case s4 => exact h.handleS4

-- A save is only asked for when all positions are set, and then nothing has changed.
theorem handle_save (h : (p.handle k).2 = .save) :
    (p.handle k).1 = p ∧ p.editMask = I.completeMask ∧ p.area = .action ∧ p.action = .confirm := by
  cases k
  case s4 =>
    simp only [Picker.handle, Picker.handleS4] at h ⊢
    split at h
    case h_1 | h_3 => cases h
    case h_2 ha =>
      split at h
      case h_1 => cases h
      case h_2 hb =>
        split at h
        case isTrue => cases h
        case isFalse hm => simp_all
  all_goals cases h

theorem Safe.identValid (h : p.Safe) {n : Nat} (hn : n = I.len.toNat) {isChar : UInt8 → Bool}
    (hc : (plateTailChars.take I.charCount.toNat).all isChar = true) :
    identValid isChar 1 (p.text n) = true := by
  simp only [Storage.identValid, Bool.and_eq_true, Bool.or_eq_true]
  refine ⟨⟨by decide, by simp [text]⟩, .inr ?_⟩
  rw [Bytes.all_take_ofArray]
  intro i hi
  rw [text, if_pos hi]
  exact plateTailChar_of_lt hc (h.chars i (hn ▸ hi)) I.charCount_le

end Picker

namespace PlateEditor

variable {p : PlateEditor} {k : Key}

structure Safe (p : PlateEditor) : Prop where
  focus         : p.focus ≤ .max
  provinceIndex : p.provinceIndex < plateProvinceCount
  letterIndex   : p.letterIndex < 26
  digits        : ∀ i < 5, p.digits i < 36

theorem Safe.init : init.Safe where
  focus         := by decide
  provinceIndex := by decide
  letterIndex   := by decide
  digits _ _    := show (0 : UInt8) < 36 by decide

theorem Safe.prepare {r : Bool × PlateNumber} (h : r.1 = true → plateNumberValid r.2 = true) :
    (prepare r).Safe := by
  obtain ⟨result, plate⟩ := r
  rw [PlateEditor.prepare]
  split
  case isFalse => exact .init
  case isTrue hc =>
    simp only [Bool.and_eq_true, decide_eq_true_eq] at hc
    obtain ⟨⟨⟨hr, _⟩, hp⟩, hl⟩ := hc
    have hv := h hr
    simp only [Storage.plateNumberValid, Bool.and_eq_true, Bytes.all_take_ofArray] at hv
    refine ⟨show (0 : UInt8) ≤ 8 by decide, hp, ?_, fun i hi => ?_⟩
    · exact sub_lt_of_isUpper hl
    · show plateTailIndex ((Bytes.ofArray plate.digits).getD i 0) < 36
      rw [Bytes.getD_ofArray (by omega)]
      exact plateTailIndex_lt (hv.left.right _ hi)

theorem Safe.setFocus (h : p.Safe) {f : PlateFocus} (hf : f ≤ .max) : { p with focus := f }.Safe :=
  ⟨hf, h.provinceIndex, h.letterIndex, h.digits⟩

theorem Safe.setProvince (h : p.Safe) {v : UInt8} (hv : v < plateProvinceCount) : (p.setProvince v).Safe :=
  ⟨h.focus, hv, h.letterIndex, h.digits⟩

theorem Safe.setLetter (h : p.Safe) {v : UInt8} (hv : v < 26) : (p.setLetter v).Safe :=
  ⟨h.focus, h.provinceIndex, hv, h.digits⟩

theorem Safe.setDigit (h : p.Safe) {v : UInt8} (hv : v < 36) : (p.setDigit v).Safe where
  focus         := h.focus
  provinceIndex := h.provinceIndex
  letterIndex   := h.letterIndex
  digits i hi   := by
    by_cases hd : i = p.digitIndex
    case pos => simpa [PlateEditor.setDigit, hd] using hv
    case neg => simpa [PlateEditor.setDigit, hd] using h.digits i hi

theorem focus_eq (h : .digit0 ≤ p.focus) : p.focus.toNat = p.digitIndex + 2 := by
  have h : (2 : UInt8) ≤ p.focus := h
  have hf : 2 ≤ p.focus.toNat := h
  show p.focus.toNat = (p.focus - 2).toNat + 2
  rw [UInt8.toNat_sub_of_le _ _ h]
  exact (Nat.sub_add_cancel hf).symm

theorem digitIndex_lt (h : .digit0 ≤ p.focus ∧ p.focus ≤ .digit4) : p.digitIndex < 5 := by
  have h₀ := focus_eq h.left
  have h₄ : p.focus.toNat ≤ 6 := h.right
  omega

theorem Safe.saved (h : p.Safe) : p.saved.Safe :=
  ⟨h.focus, h.provinceIndex, h.letterIndex, h.digits⟩

theorem Safe.handleS1 (h : p.Safe) : p.handleS1.Safe := by
  refine ⟨?_, h.provinceIndex, h.letterIndex, h.digits⟩
  have : p.focus ≤ (8 : UInt8) := h.focus
  show (if p.focus < (8 : UInt8) then p.focus + 1 else (0 : UInt8)) ≤ (8 : UInt8)
  split <;> grind

theorem Safe.handleS2 (h : p.Safe) : p.handleS2.Safe := by
  rw [PlateEditor.handleS2]
  split
  case isTrue => exact h.setProvince <| Picker.dec_lt h.provinceIndex (by decide)
  case isFalse =>
    split
    case isTrue => exact h.setLetter <| Picker.dec_lt h.letterIndex (by decide)
    case isFalse =>
      split
      case isTrue hd => exact h.setDigit <| Picker.dec_lt (h.digits _ <| digitIndex_lt hd) (by decide)
      case isFalse =>
        split
        case isTrue => exact h.setFocus (by decide)
        case isFalse => exact h.setFocus (by decide)

theorem Safe.handleS3 (h : p.Safe) : p.handleS3.Safe := by
  rw [PlateEditor.handleS3]
  split
  case isTrue =>
    refine h.setProvince ?_
    split
    case isTrue => decide
    case isFalse hn => simpa using hn
  case isFalse =>
    split
    case isTrue => exact h.setLetter <| Picker.inc_lt (by decide)
    case isFalse =>
      split
      case isTrue => exact h.setDigit <| Picker.inc_lt (by decide)
      case isFalse =>
        split
        case isTrue => exact h.setFocus (by decide)
        case isFalse => exact h.setFocus (by decide)

theorem Safe.handle (h : p.Safe) (k : Key) : (p.handle k).1.Safe := by
  cases k
  case s1 => exact h.handleS1
  case s2 => exact h.handleS2
  case s3 => exact h.handleS3
  case s4 =>
    rw [PlateEditor.handle]
    split
    case isTrue => exact h
    case isFalse => split <;> exact h

theorem handle_save (h : (p.handle k).2 = .save) : (p.handle k).1 = p := by
  cases k
  case s4 =>
    simp only [PlateEditor.handle] at h ⊢
    split
    case isTrue => rfl
    case isFalse => split <;> rfl
  all_goals cases h

theorem Safe.plateNumberValid (h : p.Safe) : plateNumberValid p.value = true := by
  simp only [Storage.plateNumberValid, Bool.and_eq_true, decide_eq_true_eq]
  refine ⟨⟨⟨⟨UInt8.le_refl 1, h.provinceIndex⟩, plateLetter_of_lt h.letterIndex⟩, ?_⟩, rfl⟩
  rw [Bytes.all_take_ofArray]
  intro i hi
  simp only [value, if_pos hi]
  exact plateTailChar_of_lt take_36_plateTailChars (h.digits i hi) (by decide)

end PlateEditor

namespace PhoneEditor

variable {p : PhoneEditor} {k : Key}

structure Safe (p : PhoneEditor) : Prop where
  cursor        : p.cursor ≤ 10
  selectedDigit : p.selectedDigit ≤ 9
  funcIndex     : p.funcIndex ≤ 1
  digits        : ∀ i < 11, isDigit (p.digits i) = true
  terminator    : p.digits 11 = 0

theorem zeros_isDigit : ∀ i < 11, isDigit (zeros i) = true := by
  decide

theorem Safe.prepare {r : Bool × Chars 12} (h : r.1 = true → phoneDigitsValid r.2 = true) :
    (prepare r).Safe := by
  have hd : (∀ i < 11, isDigit ((PhoneEditor.prepare r).digits i) = true) ∧
      (PhoneEditor.prepare r).digits 11 = 0 := by
    obtain ⟨_ | _, phone⟩ := r
    case false => exact ⟨zeros_isDigit, rfl⟩
    case true =>
      have hv := h rfl
      simp only [phoneDigitsValid, Bool.and_eq_true, Bytes.all_take_ofArray, beq_iff_eq] at hv
      refine ⟨fun i hi => ?_, hv.right⟩
      show isDigit ((Bytes.ofArray phone).getD i 0) = true
      rw [Bytes.getD_ofArray (by omega)]
      exact hv.left _ hi
  exact ⟨show (0 : UInt8) ≤ 10 by decide, sub_le_of_isDigit (hd.left 0 (by decide)),
    UInt8.le_refl 1, hd.left, hd.right⟩

theorem Safe.init : init.Safe :=
  prepare (by simp)

theorem Safe.digitAtCursor (h : p.Safe) : p.digitAtCursor ≤ 9 :=
  sub_le_of_isDigit <| h.digits _ <| Nat.lt_succ_of_le h.cursor

theorem Safe.moveTo (h : p.Safe) {cursor : UInt8} (hc : cursor ≤ 10) : (p.moveTo cursor).Safe :=
  ⟨hc, sub_le_of_isDigit <| h.digits _ <| Nat.lt_succ_of_le hc, h.funcIndex, h.digits, h.terminator⟩

theorem Safe.handleS1 (h : p.Safe) : p.handleS1.Safe := by
  rw [PhoneEditor.handleS1]
  split
  case h_1 => exact ⟨h.cursor, h.digitAtCursor, h.funcIndex, h.digits, h.terminator⟩
  case h_2 => exact ⟨h.cursor, h.selectedDigit, h.funcIndex, h.digits, h.terminator⟩
  case h_3 => exact ⟨h.cursor, h.selectedDigit, h.funcIndex, h.digits, h.terminator⟩

-- An index stays where it is at the end of its range, or wraps around there.
theorem pred_le {i n : UInt8} (h : i ≤ n) : (if i > 0 then i - 1 else i) ≤ n := by
  split <;> grind

theorem succ_le {i n : UInt8} (h : i ≤ n) : (if i < n then i + 1 else i) ≤ n := by
  split <;> grind

theorem dec_le {i n : UInt8} (h : i ≤ n) : (if i > 0 then i - 1 else n) ≤ n := by
  split <;> grind

theorem inc_le {i n : UInt8} : (if i < n then i + 1 else 0) ≤ n := by
  split <;> grind

theorem Safe.handleS2 (h : p.Safe) : p.handleS2.Safe := by
  rw [PhoneEditor.handleS2]
  split
  case h_1 => exact h.moveTo (pred_le h.cursor)
  case h_2 => exact ⟨h.cursor, dec_le h.selectedDigit, h.funcIndex, h.digits, h.terminator⟩
  case h_3 => exact ⟨h.cursor, h.selectedDigit, dec_le h.funcIndex, h.digits, h.terminator⟩

theorem Safe.handleS3 (h : p.Safe) : p.handleS3.Safe := by
  rw [PhoneEditor.handleS3]
  split
  case h_1 => exact h.moveTo (succ_le h.cursor)
  case h_2 => exact ⟨h.cursor, inc_le, h.funcIndex, h.digits, h.terminator⟩
  case h_3 => exact ⟨h.cursor, h.selectedDigit, inc_le, h.digits, h.terminator⟩

theorem Safe.choose (h : p.Safe) : p.choose.Safe := by
  refine moveTo (p := { p with digits := _ }) ?_ (succ_le h.cursor)
  refine ⟨h.cursor, h.selectedDigit, h.funcIndex, fun i hi => ?_, ?_⟩
  · by_cases hc : i = p.cursor.toNat
    case pos => simpa [hc] using isDigit_add h.selectedDigit
    case neg => simpa [hc] using h.digits i hi
  · have hc : 11 ≠ p.cursor.toNat := by
      have : p.cursor.toNat ≤ 10 := h.cursor
      omega
    simpa [hc] using h.terminator

theorem Safe.handle (h : p.Safe) (k : Key) : (p.handle k).1.Safe := by
  cases k
  case s1 => exact h.handleS1
  case s2 => exact h.handleS2
  case s3 => exact h.handleS3
  case s4 =>
    simp only [PhoneEditor.handle, PhoneEditor.handleS4]
    split
    case h_1 => exact ⟨h.cursor, h.digitAtCursor, h.funcIndex, h.digits, h.terminator⟩
    case h_2 => exact h.choose
    case h_3 => exact h

theorem handle_save (h : (p.handle k).2 = .save) : (p.handle k).1 = p := by
  cases k
  case s4 =>
    simp only [PhoneEditor.handle, PhoneEditor.handleS4] at h ⊢
    split at h
    case h_1 | h_2 => cases h
    case h_3 => simp_all
  all_goals cases h

theorem Safe.phoneDigitsValid (h : p.Safe) : phoneDigitsValid p.value = true := by
  simp only [Storage.phoneDigitsValid, Bool.and_eq_true, Bytes.all_take_ofArray, beq_iff_eq]
  exact ⟨fun i => h.digits i, h.terminator⟩

end PhoneEditor

end Svc.Lcd
