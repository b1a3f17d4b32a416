import DvrModel.Svc.Lcd.Theorems.Editor
import DvrModel.Svc.Lcd.Ui

open Svc.Storage

namespace Svc.Lcd

-- Characters with their terminator.
theorem chars_ext {n : Nat} {cs cs' : Chars (n + 1)} (hl : cs (Fin.last n) = cs' (Fin.last n))
    (h : ∀ i < n, (Bytes.ofArray cs).getD i 0 = (Bytes.ofArray cs').getD i 0) : cs = cs' := by
  funext i
  refine i.lastCases hl fun j => ?_
  have hj := h j j.isLt
  rwa [Bytes.getD_ofArray (by omega), Bytes.getD_ofArray (by omega)] at hj

-- The characters of a plate number, in the order in which they are edited.
def plateChars (v : PlateNumber) : Nat → UInt8
  | 0     => v.provinceIndex
  | 1     => v.letter
  | i + 2 => (Bytes.ofArray v.digits).getD i 0

theorem plateChars_ext {v w : PlateNumber} (hv : plateNumberValid v = true)
    (hw : plateNumberValid w = true) (h₁ : v.valid = w.valid)
    (h : ∀ i < 7, plateChars v i = plateChars w i) : v = w := by
  simp only [plateNumberValid, Bool.and_eq_true, beq_iff_eq] at hv hw
  have hd : v.digits = w.digits := by
    apply chars_ext (hv.right.trans hw.right.symm)
    intro i hi
    exact h (i + 2) (by omega)
  obtain ⟨_, _, _, _⟩ := v
  obtain ⟨_, _, _, _⟩ := w
  simp only [PlateNumber.mk.injEq]
  exact ⟨h₁, h 0 (by decide), h 1 (by decide), hd⟩

namespace Picker

variable {I : Ident} {p p' : Picker I} {k : Key} {i n : Nat}

-- The character at a position. While it is not set, there is an underscore instead.
def shown (p : Picker I) (i : Nat) : Option UInt8 :=
  if p.editMask.getLsbD i then some (plateTailChar (p.chars i)) else none

-- The character that a key chooses for a position.
def chosen (p : Picker I) (k : Key) (i : Nat) : Option UInt8 :=
  if k = .s4 ∧ p.area = .charSelect ∧ i = p.cursor.toNat then
    some (plateTailChar p.optionIndex)
  else
    none

theorem chosen_of_ne (h : k ≠ .s4) : p.chosen k i = none :=
  if_neg fun hc => h hc.left

theorem chosen_of_area (h : p.area ≠ .charSelect) : p.chosen k i = none :=
  if_neg fun hc => h hc.right.left

theorem shown_choose (h : p.Safe) : p.choose.shown i =
    if i = p.cursor.toNat then some (plateTailChar p.optionIndex) else p.shown i := by
  have hw : p.cursor.toNat < I.maskWidth := Nat.lt_of_lt_of_le h.cursor I.len_le
  have hs : p.choose.shown i =
      if (p.editMask ||| (1#I.maskWidth <<< p.cursor.toNat)).getLsbD i then
        some (plateTailChar (Function.update p.chars p.cursor.toNat p.optionIndex i))
      else
        none := by
    rw [choose]
    split <;> rfl
  rw [hs]
  by_cases hi : i = p.cursor.toNat
  case pos =>
    rw [if_pos (getLsbD_set.mpr <| .inr ⟨hi, hw⟩), if_pos hi, hi, Function.update_self]
  case neg =>
    have hb : (p.editMask ||| (1#I.maskWidth <<< p.cursor.toNat)).getLsbD i = p.editMask.getLsbD i := by
      rw [Bool.eq_iff_iff, getLsbD_set]
      simp [hi]
    rw [hb, if_neg hi, Function.update_of_ne hi, shown]

-- A key changes what is shown where it chooses a character, and nowhere else.
theorem shown_handle (h : p.Safe) : (p.handle k).1.shown i = (p.chosen k i).or (p.shown i) := by
  cases k
  case s1 =>
    rw [chosen_of_ne (by decide), Option.none_or]
    simp only [handle, handleS1]
    split <;> rfl
  case s2 =>
    rw [chosen_of_ne (by decide), Option.none_or]
    simp only [handle, handleS2]
    split <;> rfl
  case s3 =>
    rw [chosen_of_ne (by decide), Option.none_or]
    simp only [handle, handleS3]
    split <;> rfl
  case s4 =>
    simp only [handle, handleS4]
    split
    case h_1 ha =>
      rw [shown_choose h, chosen]
      split
      case isTrue hi => simp [ha, hi]
      case isFalse hi => simp [hi]
    case h_2 ha =>
      rw [chosen_of_area (by rw [ha]; decide), Option.none_or]
      split
      case h_1 => rfl
      case h_2 => split <;> rfl
    case h_3 ha => rw [chosen_of_area (by rw [ha]; decide), Option.none_or]

theorem getD_text (h : i < n) : (Bytes.ofArray (p.text n)).getD i 0 = plateTailChar (p.chars i) := by
  rw [Bytes.getD_ofArray (Nat.lt_succ_of_lt h), text, if_pos h]

theorem isSome_shown (hm : p.editMask = I.completeMask) (h : i < I.len.toNat) :
    (p.shown i).isSome = true := by
  rw [shown, hm, getLsbD_completeMask, decide_eq_true h]
  rfl

theorem shown_eq_text (hs : (p.shown i).isSome = true) (h : i < n) :
    p.shown i = some ((Bytes.ofArray (p.text n)).getD i 0) := by
  rw [shown] at hs ⊢
  split at hs
  case isTrue hb => rw [if_pos hb, getD_text h]
  case isFalse => cases hs

-- An identifier is saved as it has been stored before if this is what is shown.
theorem text_eq {cs : Chars (n + 1)} {isChar : UInt8 → Bool} {valid : UInt8}
    (hv : identValid isChar valid cs = true)
    (h : ∀ i < n, p.shown i = some ((Bytes.ofArray cs).getD i 0)) : p.text n = cs := by
  simp only [identValid, Bool.and_eq_true, beq_iff_eq] at hv
  refine chars_ext ?_ fun i hi => ?_
  · rw [hv.left.right]
    exact if_neg (Nat.lt_irrefl n)
  · have hs := shown_eq_text (by rw [h i hi]; rfl) hi
    exact Option.some.inj (hs.symm.trans (h i hi))

theorem shown_prepare {cs : Chars (n + 1)} {result : Bool} {valid : UInt8} {isChar : UInt8 → Bool}
    {index : UInt8 → UInt8} (hv : result = true → identValid isChar valid cs = true)
    (hc : ∀ c, isChar c = true → plateTailChar (index c) = c) (hn : n = I.len.toNat) (h : i < n) :
    (prepare (Ui.storedChars index result valid cs) : Picker I).shown i =
      if result && valid == 1 then some ((Bytes.ofArray cs).getD i 0) else none := by
  rw [Ui.storedChars]
  split
  case isFalse => simp [prepare, shown, init]
  case isTrue hr =>
    simp only [Bool.and_eq_true, beq_iff_eq] at hr
    have hi := isChar_of_identValid (hr.right ▸ hv hr.left) h
    rw [shown, prepare, getLsbD_completeMask, decide_eq_true (hn ▸ h), if_pos rfl, hc _ hi]

end Picker

namespace PlateEditor

variable {p : PlateEditor} {k : Key} {i : Nat}

-- The province, the letter and the digits.
def shown (p : PlateEditor) : Nat → UInt8
  | 0     => p.provinceIndex
  | 1     => plateLetter p.letterIndex
  | i + 2 => plateTailChar (p.digits i)

-- The keys up and down choose the previous and the next character at the focus.
def chosen (p : PlateEditor) (k : Key) (i : Nat) : Option UInt8 :=
  if (k = .s2 ∨ k = .s3) ∧ i = p.focus.toNat ∧ p.focus ≤ .digit4 then
    some ((p.handle k).1.shown i)
  else
    none

theorem shown_setProvince {v : UInt8} (h : i ≠ 0) : (p.setProvince v).shown i = p.shown i := by
  match i with
  | 0         => contradiction
  | 1 | _ + 2 => rfl

theorem shown_setLetter {v : UInt8} (h : i ≠ 1) : (p.setLetter v).shown i = p.shown i := by
  match i with
  | 1         => contradiction
  | 0 | _ + 2 => rfl

theorem shown_setDigit {v : UInt8} (h : i ≠ p.digitIndex + 2) : (p.setDigit v).shown i = p.shown i := by
  match i with
  | 0 | 1 => rfl
  | i + 2 =>
    have hi : i ≠ p.digitIndex := by simpa using h
    simp [shown, setDigit, hi]

-- Nothing changes at any other position than the focus.
theorem shown_handleS2 (h : p.focus ≤ .digit4 → i ≠ p.focus.toNat) : p.handleS2.shown i = p.shown i := by
  rw [handleS2]
  split
  case isTrue hf =>
    rw [hf] at h
    exact shown_setProvince (h (by decide))
  case isFalse =>
    split
    case isTrue hf =>
      rw [hf] at h
      exact shown_setLetter (h (by decide))
    case isFalse =>
      split
      case isTrue hd => exact shown_setDigit (focus_eq hd.left ▸ h hd.right)
      case isFalse => split <;> rfl

theorem shown_handleS3 (h : p.focus ≤ .digit4 → i ≠ p.focus.toNat) : p.handleS3.shown i = p.shown i := by
  rw [handleS3]
  split
  case isTrue hf =>
    rw [hf] at h
    exact shown_setProvince (h (by decide))
  case isFalse =>
    split
    case isTrue hf =>
      rw [hf] at h
      exact shown_setLetter (h (by decide))
    case isFalse =>
      split
      case isTrue hd => exact shown_setDigit (focus_eq hd.left ▸ h hd.right)
      case isFalse => split <;> rfl

theorem shown_of_not_chosen (h : p.chosen k i = none) : (p.handle k).1.shown i = p.shown i := by
  have hc : (k = .s2 ∨ k = .s3) → p.focus ≤ .digit4 → i ≠ p.focus.toNat := by
    intro hk hf hi
    rw [chosen, if_pos ⟨hk, hi, hf⟩] at h
    cases h
  cases k
  case s1 => rfl
  case s2 => exact shown_handleS2 (hc (.inl rfl))
  case s3 => exact shown_handleS3 (hc (.inr rfl))
  case s4 =>
    simp only [handle]
    split
    case isTrue => rfl
    case isFalse => split <;> rfl

theorem shown_handle : some ((p.handle k).1.shown i) = (p.chosen k i).or (some (p.shown i)) := by
  cases hc : p.chosen k i
  case none => rw [shown_of_not_chosen hc, Option.none_or]
  case some c =>
    rw [chosen] at hc
    split at hc
    case isTrue => exact hc
    case isFalse => cases hc

theorem plateChars_value (h : i < 7) : plateChars p.value i = p.shown i := by
  match i with
  | 0 | 1 => rfl
  | i + 2 =>
    have hi : i < 5 := by omega
    show (Bytes.ofArray p.value.digits).getD i 0 = _
    rw [Bytes.getD_ofArray (Nat.lt_succ_of_lt hi)]
    exact if_pos hi

theorem shown_prepare {r : Bool × PlateNumber} (hv : r.1 = true → plateNumberValid r.2 = true)
    (h : i < 7) : (prepare r).shown i = if r.1 && r.2.valid == 1 then plateChars r.2 i else init.shown i := by
  obtain ⟨result, v⟩ := r
  rw [prepare]
  split
  case isTrue hc =>
    simp only [Bool.and_eq_true] at hc
    have hv := hv hc.left.left.left
    simp only [plateNumberValid, Bool.and_eq_true, Bytes.all_take_ofArray] at hv
    rw [if_pos (Bool.and_eq_true_iff.mpr hc.left.left)]
    rcases i with _ | _ | i
    · rfl
    · exact plateLetter_sub hc.right
    · have hi : i < 5 := by omega
      show plateTailChar (plateTailIndex ((Bytes.ofArray v.digits).getD i 0)) =
        (Bytes.ofArray v.digits).getD i 0
      rw [Bytes.getD_ofArray (Nat.lt_succ_of_lt hi)]
      exact plateTailChar_plateTailIndex (hv.left.right _ hi)
  case isFalse hc =>
    rw [if_neg]
    intro hr
    have hr := Bool.and_eq_true_iff.mp hr
    have hv := hv hr.left
    simp only [plateNumberValid, Bool.and_eq_true] at hv
    simp only [Bool.and_eq_true] at hc
    exact hc ⟨⟨hr, hv.left.left.left.right⟩, hv.left.left.right⟩

end PlateEditor

namespace PhoneEditor

variable {p : PhoneEditor} {k : Key} {i : Nat}

def chosen (p : PhoneEditor) (k : Key) (i : Nat) : Option UInt8 :=
  if k = .s4 ∧ p.focus = .digit ∧ i = p.cursor.toNat then some ('0'.toUInt8 + p.selectedDigit) else none

theorem digits_handle : some ((p.handle k).1.digits i) = (p.chosen k i).or (some (p.digits i)) := by
  cases k
  case s4 =>
    simp only [handle, handleS4]
    split
    case h_1 hf => simp [chosen, hf]
    case h_3 hf => simp [chosen, hf]
    case h_2 hf =>
      by_cases hi : i = p.cursor.toNat
      case pos => simp [choose, moveTo, chosen, hf, hi]
      case neg => simp [choose, moveTo, chosen, hf, hi]
  case s1 =>
    simp only [handle, handleS1]
    split <;> simp [chosen]
  case s2 =>
    simp only [handle, handleS2]
    split <;> simp [chosen, moveTo]
  case s3 =>
    simp only [handle, handleS3]
    split <;> simp [chosen, moveTo]

theorem getD_value (h : i < 12) : (Bytes.ofArray p.value).getD i 0 = p.digits i :=
  Bytes.getD_ofArray h

theorem digits_prepare {r : Bool × Chars 12} :
    (prepare r).digits i = if r.1 then (Bytes.ofArray r.2).getD i 0 else zeros i := by
  obtain ⟨_ | _, phone⟩ := r <;> rfl

end PhoneEditor

end Svc.Lcd
