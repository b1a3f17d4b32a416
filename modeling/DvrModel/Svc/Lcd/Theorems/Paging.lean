import DvrModel.Lib.Lines
import DvrModel.Svc.Lcd.Theorems.Utf8

namespace Svc.Lcd

-- The loops over a text see these characters from an offset on.
inductive Decodes (text : Nat → UInt8) : Nat → List UInt16 → Prop
  | nil {o : Nat} : (text o = 0) → Decodes text o []
  | cons {o k : Nat} {c : UInt16} {cs : List UInt16} :
    (c ≠ 0) → (k ≠ 0) → (text o ≠ 0) → (utf8NextCodepoint text o = (c, k)) → (Decodes text (o + k) cs) →
    Decodes text o (c :: cs)

variable {text : Nat → UInt8} {cs : List UInt16} {k n o : Nat}

theorem Terminated.decodes (h : Terminated text n) (ho : o ≤ n) (hk : n ≤ o + k)
    (hc : ∀ c ∈ (decodeFrom text k o).1, c ≠ 0) : Decodes text o (decodeFrom text k o).1 := by
  induction k generalizing o
  case zero =>
    have he : o = n := Nat.le_antisymm ho hk
    exact .nil (he ▸ h.nul)
  case succ k hi =>
    rw [decodeFrom] at hc ⊢
    split at hc
    case isTrue hz =>
      rw [if_pos hz]
      exact .nil hz
    case isFalse hz =>
      have hlt : o < n := Nat.lt_of_le_of_ne ho fun he => hz (he ▸ h.nul)
      obtain ⟨h₁, _, h₃⟩ := h.next_bounds hlt
      obtain ⟨hc, hcs⟩ := List.forall_mem_cons.mp hc
      rw [if_neg hz]
      exact .cons hc (Nat.ne_of_gt h₁) hz rfl <| hi h₃ (by omega) hcs

theorem length_decodeFrom_le : (decodeFrom text k o).1.length ≤ k := by
  induction k generalizing o
  case zero => exact Nat.le_refl _
  case succ k hi =>
    rw [decodeFrom]
    split
    case isTrue  => exact Nat.zero_le _
    case isFalse => exact Nat.succ_le_succ hi

namespace Decodes

theorem countChars_eq (h : Decodes text o cs) (hn : cs.length ≤ n) :
    countChars text n o = cs.length := by
  induction h generalizing n
  case nil hz =>
    cases n
    case zero => rfl
    case succ => exact if_pos hz
  case cons hc hk hz he _ hi =>
    have ⟨n, hs⟩ := Nat.exists_eq_succ_of_ne_zero (Nat.ne_zero_of_lt hn)
    subst hs
    rw [countChars, if_neg hz, he]
    simp only [hc, hk, or_self, if_false]
    rw [hi (Nat.le_of_succ_le_succ hn), List.length_cons]

theorem skipChars (h : Decodes text o cs) : Decodes text (skipChars text n o) (cs.drop n) := by
  induction n generalizing o cs
  case zero => exact h
  case succ n hi =>
    cases h
    case nil hz =>
      rw [Lcd.skipChars, if_pos hz]
      exact .nil hz
    case cons hc hk hz he h =>
      rw [Lcd.skipChars, if_neg hz, he]
      simp only [hc, hk, or_self, if_false]
      exact hi h

-- A line draws what it takes, apart from the break that ends it.
theorem drawLine (h : Decodes text o cs) :
    (drawLine text n o).1 = (cs.take <| Lines.lineLen isLineBreak n cs).filter (!isLineBreak ·) ∧
    Decodes text (drawLine text n o).2 (cs.drop <| Lines.lineLen isLineBreak n cs) := by
  induction n generalizing o cs
  case zero => exact ⟨by simp [Lcd.drawLine, Lines.lineLen], h⟩
  case succ n hi =>
    cases h
    case nil hz =>
      rw [Lcd.drawLine, if_pos hz]
      exact ⟨rfl, .nil hz⟩
    case cons hc hk hz he h =>
      obtain ⟨h₁, h₂⟩ := hi h
      rw [Lcd.drawLine, if_neg hz, he, Lines.lineLen]
      simp only [hc, hk, or_self, if_false]
      split
      case isTrue hb  => exact ⟨by simp [hb], h⟩
      case isFalse hb => exact ⟨by simp [hb, h₁], h₂⟩

theorem drawLines_eq (h : Decodes text o cs) :
    drawLines text n o = Lines.shown isLineBreak textMsgLineMaxChars n cs := by
  induction n generalizing o cs
  case zero => simp [drawLines, Lines.shown, Lines.len]
  case succ n hi =>
    obtain ⟨h₁, h₂⟩ := h.drawLine (n := textMsgLineMaxChars)
    rw [drawLines, Lines.shown_succ, ←h₁, ←hi h₂]

end Decodes

-- The last page is the one that holds the last character.
theorem textPageCount_bounds (h : countChars text (textMsgMaxLen.toNat + 1) 0 = n) (hn : n ≤ 4096) :
    n ≤ (textPageCount text).toNat * 30 ∧ (textPageCount text).toNat ≤ 137 := by
  have hp : (UInt16.ofNat ((n + 29) / 30)).toNat = (n + 29) / 30 := by
    rw [UInt16.toNat_ofNat', Nat.mod_eq_of_lt (by omega)]
  simp only [textPageCount, textMsgLinesPerPage, textMsgLineMaxChars, h, Nat.reduceMul,
    Nat.reduceSubDiff]
  split
  case isTrue hz =>
    rw [hz] at hp
    replace hp : 0 = (n + 29) / 30 := hp
    have ho : (1 : UInt16).toNat = 1 := rfl
    omega
  case isFalse => omega

namespace TextMsg

variable {m : TextMsg}

-- The message as it has been stored, with a text without NUL.
structure Stored (m : TextMsg) : Prop where
  updated : ∃ (d : Display) (flag textType : UInt8) (utf8Text : Nat → UInt8) (textLen : UInt16),
    m = (d.updateTextMessage flag textType utf8Text textLen).textMsg
  noNul   : ∀ i < m.textLen.toNat, m.text i ≠ 0

-- The code points of the text.
def codes (m : TextMsg) : List UInt16 :=
  (decodeFrom m.text m.textLen.toNat 0).1

-- Everything that is drawn while the pages are turned from the first one to the last one.
def pages (m : TextMsg) : List UInt16 :=
  (List.range m.render.pageCount.toNat).flatMap fun i => { m with pageIndex := .ofNat i }.draw

-- In every block of thirty code points only line breaks are left when three lines have been drawn.
def FitsPages (codes : List UInt16) : Prop :=
  ∀ i, ∀ c ∈ Lines.rest isLineBreak textMsgLineMaxChars textMsgLinesPerPage
    (Lines.block textMsgLineMaxChars textMsgLinesPerPage codes i), isLineBreak c

namespace Stored

theorem textLen_le (h : m.Stored) : m.textLen.toNat ≤ 4096 := by
  have ⟨d, flag, textType, utf8Text, textLen, he⟩ := h.updated
  subst he
  simp only [Display.updateTextMessage]
  split
  case isTrue     => exact Nat.le_refl _
  case isFalse hn => exact Nat.le_of_not_lt hn

theorem terminated (h : m.Stored) : Terminated m.text m.textLen.toNat where
  rest := h.noNul
  nul  := by
    have ⟨d, flag, textType, utf8Text, textLen, he⟩ := h.updated
    subst he
    exact Function.update_self ..

theorem decodes (h : m.Stored) (hc : ∀ c ∈ m.codes, c ≠ 0) : Decodes m.text 0 m.codes :=
  h.terminated.decodes (Nat.zero_le _) (Nat.le_of_eq <| Nat.zero_add _ |>.symm) hc

theorem length_codes (h : m.Stored) : m.codes.length ≤ 4096 :=
  length_decodeFrom_le.trans h.textLen_le

-- Without a text there is no page.
theorem pageCount_eq_zero (h : m.Stored) (hs : ¬m.isShown) : m.pageCount = 0 ∧ m.codes = [] := by
  have ⟨d, flag, textType, utf8Text, textLen, he⟩ := h.updated
  have hp : m.pageCount = 0 := he ▸ rfl
  have hv : m.valid = 1 := he ▸ rfl
  have hl : m.textLen = 0 := by simpa [isShown, hv] using hs
  exact ⟨hp, by rw [codes, hl]; rfl⟩

theorem draw_eq (h : m.Stored) (hc : ∀ c ∈ m.codes, c ≠ 0) (hs : m.isShown) {i : Nat} (hi : i < 137) :
    { m with pageIndex := .ofNat i }.draw =
      Lines.shown isLineBreak textMsgLineMaxChars textMsgLinesPerPage (m.codes.drop <| 30 * i) := by
  have hp : (UInt16.ofNat i * .ofNat textMsgLinesPerPage * .ofNat textMsgLineMaxChars).toNat =
      30 * i := by
    simp [textMsgLinesPerPage, textMsgLineMaxChars]
    omega
  have hd : { m with pageIndex := .ofNat i }.isShown := hs
  simp only [draw, hd, if_true, hp]
  exact (h.decodes hc).skipChars.drawLines_eq

end Stored

-- Nothing is drawn twice or out of order, but what lies behind the third line of a block is on no page.
theorem pages_complete_iff (h : m.Stored) (hc : ∀ c ∈ m.codes, c ≠ 0) :
    m.pages = m.codes.filter (!isLineBreak ·) ↔ FitsPages m.codes := by
  by_cases hs : m.isShown
  case neg =>
    obtain ⟨hp, hn⟩ := h.pageCount_eq_zero hs
    simp [pages, render, hs, hp, hn, FitsPages, Lines.block, Lines.rest]
  case pos =>
    have hl := h.length_codes
    have hcc := (h.decodes hc).countChars_eq (n := textMsgMaxLen.toNat + 1) (Nat.le_succ_of_le hl)
    obtain ⟨hle, hlt⟩ := textPageCount_bounds hcc hl
    have hd : m.pages = (List.range (textPageCount m.text).toNat).flatMap fun i =>
        Lines.shown isLineBreak textMsgLineMaxChars textMsgLinesPerPage (m.codes.drop <| 30 * i) := by
      simp only [pages, render, hs, if_true]
      apply List.flatMap_congr
      intro i hi
      exact h.draw_eq hc hs (Nat.lt_of_lt_of_le (List.mem_range.mp hi) hlt)
    rw [hd, FitsPages]
    apply (Lines.flatMap_shown_eq_iff hle).trans
    refine ⟨fun hf i => ?_, fun hf i _ => hf i⟩
    by_cases hi : i < (textPageCount m.text).toNat
    case pos => exact hf i hi
    case neg =>
      have hb : Lines.block textMsgLineMaxChars textMsgLinesPerPage m.codes i = [] := by
        rw [Lines.block, List.drop_of_length_le, List.take_nil]
        simp only [textMsgLineMaxChars, textMsgLinesPerPage]
        omega
      simp [hb, Lines.rest]

-- The message with a text that the display has received at first.
def ofText (bs : List UInt8) : TextMsg :=
  (Display.init.updateTextMessage 0 0 (bs.getD · 0) (.ofNat bs.length)).textMsg

theorem stored_ofText {bs : List UInt8} (hl : bs.length ≤ 4096) (h : 0 ∉ bs) : (ofText bs).Stored where
  updated := ⟨_, _, _, _, _, rfl⟩
  noNul   := by
    have hn : (UInt16.ofNat bs.length).toNat = bs.length := by
      rw [UInt16.toNat_ofNat', Nat.mod_eq_of_lt (by omega)]
    have hc : ¬UInt16.ofNat bs.length > textMsgMaxLen := by
      rw [gt_iff_lt, UInt16.lt_iff_toNat_lt, hn]
      exact Nat.not_lt_of_le hl
    simp only [ofText, Display.updateTextMessage, if_neg hc, hn, Store.read_getD]
    intro i hi
    have hw : Store.write Display.init.textMsg.text 0 bs (0 + i) = bs[i] := Store.write_add hi
    rw [Nat.zero_add] at hw
    rw [Function.update_of_ne (Nat.ne_of_lt hi), hw]
    exact ne_of_mem_of_not_mem (List.getElem_mem _) h

-- "a\nb\nc"
def threeLines : TextMsg :=
  ofText [0x61, 0x0A, 0x62, 0x0A, 0x63]

theorem pages_complete_threeLines :
    threeLines.Stored ∧ (∀ c ∈ threeLines.codes, c ≠ 0) ∧ FitsPages threeLines.codes := by
  have hs : threeLines.Stored := stored_ofText (by decide) (by decide)
  have hc : ∀ c ∈ threeLines.codes, c ≠ 0 := fun c hm => ne_of_mem_of_not_mem hm (by decide)
  exact ⟨hs, hc, (pages_complete_iff hs hc).mp (by decide)⟩

-- "a\nb\nc\nd"
def fourLines : TextMsg :=
  ofText [0x61, 0x0A, 0x62, 0x0A, 0x63, 0x0A, 0x64]

-- There is one page, and the last line is not on it.
theorem pages_incomplete_fourLines :
    fourLines.Stored ∧ (∀ c ∈ fourLines.codes, c ≠ 0) ∧ fourLines.pages = [0x61, 0x62, 0x63] ∧
    fourLines.pages ≠ fourLines.codes.filter (!isLineBreak ·) := by
  have hs : fourLines.Stored := stored_ofText (by decide) (by decide)
  have hc : ∀ c ∈ fourLines.codes, c ≠ 0 := fun c hm => ne_of_mem_of_not_mem hm (by decide)
  exact ⟨hs, hc, by decide, by decide⟩

end TextMsg

end Svc.Lcd
