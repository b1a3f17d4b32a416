import DvrModel.Svc.Lcd.Paging
import Mathlib.Tactic.Ring

namespace Svc.Lcd

variable {text : Nat → UInt8} {c : UInt16} {k n o : Nat}

-- The standard encoding of a code point of at most sixteen bits.
def utf8Encode (c : UInt16) : List UInt8 :=
  let v := c.toNat
  if v ≤ 0x7F then
    [.ofNat v]
  else if v ≤ 0x7FF then
    [.ofNat (v / 64 % 32 + 0xC0), .ofNat (v % 64 + 0x80)]
  else
    [.ofNat (v / 4096 % 16 + 0xE0), .ofNat (v / 64 % 64 + 0x80), .ofNat (v % 64 + 0x80)]

theorem utf8Encode_char {c : Char} (h : c.val.toNat ≤ 0xFFFF) :
    utf8Encode (.ofNat c.val.toNat) = String.utf8EncodeChar c := by
  have hv : (UInt16.ofNat c.val.toNat).toNat = c.val.toNat := by
    rw [UInt16.toNat_ofNat', Nat.mod_eq_of_lt (by omega)]
  simp only [utf8Encode, String.utf8EncodeChar, hv, if_pos h]

theorem length_utf8Encode_pos : 0 < (utf8Encode c).length := by
  simp only [utf8Encode]
  split
  case isTrue => simp
  case isFalse =>
    split
    all_goals simp

-- What is found in the bytes of an encoding.
theorem lead_two (h : k < 32) : UInt8.ofNat (k + 0xC0) ≠ 0 ∧ ¬UInt8.ofNat (k + 0xC0) < 0x80 ∧
    UInt8.ofNat (k + 0xC0) &&& 0xE0 = 0xC0 ∧ UInt8.ofNat (k + 0xC0) &&& 0x1F = .ofNat k := by
  revert k
  decide

theorem lead_three (h : k < 16) : UInt8.ofNat (k + 0xE0) ≠ 0 ∧ ¬UInt8.ofNat (k + 0xE0) < 0x80 ∧
    UInt8.ofNat (k + 0xE0) &&& 0xE0 ≠ 0xC0 ∧ UInt8.ofNat (k + 0xE0) &&& 0xF0 = 0xE0 ∧
    UInt8.ofNat (k + 0xE0) &&& 0x0F = .ofNat k := by
  revert k
  decide

theorem continuation (h : k < 64) :
    UInt8.ofNat (k + 0x80) ≠ 0 ∧ UInt8.ofNat (k + 0x80) &&& 0x3F = .ofNat k := by
  revert k
  decide

theorem toNat_or {x y : UInt16} (i : Nat) (hx : x.toNat = 2 ^ i * k) (hy : y.toNat < 2 ^ i) :
    (x ||| y).toNat = 2 ^ i * k + y.toNat := by
  rw [UInt16.toNat_or, hx, Nat.two_pow_add_eq_or_of_lt hy]

theorem toNat_byte (h : k < 256) : (UInt8.ofNat k).toUInt16.toNat = k := by
  simp
  omega

theorem next_one {v : Nat} (hv : v ≠ 0) (hle : v ≤ 0x7F) (h₀ : text o = .ofNat v) :
    utf8NextCodepoint text o = (.ofNat v, 1) := by
  have hb : (text o).toNat = v := by
    rw [h₀, UInt8.toNat_ofNat', Nat.mod_eq_of_lt (by omega)]
  have hne : text o ≠ 0 := fun h => hv (by rw [←hb, h]; rfl)
  have hlt : text o < 0x80 := by
    rw [UInt8.lt_iff_toNat_lt, hb]
    exact Nat.lt_succ_of_le hle
  simp only [utf8NextCodepoint, if_neg hne, if_pos hlt, Prod.mk.injEq, and_true]
  apply UInt16.toNat_inj.mp
  rw [UInt8.toNat_toUInt16, hb, UInt16.toNat_ofNat', Nat.mod_eq_of_lt (by omega)]

theorem next_two {a b : Nat} (ha : a < 32) (hb : b < 64) (h₀ : text o = .ofNat (a + 0xC0))
    (h₁ : text (o + 1) = .ofNat (b + 0x80)) : utf8NextCodepoint text o = (.ofNat (64 * a + b), 2) := by
  have ⟨hne, hge, hlead, hbits⟩ := lead_two ha
  have ⟨hne₁, hbits₁⟩ := continuation hb
  have hx : ((UInt8.ofNat a).toUInt16 <<< 6).toNat = 2 ^ 6 * a := by
    simp [Nat.shiftLeft_eq]
    omega
  simp only [utf8NextCodepoint, h₀, h₁, if_neg hne, if_neg hge, if_pos (And.intro hlead hne₁), hbits,
    hbits₁, Prod.mk.injEq, and_true]
  apply UInt16.toNat_inj.mp
  rw [toNat_or 6 hx (by rw [toNat_byte (by omega)]; omega), toNat_byte (by omega), UInt16.toNat_ofNat',
    Nat.mod_eq_of_lt (by omega)]
  omega

theorem next_three {a b d : Nat} (ha : a < 16) (hb : b < 64) (hd : d < 64)
    (h₀ : text o = .ofNat (a + 0xE0)) (h₁ : text (o + 1) = .ofNat (b + 0x80))
    (h₂ : text (o + 2) = .ofNat (d + 0x80)) :
    utf8NextCodepoint text o = (.ofNat (4096 * a + 64 * b + d), 3) := by
  have ⟨hne, hge, hnot, hlead, hbits⟩ := lead_three ha
  have ⟨hne₁, hbits₁⟩ := continuation hb
  have ⟨hne₂, hbits₂⟩ := continuation hd
  have hx : ((UInt8.ofNat a).toUInt16 <<< 12).toNat = 2 ^ 12 * a := by
    simp [Nat.shiftLeft_eq]
    omega
  have hy : ((UInt8.ofNat b).toUInt16 <<< 6).toNat = 64 * b := by
    simp [Nat.shiftLeft_eq]
    omega
  have hxy := toNat_or 12 hx (by rw [hy]; omega)
  rw [hy] at hxy
  simp only [utf8NextCodepoint, h₀, h₁, h₂, if_neg hne, if_neg hge, if_neg (mt And.left hnot),
    if_pos (And.intro hlead <| And.intro hne₁ hne₂), hbits, hbits₁, hbits₂, Prod.mk.injEq, and_true]
  apply UInt16.toNat_inj.mp
  rw [toNat_or (k := 64 * a + b) 6 (by rw [hxy]; omega) (by rw [toNat_byte (by omega)]; omega),
    toNat_byte (by omega), UInt16.toNat_ofNat', Nat.mod_eq_of_lt (by omega)]
  omega

-- A code point is decoded as it has been encoded.
theorem utf8NextCodepoint_encode (hc : c ≠ 0)
    (h : Store.read text o (utf8Encode c).length = utf8Encode c) :
    utf8NextCodepoint text o = (c, (utf8Encode c).length) := by
  have hv := c.toNat_lt
  have hp : c.toNat ≠ 0 := fun h => hc (UInt16.toNat_inj.mp h)
  generalize he : utf8Encode c = bs at h ⊢
  simp only [utf8Encode] at he
  split at he
  case isTrue h₁ =>
    subst he
    have h₀ : text o = .ofNat c.toNat := (List.cons.inj h).left
    rw [next_one hp h₁ h₀, UInt16.ofNat_toNat]
    rfl
  case isFalse h₁ =>
    split at he
    case isTrue h₂ =>
      subst he
      have h₀ : text o = _ := (List.cons.inj h).left
      have h₁ : text (o + 1) = _ := (List.cons.inj (List.cons.inj h).right).left
      rw [next_two (Nat.mod_lt _ (by decide)) (Nat.mod_lt _ (by decide)) h₀ h₁,
        show 64 * (c.toNat / 64 % 32) + c.toNat % 64 = c.toNat by omega, UInt16.ofNat_toNat]
      rfl
    case isFalse h₂ =>
      subst he
      have h₀ : text o = _ := (List.cons.inj h).left
      have h := (List.cons.inj h).right
      have h₁ : text (o + 1) = _ := (List.cons.inj h).left
      have h₂ : text (o + 2) = _ := (List.cons.inj (List.cons.inj h).right).left
      rw [next_three (Nat.mod_lt _ (by decide)) (Nat.mod_lt _ (by decide)) (Nat.mod_lt _ (by decide)) h₀ h₁
          h₂,
        show 4096 * (c.toNat / 4096 % 16) + 64 * (c.toNat / 64 % 64) + c.toNat % 64 = c.toNat by omega,
        UInt16.ofNat_toNat]
      rfl

-- A string of `n` bytes.
structure Terminated (text : Nat → UInt8) (n : Nat) : Prop where
  nul  : text n = 0
  rest : ∀ i < n, text i ≠ 0

namespace Terminated

theorem succ_lt (h : Terminated text n) (ho : o < n) (hne : text (o + 1) ≠ 0) : o + 1 < n := by
  by_contra hn
  have he : o + 1 = n := by omega
  exact hne (he ▸ h.nul)

theorem next_bounds (h : Terminated text n) (ho : o < n) : 1 ≤ (utf8NextCodepoint text o).2 ∧
    (utf8NextCodepoint text o).2 ≤ 3 ∧ o + (utf8NextCodepoint text o).2 ≤ n := by
  have h₀ := h.rest o ho
  simp only [utf8NextCodepoint, if_neg h₀]
  split
  case isTrue => simp; omega
  case isFalse =>
    split
    case isTrue h₂ =>
      have := h.succ_lt ho h₂.right
      simp
      omega
    case isFalse =>
      split
      case isTrue h₃ =>
        have := h.succ_lt (h.succ_lt ho h₃.right.left) h₃.right.right
        simp
        omega
      case isFalse => simp; omega

end Terminated

-- `lcd_utf8_next_codepoint` with its reads one by one, in the order in which `&&` makes them. A read may
-- fail.
def readNextCodepoint (read : Nat → Option UInt8) (offset : Nat) : Option (UInt16 × Nat) := do
  let p₀ ← read offset
  if p₀ = 0 then
    return (0, 0)
  if p₀ < 0x80 then
    return (p₀.toUInt16, 1)
  if p₀ &&& 0xE0 = 0xC0 then
    let p₁ ← read (offset + 1)
    if p₁ ≠ 0 then
      return (((p₀ &&& 0x1F).toUInt16 <<< 6) ||| (p₁ &&& 0x3F).toUInt16, 2)
  if p₀ &&& 0xF0 = 0xE0 then
    let p₁ ← read (offset + 1)
    if p₁ ≠ 0 then
      let p₂ ← read (offset + 2)
      if p₂ ≠ 0 then
        return (((p₀ &&& 0x0F).toUInt16 <<< 12) ||| ((p₁ &&& 0x3F).toUInt16 <<< 6) |||
          (p₂ &&& 0x3F).toUInt16, 3)
  return ('?'.toUInt8.toUInt16, 1)

-- The string with its terminator, and nothing behind it.
def within (text : Nat → UInt8) (n i : Nat) : Option UInt8 :=
  if i ≤ n then some (text i) else none

theorem Terminated.readNextCodepoint_eq (h : Terminated text n) (ho : o < n) :
    readNextCodepoint (within text n) o = some (utf8NextCodepoint text o) := by
  have h₀ := h.rest o ho
  have hw₀ : within text n o = some (text o) := if_pos (Nat.le_of_lt ho)
  have hw₁ : within text n (o + 1) = some (text (o + 1)) := if_pos ho
  have hw₂ (hne : text (o + 1) ≠ 0) : within text n (o + 2) = some (text (o + 2)) :=
    if_pos (h.succ_lt ho hne)
  by_cases hA : text o < 0x80
  case pos => simp [readNextCodepoint, utf8NextCodepoint, hw₀, h₀, hA]
  case neg =>
    by_cases hz : text (o + 1) = 0
    case pos => simp [readNextCodepoint, utf8NextCodepoint, hw₀, hw₁, h₀, hA, hz]
    case neg =>
      by_cases hB : text o &&& 0xE0 = 0xC0
      case pos => simp [readNextCodepoint, utf8NextCodepoint, hw₀, hw₁, h₀, hA, hz, hB]
      case neg =>
        by_cases hC : text o &&& 0xF0 = 0xE0 ∧ text (o + 2) ≠ 0
        case pos =>
          simp [readNextCodepoint, utf8NextCodepoint, hw₀, hw₁, hw₂ hz, h₀, hA, hz, hB, hC]
        case neg =>
          simp [readNextCodepoint, utf8NextCodepoint, hw₀, hw₁, hw₂ hz, h₀, hA, hz, hB]
          grind

-- The code points of a string and the offset behind the last one of them.
def decodeFrom (text : Nat → UInt8) : Nat → Nat → List UInt16 × Nat
  | 0,     offset => ([], offset)
  | k + 1, offset =>
    if text offset = 0 then
      ([], offset)
    else
      let (code, consumed) := utf8NextCodepoint text offset
      let (codes, last) := decodeFrom text k (offset + consumed)
      (code :: codes, last)

theorem decodeFrom_encode {cs : List UInt16} (hc : ∀ c ∈ cs, c ≠ 0)
    (h : Store.read text o (cs.flatMap utf8Encode).length = cs.flatMap utf8Encode)
    (hz : text (o + (cs.flatMap utf8Encode).length) = 0) (hk : (cs.flatMap utf8Encode).length ≤ k) :
    decodeFrom text k o = (cs, o + (cs.flatMap utf8Encode).length) := by
  induction cs generalizing k o
  case nil =>
    cases k
    case zero   => rfl
    case succ k => exact if_pos hz
  case cons c cs hi =>
    have ⟨hc, hcs⟩ := List.forall_mem_cons.mp hc
    have hp := length_utf8Encode_pos (c := c)
    simp only [List.flatMap_cons, List.length_append] at h hz hk ⊢
    rw [←Store.read_append] at h
    have ⟨h₁, h₂⟩ := List.append_inj h Store.length_read
    have hn := utf8NextCodepoint_encode hc h₁
    have hne : text o ≠ 0 := by
      intro h₀
      rw [utf8NextCodepoint] at hn
      simp only [h₀, if_true, Prod.mk.injEq] at hn
      exact hc hn.left.symm
    have ⟨k, hk'⟩ : ∃ j, k = j + 1 := ⟨k - 1, by omega⟩
    rw [hk', decodeFrom, if_neg hne, hn]
    simp only
    rw [hi hcs h₂ (by rwa [Nat.add_assoc]) (by omega), Nat.add_assoc]

theorem Terminated.decodeFrom_end (h : Terminated text n) (ho : o ≤ n) (hk : n ≤ o + k) :
    (decodeFrom text k o).2 = n := by
  induction k generalizing o
  case zero => exact Nat.le_antisymm ho hk
  case succ k hi =>
    rw [decodeFrom]
    split
    case isTrue hz =>
      by_contra hn
      exact h.rest o (Nat.lt_of_le_of_ne ho hn) hz
    case isFalse hz =>
      have hlt : o < n := Nat.lt_of_le_of_ne ho fun he => hz (he ▸ h.nul)
      have ⟨h₁, _, h₃⟩ := h.next_bounds hlt
      exact hi h₃ (by omega)

-- What has been encoded is decoded again. In any string whatsoever a call before the end consumes up to
-- three bytes of it, it reads nothing behind its end, and so the iteration arrives exactly there.
theorem utf8_correct :
    (∀ cs : List UInt16, (∀ c ∈ cs, c ≠ 0) → ∀ text : Nat → UInt8,
      Store.read text 0 ((cs.flatMap utf8Encode).length + 1) = cs.flatMap utf8Encode ++ [0] →
      ∀ k, (cs.flatMap utf8Encode).length ≤ k →
        decodeFrom text k 0 = (cs, (cs.flatMap utf8Encode).length)) ∧
    (∀ c : Char, c.val.toNat ≤ 0xFFFF → utf8Encode (.ofNat c.val.toNat) = String.utf8EncodeChar c) ∧
    ∀ (text : Nat → UInt8) (n : Nat), Terminated text n →
      (∀ o < n, 1 ≤ (utf8NextCodepoint text o).2 ∧ (utf8NextCodepoint text o).2 ≤ 3 ∧
        o + (utf8NextCodepoint text o).2 ≤ n ∧
        readNextCodepoint (within text n) o = some (utf8NextCodepoint text o)) ∧
      ∀ k, n ≤ k → (decodeFrom text k 0).2 = n := by
  refine ⟨fun cs hc text h k hk => ?_, fun c h => utf8Encode_char h, fun text n h => ⟨fun o ho => ?_, ?_⟩⟩
  · rw [←Store.read_append] at h
    have ⟨h₁, h₂⟩ := List.append_inj h Store.length_read
    have h₂ : text (0 + (cs.flatMap utf8Encode).length) = 0 := (List.cons.inj h₂).left
    have := decodeFrom_encode hc h₁ h₂ hk
    rwa [Nat.zero_add] at this
  · have ⟨h₁, h₂, h₃⟩ := h.next_bounds ho
    exact ⟨h₁, h₂, h₃, h.readNextCodepoint_eq ho⟩
  · exact fun k hk => h.decodeFrom_end (Nat.zero_le _) (by omega)

end Svc.Lcd
