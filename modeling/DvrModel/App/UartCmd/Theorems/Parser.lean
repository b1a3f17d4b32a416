import DvrModel.Lib.Mealy
import DvrModel.App.UartCmd.Parser
import Mathlib.Data.List.GetD
import Mathlib.Data.List.TakeWhile

namespace App.UartCmd

-- The parser without its array: a candidate is the list of bytes that it holds.
namespace Candidate

variable {c : List UInt8} {byte : UInt8}

def expectLen (c : List UInt8) : Nat :=
  (c.getD 1 0).toNat

def isGood (c : List UInt8) : Bool :=
  c.getD (expectLen c - 1) 0 == frameTail &&
  crc16 (c.drop 3 |>.take (expectLen c - 6)) ==
    (c.getD (expectLen c - 3) 0).toUInt16 ||| ((c.getD (expectLen c - 2) 0).toUInt16 <<< 8)

def isBadTextEnd (c : List UInt8) : Bool :=
  expectLen c ≥ 7 && c.getD 2 0 == textFrameType && c.getD 3 0 == 1

def frame (c : List UInt8) : Frame where
  length := expectLen c
  data   := c.take (expectLen c)

-- The bytes from the next head on.
def rest (c : List UInt8) : List UInt8 :=
  c.tail.dropWhile (!· == frameHead)

def resync (c : List UInt8) : List UInt8 :=
  if 2 ≤ (rest c).length ∧ expectLen (rest c) < 6 then [] else rest c

def step (c : List UInt8) (byte : UInt8) : List UInt8 × Option Event :=
  if c = [] then
    (if byte = frameHead then [byte] else [], none)
  else
    let c := c ++ [byte]
    if c.length = 2 then
      (if expectLen c < 6 then [] else c, none)
    else if c.length = 3 ∧ !isKnownType (c.getD 2 0) then
      ([], none)
    else if c.length < expectLen c then
      (c, none)
    else if isGood c then
      ([], some <| .frame <| frame c)
    else
      (resync c, if isBadTextEnd c then some .forceFinish else none)

-- What holds of a candidate between two bytes.
structure Inv (c : List UInt8) : Prop where
  length_le    : c.length ≤ 254
  head_eq      : c ≠ [] → c.head? = some frameHead
  expectLen_ge : 2 ≤ c.length → 6 ≤ expectLen c

theorem Inv.nil : Inv [] :=
  ⟨by simp, by simp, by simp⟩

theorem expectLen_le : expectLen c ≤ 255 :=
  Nat.le_of_lt_succ (c.getD 1 0).toNat_lt

theorem length_rest_lt (h : c ≠ []) : (rest c).length < c.length := by
  have h₁ : (rest c).length ≤ c.tail.length := (List.dropWhile_suffix _).length_le
  have h₂ := List.length_pos_iff.mpr h
  simp only [List.length_tail] at h₁
  omega

theorem rest_suffix : rest c <:+ c :=
  (List.dropWhile_suffix _).trans (List.tail_suffix c)

theorem resync_suffix : resync c <:+ c := by
  unfold resync
  split
  case isTrue  => exact List.nil_suffix
  case isFalse => exact rest_suffix

theorem length_resync_lt (h : c ≠ []) : (resync c).length < c.length := by
  unfold resync
  split
  case isTrue  => exact List.length_pos_iff.mpr h
  case isFalse => exact length_rest_lt h

theorem head?_rest (h : rest c ≠ []) : (rest c).head? = some frameHead := by
  have := List.head_dropWhile_not (p := (!· == frameHead)) (l := c.tail) h
  rw [List.head?_eq_some_head h]
  simpa [rest] using this

theorem Inv.resync (h : c ≠ []) (hl : c.length ≤ 255) : Inv (resync c) := by
  unfold Candidate.resync
  split
  case isTrue => exact .nil
  case isFalse hn =>
    have hr := length_rest_lt h
    exact ⟨by omega, head?_rest, fun h₂ => by simpa [h₂] using hn⟩

theorem head?_concat (byte : UInt8) (h : Inv c) (hc : c ≠ []) :
    (c ++ [byte]).head? = some frameHead := by
  rw [List.head?_append, h.head_eq hc]
  rfl

theorem expectLen_append (h : 2 ≤ c.length) : expectLen (c ++ d) = expectLen c := by
  rw [expectLen, List.getD_append _ _ _ _ h, expectLen]

-- All bytes of the candidate have arrived, but it is not a frame.
def Fails (c : List UInt8) : Prop :=
  6 ≤ expectLen c ∧ expectLen c ≤ c.length ∧ isGood c = false

instance : Decidable (Fails c) :=
  inferInstanceAs (Decidable <| _ ∧ _ ∧ _)

-- What the parser can do with a byte.
inductive Step (c : List UInt8) (byte : UInt8) : List UInt8 × Option Event → Prop
  | skip      : c = [] → byte ≠ frameHead → Step c byte ([], none)
  | start     : c = [] → byte = frameHead → Step c byte ([byte], none)
  | badLength : c.length = 1 → expectLen (c ++ [byte]) < 6 → Step c byte ([], none)
  | badType   : c.length = 2 → isKnownType byte = false → Step c byte ([], none)
  | wait      : c ≠ [] → (c.length = 2 → isKnownType byte = true) → 6 ≤ expectLen (c ++ [byte]) →
      c.length + 1 < expectLen (c ++ [byte]) → Step c byte (c ++ [byte], none)
  | deliver   : 6 ≤ expectLen (c ++ [byte]) → expectLen (c ++ [byte]) ≤ c.length + 1 →
      isGood (c ++ [byte]) = true → Step c byte ([], some <| .frame <| frame <| c ++ [byte])
  | reject    : Fails (c ++ [byte]) → Step c byte (resync (c ++ [byte]),
      if isBadTextEnd (c ++ [byte]) then some .forceFinish else none)

theorem getD_concat_two (h : c.length = 2) : (c ++ [byte]).getD 2 0 = byte := by
  simp [←h]

theorem isKnownType_concat (byte : UInt8) (h : 3 ≤ c.length → isKnownType (c.getD 2 0) = true)
    (hb : c.length = 2 → isKnownType byte = true) (h₂ : 2 ≤ c.length) :
    isKnownType ((c ++ [byte]).getD 2 0) = true := by
  cases Nat.eq_or_lt_of_le h₂
  case inl h₂ => rw [getD_concat_two h₂.symm, hb h₂.symm]
  case inr h₃ =>
    rw [List.getD_append _ _ _ _ h₃]
    exact h h₃

theorem Inv.step_spec (byte : UInt8) (h : Inv c) : Step c byte (step c byte) := by
  unfold Candidate.step
  split
  case isTrue hc =>
    split
    case isTrue hb  => exact .start hc hb
    case isFalse hb => exact .skip hc hb
  case isFalse hc =>
    have hp := List.length_pos_iff.mpr hc
    simp only [List.length_append, List.length_singleton]
    split
    case isTrue h₂ =>
      split
      case isTrue hl  => exact .badLength (by omega) hl
      case isFalse hl => exact .wait hc (by omega) (by omega) (by omega)
    case isFalse h₂ =>
      have hge : 6 ≤ expectLen (c ++ [byte]) := by
        rw [expectLen_append (by omega)]
        exact h.expectLen_ge (by omega)
      split
      case isTrue h₃ =>
        have hc₂ : c.length = 2 := by omega
        rw [getD_concat_two hc₂] at h₃
        exact .badType hc₂ (by simpa using h₃.right)
      case isFalse h₃ =>
        split
        case isTrue hlt =>
          refine .wait hc (fun hc₂ => ?_) hge hlt
          rw [getD_concat_two hc₂] at h₃
          simpa [hc₂] using h₃
        case isFalse hle =>
          split
          case isTrue hg  => exact .deliver hge (by omega) hg
          case isFalse hg => exact .reject ⟨hge, by simpa using hle, by simpa using hg⟩

theorem Inv.step (byte : UInt8) (h : Inv c) : Inv (step c byte).1 := by
  have hl := h.length_le
  have hle := expectLen_le (c := c ++ [byte])
  have hs := h.step_spec byte
  generalize Candidate.step c byte = s at hs ⊢
  cases hs
  case skip | badLength | badType | deliver => exact .nil
  case start _ hb => exact ⟨by simp, by simp [hb], by simp⟩
  case wait hc _ hge hlt => exact ⟨by simp; omega, fun _ => head?_concat byte h hc, fun _ => hge⟩
  case reject => exact .resync (by simp) (by simp; omega)

end Candidate

namespace Parser

open Candidate (Inv)

variable {p : Parser} {c : List UInt8} {byte : UInt8} {temp : Nat → UInt8}

-- The array parser represents a candidate.
structure Rep (p : Parser) (c : List UInt8) : Prop where
  view      : Store.read p.temp 0 p.index = c
  expectLen : 2 ≤ c.length → p.expectLen = Candidate.expectLen c
  inv       : Inv c

-- What is left in the array of an idle parser does not matter.
theorem Rep.idle (h : p.index = 0) : Rep p [] :=
  ⟨by rw [h]; rfl, nofun, .nil⟩

theorem Rep.length_eq (h : p.Rep c) : c.length = p.index :=
  h.view ▸ Store.length_read

theorem Rep.reset : p.reset.Rep [] :=
  .idle rfl

theorem shiftDown_eq (temp : Nat → UInt8) (n : Nat) (h : 0 < k) :
    Store.read (shiftDown temp k n) 0 n = Store.read temp k n ∧
    ∀ i, n ≤ i → shiftDown temp k n i = temp i := by
  induction n
  case zero => exact ⟨rfl, fun _ _ => rfl⟩
  case succ n hi =>
    have hs : shiftDown temp k (n + 1) =
        Function.update (shiftDown temp k n) (0 + n) (temp (k + n)) := by
      rw [shiftDown, List.range_succ, List.foldl_append, List.foldl_cons, List.foldl_nil, ←shiftDown,
        hi.right _ (by omega), Nat.zero_add]
    refine ⟨?_, fun i hn => ?_⟩
    · rw [hs, Store.read_update_self, hi.left, ←Store.read_append]
      rfl
    · rw [hs, Function.update_of_ne (by omega), hi.right i (by omega)]

-- A candidate in which `0xAA` does not occur again is dropped, otherwise the search continues there.
theorem nextHead_cases (hv : Store.read p.temp 0 p.index = c) (hc : c ≠ []) :
    (p.nextHead = 0 ∧ Candidate.rest c = []) ∨
    (0 < p.nextHead ∧ p.nextHead < p.index ∧
      Candidate.rest c = Store.read p.temp p.nextHead (p.index - p.nextHead)) := by
  have hi : 0 < p.index := by
    have := List.length_pos_iff.mpr hc
    simpa [←hv] using this
  have ht : c.tail = Store.read p.temp 1 (p.index - 1) := by
    have ⟨n, hn⟩ := Nat.exists_eq_add_one.mpr hi
    rw [←hv, hn, Store.read_succ]
    rfl
  cases hf : (List.range' 1 (p.index - 1)).find? (p.temp · == frameHead)
  case none =>
    refine .inl ⟨by simp [nextHead, hf], ?_⟩
    rw [Candidate.rest, ht]
    exact Store.dropWhile_read_of_find?_none hf
  case some k =>
    have hk : p.nextHead = k := by simp [nextHead, hf]
    have ⟨h₁, h₂, h₃⟩ := Store.dropWhile_read_of_find?_some (q := (· == frameHead)) (m := p.temp) hf
    rw [hk]
    refine .inr ⟨by omega, by omega, ?_⟩
    rw [Candidate.rest, ht, h₃, show 1 + (p.index - 1) = p.index by omega]

theorem isBadLength_iff {x : UInt8} : isBadLength x.toNat = true ↔ x.toNat < 6 := by
  have := x.toNat_lt
  simp [isBadLength, frameMaxSize]
  omega

theorem Rep.resync (hv : Store.read p.temp 0 p.index = c) (hc : c ≠ []) (hl : c.length ≤ 255) :
    p.resync.Rep (Candidate.resync c) := by
  have hi := Inv.resync hc hl
  unfold Parser.resync
  cases nextHead_cases hv hc
  case inl h =>
    have hr : Candidate.resync c = [] := by simp [Candidate.resync, h.right]
    rw [if_pos h.left, hr]
    exact .reset
  case inr h =>
    have ⟨hp, hlt, hr⟩ := h
    have hs := (shiftDown_eq p.temp (p.index - p.nextHead) hp).left
    have hlen : (Candidate.rest c).length = p.index - p.nextHead := by rw [hr, Store.length_read]
    rw [←hr] at hs
    rw [if_neg (Nat.ne_of_gt hp)]
    simp only
    split
    case isTrue h₂ =>
      have he : (shiftDown p.temp p.nextHead (p.index - p.nextHead) 1).toNat =
          Candidate.expectLen (Candidate.rest c) := by
        rw [Candidate.expectLen, ←hs, Store.getD_read (by omega), Nat.zero_add]
      split
      case isTrue hb =>
        have hr' : Candidate.resync c = [] := by
          rw [isBadLength_iff, he] at hb
          simp [Candidate.resync, hlen, h₂, hb]
        exact hr' ▸ .idle rfl
      case isFalse hb =>
        have hr' : Candidate.resync c = Candidate.rest c := by
          rw [isBadLength_iff, he] at hb
          simp [Candidate.resync, hb]
        rw [hr'] at hi ⊢
        exact ⟨hs, fun _ => he, hi⟩
    case isFalse h₂ =>
      have hr' : Candidate.resync c = Candidate.rest c := by simp [Candidate.resync, hlen, h₂]
      rw [hr'] at hi ⊢
      exact ⟨hs, fun _ => by omega, hi⟩

theorem checkCrc_eq (hv : Store.read temp 0 n = c) (h₁ : 6 ≤ len) (h₂ : len ≤ n) :
    checkCrc temp len = (crc16 (c.drop 3 |>.take (len - 6)) ==
      (c.getD (len - 3) 0).toUInt16 ||| ((c.getD (len - 2) 0).toUInt16 <<< 8)) := by
  rw [checkCrc, if_neg (by omega), ←hv, Store.drop_read (by omega), Store.take_read (by omega),
    Store.getD_read (by omega), Store.getD_read (by omega), Nat.zero_add, Nat.zero_add, Nat.zero_add]

-- The byte is appended to the candidate.
def append (p : Parser) (byte : UInt8) : Parser :=
  { p with temp := Function.update p.temp p.index byte, index := (p.index + 1) % 256 }

theorem Rep.append_index (byte : UInt8) (h : p.Rep c) : (p.append byte).index = c.length + 1 := by
  have := h.inv.length_le
  show (p.index + 1) % 256 = c.length + 1
  rw [h.length_eq] at this ⊢
  omega

theorem Rep.append_view (h : p.Rep c) :
    Store.read (p.append byte).temp 0 (p.append byte).index = c ++ [byte] := by
  have := Store.read_update_self (m := p.temp) (a := 0) (n := p.index) (c := byte)
  rw [h.append_index byte, h.length_eq, ←h.view]
  rwa [Nat.zero_add] at this

theorem Rep.parseByte_eq (h : p.Rep c) (hc : c ≠ []) : p.parseByte byte =
    if c.length + 1 = 2 then
      ((p.append byte).acceptLength byte, none)
    else if c.length + 1 = 3 ∧ !isKnownType ((p.append byte).temp 2) then
      ((p.append byte).reset, none)
    else if c.length + 1 < p.expectLen then
      (p.append byte, none)
    else if (p.append byte).isGood then
      ((p.append byte).reset, some <| .frame
        { length := p.expectLen, data := Store.read (p.append byte).temp 0 p.expectLen })
    else
      ((p.append byte).resync, if (p.append byte).isBadTextEnd then some .forceFinish else none) := by
  have hi : p.index ≠ 0 := by
    have := List.length_pos_iff.mpr hc
    rw [h.length_eq] at this
    omega
  rw [parseByte, if_neg hi, ←h.append_index byte]
  rfl

theorem Rep.append_temp (h : p.Rep c) (hk : k ≤ c.length) :
    (p.append byte).temp k = (c ++ [byte]).getD k 0 := by
  rw [←h.append_view, Store.getD_read (by rw [h.append_index byte]; omega), Nat.zero_add]

theorem Rep.acceptLength (h : p.Rep c) (hc : c.length = 1) :
    ((p.append byte).acceptLength byte).Rep
      (if Candidate.expectLen (c ++ [byte]) < 6 then [] else c ++ [byte]) := by
  have hi := Inv.step byte h.inv
  have ht : (p.append byte).temp 1 = byte := by
    rw [h.append_temp (by omega)]
    simp [hc]
  have he : Candidate.expectLen (c ++ [byte]) = byte.toNat := by simp [Candidate.expectLen, hc]
  simp only [Parser.acceptLength, isBadLength_iff, ht, he]
  split
  case isTrue hb =>
    -- The head is not a bad length.
    have hne : byte ≠ frameHead := fun h => by simp [h, frameHead] at hb
    rw [if_neg hne]
    exact .reset
  case isFalse hb =>
    refine ⟨h.append_view, fun _ => he.symm, ?_⟩
    have hn : c ≠ [] := List.ne_nil_of_length_pos (by omega)
    simpa [Candidate.step, hn, hc, he, hb] using hi

theorem Rep.isGood_append (h : p.Rep c) (he : Candidate.expectLen (c ++ [byte]) = p.expectLen)
    (h₁ : 6 ≤ p.expectLen) (h₂ : p.expectLen ≤ c.length + 1) :
    (p.append byte).isGood = Candidate.isGood (c ++ [byte]) := by
  have ht : (p.append byte).temp (p.expectLen - 1) = _ := h.append_temp (by omega)
  have hk : checkCrc (p.append byte).temp p.expectLen = _ :=
    checkCrc_eq h.append_view h₁ (by rw [h.append_index byte]; exact h₂)
  rw [Candidate.isGood, he, ←ht, ←hk]
  rfl

theorem Rep.isBadTextEnd_append (h : p.Rep c) (he : Candidate.expectLen (c ++ [byte]) = p.expectLen)
    (hc : 5 ≤ c.length) : (p.append byte).isBadTextEnd = Candidate.isBadTextEnd (c ++ [byte]) := by
  rw [Candidate.isBadTextEnd, he, ←h.append_temp (by omega), ←h.append_temp (by omega)]
  rfl

-- The array parser and the one without array emit the same and go on alike.
theorem Rep.step (h : p.Rep c) : (p.parseByte byte).2 = (Candidate.step c byte).2 ∧
    (p.parseByte byte).1.Rep (Candidate.step c byte).1 := by
  have hi := Inv.step byte h.inv
  by_cases hc : c = []
  case pos =>
    have h₀ : p.index = 0 := by rw [←h.length_eq, hc, List.length_nil]
    rw [parseByte, if_pos h₀, Candidate.step, if_pos hc]
    split
    case isTrue hb => exact ⟨rfl, rfl, nofun, by simpa [Candidate.step, hc, hb] using hi⟩
    case isFalse => exact ⟨rfl, hc ▸ h⟩
  case neg =>
    have hlen := List.length_pos_iff.mpr hc
    rw [h.parseByte_eq hc, Candidate.step, if_neg hc]
    simp only [List.length_append, List.length_singleton]
    by_cases h₂ : c.length + 1 = 2
    case pos =>
      rw [if_pos h₂, if_pos h₂]
      exact ⟨rfl, h.acceptLength (by omega)⟩
    case neg =>
      have he : Candidate.expectLen (c ++ [byte]) = p.expectLen := by
        rw [Candidate.expectLen_append (by omega), h.expectLen (by omega)]
      have hge : 6 ≤ p.expectLen := by
        rw [h.expectLen (by omega)]
        exact h.inv.expectLen_ge (by omega)
      rw [if_neg h₂, if_neg h₂, he, h.append_temp (by omega)]
      simp only [Candidate.step, hc, if_false, List.length_append, List.length_singleton, h₂, he] at hi
      by_cases h₃ : c.length + 1 = 3 ∧ !isKnownType ((c ++ [byte]).getD 2 0)
      case pos =>
        rw [if_pos h₃, if_pos h₃]
        exact ⟨rfl, .reset⟩
      case neg =>
        rw [if_neg h₃, if_neg h₃]
        rw [if_neg h₃] at hi
        by_cases h₄ : c.length + 1 < p.expectLen
        case pos =>
          rw [if_pos h₄] at hi ⊢
          rw [if_pos h₄]
          exact ⟨rfl, h.append_view, fun _ => he.symm, hi⟩
        case neg =>
          have hl := h.inv.length_le
          rw [if_neg h₄, if_neg h₄, h.isGood_append he hge (by omega)]
          split
          case isTrue =>
            refine ⟨?_, .reset⟩
            rw [Candidate.frame, he, ←h.append_view,
              Store.take_read (by rw [h.append_index byte]; omega)]
          case isFalse =>
            refine ⟨by rw [h.isBadTextEnd_append he (by omega)], ?_⟩
            exact .resync h.append_view (by simp) (by simp; omega)

theorem Rep.feed (bs : List UInt8) (h : p.Rep c) :
    (Mealy.feed parseByte p bs).2 = (Mealy.feed Candidate.step c bs).2 ∧
    (Mealy.feed parseByte p bs).1.Rep (Mealy.feed Candidate.step c bs).1 :=
  Mealy.feed_sim Rep h fun h => h.step

-- A condition on the candidate can be read as one on the array parser.
theorem Rep.along_iff (Q : List UInt8 → UInt8 → Prop) (bs : List UInt8) (h : p.Rep c) :
    Mealy.Along parseByte (fun p => Q <| Store.read p.temp 0 p.index) p bs ↔
    Mealy.Along Candidate.step Q c bs :=
  Mealy.along_sim Rep h (fun h => h.step.right) fun h => by rw [h.view]

end Parser

end App.UartCmd
