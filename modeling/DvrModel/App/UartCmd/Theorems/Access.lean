import DvrModel.App.UartCmd.Access
import DvrModel.App.UartCmd.Theorems.Parser

open Checked (Fault)

namespace App.UartCmd

namespace Candidate

variable {c d : List UInt8} {byte : UInt8}

-- A candidate either waits for more bytes or gives way to one that is shorter.
theorem Inv.step_suffix (byte : UInt8) (h : Inv c) (hd : (Candidate.step c byte).1 = d) :
    (d = c ++ [byte] ∧ (2 ≤ d.length → d.length < expectLen d)) ∨
    (d <:+ c ++ [byte] ∧ d.length < (c ++ [byte]).length) := by
  have hs := h.step_spec byte
  generalize Candidate.step c byte = s at hs hd
  subst hd
  cases hs
  case skip | badLength | badType | deliver => exact .inr ⟨List.nil_suffix, by simp⟩
  case start hc _      => exact .inl ⟨by rw [hc]; rfl, by simp⟩
  case wait _ _ _ hlt  => exact .inl ⟨rfl, fun _ => by simpa using hlt⟩
  case reject          => exact .inr ⟨resync_suffix, length_resync_lt (by simp)⟩

end Candidate

namespace Parser

variable {p : Parser} {byte : UInt8} {len i : Nat}

theorem get_of_lt (h : i < p.index) : p.get i = pure (p.temp i) :=
  Checked.load_of_lt h

theorem put_of_lt (h : i < frameMaxSize) :
    p.put i byte = pure { p with temp := Function.update p.temp i byte } := by
  rw [put, Checked.store_of_lt h]
  rfl

-- Complete candidates: the bytes that are looked at have been received.
structure Complete (p : Parser) (len : Nat) : Prop where
  ge : 6 ≤ len
  le : len ≤ p.index

theorem crc16Checked_eq (h : 3 + len ≤ p.index) :
    p.crc16Checked len = pure (crc16 (Store.read p.temp 3 len)) := by
  have hf : ∀ crc, ∀ i ∈ List.range len,
      (return crc16Byte crc (← p.get (3 + i)) : Except Fault UInt16) =
        pure (crc16Byte crc (p.temp (3 + i))) := by
    intro crc i hi
    have := List.mem_range.mp hi
    rw [get_of_lt (by omega)]
    rfl
  rw [crc16Checked, Checked.foldlM_eq_pure hf, crc16, Store.read, List.foldl_map]

theorem recvCrcChecked_eq (h : p.Complete len) : p.recvCrcChecked len =
    pure ((p.temp (len - 3)).toUInt16 ||| ((p.temp (len - 2)).toUInt16 <<< 8)) := by
  have ⟨hg, hl⟩ := h
  rw [recvCrcChecked, Checked.sub_of_le (by omega), pure_bind, get_of_lt (by omega), pure_bind,
    Checked.sub_of_le (by omega), pure_bind, get_of_lt (by omega), pure_bind]

theorem checkCrcChecked_eq (h : p.Complete len) :
    p.checkCrcChecked len = pure (checkCrc p.temp len) := by
  have ⟨hg, hl⟩ := h
  have hn : ¬len < 6 := by omega
  rw [checkCrcChecked, if_neg hn, Checked.sub_of_le hg, pure_bind, crc16Checked_eq (by omega), pure_bind,
    recvCrcChecked_eq h, pure_bind, checkCrc, if_neg hn]

theorem isGoodChecked_eq (h : p.Complete p.expectLen) : p.isGoodChecked = pure p.isGood := by
  have ⟨hg, hl⟩ := h
  rw [isGoodChecked, Checked.sub_of_le (by omega), pure_bind, get_of_lt (by omega), pure_bind, isGood]
  split
  case isTrue ht  => rw [checkCrcChecked_eq h, ht]; rfl
  case isFalse ht => rw [beq_false_of_ne ht]; rfl

theorem mapM_get (h : len ≤ p.index) :
    (List.range len).mapM p.get = pure (Store.read p.temp 0 len) := by
  have hg : ∀ i ∈ List.range len, p.get i = pure (p.temp (0 + i)) := by
    intro i hi
    have := List.mem_range.mp hi
    rw [get_of_lt (by omega), Nat.zero_add]
  rw [Checked.mapM_eq_pure hg, Store.read]

theorem frameChecked_eq (h : p.expectLen ≤ p.index) (hi : p.index ≤ frameMaxSize) : p.frameChecked =
    pure { length := p.expectLen, data := Store.read p.temp 0 p.expectLen } := by
  rw [frameChecked, mapM_get h, pure_bind, Checked.fit_of_lt (by omega), pure_bind]

theorem isBadTextEndChecked_eq (h : p.Complete p.expectLen) :
    p.isBadTextEndChecked = pure p.isBadTextEnd := by
  have ⟨hg, hl⟩ := h
  rw [isBadTextEndChecked, isBadTextEnd]
  split
  case isTrue h₇ =>
    rw [decide_eq_false (by omega)]
    rfl
  case isFalse h₇ =>
    rw [get_of_lt (by omega), pure_bind, decide_eq_true (by omega), Bool.true_and]
    split
    case isTrue h₂ =>
      rw [get_of_lt (by omega), pure_bind, h₂]
      rfl
    case isFalse h₂ => rw [beq_false_of_ne h₂]; rfl

theorem forceFinishChecked_eq (h : p.Complete p.expectLen) :
    p.forceFinishChecked = pure (if p.isBadTextEnd then some .forceFinish else none) := by
  have ⟨hg, hl⟩ := h
  have hd : ∃ d, p.dumpChecked = pure d := by
    rw [dumpChecked, Checked.sub_of_le (by omega), pure_bind, crc16Checked_eq (by omega), pure_bind,
      recvCrcChecked_eq h, pure_bind, Checked.sub_of_le (by omega), pure_bind, get_of_lt (by omega),
      pure_bind, mapM_get hl, pure_bind]
    exact ⟨_, rfl⟩
  have ⟨d, hd⟩ := hd
  rw [forceFinishChecked, isBadTextEndChecked_eq h, pure_bind, hd]
  split <;> rfl

theorem nextHeadChecked_eq : p.nextHeadChecked = pure p.nextHead := by
  have hf : ∀ i ∈ List.range' 1 (p.index - 1),
      (return (← p.get i) == frameHead : Except Fault Bool) = pure (p.temp i == frameHead) := by
    intro i hi
    have := List.mem_range'_1.mp hi
    rw [get_of_lt (by omega)]
    rfl
  rw [nextHeadChecked, Checked.findM_eq_pure hf]
  rfl

theorem shiftDownChecked_eq {k : Nat} (h : k + len ≤ p.index) (hi : p.index ≤ frameMaxSize) :
    p.shiftDownChecked k len = pure { p with temp := shiftDown p.temp k len } := by
  have hf : ∀ temp : Nat → UInt8, ∀ i ∈ List.range len,
      (do Checked.store temp frameMaxSize i (← Checked.load temp p.index (k + i))) =
        pure (Function.update temp i (temp (k + i))) := by
    intro temp i hm
    have := List.mem_range.mp hm
    rw [Checked.load_of_lt (by omega), pure_bind, Checked.store_of_lt (by omega)]
  rw [shiftDownChecked, Checked.foldlM_eq_pure hf]
  rfl

theorem resyncChecked_eq (h₀ : p.index ≠ 0) (hi : p.index ≤ frameMaxSize) :
    p.resyncChecked = pure p.resync := by
  have hc : Store.read p.temp 0 p.index ≠ [] := by simp [Store.read, h₀]
  rw [resyncChecked, nextHeadChecked_eq, pure_bind, resync]
  split
  case isTrue => rfl
  case isFalse hn =>
    obtain ⟨_, hlt, _⟩ := (nextHead_cases rfl hc).resolve_left (hn ·.left)
    rw [Checked.sub_of_le (Nat.le_of_lt hlt), pure_bind, shiftDownChecked_eq (by omega) hi, pure_bind]
    simp only
    split
    case isFalse => rfl
    case isTrue h₂ =>
      rw [get_of_lt h₂, pure_bind]
      simp only
      split <;> rfl

theorem acceptLengthChecked_eq (h : 1 < p.index) :
    p.acceptLengthChecked byte = pure (p.acceptLength byte) := by
  rw [acceptLengthChecked, get_of_lt h, pure_bind, acceptLength]
  simp only
  split
  case isFalse => rfl
  case isTrue =>
    split
    case isTrue  => rw [put_of_lt (by decide)]; rfl
    case isFalse => rfl

theorem hasBadTypeChecked_eq :
    p.hasBadTypeChecked = pure (decide (p.index = 3 ∧ !isKnownType (p.temp 2))) := by
  rw [hasBadTypeChecked]
  split
  case isTrue h  => rw [get_of_lt (by omega)]; simp [h]
  case isFalse h => simp [h]

-- No access and no number is out of range, so the checks make no difference.
theorem parseByteChecked_eq (byte : UInt8) (hi : p.index ≤ 254) (he : 2 ≤ p.index → 6 ≤ p.expectLen) :
    p.parseByteChecked byte = pure (p.parseByte byte) := by
  rw [parseByteChecked, parseByte]
  split
  case isTrue =>
    split
    case isTrue  => rw [put_of_lt (by decide)]; rfl
    case isFalse => rfl
  case isFalse h₀ =>
    have hp : p.index < frameMaxSize := Nat.lt_of_le_of_lt hi (by decide)
    rw [put_of_lt hp, pure_bind, Checked.fit_of_lt (by omega), pure_bind, Nat.mod_eq_of_lt (by omega)]
    obtain ⟨q, hq⟩ : ∃ q : Parser, q =
      { p with temp := Function.update p.temp p.index byte, index := p.index + 1 } := ⟨_, rfl⟩
    rw [←hq]
    have hq₁ : q.index = p.index + 1 := by rw [hq]
    have hq₂ : q.expectLen = p.expectLen := by rw [hq]
    simp only
    split
    case isTrue h₂ =>
      rw [acceptLengthChecked_eq (by omega)]
      rfl
    case isFalse h₂ =>
      rw [hasBadTypeChecked_eq, pure_bind]
      simp only [decide_eq_true_eq]
      split
      case isTrue => rfl
      case isFalse =>
        split
        case isTrue => rfl
        case isFalse hn =>
          have hc : q.Complete q.expectLen := ⟨hq₂ ▸ he (by omega), Nat.le_of_not_lt hn⟩
          have hm : q.index ≤ frameMaxSize := by omega
          rw [isGoodChecked_eq hc, pure_bind]
          split
          case isTrue => rw [frameChecked_eq hc.le hm, pure_bind]
          case isFalse =>
            rw [forceFinishChecked_eq hc, pure_bind, resyncChecked_eq (by omega) hm, pure_bind]

theorem Rep.parseByteChecked {c : List UInt8} (byte : UInt8) (h : p.Rep c) :
    p.parseByteChecked byte = pure (p.parseByte byte) := by
  have hl := h.length_eq
  refine parseByteChecked_eq byte (hl ▸ h.inv.length_le) fun h₂ => ?_
  rw [h.expectLen (by omega)]
  exact h.inv.expectLen_ge (by omega)

-- The bytes that have been collected.
def candidate (p : Parser) : List UInt8 :=
  Store.read p.temp 0 p.index

-- Whatever is received, the parser stays within its array and within the candidate.
theorem buffer_safe (bytes : List UInt8) :
    Checked.feed parseByteChecked .init bytes = pure (Mealy.feed parseByte .init bytes) ∧
    ∀ p, (Mealy.feed parseByte .init bytes).1 = p →
      p.index ≤ 254 ∧
      (2 ≤ p.index → 6 ≤ p.expectLen ∧ p.expectLen ≤ 255) ∧
      ∀ byte q, (p.parseByte byte).1 = q →
        (q.candidate = p.candidate ++ [byte] ∧ (2 ≤ q.index → q.index < q.expectLen)) ∨
        (q.candidate <:+ p.candidate ++ [byte] ∧
          q.candidate.length < (p.candidate ++ [byte]).length) := by
  constructor
  case left =>
    refine Checked.feed_eq_pure (P := fun p => ∃ c, p.Rep c) (Q := fun _ => True) ⟨[], .idle rfl⟩
      (fun _ _ => trivial) ?_
    rintro p byte ⟨c, h⟩ -
    exact ⟨h.parseByteChecked byte, _, h.step.right⟩
  case right =>
    rintro p rfl
    have h := (Rep.feed bytes (Rep.idle (p := .init) rfl)).right
    generalize (Mealy.feed parseByte .init bytes).1 = p at h ⊢
    generalize (Mealy.feed Candidate.step [] bytes).1 = c at h
    have hl := h.length_eq
    refine ⟨hl ▸ h.inv.length_le, fun h₂ => ?_, ?_⟩
    case refine_1 =>
      rw [h.expectLen (by omega)]
      exact ⟨h.inv.expectLen_ge (by omega), Candidate.expectLen_le⟩
    case refine_2 =>
      rintro byte q rfl
      have hq : (p.parseByte byte).1.Rep _ := h.step.right
      have hs := h.inv.step_suffix byte rfl
      have hv : p.candidate = c := h.view
      have hv' : (p.parseByte byte).1.candidate = _ := hq.view
      rw [hv, hv']
      refine hs.imp_left fun ⟨he, hw⟩ => ⟨he, fun h₂ => ?_⟩
      rw [hq.expectLen (by rw [hq.length_eq]; exact h₂), ←hq.length_eq]
      exact hw (hq.length_eq ▸ h₂)

end Parser

end App.UartCmd
