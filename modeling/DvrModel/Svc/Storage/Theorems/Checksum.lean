import DvrModel.Svc.Storage.Basic
import DvrModel.Svc.Storage.Theorems.Record
import Mathlib.Algebra.BigOperators.Ring.Finset
import Mathlib.Data.List.GetD
import Mathlib.Data.Nat.Digits.Lemmas

namespace Svc.Storage

variable {bs : List UInt8} {b v : UInt8} {i : Nat}

theorem checksum_concat : checksum (bs ++ [b]) = (checksum bs <<< 5) - checksum bs + b.toUInt32 := by
  simp [checksum]

theorem toNat_step (s : UInt32) (b : UInt8) :
    ((s <<< 5) - s + b.toUInt32).toNat = (b.toNat + 31 * s.toNat) % 2 ^ 32 := by
  have hs := s.toNat_lt
  have hb := b.toNat_lt
  simp [UInt32.toNat_add, UInt32.toNat_sub, UInt32.toNat_shiftLeft, Nat.shiftLeft_eq]
  omega

-- The bytes are the digits of a number with base 31.
theorem toNat_checksum :
    (checksum bs).toNat = Nat.ofDigits 31 (bs.reverse.map UInt8.toNat) % 2 ^ 32 := by
  induction bs using List.reverseRecOn
  case nil => rfl
  case append_singleton bs b hi =>
    rw [checksum_concat, toNat_step, hi, List.reverse_append, List.reverse_singleton,
      List.singleton_append, List.map_cons, Nat.ofDigits_cons]
    simp [Nat.add_mod, Nat.mul_mod]

theorem ofDigits_eq_sum : Nat.ofDigits 31 (bs.reverse.map UInt8.toNat) =
    ∑ i ∈ Finset.range bs.length, (bs.getD i 0).toNat * 31 ^ (bs.length - 1 - i) := by
  induction bs using List.reverseRecOn
  case nil => rfl
  case append_singleton bs b hi =>
    have hs : ∀ i ∈ Finset.range bs.length,
        ((bs ++ [b]).getD i 0).toNat * 31 ^ (bs.length + 1 - 1 - i) =
          31 * ((bs.getD i 0).toNat * 31 ^ (bs.length - 1 - i)) := by
      intro i h
      have h := Finset.mem_range.mp h
      rw [List.getD_append _ _ _ _ h, show bs.length + 1 - 1 - i = bs.length - 1 - i + 1 by omega, pow_succ]
      ring
    rw [List.reverse_append, List.reverse_singleton, List.singleton_append, List.map_cons,
      Nat.ofDigits_cons, hi, List.length_append, List.length_singleton, Finset.sum_range_succ,
      Finset.sum_congr rfl hs, ←Finset.mul_sum]
    simp
    omega

-- Powers of the base are invertible, so that every digit counts.
theorem modEq_of_digit {pre post : List Nat} {x y : Nat}
    (h : Nat.ofDigits 31 (post ++ x :: pre) ≡ Nat.ofDigits 31 (post ++ y :: pre) [MOD 2 ^ 32]) :
    x ≡ y [MOD 2 ^ 32] := by
  simp only [Nat.ofDigits_append, Nat.ofDigits_cons] at h
  have hc : Nat.gcd (2 ^ 32) (31 ^ post.length) = 1 := Nat.Coprime.pow _ _ (by decide)
  exact Nat.ModEq.cancel_left_of_coprime hc (Nat.ModEq.add_left_cancel' _ h) |>.add_right_cancel' _

theorem checksum_set_ne (h : i < bs.length) (hv : v ≠ bs[i]) : checksum (bs.set i v) ≠ checksum bs := by
  intro he
  have hs : bs = bs.take i ++ bs[i] :: bs.drop (i + 1) := by simp
  have he := congrArg UInt32.toNat he
  rw [toNat_checksum, toNat_checksum, List.set_eq_take_append_cons_drop, if_pos h] at he
  nth_rewrite 3 [hs] at he
  simp only [List.reverse_append, List.reverse_cons, List.append_assoc, List.map_append,
    List.singleton_append, List.map_cons] at he
  have hx := modEq_of_digit he
  have h₁ := v.toNat_lt
  have h₂ := bs[i].toNat_lt
  rw [Nat.ModEq, Nat.mod_eq_of_lt (by omega), Nat.mod_eq_of_lt (by omega)] at hx
  exact hv <| UInt8.toNat_inj.mp hx

namespace Layout

variable {L : Layout α}

theorem not_recordIsValid_set (hl : bs.length = L.size) (h : L.recordIsValid bs = true)
    (hi : i < bs.length) (hv : v ≠ bs[i]) : L.recordIsValid (bs.set i v) = false := by
  have hs := L.size_pos
  have hsl : (Bytes.slice bs (L.size - 4) 4).length = 4 := by simp [Bytes.slice]; omega
  by_contra hn
  have hc : checksum (bs.take <| L.size - 4) = Bytes.toUInt32 (Bytes.slice bs (L.size - 4) 4) := by
    simp only [recordIsValid, Bool.and_eq_true, beq_iff_eq] at h
    exact h.right
  have hc' : checksum ((bs.set i v).take <| L.size - 4) =
      Bytes.toUInt32 (Bytes.slice (bs.set i v) (L.size - 4) 4) := by
    simp only [recordIsValid, Bool.and_eq_true, beq_iff_eq, Bool.not_eq_false] at hn
    exact hn.right
  rw [Bytes.slice, List.drop_set] at hc'
  by_cases hlt : i < L.size - 4
  case pos =>
    rw [if_pos hlt, ←Bytes.slice, List.take_set, ←hc] at hc'
    exact checksum_set_ne (by simp; omega) (by simpa using hv) hc'
  case neg =>
    rw [if_neg hlt, List.take_set_of_le (by omega), hc, List.take_set, ←Bytes.slice] at hc'
    have he := Bytes.toUInt32_inj hsl (by simpa using hsl) hc'
    have he := List.getElem_of_eq he (i := i - (L.size - 4)) (by omega)
    rw [List.getElem_set_self] at he
    refine hv <| he.symm.trans ?_
    simp [Bytes.slice, show L.size - 4 + (i - (L.size - 4)) = i by omega]

end Layout

-- The checksum is the number with the bytes as its digits, and another value of any single byte makes it
-- another one. So a record of whatever kind that has been damaged in one byte is not valid.
theorem checksum_detects :
    (∀ bs : List UInt8, (checksum bs).toNat =
      (∑ i ∈ Finset.range bs.length, (bs.getD i 0).toNat * 31 ^ (bs.length - 1 - i)) % 2 ^ 32) ∧
    (∀ (bs : List UInt8) (i : Nat) (v : UInt8) (h : i < bs.length), v ≠ bs[i] →
      checksum (bs.set i v) ≠ checksum bs) ∧
    ∀ (k : Kind) (bs : List UInt8), bs.length = k.layout.size → k.layout.recordIsValid bs = true →
      ∀ (i : Nat) (v : UInt8) (h : i < bs.length), v ≠ bs[i] →
      k.layout.recordIsValid (bs.set i v) = false := by
  refine ⟨fun bs => ?_, fun bs i v => checksum_set_ne, fun k bs hl h i v => Layout.not_recordIsValid_set hl h⟩
  rw [toNat_checksum, ofDigits_eq_sum]

example : checksum [1, 2, 3] = 31 ^ 2 + 2 * 31 + 3 := by decide

end Svc.Storage
