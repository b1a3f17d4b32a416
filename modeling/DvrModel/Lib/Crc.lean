import Mathlib.Algebra.CharP.Two
import Mathlib.Algebra.Field.ZMod
import Mathlib.Algebra.Polynomial.Div
import Mathlib.RingTheory.Coprime.Lemmas
import Mathlib.Tactic.LinearCombination

open Polynomial

-- Cyclic redundancy checks: a register is shifted to the left bit by bit, and what falls out of it is fed
-- back. Over the field of two elements this is a division with remainder.
namespace Crc

variable {w : Nat} {g r : BitVec w} {as bs : List Bool}

-- The first `n` bits of a register, the most significant one first.
def bits : Nat → BitVec w → List Bool
  | 0,     _ => []
  | n + 1, r => r.msb :: bits n (r <<< 1)

def step (g r : BitVec w) (bit : Bool) : BitVec w :=
  if r.msb ^^ bit then (r <<< 1) ^^^ g else r <<< 1

def run (g r : BitVec w) (bs : List Bool) : BitVec w :=
  bs.foldl (step g) r

@[simp]
theorem length_bits : (bits n r).length = n := by
  induction n generalizing r
  case zero => rfl
  case succ hi => rw [bits, List.length_cons, hi]

theorem getElem_bits (h : i < (bits n r).length) : (bits n r)[i] = r.getMsbD i := by
  induction n generalizing r i
  case zero => contradiction
  case succ n hi =>
    cases i
    case zero => exact BitVec.msb_eq_getMsbD_zero r
    case succ i => simp [bits, hi]

theorem bits_inj {r' : BitVec w} (h : bits w r = bits w r') : r = r' := by
  apply BitVec.eq_of_getMsbD_eq
  intro i hi
  have hr := getElem_bits (r := r) (by simpa using hi)
  have hr' := getElem_bits (r := r') (by simpa using hi)
  rw [←hr, ←hr']
  exact List.getElem_of_eq h _

theorem bits_eq_map : bits n r = (List.range n).map r.getMsbD :=
  List.ext_getElem (by simp) fun i h _ => by simp [getElem_bits h]

theorem bits_concat : bits (n + 1) r = bits n r ++ [r.getMsbD n] := by
  simp [bits_eq_map, List.range_succ]

theorem bits_xor {a b : BitVec w} : bits n (a ^^^ b) = List.zipWith (· ^^ ·) (bits n a) (bits n b) := by
  induction n generalizing a b
  case zero => rfl
  case succ hi => simp [bits, BitVec.msb_xor, BitVec.shiftLeft_xor_distrib, hi]

theorem step_eq : step g r b = (r <<< 1) ^^^ step g 0 (r.msb ^^ b) := by
  cases hb : r.msb ^^ b
  all_goals simp [step, hb]

theorem run_append : run g r (as ++ bs) = run g (run g r as) bs :=
  List.foldl_append ..

theorem zipWith_xor_assoc {cs : List Bool} : List.zipWith (· ^^ ·) (List.zipWith (· ^^ ·) as bs) cs =
    List.zipWith (· ^^ ·) bs (List.zipWith (· ^^ ·) as cs) := by
  induction as generalizing bs cs
  case nil => simp
  case cons a as hi =>
    cases bs <;> cases cs
    case cons.cons => simp [hi, Bool.xor_left_comm]
    all_goals simp

-- Several bits at once: they meet the bits that leave the register, and what these feed back can be taken
-- from a table.
theorem run_eq_table (h : bs.length = n) :
    run g r bs = (r <<< n) ^^^ run g 0 (List.zipWith (· ^^ ·) (bits n r) bs) := by
  induction n generalizing r bs
  case zero => simp [List.eq_nil_of_length_eq_zero h, run, bits]
  case succ n hi =>
    have ⟨b, bs, he⟩ := List.exists_cons_of_length_eq_add_one h
    rw [he, List.length_cons, Nat.add_right_cancel_iff] at h
    let f := step g 0 (r.msb ^^ b)
    have hs : step g r b = (r <<< 1) ^^^ f := step_eq
    calc
      run g r _
      _ = run g (step g r b) bs := by rw [he]; rfl
      _ = (step g r b <<< n) ^^^ run g 0 (List.zipWith (· ^^ ·) (bits n <| step g r b) bs) := hi h
      _ = (r <<< (n + 1)) ^^^ ((f <<< n) ^^^
          run g 0 (List.zipWith (· ^^ ·) (bits n f) <| List.zipWith (· ^^ ·) (bits n <| r <<< 1) bs)) := by
        rw [hs, BitVec.shiftLeft_xor_distrib, ←BitVec.shiftLeft_add, Nat.add_comm 1, BitVec.xor_assoc,
          bits_xor, zipWith_xor_assoc]
      _ = (r <<< (n + 1)) ^^^ run g f (List.zipWith (· ^^ ·) (bits n <| r <<< 1) bs) := by
        rw [←hi (by simp [h])]
      _ = _ := by rw [he]; rfl

-- The polynomial whose coefficients are the bits, the leading one first.
noncomputable def poly : List Bool → (ZMod 2)[X]
  | []      => 0
  | b :: bs => (if b then X ^ bs.length else 0) + poly bs

-- What the register divides by. Its leading coefficient does not fit into the register.
noncomputable def modulus (g : BitVec w) : (ZMod 2)[X] :=
  X ^ w + poly (bits w g)

@[simp]
theorem poly_concat : poly (bs ++ [b]) = X * poly bs + if b then 1 else 0 := by
  induction bs
  case nil => simp [poly]
  case cons c bs hi =>
    rw [List.cons_append, poly, poly, hi]
    cases c
    case false => simp
    case true  => simp [pow_succ]; ring

theorem poly_append : poly (as ++ bs) = poly as * X ^ bs.length + poly bs := by
  induction as
  case nil => simp [poly]
  case cons a as hi =>
    rw [List.cons_append, poly, poly, hi]
    cases a
    case false => simp
    case true  => simp [pow_add]; ring

theorem degree_poly_lt (bs : List Bool) : (poly bs).degree < bs.length := by
  induction bs
  case nil => simp [poly]
  case cons b bs hi =>
    have hb : degree (if b then X ^ bs.length else 0 : (ZMod 2)[X]) ≤ bs.length := by
      cases b
      case false => simp
      case true  => simp
    refine lt_of_le_of_lt (degree_add_le ..) (max_lt ?_ ?_)
    · exact lt_of_le_of_lt hb (by simp; norm_cast; omega)
    · exact lt_trans hi (by simp; norm_cast; omega)

theorem poly_zipWith_xor (h : as.length = bs.length) :
    poly (List.zipWith (· ^^ ·) as bs) = poly as + poly bs := by
  induction as generalizing bs
  case nil => simp [List.eq_nil_of_length_eq_zero h.symm, poly]
  case cons a as hi =>
    have ⟨b, bs, he⟩ := List.exists_cons_of_length_eq_add_one h.symm
    subst he
    have h : as.length = bs.length := Nat.add_right_cancel h
    rw [List.zipWith_cons_cons, poly, poly, poly, hi h, List.length_zipWith, h, Nat.min_self]
    have h₂ : (X ^ bs.length + X ^ bs.length : (ZMod 2)[X]) = 0 := CharTwo.add_self_eq_zero _
    cases a <;> cases b
    case true.true => simp; linear_combination -h₂
    all_goals simp [add_assoc, add_left_comm]

theorem eq_of_poly_eq (h : as.length = bs.length) (hp : poly as = poly bs) : as = bs := by
  induction as generalizing bs
  case nil => exact (List.eq_nil_of_length_eq_zero h.symm).symm
  case cons a as hi =>
    have ⟨b, bs, he⟩ := List.exists_cons_of_length_eq_add_one h.symm
    subst he
    have hl : as.length = bs.length := Nat.add_right_cancel h
    have hc (cs : List Bool) : (poly cs).coeff cs.length = 0 :=
      coeff_eq_zero_of_degree_lt (degree_poly_lt cs)
    -- The leading coefficients are the first bits.
    have hab : a = b := by
      have := congrArg (·.coeff as.length) hp
      simp only [poly, coeff_add, hc] at this
      rw [hl, hc] at this
      cases a <;> cases b
      all_goals simp_all
    subst hab
    rw [poly, poly, hl] at hp
    rw [hi hl (add_left_cancel hp)]

theorem degree_poly_bits : (poly (bits w g)).degree < w := by
  have := degree_poly_lt (bits w g)
  rwa [length_bits] at this

theorem monic_modulus : (modulus g).Monic :=
  monic_X_pow_add degree_poly_bits

theorem degree_modulus : (modulus g).degree = w := by
  rw [modulus, degree_add_eq_left_of_degree_lt]
  all_goals simp [degree_poly_bits]

-- The bit that falls out of the register is the one that is too large for it.
theorem poly_shift : X * poly (bits w r) = (if r.msb then X ^ w else 0) + poly (bits w <| r <<< 1) := by
  cases w
  case zero => simp [bits, poly, BitVec.eq_nil r]
  case succ w =>
    have hz : (r <<< 1).getMsbD w = false := by simp
    rw [bits_concat (r := r <<< 1), hz, bits, poly, poly_concat]
    cases r.msb
    case false => simp
    case true  => simp [pow_succ]; ring

theorem poly_step : poly (bits w <| step g r b) =
    X * poly (bits w r) + (if b then X ^ w else 0) + if r.msb ^^ b then modulus g else 0 := by
  have h₂ : (X ^ w + X ^ w : (ZMod 2)[X]) = 0 := CharTwo.add_self_eq_zero _
  rw [poly_shift]
  cases hm : r.msb <;> cases b
  case false.false => simp [step, hm]
  case true.true   => simp [step, hm]; linear_combination -h₂
  all_goals
    simp [step, hm, bits_xor, poly_zipWith_xor, modulus]
    linear_combination -h₂

-- The register divides: what is left in it is the remainder.
theorem poly_run (g r : BitVec w) (bs : List Bool) : modulus g ∣
    poly (bits w <| run g r bs) - (poly (bits w r) * X ^ bs.length + poly bs * X ^ w) := by
  induction bs generalizing r
  case nil => simp [run, poly]
  case cons b bs hi =>
    have ⟨q, hq⟩ := hi (r := step g r b)
    rw [poly_step] at hq
    let c : (ZMod 2)[X] := if r.msb ^^ b then 1 else 0
    have hc : (if r.msb ^^ b then modulus g else 0) = c * modulus g := by simp [c]
    have hb : (if b then X ^ w else 0 : (ZMod 2)[X]) * X ^ bs.length =
        (if b then X ^ bs.length else 0) * X ^ w := by
      cases b
      case false => simp
      case true  => simp [mul_comm]
    rw [hc] at hq
    refine ⟨q + c * X ^ bs.length, ?_⟩
    rw [poly, List.length_cons, pow_succ, show run g r (b :: bs) = run g (step g r b) bs from rfl]
    linear_combination hq + hb

theorem poly_run_eq : poly (bits w <| run g 0 bs) = (poly bs * X ^ w) %ₘ modulus g := by
  have h := poly_run g 0 bs
  have hz : poly (bits w (0 : BitVec w)) = 0 := by
    have : (0 : BitVec w) = 0 ^^^ 0 := by simp
    rw [this, bits_xor, poly_zipWith_xor rfl, CharTwo.add_self_eq_zero]
  rw [hz, zero_mul, zero_add] at h
  rw [←modByMonic_eq_of_dvd_sub monic_modulus h]
  apply Eq.symm
  rw [modByMonic_eq_self_iff monic_modulus, degree_modulus]
  exact degree_poly_bits

theorem isCoprime_modulus (h : g.getLsbD 0 = true) : IsCoprime (modulus g) (X ^ n) := by
  apply IsCoprime.pow_right
  cases w
  case zero => simp at h
  case succ w =>
    have hm : g.getMsbD w = true := by simpa [BitVec.getMsbD] using h
    refine ⟨1, -(X ^ w + poly (bits w g)), ?_⟩
    rw [modulus, bits_concat, poly_concat, hm, if_pos rfl]
    ring

-- A burst of errors that is not longer than the register shows.
theorem run_ne_of_burst {pre mid mid' post : List Bool} (hg : g.getLsbD 0 = true)
    (hl : mid.length = mid'.length) (hw : mid.length ≤ w) (hm : mid ≠ mid') :
    run g r (pre ++ (mid ++ post)) ≠ run g r (pre ++ (mid' ++ post)) := by
  intro h
  have ⟨q₁, h₁⟩ := poly_run g r (pre ++ (mid ++ post))
  have ⟨q₂, h₂⟩ := poly_run g r (pre ++ (mid' ++ post))
  rw [h] at h₁
  simp only [poly_append, List.length_append, ←hl] at h₁ h₂
  have hd : modulus g ∣ (poly mid - poly mid') * X ^ (post.length + w) :=
    ⟨q₂ - q₁, by rw [pow_add]; linear_combination h₂ - h₁⟩
  have hd : modulus g ∣ poly mid - poly mid' := (isCoprime_modulus hg).dvd_of_dvd_mul_right hd
  have hlt : (poly mid - poly mid').degree < (modulus g).degree := by
    rw [degree_modulus]
    have h₁ := degree_poly_lt mid
    have h₂ := degree_poly_lt mid'
    rw [←hl] at h₂
    exact lt_of_lt_of_le (lt_of_le_of_lt (degree_sub_le ..) (max_lt h₁ h₂)) (by exact_mod_cast hw)
  have hz : poly mid - poly mid' = 0 := by
    by_contra hz
    exact monic_modulus.not_dvd_of_degree_lt hz hlt hd
  exact hm <| eq_of_poly_eq hl <| sub_eq_zero.mp hz

theorem run_ne_of_window {k : Nat} (hg : g.getLsbD 0 = true) (hl : as.length = bs.length) (hne : as ≠ bs)
    (hk : ∀ i, as[i]? ≠ bs[i]? → k ≤ i ∧ i < k + w) : run g r as ≠ run g r bs := by
  have hs (cs : List Bool) : cs.take k ++ ((cs.drop k).take w ++ cs.drop (k + w)) = cs := by
    rw [←List.drop_drop, List.take_append_drop, List.take_append_drop]
  have he (i) (hi : i < k ∨ k + w ≤ i) : as[i]? = bs[i]? := by
    by_contra hn
    have := hk i hn
    omega
  have hpre : as.take k = bs.take k := by
    apply List.ext_getElem?
    intro i
    by_cases hi : i < k
    case pos => simp [hi, he i (.inl hi)]
    case neg => simp [hi]
  have hpost : as.drop (k + w) = bs.drop (k + w) := by
    apply List.ext_getElem?
    intro i
    rw [List.getElem?_drop, List.getElem?_drop, he _ (.inr <| Nat.le_add_right ..)]
  rw [←hs as, ←hs bs, hpre, hpost]
  apply run_ne_of_burst hg
  case hl => simp [hl]
  case hw => simp
  case hm =>
    intro hm
    rw [←hs as, ←hs bs, hpre, hpost, hm] at hne
    exact hne rfl

end Crc
