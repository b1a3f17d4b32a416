import Mathlib.Data.List.Basic
import Mathlib.Data.List.OfFn
import Mathlib.Tactic.Ring

-- Little endian words.
namespace Bytes

def toLe : Nat → Nat → List UInt8
  | 0,     _ => []
  | w + 1, n => .ofNat n :: toLe w (n / 256)

def ofLe (bs : List UInt8) : Nat :=
  bs.foldr (fun b n => b.toNat + 256 * n) 0

@[simp]
theorem length_toLe : (toLe w n).length = w := by
  induction w generalizing n
  case zero => rfl
  case succ hi => simp [toLe, hi]

theorem ofLe_toLe : ofLe (toLe w n) = n % 256 ^ w := by
  induction w generalizing n
  case zero => simp [toLe, ofLe, Nat.mod_one]
  case succ w hi =>
    have h : ofLe (toLe (w + 1) n) = n % 256 + 256 * ofLe (toLe w (n / 256)) := by
      simp [toLe, ofLe]
    rw [h, hi, Nat.pow_succ', Nat.mod_mul]

def ofUInt16 (x : UInt16) : List UInt8 := toLe 2 x.toNat
def ofUInt32 (x : UInt32) : List UInt8 := toLe 4 x.toNat
def toUInt16 (bs : List UInt8) : UInt16 := .ofNat (ofLe bs)
def toUInt32 (bs : List UInt8) : UInt32 := .ofNat (ofLe bs)

@[simp]
theorem length_ofUInt16 {x : UInt16} : (ofUInt16 x).length = 2 :=
  length_toLe

@[simp]
theorem length_ofUInt32 {x : UInt32} : (ofUInt32 x).length = 4 :=
  length_toLe

@[simp]
theorem toUInt16_ofUInt16 {x : UInt16} : toUInt16 (ofUInt16 x) = x := by
  rw [toUInt16, ofUInt16, ofLe_toLe, Nat.mod_eq_of_lt (by simpa using x.toNat_lt), UInt16.ofNat_toNat]

@[simp]
theorem toUInt32_ofUInt32 {x : UInt32} : toUInt32 (ofUInt32 x) = x := by
  rw [toUInt32, ofUInt32, ofLe_toLe, Nat.mod_eq_of_lt (by simpa using x.toNat_lt), UInt32.ofNat_toNat]

-- The `n` bytes of `bs` from offset `o` on.
def slice (bs : List UInt8) (o n : Nat) : List UInt8 :=
  bs.drop o |>.take n

-- One byte of `bs`, and `n` of them as a fixed-size array.
def byteAt (bs : List UInt8) (o : Nat) : UInt8 :=
  bs.getD o 0

def arrayAt (bs : List UInt8) (o n : Nat) : Fin n → UInt8 :=
  fun i => byteAt bs (o + i)

def ofArray (f : Fin n → UInt8) : List UInt8 :=
  List.ofFn f

@[simp]
theorem length_ofArray {f : Fin n → UInt8} : (ofArray f).length = n :=
  List.length_ofFn

theorem getD_ofArray {f : Fin n → UInt8} {i : Nat} (h : i < n) : (ofArray f).getD i 0 = f ⟨i, h⟩ := by
  simp [ofArray, h]

theorem all_take_ofArray {f : Fin n → UInt8} {q : UInt8 → Bool} {k : Nat} :
    ((ofArray f).take k).all q = true ↔ ∀ i : Fin n, i.val < k → q (f i) = true := by
  rw [List.all_eq_true]
  constructor
  · intro h i hi
    refine h _ <| List.mem_take_iff_getElem.mpr ⟨i, ?_, ?_⟩
    · simpa using hi
    · simp [ofArray]
  · intro h x hx
    obtain ⟨i, hi, rfl⟩ := List.mem_take_iff_getElem.mp hx
    have hi : i < k ∧ i < n := by simpa using hi
    simpa [ofArray] using h ⟨i, hi.right⟩ hi.left

section

variable {bs cs : List UInt8} {b : UInt8} {o n k : Nat}

theorem slice_append_left (h : o + n ≤ bs.length) : slice (bs ++ cs) o n = slice bs o n := by
  rw [slice, slice, List.drop_append_of_le_length (by omega),
    List.take_append_of_le_length (by simp; omega)]

theorem slice_append_right (h : bs.length ≤ o) :
    slice (bs ++ cs) o n = slice cs (o - bs.length) n := by
  rw [slice, slice, List.drop_append, List.drop_eq_nil_of_le h, List.nil_append]

theorem slice_zero (h : bs.length = n) : slice (bs ++ cs) 0 n = bs := by
  rw [slice, List.drop_zero, List.take_left' h]

theorem slice_self (h : bs.length = n) : slice bs 0 n = bs := by
  rw [slice, List.drop_zero, ←h, List.take_length]

theorem slice_take (h : o + n ≤ k) : slice (bs.take k) o n = slice bs o n := by
  rw [slice, slice, List.drop_take, List.take_take, Nat.min_eq_left (by omega)]

theorem byteAt_append_right (h : bs.length ≤ o) :
    byteAt (bs ++ cs) o = byteAt cs (o - bs.length) := by
  simp [byteAt, List.getElem?_append_right h]

@[simp]
theorem byteAt_cons_zero : byteAt (b :: bs) 0 = b := rfl

@[simp]
theorem byteAt_cons_succ : byteAt (b :: bs) (o + 1) = byteAt bs o := by
  simp [byteAt]

theorem byteAt_take (h : o < k) : byteAt (bs.take k) o = byteAt bs o := by
  simp [byteAt, h]

theorem arrayAt_append_right (h : bs.length ≤ o) :
    arrayAt (bs ++ cs) o n = arrayAt cs (o - bs.length) n := by
  funext i
  rw [arrayAt, byteAt_append_right (by omega), arrayAt, Nat.sub_add_comm h]

@[simp]
theorem arrayAt_cons_succ : arrayAt (b :: bs) (o + 1) n = arrayAt bs o n := by
  funext i
  rw [arrayAt, Nat.add_right_comm, byteAt_cons_succ, arrayAt]

theorem arrayAt_zero {f : Fin n → UInt8} : arrayAt (ofArray f ++ bs) 0 n = f := by
  funext i
  simp [arrayAt, byteAt, ofArray, List.getElem?_append]

theorem arrayAt_take (h : o + n ≤ k) : arrayAt (bs.take k) o n = arrayAt bs o n :=
  funext fun i => byteAt_take (by omega)

end

theorem toLe_ofLe {bs : List UInt8} (h : bs.length = w) : toLe w (ofLe bs) = bs := by
  induction bs generalizing w
  case nil => rw [←h]; rfl
  case cons b bs hi =>
    have hb := b.toNat_lt
    have ho : ofLe (b :: bs) = b.toNat + 256 * ofLe bs := rfl
    rw [←h, List.length_cons, toLe, ho, Nat.add_mul_div_left _ _ (by decide),
      Nat.div_eq_of_lt hb, Nat.zero_add, hi rfl]
    congr 1
    apply UInt8.toNat_inj.mp
    simp

theorem ofLe_lt (bs : List UInt8) : ofLe bs < 256 ^ bs.length := by
  have := ofLe_toLe (w := bs.length) (n := ofLe bs)
  rw [toLe_ofLe rfl] at this
  rw [this]
  exact Nat.mod_lt _ (Nat.pow_pos (by decide))

theorem toUInt32_inj {bs cs : List UInt8} (hb : bs.length = 4) (hc : cs.length = 4)
    (h : toUInt32 bs = toUInt32 cs) : bs = cs := by
  have h₁ := ofLe_lt bs
  have h₂ := ofLe_lt cs
  have h := congrArg UInt32.toNat h
  rw [hb] at h₁
  rw [hc] at h₂
  simp only [toUInt32, UInt32.toNat_ofNat'] at h
  rw [Nat.mod_eq_of_lt (by omega), Nat.mod_eq_of_lt (by omega)] at h
  rw [←toLe_ofLe hb, h, toLe_ofLe hc]

theorem ofArray_inj {f g : Fin n → UInt8} : ofArray f = ofArray g ↔ f = g :=
  List.ofFn_inj

theorem ofUInt16_inj {x y : UInt16} : ofUInt16 x = ofUInt16 y ↔ x = y :=
  ⟨fun h => by simpa using congrArg toUInt16 h, congrArg _⟩

theorem ofUInt32_inj {x y : UInt32} : ofUInt32 x = ofUInt32 y ↔ x = y :=
  ⟨fun h => by simpa using congrArg toUInt32 h, congrArg _⟩

-- Consecutive pieces of the given lengths, from offset `o` on.
def slices (bs : List UInt8) (o : Nat) : List Nat → List (List UInt8)
  | []      => []
  | n :: ns => slice bs o n :: slices bs (o + n) ns

theorem flatten_slices {bs : List UInt8} : (slices bs o ns).flatten = slice bs o ns.sum := by
  induction ns generalizing o
  case nil => simp [slices, slice]
  case cons n ns hi =>
    rw [slices, List.flatten_cons, hi, slice, slice, slice, List.sum_cons, List.take_add, List.drop_drop]

theorem ofArray_arrayAt {bs : List UInt8} (h : o + n ≤ bs.length) :
    ofArray (arrayAt bs o n) = slice bs o n := by
  refine List.ext_getElem (by simp [slice]; omega) fun i hi _ => ?_
  have : o + i < bs.length := by simp at hi; omega
  simp [ofArray, arrayAt, byteAt, slice, this]

theorem singleton_byteAt {bs : List UInt8} (h : o < bs.length) : [byteAt bs o] = slice bs o 1 := by
  have : ofArray (arrayAt bs o 1) = _ := ofArray_arrayAt h
  rw [←this]
  rfl

theorem toNat_word {x y : UInt8} :
    (x.toUInt16 ||| (y.toUInt16 <<< 8)).toNat = x.toNat + 256 * y.toNat := by
  have hx := x.toNat_lt
  have hy := y.toNat_lt
  have hs := Nat.shiftLeft_add_eq_or_of_lt (show x.toNat < 2 ^ 8 by omega) y.toNat
  simp [Nat.shiftLeft_eq] at hs ⊢
  rw [Nat.mod_eq_of_lt (show y.toNat * 256 < 65536 by omega), Nat.or_comm, ←hs]
  omega

theorem word_inj {x y x' y' : UInt8}
    (h : x.toUInt16 ||| (y.toUInt16 <<< 8) = x'.toUInt16 ||| (y'.toUInt16 <<< 8)) : x = x' ∧ y = y' := by
  have := congrArg UInt16.toNat h
  have hx := x.toNat_lt
  have hx' := x'.toNat_lt
  rw [toNat_word, toNat_word] at this
  exact ⟨UInt8.toNat_inj.mp (by omega), UInt8.toNat_inj.mp (by omega)⟩

-- A word is what its two bytes make up.
theorem toUInt16_bytes (x : UInt16) :
    x.toUInt8.toUInt16 ||| ((x >>> 8).toUInt8.toUInt16 <<< 8) = x := by
  have hx := x.toNat_lt
  apply UInt16.toNat_inj.mp
  rw [toNat_word]
  simp [Nat.shiftRight_eq_div_pow]
  omega

-- A byte above the first `n` bits of a word.
theorem or_shift {x : UInt32} {y : UInt8} {n : UInt32} (hn : n.toNat ≤ 24) (hx : x.toNat < 2 ^ n.toNat) :
    (x ||| (y.toUInt32 <<< n)).toNat = x.toNat + 2 ^ n.toNat * y.toNat := by
  have hy : 2 ^ n.toNat * y.toNat < 2 ^ 32 := by
    calc
      2 ^ n.toNat * y.toNat < 2 ^ n.toNat * 2 ^ 8 := Nat.mul_lt_mul_of_pos_left y.toNat_lt (Nat.two_pow_pos _)
      _ = 2 ^ (n.toNat + 8) := (Nat.pow_add ..).symm
      _ ≤ 2 ^ 32 := Nat.pow_le_pow_right (by decide) (by omega)
  have hs := Nat.shiftLeft_add_eq_or_of_lt hx y.toNat
  rw [Nat.shiftLeft_eq, Nat.mul_comm] at hs
  rw [UInt32.toNat_or, UInt32.toNat_shiftLeft, Nat.mod_eq_of_lt (show n.toNat < 32 by omega),
    UInt8.toNat_toUInt32, Nat.shiftLeft_eq, Nat.mul_comm, Nat.mod_eq_of_lt hy, Nat.or_comm, ←hs,
    Nat.add_comm]

theorem toNat_dword {x y z w : UInt8} :
    (x.toUInt32 ||| (y.toUInt32 <<< 8) ||| (z.toUInt32 <<< 16) ||| (w.toUInt32 <<< 24)).toNat =
      x.toNat + 256 * (y.toNat + 256 * (z.toNat + 256 * w.toNat)) := by
  have hx := x.toNat_lt
  have hy := y.toNat_lt
  have hz := z.toNat_lt
  have h₁ := or_shift (x := x.toUInt32) (y := y) (n := 8) (by decide) (by simpa using hx)
  have h₂ := or_shift (y := z) (n := 16) (by decide) (show _ < 2 ^ 16 by rw [h₁]; simp; omega)
  have h₃ := or_shift (y := w) (n := 24) (by decide) (show _ < 2 ^ 24 by rw [h₂, h₁]; simp; omega)
  rw [h₃, h₂, h₁]
  simp
  omega

-- Indices that do not leave their range.
theorem toNat_sub_one {i : UInt8} (h : 0 < i) : (i - 1).toNat = i.toNat - 1 := by
  have hi : 0 < i.toNat := h
  exact UInt8.toNat_sub_of_le _ _ <| UInt8.le_iff_toNat_le.mpr hi

theorem toNat_add_one {i : UInt8} (h : i.toNat + 1 < 256) : (i + 1).toNat = i.toNat + 1 := by
  rw [UInt8.toNat_add]
  exact Nat.mod_eq_of_lt h

end Bytes
