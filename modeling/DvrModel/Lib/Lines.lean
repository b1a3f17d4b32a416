import Mathlib.Data.List.Basic
import Mathlib.Data.List.TakeDrop
import Mathlib.Tactic.Ring

-- A list that is set in lines. A line takes up to `w` elements, and it ends behind the first break.
namespace Lines

variable {α β : Type} {p : α → Bool} {l : List α} {i k m n w : Nat}

-- The number of elements that a line takes.
def lineLen (p : α → Bool) : Nat → List α → Nat
  | 0,     _      => 0
  | _,     []     => 0
  | w + 1, x :: l => if p x then 1 else lineLen p w l + 1

-- The number of elements that `m` lines take.
def len (p : α → Bool) (w : Nat) : Nat → List α → Nat
  | 0,     _ => 0
  | m + 1, l => lineLen p w l + len p w m (l.drop <| lineLen p w l)

-- What `m` lines show. The breaks are not shown.
def shown (p : α → Bool) (w m : Nat) (l : List α) : List α :=
  (l.take <| len p w m l).filter (!p ·)

-- What does not fit in `m` lines.
def rest (p : α → Bool) (w m : Nat) (l : List α) : List α :=
  l.drop (len p w m l)

-- The list is cut into blocks of as many elements as `m` full lines hold.
def block (w m : Nat) (l : List α) (i : Nat) : List α :=
  (l.drop <| m * w * i).take (m * w)

theorem shown_succ : shown p w (m + 1) l =
    (l.take <| lineLen p w l).filter (!p ·) ++ shown p w m (l.drop <| lineLen p w l) := by
  rw [shown, len, List.take_add, List.filter_append, shown]

theorem lineLen_le : lineLen p w l ≤ w := by
  induction w generalizing l
  case zero => rfl
  case succ w hi =>
    cases l
    case nil => exact Nat.zero_le _
    case cons x l =>
      rw [lineLen]
      split
      case isTrue  => exact Nat.le_add_left ..
      case isFalse => exact Nat.succ_le_succ hi

theorem len_le : len p w m l ≤ m * w := by
  induction m generalizing l
  case zero => exact Nat.zero_le _
  case succ m hi =>
    calc
      len p w (m + 1) l = lineLen p w l + len p w m (l.drop <| lineLen p w l) := rfl
      _                 ≤ w + m * w := Nat.add_le_add lineLen_le hi
      _                 = (m + 1) * w := by ring

theorem lineLen_take (h : w ≤ k) : lineLen p w (l.take k) = lineLen p w l := by
  induction w generalizing k l
  case zero => cases l <;> cases k <;> rfl
  case succ w hi =>
    have ⟨k, hk⟩ := Nat.exists_eq_succ_of_ne_zero (Nat.ne_zero_of_lt h)
    subst hk
    cases l
    case nil => rfl
    case cons x l => rw [List.take_succ_cons, lineLen, lineLen, hi (Nat.le_of_succ_le_succ h)]

-- The lines do not look behind what they can take.
theorem len_take (h : m * w ≤ k) : len p w m (l.take k) = len p w m l := by
  induction m generalizing k l
  case zero => rfl
  case succ m hi =>
    have hw : w + m * w ≤ k := by
      rw [Nat.add_comm, ←Nat.succ_mul]
      exact h
    have hl : lineLen p w l ≤ w := lineLen_le
    rw [len, len, lineLen_take (by omega), List.drop_take, hi (by omega)]

theorem len_block : len p w m (block w m l i) = len p w m (l.drop <| m * w * i) :=
  len_take <| Nat.le_refl _

-- What the lines take of a block, and what is left of it.
theorem block_eq :
    block w m l i = (l.drop <| m * w * i).take (len p w m <| l.drop <| m * w * i) ++
      rest p w m (block w m l i) := by
  have ht := List.take_append_drop (len p w m <| l.drop <| m * w * i) (block w m l i)
  rw [block, List.take_take, Nat.min_eq_left len_le] at ht
  rw [rest, len_block]
  exact ht.symm

theorem flatMap_block (h : l.length ≤ n * (m * w)) : (List.range n).flatMap (block w m l) = l := by
  have (k : Nat) : (List.range k).flatMap (block w m l) = l.take (m * w * k) := by
    induction k
    case zero => simp
    case succ k hi =>
      rw [List.range_succ, List.flatMap_append, hi, List.flatMap_singleton, block, Nat.mul_succ,
        List.take_add]
  rw [this, List.take_of_length_le (by rwa [Nat.mul_comm])]

theorem length_flatMap_append {f g : α → List β} :
    (l.flatMap fun x => f x ++ g x).length = (l.flatMap f).length + (l.flatMap g).length := by
  induction l
  case nil => rfl
  case cons x l hi =>
    simp only [List.flatMap_cons, List.length_append, hi]
    omega

-- Where something is missing from a concatenation, it comes out shorter.
theorem flatMap_eq_iff {f g : α → List β} :
    l.flatMap f = l.flatMap (fun x => f x ++ g x) ↔ ∀ x ∈ l, g x = [] := by
  refine ⟨fun h => ?_, fun h => List.flatMap_congr fun x hx => ?_⟩
  case refine_1 =>
    have hl := length_flatMap_append (l := l) (f := f) (g := g)
    rw [←h] at hl
    apply List.flatMap_eq_nil_iff.mp
    apply List.eq_nil_of_length_eq_zero
    omega
  case refine_2 => rw [h x hx, List.append_nil]

-- When `m` lines are shown from the beginning of each block on, nothing but breaks may be left of it.
theorem flatMap_shown_eq_iff (h : l.length ≤ n * (m * w)) :
    (List.range n).flatMap (fun i => shown p w m (l.drop <| m * w * i)) = l.filter (!p ·) ↔
    ∀ i < n, ∀ x ∈ rest p w m (block w m l i), p x := by
  have hl : l.filter (!p ·) = (List.range n).flatMap fun i =>
      shown p w m (l.drop <| m * w * i) ++ (rest p w m (block w m l i)).filter (!p ·) := by
    conv_lhs => rw [←flatMap_block h, List.filter_flatMap]
    apply List.flatMap_congr
    intro i _
    rw [shown, ←List.filter_append, ←block_eq]
  rw [hl, flatMap_eq_iff]
  simp only [List.mem_range, List.filter_eq_nil_iff, Bool.not_eq_true', Bool.not_eq_false]

end Lines
