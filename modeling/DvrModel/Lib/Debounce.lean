import Mathlib.Data.List.Infix
import Mathlib.Data.List.TakeWhile

-- Filters for noisy signals. A history is the list of its samples, the latest one first.
namespace Debounce

variable {n : Nat} {b x : Bool} {h : List Bool}

-- How often `b` has been sampled in a row.
def streak (b : Bool) (h : List Bool) : Nat :=
  (h.takeWhile (· == b)).length

@[simp]
theorem streak_nil : streak b [] = 0 := rfl

@[simp]
theorem streak_cons_self : streak b (b :: h) = streak b h + 1 := by
  simp [streak]

theorem streak_cons_of_ne (hx : x ≠ b) : streak b (x :: h) = 0 := by
  simp [streak, hx]

theorem streak_cons : streak b (x :: h) = if x = b then streak b h + 1 else 0 := by
  split
  case isTrue hx  => rw [hx, streak_cons_self]
  case isFalse hx => exact streak_cons_of_ne hx

theorem le_streak_iff : n ≤ streak b h ↔ List.replicate n b <+: h := by
  induction n generalizing h
  case zero => simp
  case succ n hi =>
    cases h
    case nil => simp
    case cons x h =>
      rw [List.replicate_succ, List.cons_prefix_cons, ←hi, streak_cons]
      split
      case isTrue hx  => simp [hx]
      case isFalse hx => simp [Ne.symm hx]

-- The hysteresis filter: it takes on a value that has been sampled `n` times in a row, and keeps it
-- until the other one has been.
def filter (n : Nat) : List Bool → Bool
  | []     => false
  | x :: h =>
    if n ≤ streak true (x :: h) then
      true
    else if n ≤ streak false (x :: h) then
      false
    else
      filter n h

theorem filter_of_streak_true (hn : n ≤ streak true (x :: h)) : filter n (x :: h) = true :=
  if_pos hn

theorem filter_of_not_streak_true (hn : ¬n ≤ streak true (x :: h)) :
    filter n (x :: h) = (filter n h && !decide (n ≤ streak false (x :: h))) := by
  rw [filter, if_neg hn]
  split
  case isTrue hf  => simp [hf]
  case isFalse hf => simp [hf]

-- The filter has had a falling edge.
def Fallen (n : Nat) : List Bool → Prop
  | []     => False
  | x :: h => (filter n h = true ∧ filter n (x :: h) = false) ∨ Fallen n h

section Settled

variable {α : Type} [DecidableEq α]

-- For a signal of any type: the last value that has been sampled twice in a row. The samples before
-- the first one count as `a`.
def settled (a : α) : List α → α
  | []     => a
  | x :: h => if x = h.headD a then x else settled a h

end Settled

end Debounce
