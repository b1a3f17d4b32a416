import Mathlib.Data.List.Basic
import Mathlib.Data.List.TakeDrop
import Mathlib.Data.List.TakeWhile

-- An unbounded store of cells, addressed by natural numbers.
namespace Store

variable {β : Type} {m : Nat → β} {a b n k x : Nat} {l l₁ l₂ : List β}

def read (m : Nat → β) (a n : Nat) : List β :=
  (List.range n).map (m <| a + ·)

def write (m : Nat → β) (a : Nat) (l : List β) : Nat → β :=
  fun x => if a ≤ x then l.getD (x - a) (m x) else m x

@[simp]
theorem length_read : (read m a n).length = n := by
  simp [read]

@[simp]
theorem getElem_read (h : k < (read m a n).length) : (read m a n)[k] = m (a + k) := by
  simp [read]

theorem read_congr {m' : Nat → β} (h : ∀ k < n, m (a + k) = m' (a + k)) :
    read m a n = read m' a n :=
  List.ext_getElem (by simp) fun k hk _ => by simpa using h k (by simpa using hk)

theorem read_eq_read {m' : Nat → β} :
    read m a n = read m' a n ↔ ∀ k < n, m (a + k) = m' (a + k) := by
  refine ⟨fun h k hk => ?_, read_congr⟩
  have := List.getElem_of_eq h (i := k) (by simpa using hk)
  simpa using this

theorem read_append : read m a n ++ read m (a + n) k = read m a (n + k) := by
  simp [read, List.range_add, Nat.add_assoc]

theorem take_read (h : k ≤ n) : (read m a n).take k = read m a k := by
  obtain ⟨j, rfl⟩ := Nat.exists_eq_add_of_le h
  rw [←read_append, List.take_left' length_read]

theorem drop_read (h : k ≤ n) : (read m a n).drop k = read m (a + k) (n - k) := by
  obtain ⟨j, rfl⟩ := Nat.exists_eq_add_of_le h
  rw [←read_append, List.drop_left' length_read, Nat.add_sub_cancel_left]

theorem read_succ : read m a (n + 1) = m a :: read m (a + 1) n := by
  rw [Nat.add_comm, ←read_append]
  rfl

theorem getD_read {c : β} (h : k < n) : (read m a n).getD k c = m (a + k) := by
  simp [read, h]

theorem read_getD {c : β} : read (l.getD · c) 0 l.length = l :=
  List.ext_getElem (by simp) fun k hk _ => by simp_all

theorem read_update_self {c : β} :
    read (Function.update m (a + n) c) a (n + 1) = read m a n ++ [c] := by
  rw [←read_append]
  congr 1
  case e_a => exact read_congr fun k hk => Function.update_of_ne (by omega) ..
  case e_a => simp [read]

theorem read_update_of_le {c : β} (h : a + n ≤ x) :
    read (Function.update m x c) a n = read m a n :=
  read_congr fun k hk => Function.update_of_ne (by omega) ..

-- A search through the addresses and one through the cells find the same.
theorem dropWhile_read_of_find?_none {q : β → Bool} (h : (List.range' a n).find? (q <| m ·) = none) :
    (read m a n).dropWhile (!q ·) = [] := by
  have hq : ∀ x, a ≤ x → x < a + n → q (m x) = false := by simpa using h
  rw [List.dropWhile_eq_nil_iff]
  intro c hc
  have ⟨k, hk, he⟩ := List.mem_map.mp hc
  simp [←he, hq (a + k) (by omega) (by simpa using hk)]

theorem dropWhile_read_of_find?_some {q : β → Bool}
    (h : (List.range' a n).find? (q <| m ·) = some k) :
    a ≤ k ∧ k < a + n ∧ (read m a n).dropWhile (!q ·) = read m k (a + n - k) := by
  induction n generalizing a
  case zero => simp at h
  case succ n hi =>
    rw [List.range'_succ, List.find?_cons] at h
    rw [read_succ]
    cases hq : q (m a) <;> simp only [hq] at h
    case true =>
      cases h
      refine ⟨Nat.le_refl _, by omega, ?_⟩
      rw [List.dropWhile_cons_of_neg (by simp [hq]), ←read_succ, Nat.add_sub_cancel_left]
    case false =>
      have ⟨h₁, h₂, h₃⟩ := hi h
      refine ⟨by omega, by omega, ?_⟩
      rw [List.dropWhile_cons_of_pos (by simp [hq]), h₃, Nat.add_right_comm, Nat.add_assoc]

theorem write_of_lt (h : x < a) : write m a l x = m x :=
  if_neg <| Nat.not_le.mpr h

theorem write_of_ge (h : a + l.length ≤ x) : write m a l x = m x := by
  have hk : l.length ≤ x - a := by omega
  simp [write, hk]

theorem write_add (h : k < l.length) : write m a l (a + k) = l[k] := by
  simp [write, h]

@[simp]
theorem write_nil : write m a [] = m := by
  funext x
  simp [write]

theorem write_cons : write m a (c :: l) = write (Function.update m a c) (a + 1) l := by
  funext x
  rcases Nat.lt_trichotomy x a with h | rfl | h
  · rw [write_of_lt h, write_of_lt (by omega), Function.update_of_ne (by omega)]
  · rw [write_of_lt (a := x + 1) (by omega), Function.update_self]
    exact write_add (k := 0) (by simp)
  · obtain ⟨k, rfl⟩ := Nat.exists_eq_add_of_lt h
    rw [write, write, if_pos (by omega), if_pos (by omega), Function.update_of_ne (by omega)]
    simp [show a + k + 1 - a = k + 1 by omega, show a + k + 1 - (a + 1) = k by omega]

theorem write_append : write m a (l₁ ++ l₂) = write (write m a l₁) (a + l₁.length) l₂ := by
  induction l₁ generalizing m a
  case nil => simp
  case cons c l hi =>
    rw [List.cons_append, write_cons, write_cons, hi, List.length_cons, Nat.add_right_comm, Nat.add_assoc]

-- What has been written is read back.
theorem read_write (h : l.length = n) : read (write m a l) a n = l := by
  refine List.ext_getElem (by simp [h]) fun k _ hk => ?_
  rw [getElem_read, write_add hk]

-- A write does not touch what lies before or behind it.
theorem read_write_disjoint (h : a + n ≤ b ∨ b + l.length ≤ a) :
    read (write m b l) a n = read m a n := by
  refine read_congr fun k hk => ?_
  cases h
  case inl h => exact write_of_lt (by omega)
  case inr h => exact write_of_ge (by omega)

-- A write of the first cells of an area leaves the others as they were.
theorem read_write_left (h : l.length = k) (hk : k ≤ n) :
    read (write m a l) a n = l ++ (read m a n).drop k := by
  obtain ⟨j, rfl⟩ := Nat.exists_eq_add_of_le hk
  rw [←read_append, read_write h, read_write_disjoint (.inr <| by omega), drop_read hk,
    Nat.add_sub_cancel_left]

theorem read_write_right (h : k + l.length = n) :
    read (write m (a + k) l) a n = (read m a n).take k ++ l := by
  rw [←h, ←read_append, read_write rfl, read_write_disjoint (.inl <| Nat.le_refl _),
    take_read (by omega)]

-- Terminating what is written, if anything is, does not show in the cells up to `n` exactly if they held
-- the same before.
theorem read_write_term {c : β} (h : l.length ≤ k) :
    read (Function.update (write m a l) (a + k) c) 0 n = read m 0 n ↔
    (∀ i < k, a + i < n → ∀ x ∈ l[i]?, m (a + i) = x) ∧ (a + k < n → m (a + k) = c) := by
  rw [read_eq_read]
  simp only [Nat.zero_add]
  constructor
  · intro hr
    refine ⟨fun i hi hn x hx => ?_, fun hn => ?_⟩
    · obtain ⟨hl, rfl⟩ := List.getElem?_eq_some_iff.mp hx
      rw [← hr _ hn, Function.update_of_ne (by omega), write_add hl]
    · rw [← hr _ hn, Function.update_self]
  · rintro ⟨hl, hc⟩ x hx
    by_cases hk : x = a + k
    case pos => rw [hk, Function.update_self, hc (hk ▸ hx)]
    case neg =>
      rw [Function.update_of_ne hk]
      by_cases ha : a ≤ x ∧ x < a + l.length
      case neg =>
        rcases Nat.lt_or_ge x a with ha' | ha'
        · exact write_of_lt ha'
        · exact write_of_ge (by omega)
      case pos =>
        obtain ⟨i, rfl⟩ := Nat.exists_eq_add_of_le ha.left
        have hi : i < l.length := by omega
        rw [write_add hi, hl i (by omega) hx l[i] (List.getElem?_eq_getElem hi)]

end Store
