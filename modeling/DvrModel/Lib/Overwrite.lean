import Mathlib.Data.List.Basic

-- Queues that make room by giving up their oldest element.
namespace Overwrite

variable {α : Type} {k : Nat} {q : List α} {x : α}

-- What has been put into the queue, and what has left it: an element is either taken or overwritten.
structure Log (α : Type) where
  received : List α
  left     : List (α × Bool)

namespace Log

def empty : Log α where
  received := []
  left     := []

def put (l : Log α) (x : α) : Log α :=
  { l with received := l.received ++ [x] }

def take (l : Log α) (x : α) : Log α :=
  { l with left := l.left ++ [(x, true)] }

def overwrite (l : Log α) (x : α) : Log α :=
  { l with left := l.left ++ [(x, false)] }

def taken (l : Log α) : List α :=
  l.left.filter (·.2) |>.map (·.1)

variable {l : Log α}

@[simp]
theorem taken_put : (l.put x).taken = l.taken := rfl

@[simp]
theorem taken_take : (l.take x).taken = l.taken ++ [x] := by
  simp [taken, take]

@[simp]
theorem taken_overwrite : (l.overwrite x).taken = l.taken := by
  simp [taken, overwrite]

-- The queue holds what has not left yet, and every element that has been overwritten has been followed by
-- at least `k` others.
structure Holds (k : Nat) (l : Log α) (q : List α) : Prop where
  order : l.left.map (·.1) ++ q = l.received
  young : ∀ i x, l.left[i]? = some (x, false) → i + k < l.received.length

theorem Holds.empty : Holds k (empty : Log α) [] :=
  ⟨rfl, fun _ _ h => by simp [Log.empty] at h⟩

theorem Holds.put (h : Holds k l q) (x : α) : Holds k (l.put x) (q ++ [x]) where
  order       := by rw [Log.put, ←h.order, List.append_assoc]
  young i y hi := by
    have hl := h.young i y hi
    simp only [Log.put, List.length_append]
    omega

theorem Holds.take (h : Holds k l (x :: q)) : Holds k (l.take x) q where
  order        := by simp [Log.take, ←h.order]
  young i y hi := by
    rcases Nat.lt_trichotomy i l.left.length with hl | he | hg
    case inl => exact h.young i y <| by rwa [Log.take, List.getElem?_append_left hl] at hi
    case inr.inl => simp [Log.take, he] at hi
    case inr.inr =>
      rw [Log.take, List.getElem?_eq_none (by simp; omega)] at hi
      contradiction

-- The oldest element gives way to a new one.
theorem Holds.overwrite (h : Holds k l (x :: q)) (hk : k ≤ q.length + 1) (y : α) :
    Holds k ((l.overwrite x).put y) (q ++ [y]) where
  order        := by simp [Log.overwrite, Log.put, ←h.order]
  young i z hi := by
    have hl := congrArg List.length h.order
    simp only [List.length_append, List.length_map, List.length_cons] at hl
    rcases Nat.lt_trichotomy i l.left.length with hlt | he | hg
    case inl =>
      have := h.young i z <| by rwa [Log.put, Log.overwrite, List.getElem?_append_left hlt] at hi
      simp only [Log.put, Log.overwrite, List.length_append]
      omega
    case inr.inl =>
      simp only [Log.put, Log.overwrite, List.length_append, List.length_singleton]
      omega
    case inr.inr =>
      rw [Log.put, Log.overwrite, List.getElem?_eq_none (by simp; omega)] at hi
      contradiction

-- The elements that have been taken are some of those that have been put in, in the same order.
theorem Holds.sublist (h : Holds k l q) : List.Sublist (l.taken ++ q) l.received := by
  rw [←h.order]
  exact List.filter_sublist.map _ |>.append (.refl q)

-- When the queue has been emptied, the latest `k` elements have all been taken.
theorem Holds.suffix (h : Holds k l []) : l.received.drop (l.received.length - k) <:+ l.taken := by
  have ho : l.left.map (·.1) = l.received := by simpa using h.order
  have ht : ∀ x ∈ l.left.drop (l.received.length - k), x.2 = true := by
    intro x hx
    have ⟨i, hi⟩ := List.mem_iff_getElem?.mp hx
    rw [List.getElem?_drop] at hi
    have ⟨x, b⟩ := x
    cases b
    case true => rfl
    case false =>
      have hy := h.young _ _ hi
      omega
  have hd : (l.left.drop (l.received.length - k)).map (·.1) = l.received.drop (l.received.length - k) := by
    rw [List.map_drop, ho]
  refine ⟨(l.left.take (l.received.length - k)).filter (·.2) |>.map (·.1), ?_⟩
  rw [←hd, ←List.filter_eq_self.mpr ht, ←List.map_append, ←List.filter_append, List.take_append_drop]
  rfl

end Log

end Overwrite
