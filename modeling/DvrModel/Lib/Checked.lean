import DvrModel.Lib.Mealy
import DvrModel.Lib.Store
import Mathlib.Logic.Function.Basic

-- Computations that notice when they leave an array or the range of a number.
namespace Checked

inductive Fault
  | bounds
  | underflow
  | overflow
  deriving DecidableEq

variable {α β σ ι ο : Type}

section Arithmetic

variable [LE α] [DecidableLE α]

def sub [Sub α] (a b : α) : Except Fault α :=
  if b ≤ a then pure (a - b) else throw .underflow

-- For numbers that wrap around, a sum is too large exactly if it is smaller than its parts.
def add [Add α] (a b : α) : Except Fault α :=
  if a ≤ a + b then pure (a + b) else throw .overflow

theorem sub_of_le [Sub α] {a b : α} (h : b ≤ a) : sub a b = pure (a - b) :=
  if_pos h

theorem add_of_le [Add α] {a b : α} (h : a ≤ a + b) : add a b = pure (a + b) :=
  if_pos h

end Arithmetic

-- A number that is to be stored where there is only room for those below `limit`.
def fit (limit n : Nat) : Except Fault Nat :=
  if n < limit then pure n else throw .overflow

-- Accesses to the first `n` cells of a store.
def load (m : Nat → β) (n i : Nat) : Except Fault β :=
  if i < n then pure (m i) else throw .bounds

def store (m : Nat → β) (n i : Nat) (b : β) : Except Fault (Nat → β) :=
  if i < n then pure (Function.update m i b) else throw .bounds

-- Copies a whole area.
def fill (m : Nat → β) (n a : Nat) (l : List β) : Except Fault (Nat → β) :=
  if a + l.length ≤ n then pure (Store.write m a l) else throw .bounds

-- Accesses to a list.
def item (l : List β) (i : Nat) (b : β) : Except Fault β :=
  if i < l.length then pure (l.getD i b) else throw .bounds

def slice (l : List β) (o n : Nat) : Except Fault (List β) :=
  if o + n ≤ l.length then pure (l.drop o |>.take n) else throw .bounds

section

variable {m : Nat → β} {l : List β} {b : β} {limit n i a o : Nat}

theorem fit_of_lt (h : n < limit) : fit limit n = pure n :=
  if_pos h

theorem load_of_lt (h : i < n) : load m n i = pure (m i) :=
  if_pos h

theorem store_of_lt (h : i < n) : store m n i b = pure (Function.update m i b) :=
  if_pos h

theorem fill_of_le (h : a + l.length ≤ n) : fill m n a l = pure (Store.write m a l) :=
  if_pos h

theorem item_of_lt (h : i < l.length) : item l i b = pure (l.getD i b) :=
  if_pos h

theorem slice_of_le (h : o + n ≤ l.length) : slice l o n = pure (l.drop o |>.take n) :=
  if_pos h

end

-- Loops without a fault in any of their iterations.
theorem foldlM_eq_pure {f : β → α → Except Fault β} {g : β → α → β} {b : β} {l : List α}
    (h : ∀ b, ∀ a ∈ l, f b a = pure (g b a)) : l.foldlM f b = pure (l.foldl g b) := by
  induction l generalizing b
  case nil => rfl
  case cons a l hi =>
    rw [List.foldlM_cons, h b a List.mem_cons_self, pure_bind, List.foldl_cons]
    exact hi fun b a ha => h b a <| List.mem_cons_of_mem _ ha

theorem mapM_eq_pure {f : α → Except Fault β} {g : α → β} {l : List α}
    (h : ∀ a ∈ l, f a = pure (g a)) : l.mapM f = pure (l.map g) := by
  induction l
  case nil => rfl
  case cons a l hi =>
    have ht := hi fun a ha => h a <| List.mem_cons_of_mem _ ha
    rw [List.mapM_cons, h a List.mem_cons_self, pure_bind, ht]
    rfl

-- The first element of a list with a property.
def findM (f : α → Except Fault Bool) : List α → Except Fault (Option α)
  | []     => pure none
  | a :: l => do
    if (← f a) then
      return some a
    else
      findM f l

theorem findM_eq_pure {f : α → Except Fault Bool} {g : α → Bool} {l : List α}
    (h : ∀ a ∈ l, f a = pure (g a)) : findM f l = pure (l.find? g) := by
  induction l
  case nil => rfl
  case cons a l hi =>
    rw [findM, h a List.mem_cons_self, pure_bind, List.find?_cons]
    cases g a
    case true  => rfl
    case false => exact hi fun a ha => h a <| List.mem_cons_of_mem _ ha

-- Machines with such steps.
def feed (step : σ → ι → Except Fault (σ × Option ο)) (s : σ) : List ι → Except Fault (σ × List ο)
  | []      => pure (s, [])
  | i :: is => do
    let r ← step s i
    let rs ← feed step r.1 is
    return (rs.1, r.2.toList ++ rs.2)

-- If an invariant rules out the faults, the machine runs like the one that does not notice them.
theorem feed_eq_pure {step' : σ → ι → Except Fault (σ × Option ο)} {step : σ → ι → σ × Option ο}
    {P : σ → Prop} {Q : ι → Prop} {s : σ} {is : List ι} (h : P s) (hq : ∀ i ∈ is, Q i)
    (hs : ∀ {s i}, P s → Q i → step' s i = pure (step s i) ∧ P (step s i).1) :
    feed step' s is = pure (Mealy.feed step s is) := by
  induction is generalizing s
  case nil => rfl
  case cons i is hi =>
    have ⟨he, hp⟩ := hs h (hq i List.mem_cons_self)
    rw [feed, he, pure_bind, hi hp fun i hm => hq i <| List.mem_cons_of_mem _ hm]
    rfl

end Checked
