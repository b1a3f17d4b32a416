import DvrModel.Lib.Mealy
import Mathlib.Data.List.Basic
import Mathlib.Data.Nat.ModEq
import Mathlib.Logic.Function.Basic

-- Circular buffers.
namespace Circular

variable {β : Type} {buf : Nat → β} {cap tail count : Nat}

-- The `count` cells from `tail` on, in a buffer that wraps after `cap` cells.
def window (buf : Nat → β) (cap tail count : Nat) : List β :=
  (List.range count).map fun i => buf ((tail + i) % cap)

@[simp]
theorem length_window : (window buf cap tail count).length = count := by
  simp [window]

-- As long as the buffer is not full, the cell behind the window is not part of it.
theorem window_push (h : count < cap) (b : β) :
    window (Function.update buf ((tail + count) % cap) b) cap tail (count + 1) =
      window buf cap tail count ++ [b] := by
  have hne : ∀ i < count, (tail + i) % cap ≠ (tail + count) % cap := by
    intro i hi he
    have hm : tail + i ≡ tail + count [MOD cap] := he
    have := Nat.ModEq.add_left_cancel' tail hm
    exact Nat.ne_of_lt hi <| Nat.ModEq.eq_of_lt_of_lt this (Nat.lt_trans hi h) h
  rw [window, List.range_succ, List.map_append, List.map_singleton, Function.update_self]
  congr 1
  refine List.map_congr_left fun i hi => Function.update_of_ne (hne i ?_) ..
  exact List.mem_range.mp hi

theorem window_pop : window buf cap tail (count + 1) =
    buf (tail % cap) :: window buf cap ((tail + 1) % cap) count := by
  rw [window, List.range_succ_eq_map, List.map_cons, List.map_map, Nat.add_zero]
  congr 1
  refine List.map_congr_left fun i _ => ?_
  show buf ((tail + (i + 1)) % cap) = buf (((tail + 1) % cap + i) % cap)
  rw [Nat.mod_add_mod, Nat.add_assoc, Nat.add_comm 1]

-- The operations of a queue and what they return.
inductive Op (β : Type)
  | push (b : β)
  | pop

inductive Reply (β : Type)
  | pushed (accepted : Bool)
  | popped (b : Option β)

-- A queue of bounded capacity. A push that finds it full is refused.
def queueStep (cap : Nat) (q : List β) : Op β → List β × Option (Op β × Reply β)
  | .push b =>
    if q.length < cap then
      (q ++ [b], some (.push b, .pushed true))
    else
      (q, some (.push b, .pushed false))
  | .pop    =>
    match q with
    | []     => ([], some (.pop, .popped none))
    | b :: q => (q, some (.pop, .popped (some b)))

-- The elements that have been accepted, and those that have been handed out again.
def accepted (log : List (Op β × Reply β)) : List β :=
  log.filterMap fun
    | (.push b, .pushed true) => some b
    | _                       => none

def popped (log : List (Op β × Reply β)) : List β :=
  log.filterMap fun
    | (.pop, .popped b) => b
    | _                 => none

theorem queueStep_conserves {cap : Nat} {q : List β} (op : Op β) :
    popped (queueStep cap q op).2.toList ++ (queueStep cap q op).1 =
      q ++ accepted (queueStep cap q op).2.toList := by
  cases op
  case push b =>
    rw [queueStep]
    split
    case isTrue  => rfl
    case isFalse => simp [popped, accepted]
  case pop =>
    cases q
    case nil  => rfl
    case cons => simp [queueStep, popped, accepted]

-- Nothing is lost or duplicated, and the order is kept.
theorem popped_append_queue {cap : Nat} (ops : List (Op β)) :
    popped (Mealy.feed (queueStep cap) [] ops).2 ++ (Mealy.feed (queueStep cap) [] ops).1 =
      accepted (Mealy.feed (queueStep cap) [] ops).2 := by
  refine Mealy.feed_invariant (P := fun _ log q => popped log ++ q = accepted log) rfl
    (.of_forall fun _ _ => trivial) fun {_ log q op} _ h => ?_
  have hs : popped (queueStep cap q op).2.toList ++ _ = q ++ _ := queueStep_conserves op
  rw [popped, accepted, List.filterMap_append, List.filterMap_append, ←popped, ←accepted, ←h,
    List.append_assoc, List.append_assoc]
  exact congrArg _ hs

end Circular
