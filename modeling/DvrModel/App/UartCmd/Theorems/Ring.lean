import DvrModel.App.UartCmd.Theorems.Receiver

open Circular (Op Reply queueStep accepted popped)

namespace App.UartCmd

namespace Ring

variable {r : Ring} {q : List UInt8}

-- The two calls with what they return.
def act (r : Ring) : Op UInt8 → Ring × Option (Op UInt8 × Reply UInt8)
  | .push byte => ((r.push byte).1, some (.push byte, .pushed (r.push byte).2))
  | .pop       =>
    match r.pop with
    | none            => (r, some (.pop, .popped none))
    | some (byte, r') => (r', some (.pop, .popped (some byte)))

-- The ring holds the elements of the queue.
structure Holds (r : Ring) (q : List UInt8) : Prop where
  inv  : r.Inv
  list : r.toList = q

theorem Holds.init : Holds .init [] :=
  ⟨.init, rfl⟩

theorem Holds.count_eq (h : r.Holds q) : r.count = q.length := by
  rw [←h.list, length_toList]

theorem Holds.step (h : r.Holds q) (op : Op UInt8) :
    (r.act op).2 = (queueStep rxBufSize q op).2 ∧ (r.act op).1.Holds (queueStep rxBufSize q op).1 := by
  have hc := h.count_eq
  cases op
  case push byte =>
    rw [queueStep, ←hc]
    split
    case isTrue hlt =>
      obtain ⟨hr, hi, hl⟩ := push_of_lt byte h.inv hlt
      exact ⟨by rw [act, hr], hi, by rw [act, hl, h.list]⟩
    case isFalse hge =>
      rw [act, push_of_full (Nat.le_of_not_lt hge)]
      exact ⟨rfl, h⟩
  case pop =>
    cases hp : r.pop
    case none =>
      have hq : q = [] := h.list ▸ pop_none hp
      subst hq
      rw [act, hp]
      exact ⟨rfl, h⟩
    case some v =>
      obtain ⟨byte, r'⟩ := v
      obtain ⟨hi, _, hl⟩ := pop_some h.inv hp
      have hq : q = byte :: r'.toList := h.list ▸ hl
      rw [act, hp, hq]
      exact ⟨rfl, hi, rfl⟩

theorem pop_eq_none_iff : r.pop = none ↔ r.count = 0 := by
  refine ⟨fun h => toList_eq_nil_iff.mp <| pop_none h, fun h => ?_⟩
  rw [pop, if_pos h]

theorem push_refused_iff {byte : UInt8} (h : r.Inv) : (r.push byte).2 = false ↔ r.count = rxBufSize := by
  have hle := h.count_le
  by_cases hf : rxBufSize ≤ r.count
  case pos => exact iff_of_true (by rw [push_of_full hf]) (Nat.le_antisymm hle hf)
  case neg =>
    have ha := (push_of_lt byte h (Nat.lt_of_not_le hf)).left
    exact iff_of_false (by simp [ha]) fun he => hf (Nat.le_of_eq he.symm)

end Ring

-- The ring behaves like a queue of its size. Pushes are refused only by a full ring and without effect,
-- and pops fail only if it is empty.
theorem ring_refines_queue (ops : List (Op UInt8)) :
    (Mealy.feed Ring.act .init ops).2 = (Mealy.feed (queueStep 4096) [] ops).2 ∧
    popped (Mealy.feed Ring.act .init ops).2 ++ (Mealy.feed Ring.act .init ops).1.toList =
      accepted (Mealy.feed Ring.act .init ops).2 ∧
    ∀ r, (Mealy.feed Ring.act .init ops).1 = r →
      r.toList = (Mealy.feed (queueStep 4096) [] ops).1 ∧
      (r.count ≤ 4096 ∧ r.head = (r.tail + r.count) % 4096) ∧
      (∀ byte, ((r.push byte).2 = false ↔ r.count = 4096) ∧
        ((r.push byte).2 = false → (r.push byte).1 = r)) ∧
      (r.pop = none ↔ r.count = 0) := by
  have ⟨ho, hr⟩ : (Mealy.feed Ring.act .init ops).2 = (Mealy.feed (queueStep 4096) [] ops).2 ∧
      (Mealy.feed Ring.act .init ops).1.Holds (Mealy.feed (queueStep 4096) [] ops).1 :=
    Mealy.feed_sim Ring.Holds .init fun {_ _ op} h => h.step op
  refine ⟨ho, ?_, ?_⟩
  case refine_1 =>
    rw [ho, hr.list]
    exact Circular.popped_append_queue ops
  case refine_2 =>
    intro r he
    rw [he] at hr
    refine ⟨hr.list, ⟨hr.inv.count_le, hr.inv.head_eq⟩, fun byte => ⟨Ring.push_refused_iff hr.inv, ?_⟩,
      Ring.pop_eq_none_iff⟩
    intro hf
    rw [Ring.push_of_full (Nat.le_of_eq <| Ring.push_refused_iff hr.inv |>.mp hf |>.symm)]

end App.UartCmd
