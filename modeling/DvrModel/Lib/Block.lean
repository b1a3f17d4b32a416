import DvrModel.Lib.Circular

-- Blocks that are copied into circular buffers and out of them.
namespace Circular

variable {β : Type} {buf : Nat → β} {cap tail start count k n : Nat} {b : β} {q bs bs₁ bs₂ : List β}

-- The elements that remain when only the latest `cap` are kept.
def latest (cap : Nat) (q : List β) : List β :=
  q.drop (q.length - cap)

@[simp]
theorem length_latest : (latest cap q).length = min q.length cap := by
  rw [latest, List.length_drop]
  omega

theorem latest_of_le (h : q.length ≤ cap) : latest cap q = q := by
  rw [latest, Nat.sub_eq_zero_of_le h, List.drop_zero]

theorem latest_latest_append : latest cap (latest cap q ++ bs) = latest cap (q ++ bs) := by
  rw [latest, latest, latest, List.length_append, List.length_append, List.length_drop]
  by_cases h : q.length ≤ cap
  case pos => simp [Nat.sub_eq_zero_of_le h]
  case neg =>
    rw [←List.drop_append_of_le_length (by omega), List.drop_drop]
    congr 1
    omega

theorem latest_append_latest : latest cap (q ++ latest cap bs) = latest cap (q ++ bs) := by
  by_cases h : bs.length ≤ cap
  case pos => rw [latest_of_le h]
  case neg =>
    have hl : (latest cap bs).length = cap := by rw [length_latest, Nat.min_eq_right (Nat.le_of_not_le h)]
    have hd : ∀ bs' : List β, cap ≤ bs'.length → latest cap (q ++ bs') = latest cap bs' := by
      intro bs' hb
      rw [latest, List.length_append, List.drop_append, List.drop_eq_nil_of_le (by omega), List.nil_append,
        latest]
      congr 1
      omega
    rw [hd _ (Nat.le_of_eq hl.symm), hd _ (Nat.le_of_not_le h), latest_of_le (Nat.le_of_eq hl)]

-- A block that is written from a cell on, as far as the cells go and then from the first one on.
def write (buf : Nat → β) (cap start : Nat) : List β → Nat → β
  | []      => buf
  | b :: bs => write (Function.update buf (start % cap) b) cap (start + 1) bs

theorem write_append : write buf cap start (bs₁ ++ bs₂) =
    write (write buf cap start bs₁) cap (start + bs₁.length) bs₂ := by
  induction bs₁ generalizing buf start
  case nil => rfl
  case cons b bs hi =>
    rw [List.cons_append, write, hi, write, List.length_cons, Nat.add_assoc, Nat.add_comm 1]

theorem write_mod : write buf cap (start % cap) bs = write buf cap start bs := by
  induction bs generalizing buf start
  case nil => rfl
  case cons b bs hi => rw [write, write, Nat.mod_mod, ←hi, Nat.mod_add_mod, hi]

-- The elements of a queue of at most `cap` elements are in the cells from `tail` on.
structure Cells (buf : Nat → β) (cap tail : Nat) (q : List β) : Prop where
  tail_lt   : tail < cap
  length_le : q.length ≤ cap
  window    : Circular.window buf cap tail q.length = q

namespace Cells

theorem nil (h : tail < cap) : Cells buf cap tail [] :=
  ⟨h, Nat.zero_le _, rfl⟩

theorem pop (h : Cells buf cap tail (b :: q)) : buf tail = b ∧ Cells buf cap ((tail + 1) % cap) q := by
  have hw := h.window
  rw [List.length_cons, window_pop, Nat.mod_eq_of_lt h.tail_lt] at hw
  injection hw with hb hq
  exact ⟨hb, Nat.mod_lt _ <| Nat.zero_lt_of_lt h.tail_lt, Nat.le_of_succ_le h.length_le, hq⟩

theorem drop (h : Cells buf cap tail q) (hn : n ≤ q.length) :
    Cells buf cap ((tail + n) % cap) (q.drop n) := by
  induction n generalizing tail q
  case zero => rwa [Nat.add_zero, Nat.mod_eq_of_lt h.tail_lt]
  case succ n hi =>
    cases q
    case nil => contradiction
    case cons b q =>
      have hd := hi h.pop.right <| Nat.le_of_succ_le_succ hn
      rwa [Nat.mod_add_mod, Nat.add_assoc, Nat.add_comm 1] at hd

-- What is read from the cells on is the beginning of the queue.
theorem take (h : Cells buf cap tail q) (hn : n ≤ q.length) :
    Circular.window buf cap tail n = q.take n := by
  induction n generalizing tail q
  case zero => rfl
  case succ n hi =>
    cases q
    case nil => contradiction
    case cons b q =>
      have ⟨hb, hc⟩ := h.pop
      rw [window_pop, Nat.mod_eq_of_lt h.tail_lt, hb, List.take_succ_cons, hi hc <| Nat.le_of_succ_le_succ hn]

-- One element more. In a full buffer it takes the cell of the oldest one.
theorem push (h : Cells buf cap tail q) (b : β) :
    Cells (Function.update buf ((tail + q.length) % cap) b) cap ((tail + (q.length + 1 - cap)) % cap)
      (latest cap (q ++ [b])) := by
  have hp := Nat.zero_lt_of_lt h.tail_lt
  by_cases hlt : q.length < cap
  case pos =>
    have hle : (q ++ [b]).length ≤ cap := by rwa [List.length_append]
    rw [latest_of_le hle, Nat.sub_eq_zero_of_le hlt, Nat.add_zero, Nat.mod_eq_of_lt h.tail_lt]
    refine ⟨h.tail_lt, hle, ?_⟩
    rw [List.length_append, List.length_singleton, window_push hlt, h.window]
  case neg =>
    have hl : q.length = cap := Nat.le_antisymm h.length_le <| Nat.not_lt.mp hlt
    clear hlt
    cases q
    case nil => exact absurd hl <| Nat.ne_of_lt hp
    case cons b' q =>
      have hc : q.length + 1 = cap := hl
      have hq : latest cap (b' :: q ++ [b]) = q ++ [b] := by simp [latest, ←hc]
      have ht : (tail + 1 + q.length) % cap = (tail + (q.length + 1)) % cap := by
        congr 1
        omega
      rw [hq, List.length_cons, ←ht, hc, Nat.add_sub_cancel_left]
      refine ⟨Nat.mod_lt _ hp, Nat.le_of_eq <| by simpa using hc, ?_⟩
      have hw : Circular.window (Function.update buf (((tail + 1) % cap + q.length) % cap) b) cap
        ((tail + 1) % cap) (q.length + 1) = _ := window_push (Nat.lt_of_succ_le <| Nat.le_of_eq hc) b
      rw [Nat.mod_add_mod] at hw
      rw [List.length_append, List.length_singleton, hw, h.pop.right.window]

-- A whole block, of any length.
theorem write (h : Cells buf cap tail q) (bs : List β) :
    Cells (Circular.write buf cap (tail + q.length) bs) cap ((tail + (q.length + bs.length - cap)) % cap)
      (latest cap (q ++ bs)) := by
  induction bs generalizing buf tail q
  case nil =>
    rw [List.append_nil, latest_of_le h.length_le, List.length_nil, Nat.add_zero,
      Nat.sub_eq_zero_of_le h.length_le, Nat.add_zero, Nat.mod_eq_of_lt h.tail_lt]
    exact h
  case cons b bs hi =>
    have hc := hi (h.push b)
    rw [latest_latest_append, length_latest, List.length_append, List.length_singleton, ←write_mod,
      Nat.mod_add_mod, Nat.mod_add_mod, write_mod, List.append_assoc, List.singleton_append] at hc
    rw [List.length_cons, Circular.write]
    have hl := h.length_le
    have h₁ : tail + (q.length + 1 - cap) + min (q.length + 1) cap = tail + q.length + 1 := by omega
    have h₂ : tail + (q.length + 1 - cap) + (min (q.length + 1) cap + bs.length - cap) =
        tail + (q.length + (bs.length + 1) - cap) := by omega
    rwa [h₁, h₂] at hc

end Cells

-- Copies of adjacent cells.
theorem window_add :
    window buf cap tail (k + n) = window buf cap tail k ++ window buf cap ((tail + k) % cap) n := by
  induction k generalizing tail
  case zero => simp [window]
  case succ k hi =>
    rw [Nat.add_right_comm, window_pop, hi, window_pop, List.cons_append, Nat.mod_add_mod, Nat.add_assoc tail,
      Nat.add_comm 1]

end Circular
