import DvrModel.App.UartCmd.Receiver
import DvrModel.App.UartCmd.Theorems.Parser

namespace App.UartCmd

namespace Ring

variable {r r' : Ring} {byte : UInt8}

-- The bytes in the ring, the oldest one first.
def toList (r : Ring) : List UInt8 :=
  Circular.window r.buf rxBufSize r.tail r.count

structure Inv (r : Ring) : Prop where
  tail_lt  : r.tail < rxBufSize
  head_eq  : r.head = (r.tail + r.count) % rxBufSize
  count_le : r.count ≤ rxBufSize

theorem Inv.init : Inv .init :=
  ⟨by decide, rfl, by decide⟩

@[simp]
theorem length_toList : r.toList.length = r.count :=
  Circular.length_window

theorem toList_eq_nil_iff : r.toList = [] ↔ r.count = 0 := by
  rw [←List.length_eq_zero_iff, length_toList]

theorem push_of_full (h : rxBufSize ≤ r.count) : r.push byte = (r, false) :=
  if_pos h

theorem push_of_lt (byte : UInt8) (hi : r.Inv) (h : r.count < rxBufSize) :
    (r.push byte).2 = true ∧ (r.push byte).1.Inv ∧ (r.push byte).1.toList = r.toList ++ [byte] := by
  rw [push, if_neg (Nat.not_le.mpr h)]
  refine ⟨rfl, ⟨hi.tail_lt, ?_, h⟩, ?_⟩
  case refine_1 =>
    show (r.head + 1) % rxBufSize = (r.tail + (r.count + 1)) % rxBufSize
    rw [hi.head_eq, Nat.mod_add_mod, Nat.add_assoc]
  case refine_2 =>
    show Circular.window (Function.update r.buf r.head byte) _ _ _ = _
    rw [hi.head_eq]
    exact Circular.window_push h byte

theorem pop_none (h : r.pop = none) : r.toList = [] := by
  unfold pop at h
  split at h
  case isTrue hc  => exact toList_eq_nil_iff.mpr hc
  case isFalse => contradiction

theorem pop_some (hi : r.Inv) (h : r.pop = some (byte, r')) :
    r'.Inv ∧ r'.count + 1 = r.count ∧ r.toList = byte :: r'.toList := by
  unfold pop at h
  split at h
  case isTrue => contradiction
  case isFalse hc =>
    have ⟨n, hn⟩ := Nat.exists_eq_succ_of_ne_zero hc
    cases h
    refine ⟨⟨Nat.mod_lt _ (by decide), ?_, ?_⟩, ?_, ?_⟩
    case refine_1 =>
      show r.head = ((r.tail + 1) % rxBufSize + (r.count - 1)) % rxBufSize
      rw [hi.head_eq, hn, Nat.mod_add_mod]
      congr 1
      omega
    case refine_2 =>
      have := hi.count_le
      show r.count - 1 ≤ rxBufSize
      omega
    case refine_3 =>
      show r.count - 1 + 1 = r.count
      omega
    case refine_4 =>
      rw [toList, hn, Circular.window_pop, Nat.mod_eq_of_lt hi.tail_lt]
      simp [toList]

end Ring

namespace Receiver

variable {r r' r₁ r₂ : Receiver} {bs bs₁ bs₂ : List UInt8} {es es₁ es₂ : List Event}

-- A part of a run in which the bytes `bs` have been taken out of the ring and given to the parser.
structure Took (r : Receiver) (bs : List UInt8) (r' : Receiver) (es : List Event) : Prop where
  inv    : r'.ring.Inv
  ring   : r.ring.toList = bs ++ r'.ring.toList
  parser : Mealy.feed Parser.parseByte r.parser bs = (r'.parser, es)

theorem Took.refl (h : r.ring.Inv) : Took r [] r [] :=
  ⟨h, rfl, rfl⟩

theorem Took.trans (h₁ : Took r bs₁ r₁ es₁) (h₂ : Took r₁ bs₂ r₂ es₂) :
    Took r (bs₁ ++ bs₂) r₂ (es₁ ++ es₂) where
  inv    := h₂.inv
  ring   := by rw [h₁.ring, h₂.ring, List.append_assoc]
  parser := by rw [Mealy.feed_append, h₁.parser, h₂.parser]

theorem Took.pop {ring' : Ring} (hi : r.ring.Inv) (h : r.ring.pop = some (byte, ring')) :
    Took r [byte] { r with ring := ring', parser := (r.parser.parseByte byte).1 }
      (r.parser.parseByte byte).2.toList := by
  have ⟨hi', _, hl⟩ := Ring.pop_some hi h
  exact ⟨hi', hl, by simp [Mealy.feed_cons]⟩

-- How a call of `tryParseFrame` ends: a frame has been found, or there are no bytes left.
def Ended (r' : Receiver) (bs : List UInt8) (es : List Event) : Prop :=
  r'.ring.count = 0 ∧ returned es = none ∨ bs ≠ [] ∧ ∃ f, returned es = some f

theorem returned_cons_forceFinish : returned (.forceFinish :: es) = returned es := by
  cases es <;> rfl

theorem parseLoop_spec (hi : r.ring.Inv) (hn : r.ring.count ≤ n) :
    ∃ bs, Took r bs (parseLoop n r).1 (parseLoop n r).2 ∧
      Ended (parseLoop n r).1 bs (parseLoop n r).2 := by
  induction n generalizing r
  case zero => exact ⟨[], .refl hi, .inl ⟨Nat.le_zero.mp hn, rfl⟩⟩
  case succ n ih =>
    cases hp : r.ring.pop
    case none =>
      have hc := Ring.toList_eq_nil_iff.mp <| Ring.pop_none hp
      rw [parseLoop, hp]
      exact ⟨[], .refl hi, .inl ⟨hc, rfl⟩⟩
    case some v =>
      have ⟨byte, ring'⟩ := v
      have ⟨hi', hc, _⟩ := Ring.pop_some hi hp
      have ht := Took.pop hi hp
      have ⟨bs, ht', he⟩ :=
        ih (r := { r with ring := ring', parser := (r.parser.parseByte byte).1 }) hi'
          (show ring'.count ≤ n by omega)
      rw [parseLoop, hp]
      simp only
      rcases hb : (r.parser.parseByte byte).2 with _ | f | _
      all_goals rw [hb] at ht
      case none =>
        refine ⟨[byte] ++ bs, ht.trans ht', he.imp id fun ⟨_, hf⟩ => ⟨by simp, hf⟩⟩
      case some.frame => exact ⟨[byte], ht, .inr ⟨by simp, f, rfl⟩⟩
      case some.forceFinish =>
        refine ⟨[byte] ++ bs, ht.trans ht', ?_⟩
        rw [Ended, returned_cons_forceFinish]
        exact he.imp id fun ⟨_, hf⟩ => ⟨by simp, hf⟩

theorem tryParseFrame_spec (hi : r.ring.Inv) :
    ∃ bs, Took r bs r.tryParseFrame.1 r.tryParseFrame.2 ∧
      Ended r.tryParseFrame.1 bs r.tryParseFrame.2 :=
  parseLoop_spec hi (Nat.le_refl _)

theorem Took.count_eq (h : Took r bs r' es) : r.ring.count = bs.length + r'.ring.count := by
  simpa using congrArg List.length h.ring

-- Polling empties the ring.
theorem pollLoop_spec (hi : r.ring.Inv) (hn : r.ring.count < n) :
    ∃ bs, Took r bs (pollLoop n r).1 (pollLoop n r).2 ∧ (pollLoop n r).1.ring.count = 0 := by
  induction n generalizing r
  case zero => contradiction
  case succ n ih =>
    have ⟨bs, ht, he⟩ := tryParseFrame_spec hi
    rw [pollLoop]
    cases he
    case inl he =>
      rw [he.right]
      exact ⟨bs, ht, he.left⟩
    case inr he =>
      have ⟨hb, f, hf⟩ := he
      have hc := ht.count_eq
      have hl := List.length_pos_iff.mpr hb
      have ⟨bs', ht', he'⟩ := ih (r := { r.tryParseFrame.1 with lastFrame := f }) ht.inv
        (show r.tryParseFrame.1.ring.count < n by omega)
      rw [hf]
      exact ⟨bs ++ bs', ht.trans ⟨ht'.inv, ht'.ring, ht'.parser⟩, he'⟩

theorem poll_spec (hi : r.ring.Inv) : ∃ bs, Took r bs r.poll.1 r.poll.2 ∧ r.poll.1.ring.count = 0 :=
  pollLoop_spec hi (Nat.lt_succ_self _)

-- The bytes that a call has taken out of the ring.
def taken (r r' : Receiver) : List UInt8 :=
  r.ring.toList.take (r.ring.count - r'.ring.count)

theorem Took.taken_eq (h : Took r bs r' es) : taken r r' = bs := by
  rw [taken, h.count_eq, Nat.add_sub_cancel, h.ring, List.take_left]

-- All bytes that have been taken out of the ring during a run, and all that have got into it.
def popped (r : Receiver) : List Action → List UInt8
  | []               => []
  | .push byte :: as => popped (r.pushByte byte) as
  | .tryParse :: as  => taken r r.tryParseFrame.1 ++ popped r.tryParseFrame.1 as
  | .poll :: as      => taken r r.poll.1 ++ popped r.poll.1 as

def accepted (r : Receiver) : List Action → List UInt8
  | []               => []
  | .push byte :: as => (if (r.ring.push byte).2 then [byte] else []) ++ accepted (r.pushByte byte) as
  | .tryParse :: as  => accepted r.tryParseFrame.1 as
  | .poll :: as      => accepted r.poll.1 as

theorem pushByte_spec (byte : UInt8) (hi : r.ring.Inv) :
    (r.pushByte byte).ring.Inv ∧ (r.pushByte byte).ring.toList =
      r.ring.toList ++ if (r.ring.push byte).2 then [byte] else [] := by
  by_cases h : r.ring.count < rxBufSize
  case pos =>
    have ⟨ht, hi', hl⟩ := Ring.push_of_lt byte hi h
    exact ⟨hi', by rw [ht]; exact hl⟩
  case neg =>
    simp only [pushByte, Ring.push_of_full (Nat.not_lt.mp h)]
    exact ⟨hi, by simp⟩

-- A run as a whole: the ring is a queue, and the parser is fed with what has been taken out of it. How
-- the calls are interleaved is of no importance.
structure Ran (r : Receiver) (as : List Action) : Prop where
  inv    : (r.run as).1.ring.Inv
  ring   : r.ring.toList ++ r.accepted as = r.popped as ++ (r.run as).1.ring.toList
  parser : Mealy.feed Parser.parseByte r.parser (r.popped as) = ((r.run as).1.parser, (r.run as).2)

theorem Took.ran {as : List Action} (h : Took r bs r' es) (hr : Ran r' as) :
    r.ring.toList ++ r'.accepted as = (taken r r' ++ r'.popped as) ++ (r'.run as).1.ring.toList ∧
    Mealy.feed Parser.parseByte r.parser (taken r r' ++ r'.popped as) =
      ((r'.run as).1.parser, es ++ (r'.run as).2) := by
  rw [h.taken_eq, Mealy.feed_append, h.parser, hr.parser, h.ring, List.append_assoc, hr.ring,
    List.append_assoc]
  exact ⟨rfl, rfl⟩

theorem run_spec (as : List Action) (hi : r.ring.Inv) : Ran r as := by
  induction as generalizing r
  case nil => exact ⟨hi, by simp [accepted, popped, run], rfl⟩
  case cons a as ih =>
    cases a
    case push byte =>
      have ⟨hi', hl⟩ := pushByte_spec byte hi
      have hr := ih hi'
      refine ⟨hr.inv, ?_, hr.parser⟩
      rw [accepted, ←List.append_assoc, ←hl]
      exact hr.ring
    case tryParse =>
      have ⟨bs, ht, _⟩ := tryParseFrame_spec hi
      have hr := ih ht.inv
      exact ⟨hr.inv, (ht.ran hr).left, (ht.ran hr).right⟩
    case poll =>
      have ⟨bs, ht, _⟩ := poll_spec hi
      have hr := ih ht.inv
      exact ⟨hr.inv, (ht.ran hr).left, (ht.ran hr).right⟩

-- If every byte is polled for at once, the bytes are taken out as they come.
theorem popped_bytewise {bs : List UInt8} (hi : r.ring.Inv) (hc : r.ring.count = 0) :
    r.popped (bs.flatMap fun byte => [.push byte, .poll]) = bs := by
  induction bs generalizing r
  case nil => rfl
  case cons byte bs ih =>
    have ⟨_, hi', hl⟩ := Ring.push_of_lt byte hi (hc ▸ by decide)
    have ⟨bs', ht, hd⟩ := poll_spec (r := r.pushByte byte) hi'
    have hb : [byte] = bs' := by
      have hr := hl.symm.trans ht.ring
      rwa [Ring.toList_eq_nil_iff.mpr hc, Ring.toList_eq_nil_iff.mpr hd, List.append_nil] at hr
    rw [List.flatMap_cons, List.cons_append, List.cons_append, List.nil_append, popped, popped,
      ht.taken_eq, ih ht.inv hd, ←hb]
    rfl

-- No byte is under way, neither in the ring nor in the parser.
structure Idle (r : Receiver) : Prop where
  inv   : r.ring.Inv
  count : r.ring.count = 0
  index : r.parser.index = 0

theorem Idle.init : Idle .init :=
  ⟨.init, rfl, rfl⟩

-- In a run that starts with an empty ring, the bytes that have been taken out are the first ones that
-- have got in.
theorem Idle.accepted_eq (as : List Action) (h : r.Idle) :
    r.accepted as = r.popped as ++ (r.run as).1.ring.toList := by
  have hr := (run_spec as h.inv).ring
  rwa [Ring.toList_eq_nil_iff.mpr h.count, List.nil_append] at hr

-- The parser of a run does what the parser without array does with the bytes that have been popped.
theorem run_eq (as : List Action) (hi : r.ring.Inv) (hx : r.parser.index = 0) :
    (r.run as).2 = (Mealy.feed Candidate.step [] (r.popped as)).2 ∧
    (r.run as).1.parser.Rep (Mealy.feed Candidate.step [] (r.popped as)).1 := by
  have hf := (Parser.Rep.idle hx).feed (r.popped as)
  rwa [(run_spec as hi).parser] at hf

theorem Idle.run_eq (as : List Action) (h : r.Idle) :
    (r.run as).2 = (Mealy.feed Candidate.step [] (r.popped as)).2 ∧
    (r.run as).1.parser.Rep (Mealy.feed Candidate.step [] (r.popped as)).1 :=
  Receiver.run_eq as h.inv h.index

-- The bytes that a schedule tries to push.
def Action.byte? : Action → Option UInt8
  | .push byte => byte
  | _          => none

def pushed (as : List Action) : List UInt8 :=
  as.filterMap Action.byte?

-- No push finds the ring full.
def NeverFull (r : Receiver) : List Action → Prop
  | []      => True
  | a :: as => (a.byte?.isSome → r.ring.count < rxBufSize) ∧ NeverFull (r.act a).1 as

instance decidableNeverFull (r : Receiver) : (as : List Action) → Decidable (NeverFull r as)
  | []      => isTrue trivial
  | a :: as =>
    have := decidableNeverFull (r.act a).1 as
    inferInstanceAs
      (Decidable <| (a.byte?.isSome → r.ring.count < rxBufSize) ∧ NeverFull (r.act a).1 as)

theorem accepted_eq_pushed (hi : r.ring.Inv) (h : NeverFull r as) : accepted r as = pushed as := by
  induction as generalizing r
  case nil => rfl
  case cons a as ih =>
    cases a
    case push byte =>
      have ht := (Ring.push_of_lt byte hi (h.left rfl)).left
      rw [accepted, ht, ih (pushByte_spec byte hi).left h.right]
      rfl
    case tryParse =>
      have ⟨_, ht, _⟩ := tryParseFrame_spec hi
      exact ih ht.inv h.right
    case poll =>
      have ⟨_, ht, _⟩ := poll_spec hi
      exact ih ht.inv h.right

theorem run_append (as₁ as₂ : List Action) : r.run (as₁ ++ as₂) =
    (((r.run as₁).1.run as₂).1, (r.run as₁).2 ++ ((r.run as₁).1.run as₂).2) := by
  induction as₁ generalizing r
  case nil => simp [run]
  case cons a as ih => simp [run, ih]

theorem neverFull_append {as₁ as₂ : List Action} :
    NeverFull r (as₁ ++ as₂) ↔ NeverFull r as₁ ∧ NeverFull (r.run as₁).1 as₂ := by
  induction as₁ generalizing r
  case nil => simp [NeverFull, run]
  case cons a as ih => simp [NeverFull, run, ih, and_assoc]

end Receiver

end App.UartCmd
