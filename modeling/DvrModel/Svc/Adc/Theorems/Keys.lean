import DvrModel.Lib.Debounce
import DvrModel.Lib.Run
import DvrModel.Svc.Adc.Basic

namespace Svc.Adc

variable {s : State} {acts : List Action} {a : Action} {k j : Key} {raw : UInt32}

namespace State

-- The flag of a key.
def event (s : State) : Key → Bool
  | .s1 => s.s1Event
  | .s2 => s.s2Event
  | .s3 => s.s3Event
  | .s4 => s.s4Event

theorem event_setEvent (key : Option Key) : (s.setEvent key).event k = (s.event k || key == some k) := by
  rcases key with _ | (_ | _ | _ | _) <;> cases k <;> simp [setEvent, event]

@[simp]
theorem keyLast_setEvent (key : Option Key) : (s.setEvent key).keyLast = s.keyLast := by
  rcases key with _ | (_ | _ | _ | _) <;> rfl

@[simp]
theorem keyCandidate_setEvent (key : Option Key) : (s.setEvent key).keyCandidate = s.keyCandidate := by
  rcases key with _ | (_ | _ | _ | _) <;> rfl

theorem consumeEvent_result : (s.consumeEvent k).2 = s.event k := by
  cases k <;> rfl

theorem event_consumeEvent : (s.consumeEvent k).1.event j = (s.event j && j != k) := by
  cases k <;> cases j <;> simp [consumeEvent, consumeS1Event, consumeS2Event, consumeS3Event,
    consumeS4Event, event]

@[simp]
theorem keyLast_consumeEvent : (s.consumeEvent k).1.keyLast = s.keyLast := by
  cases k <;> rfl

@[simp]
theorem keyCandidate_consumeEvent : (s.consumeEvent k).1.keyCandidate = s.keyCandidate := by
  cases k <;> rfl

-- A sample that differs from the candidate only replaces it.
theorem sampleUpdate_of_ne (h : decodeKey raw ≠ s.keyCandidate) : s.sampleUpdate raw =
    { s with rawKey := raw, keyCandidate := decodeKey raw, keyConfirm := 0 } :=
  if_neg h

-- A sample that equals it counts as a confirmation, and one of them is enough.
theorem one_le_confirm (c : UInt8) : 1 ≤ if c < 2 then c + 1 else c := by
  split
  case isTrue h =>
    have h : c.toNat < 2 := UInt8.lt_iff_toNat_lt.mp h
    have hs : (c + 1).toNat = c.toNat + 1 := by
      rw [UInt8.toNat_add]
      exact Nat.mod_eq_of_lt (by simp; omega)
    rw [UInt8.le_iff_toNat_le, hs]
    exact Nat.le_add_left 1 _
  case isFalse h =>
    exact UInt8.le_trans (by decide) (UInt8.not_lt.mp h)

def confirmed (s : State) (raw : UInt32) : State :=
  { s with rawKey := raw, keyConfirm := if s.keyConfirm < 2 then s.keyConfirm + 1 else s.keyConfirm }

theorem sampleUpdate_of_eq (h : decodeKey raw = s.keyCandidate) : s.sampleUpdate raw =
    if decodeKey raw = s.keyLast then
      s.confirmed raw
    else
      setEvent { s.confirmed raw with keyLast := decodeKey raw } (decodeKey raw) := by
  have hc : (if s.keyConfirm < 2 then { s with rawKey := raw, keyConfirm := s.keyConfirm + 1 }
      else { s with rawKey := raw }) = s.confirmed raw := by
    rw [confirmed]
    split <;> rfl
  have h₁ : (s.confirmed raw).keyConfirm ≥ 1 := one_le_confirm s.keyConfirm
  have hl : (s.confirmed raw).keyLast = s.keyLast := rfl
  rw [sampleUpdate, updateKeyEvents, if_pos h, hc, ←ite_not]
  simp only [h₁, hl, true_and, ne_eq, not_not]

@[simp]
theorem keyCandidate_sampleUpdate : (s.sampleUpdate raw).keyCandidate = decodeKey raw := by
  by_cases h : decodeKey raw = s.keyCandidate
  case neg => rw [sampleUpdate_of_ne h]
  case pos =>
    rw [sampleUpdate_of_eq h]
    split
    case isTrue  => exact h.symm
    case isFalse => exact (keyCandidate_setEvent _).trans h.symm

theorem keyLast_sampleUpdate : (s.sampleUpdate raw).keyLast =
    if decodeKey raw = s.keyCandidate then decodeKey raw else s.keyLast := by
  split
  case isFalse h => rw [sampleUpdate_of_ne h]
  case isTrue h =>
    rw [sampleUpdate_of_eq h]
    split
    case isTrue hl => exact hl.symm
    case isFalse   => exact keyLast_setEvent _

-- The flags are set by a change of the key.
theorem event_sampleUpdate : (s.sampleUpdate raw).event k = true ↔
    (s.keyLast ≠ some k ∧ (s.sampleUpdate raw).keyLast = some k) ∨ s.event k = true := by
  rw [keyLast_sampleUpdate]
  by_cases h : decodeKey raw = s.keyCandidate
  case neg =>
    rw [if_neg h, sampleUpdate_of_ne h]
    exact ⟨.inr, fun hc => hc.elim (fun hl => absurd hl.right hl.left) id⟩
  case pos =>
    rw [if_pos h, sampleUpdate_of_eq h]
    split
    case isTrue hl =>
      rw [←hl]
      exact ⟨.inr, fun hc => hc.elim (fun hl => absurd hl.right hl.left) id⟩
    case isFalse hl =>
      rw [event_setEvent, Bool.or_eq_true, beq_iff_eq, or_comm]
      refine or_congr_left ⟨fun hk => ⟨hk ▸ Ne.symm hl, hk⟩, And.right⟩

end State

-- The keys that have been decoded from the samples, the latest one first.
def decoded (acts : List Action) : List (Option Key) :=
  (acts.filterMap fun
    | .sample raw => some (decodeKey raw)
    | .consume _  => none).reverse

-- The key of the latest sample, and the debounced one.
def sampled (acts : List Action) : Option Key :=
  (decoded acts).headD none

def debounced (acts : List Action) : Option Key :=
  Debounce.settled none (decoded acts)

@[simp]
theorem decoded_concat_sample : decoded (acts ++ [.sample raw]) = decodeKey raw :: decoded acts := by
  simp [decoded]

@[simp]
theorem decoded_concat_consume : decoded (acts ++ [.consume k]) = decoded acts := by
  simp [decoded]

theorem decoded_append (l r : List Action) : decoded (l ++ r) = decoded r ++ decoded l := by
  simp [decoded]

theorem length_decoded_cons_sample :
    (decoded (.sample raw :: acts)).length = (decoded acts).length + 1 := by
  simp [decoded]

theorem debounced_concat_sample : debounced (acts ++ [.sample raw]) =
    if decodeKey raw = sampled acts then decodeKey raw else debounced acts := by
  rw [debounced, decoded_concat_sample]
  rfl

-- The debounced key has become `k`.
def Pressed (k : Key) (acts : List Action) (a : Action) : Prop :=
  debounced acts ≠ some k ∧ debounced (acts ++ [a]) = some k

-- The state after some actions.
def after (acts : List Action) : State :=
  (Mealy.feed step .init acts).1

theorem after_concat : after (acts ++ [a]) = (step (after acts) a).1 := by
  rw [after, Mealy.feed_concat]
  rfl

structure Tracks (acts : List Action) (s : State) : Prop where
  candidate : s.keyCandidate = sampled acts
  last      : s.keyLast = debounced acts
  event     : ∀ k, s.event k = true ↔ Lts.Since (Pressed k) (· = .consume k) acts

theorem Tracks.init : Tracks [] .init where
  candidate := rfl
  last      := rfl
  event     := fun k => iff_of_false (by cases k <;> exact Bool.false_ne_true) Lts.not_since_nil

theorem Tracks.step (h : Tracks acts s) (a : Action) : Tracks (acts ++ [a]) (step s a).1 := by
  cases a
  case sample raw =>
    have hl : (s.sampleUpdate raw).keyLast = debounced (acts ++ [.sample raw]) := by
      rw [State.keyLast_sampleUpdate, debounced_concat_sample, h.candidate, h.last]
    refine ⟨?_, hl, fun k => ?_⟩
    case refine_1 =>
      rw [sampled, decoded_concat_sample]
      exact State.keyCandidate_sampleUpdate
    case refine_2 =>
      rw [Lts.since_concat, Pressed, ←h.last, ←hl, ←h.event k]
      exact State.event_sampleUpdate.trans <| or_congr_right ⟨fun h => ⟨by simp, h⟩, And.right⟩
  case consume j =>
    refine ⟨?_, ?_, fun k => ?_⟩
    case refine_1 =>
      rw [sampled, decoded_concat_consume]
      exact State.keyCandidate_consumeEvent.trans h.candidate
    case refine_2 =>
      rw [debounced, decoded_concat_consume]
      exact State.keyLast_consumeEvent.trans h.last
    case refine_3 =>
      have hp : ¬Pressed k acts (.consume j) := by
        rw [Pressed, debounced, debounced, decoded_concat_consume]
        exact fun hp => hp.left hp.right
      rw [Lts.since_concat, or_iff_right hp, ←h.event k]
      show (s.consumeEvent j).1.event k = true ↔ _
      rw [State.event_consumeEvent, Bool.and_eq_true, and_comm, bne_iff_ne, ne_comm,
        Action.consume.injEq]

theorem tracks_after (acts : List Action) : Tracks acts (after acts) :=
  Mealy.feed_invariant (P := fun acts _ s => Tracks acts s) .init (.of_forall fun _ _ => trivial)
    fun {_ _ _ a} _ h => h.step a

-- How often the calls for a key return true.
def events (k : Key) (s : State) (acts : List Action) : Nat :=
  (Mealy.feed step s acts).2.count (k, true)

theorem events_cons_sample :
    events k s (.sample raw :: acts) = events k (s.sampleUpdate raw) acts := rfl

theorem events_cons_consume : events k s (.consume j :: acts) =
    (if j = k ∧ s.event k = true then 1 else 0) + events k (s.consumeEvent j).1 acts := by
  rw [events, Mealy.feed_cons, List.count_append, step, events, State.consumeEvent_result]
  congr 1
  by_cases hj : j = k
  case pos => subst hj; cases s.event j <;> simp
  case neg => simp [hj]

-- Only one key is sampled.
def Held (k : Key) (acts : List Action) : Prop :=
  ∀ raw, .sample raw ∈ acts → decodeKey raw = some k

theorem Held.tail (h : Held k (a :: acts)) : Held k acts :=
  fun raw hr => h raw (List.mem_cons_of_mem _ hr)

-- While the key is pressed already, holding it keeps what there is.
theorem events_of_pressed (hl : s.keyLast = some k) (hc : s.keyCandidate = some k) (h : Held k acts) :
    events k s (acts ++ [.consume k]) = if s.event k = true then 1 else 0 := by
  induction acts generalizing s
  case nil =>
    rw [List.nil_append, events_cons_consume]
    simp [events]
  case cons a acts hi =>
    cases a
    case sample raw =>
      have hd := h raw List.mem_cons_self
      have hu := State.sampleUpdate_of_eq (hd.trans hc.symm)
      rw [hd, hl, if_pos rfl] at hu
      rw [List.cons_append, events_cons_sample, hu]
      exact hi (s := s.confirmed raw) hl hc h.tail
    case consume j =>
      rw [List.cons_append, events_cons_consume, hi (by simpa using hl) (by simpa using hc) h.tail,
        State.event_consumeEvent]
      by_cases hj : j = k
      case pos => subst hj; simp
      case neg => simp [hj, Ne.symm hj]

-- If it is not, the second sample of it is the one that counts.
theorem events_of_held (hl : s.keyLast ≠ some k) (he : s.event k = false) (h : Held k acts)
    (hn : 2 ≤ (decoded acts).length + if s.keyCandidate = some k then 1 else 0) :
    events k s (acts ++ [.consume k]) = 1 := by
  induction acts generalizing s
  case nil =>
    split at hn <;> simp [decoded] at hn
  case cons a acts hi =>
    cases a
    case sample raw =>
      have hd := h raw List.mem_cons_self
      rw [List.cons_append, events_cons_sample]
      by_cases hc : s.keyCandidate = some k
      case pos =>
        have hu : (s.sampleUpdate raw).keyLast = some k := by
          rw [State.keyLast_sampleUpdate, if_pos (hd.trans hc.symm), hd]
        have he : (s.sampleUpdate raw).event k = true :=
          State.event_sampleUpdate.mpr <| .inl ⟨hl, hu⟩
        rw [events_of_pressed hu (State.keyCandidate_sampleUpdate.trans hd) h.tail, if_pos he]
      case neg =>
        rw [State.sampleUpdate_of_ne (hd ▸ Ne.symm hc)]
        rw [if_neg hc, length_decoded_cons_sample] at hn
        apply hi ?last ?event h.tail ?count
        case last  => exact hl
        case event => exact he
        case count => rw [if_pos hd]; exact hn
    case consume j =>
      rw [List.cons_append, events_cons_consume, if_neg (by simp [he]), Nat.zero_add]
      refine hi (by simpa using hl) (by simp [State.event_consumeEvent, he]) h.tail ?_
      rw [State.keyCandidate_consumeEvent]
      exact hn

-- A sample that differs from the one before leaves the flags alone.
theorem event_of_differing (h : decodeKey raw ≠ sampled acts) :
    (after (acts ++ [.sample raw])).event = (after acts).event := by
  have hc : decodeKey raw ≠ (after acts).keyCandidate := (tracks_after acts).candidate ▸ h
  rw [after_concat, step, State.sampleUpdate_of_ne hc]
  rfl

-- The service debounces the keys and delivers their events. A sample between two differing ones has no
-- effect on the flags, and a key that is held gives one event however it is polled.
theorem key_events (acts : List Action) :
    ((after acts).isAnyKeyPressed = true ↔ debounced acts ≠ none) ∧
    (∀ k, ((after acts).consumeEvent k).2 = true ↔ Lts.Since (Pressed k) (· = .consume k) acts) ∧
    (∀ raw calls raw',
      decodeKey raw ≠ sampled acts → decoded calls = [] → decodeKey raw' ≠ decodeKey raw →
      (after (acts ++ [.sample raw])).event = (after acts).event ∧
      (after (acts ++ .sample raw :: calls ++ [.sample raw'])).event =
        (after (acts ++ .sample raw :: calls)).event) ∧
    (∀ k held, debounced acts ≠ some k → Held k held → 2 ≤ (decoded held).length →
      events k (after (acts ++ [.consume k])) (held ++ [.consume k]) = 1) := by
  have ht := tracks_after acts
  refine ⟨?_, fun k => ?_, ?_, ?_⟩
  case refine_1 => rw [State.isAnyKeyPressed, ht.last, decide_eq_true_iff]
  case refine_2 => rw [State.consumeEvent_result, ht.event k]
  case refine_3 =>
    intro raw calls raw' h hc h'
    refine ⟨event_of_differing h, event_of_differing ?_⟩
    rw [sampled, ←List.concat_append, decoded_append, hc, List.concat_eq_append, decoded_concat_sample]
    exact h'
  case refine_4 =>
    intro k held hd hh hn
    rw [after_concat]
    apply events_of_held ?last ?event hh (Nat.le_add_right_of_le hn)
    case last =>
      show (State.consumeEvent _ k).1.keyLast ≠ _
      rw [State.keyLast_consumeEvent, ht.last]
      exact hd
    case event =>
      show (State.consumeEvent _ k).1.event k = _
      simp [State.event_consumeEvent]

end Svc.Adc
