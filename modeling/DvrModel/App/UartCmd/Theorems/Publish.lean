import DvrModel.App.UartCmd.Theorems.Text
import Mathlib.Data.List.Forall2

namespace App.UartCmd

-- A text as its sender has it.
structure Text extends Partial where
  known  : type = 1 ∨ type = 2
  ne_nil : text ≠ []

-- The ways of putting the rest of a text into payloads. Only the last one has the state 1.
inductive Continues : List UInt8 → List (List UInt8) → Prop
  | last : chunk ≠ [] → Continues chunk [1 :: chunk]
  | more : state ≠ 1 → chunk ≠ [] → Continues rest ps →
    Continues (chunk ++ rest) ((state :: chunk) :: ps)

-- The ways of putting a whole text into payloads, the first of which has the header.
inductive Text.Splits (t : Text) : List (List UInt8) → Prop
  | whole : t.Splits [1 :: t.flag :: t.type :: t.text]
  | parts : state ≠ 1 → chunk ≠ [] → Continues rest ps → t.text = chunk ++ rest →
    t.Splits ((state :: t.flag :: t.type :: chunk) :: ps)

open Reassembly

variable {t : Text} {ts : List Text} {ps qs : List (List UInt8)} {pss : List (List (List UInt8))}
  {p : Partial}

theorem Continues.feed (h : Continues rest ps) :
    Mealy.feed accept (some p) ps = (none, [{ p with text := p.text ++ rest }.call]) ∧
    Mealy.Along accept Fits (some p) ps := by
  induction h generalizing p
  case last hc => exact ⟨rfl, .next hc, trivial⟩
  case more chunk _ _ hs hc _ hi =>
    have ⟨hf, ha⟩ := hi (p := { p with text := p.text ++ chunk })
    rw [Mealy.feed_cons, Mealy.Along, accept, close, if_neg hs, hf, List.append_assoc]
    exact ⟨rfl, .next hc, ha⟩

theorem Text.Splits.feed (h : t.Splits ps) :
    Mealy.feed accept none ps = (none, [t.call]) ∧ Mealy.Along accept Fits none ps := by
  cases h
  case whole => exact ⟨rfl, .first t.known t.ne_nil, trivial⟩
  case parts chunk _ _ hs hc hr ht =>
    have ⟨hf, ha⟩ := hr.feed (p := ⟨t.flag, t.type, chunk⟩)
    rw [Mealy.feed_cons, Mealy.Along, accept, close, if_neg hs, hf, ←ht]
    exact ⟨rfl, .first t.known hc, ha⟩

theorem Reassembly.feed_flatten (h : List.Forall₂ Text.Splits ts pss) :
    Mealy.feed accept none pss.flatten = (none, ts.map (·.call)) ∧
    Mealy.Along accept Fits none pss.flatten := by
  induction h
  case nil => exact ⟨rfl, trivial⟩
  case cons ht _ hi =>
    have ⟨hf, ha⟩ := ht.feed
    rw [List.flatten_cons, Mealy.feed_append, Mealy.along_append, hf, hi.left]
    exact ⟨rfl, ha, hi.right⟩

-- After each payload, as many texts have been published as have been completed.
theorem Reassembly.feed_prefix (h : List.Forall₂ Text.Splits ts pss) (hq : qs <+: pss.flatten) :
    (Mealy.feed accept none qs).2 = (ts.take (qs.countP IsLast)).map (·.call) ∧
    Mealy.Along accept Fits none qs := by
  have ⟨hf, ha⟩ := feed_flatten h
  have ⟨rs, hrs⟩ := hq
  rw [←hrs, Mealy.along_append] at ha
  rw [←hrs, Mealy.feed_append, Prod.mk.injEq] at hf
  refine ⟨?_, ha.left⟩
  rw [List.map_take, ←length_feed ha.left, ←hf.right, List.take_left]

namespace Message

variable {m : Message} {ms l : List Message} {bs rest : List UInt8}

-- How far a stream of bytes has got with the messages `ms`: it has got through those in `l`, and of
-- the next one there is only a part.
structure Reaches (bs : List UInt8) (ms l : List Message) (rest : List UInt8) : Prop where
  messages : l <+: ms
  bytes    : bs = encode l ++ rest
  longest  : ∀ m, l ++ [m] <+: ms → ¬m.frame.data <+: rest

theorem encode_cons : encode (m :: ms) = m.frame.data ++ encode ms :=
  rfl

theorem Reaches.cons (h : Reaches bs ms l rest) :
    Reaches (m.frame.data ++ bs) (m :: ms) (m :: l) rest where
  messages := List.cons_prefix_cons.mpr ⟨rfl, h.messages⟩
  bytes    := by rw [h.bytes, encode_cons, List.append_assoc]
  longest  := fun _ hl => h.longest _ (List.cons_prefix_cons.mp hl).right

theorem Reaches.start (h : ¬m.frame.data <+: bs) : Reaches bs (m :: ms) [] bs where
  messages := List.nil_prefix
  bytes    := rfl
  longest  := fun _ hl => (List.cons_prefix_cons.mp hl).left ▸ h

theorem exists_reaches (h : bs <+: encode ms) :
    ∃ l rest, Reaches bs ms l rest ∧
      Mealy.feed Candidate.step [] bs = (rest, l.map (.frame ·.frame)) := by
  induction ms generalizing bs
  case nil =>
    have hb : bs = [] := List.prefix_nil.mp h
    exact ⟨[], [], ⟨List.prefix_rfl, hb, by simp⟩, by rw [hb]; rfl⟩
  case cons m ms hi =>
    rw [encode_cons] at h
    by_cases hd : m.frame.data <+: bs
    case pos =>
      have ⟨bs', hb⟩ := hd
      rw [←hb, List.prefix_append_right_inj] at h
      have ⟨l, rest, hr, hf⟩ := hi h
      refine ⟨m :: l, rest, hb ▸ hr.cons, ?_⟩
      rw [←hb, Mealy.feed_append, m.whole.feed_eq, hf, frame_eq]
      rfl
    case neg =>
      have hb : bs <+: m.frame.data :=
        (List.prefix_or_prefix_of_prefix h (List.prefix_append ..)).resolve_right hd
      have hl : bs.length < m.frame.data.length := by
        by_contra hl
        exact hd (hb.eq_of_length_le (Nat.not_lt.mp hl) ▸ List.prefix_rfl)
      refine ⟨[], bs, .start hd, ?_⟩
      rw [List.prefix_iff_eq_take.mp hb]
      exact m.whole.feed_take hl

theorem Reaches.eq_of_all (h : Reaches bs ms l rest) (hb : bs = encode ms) : l = ms := by
  have ⟨ms', hm⟩ := h.messages
  cases ms'
  case nil => rw [←hm, List.append_nil]
  case cons m ms' =>
    rw [h.bytes, ←hm, encode, encode, List.map_append, List.flatten_append] at hb
    have hr : rest = encode (m :: ms') := List.append_cancel_left hb
    have hl : l ++ [m] <+: ms := ⟨ms', by rw [←hm]; simp⟩
    exact absurd (hr ▸ encode_cons ▸ List.prefix_append ..) (h.longest m hl)

end Message

theorem textPayloads_prefix {ms l : List Message} (h : l <+: ms) : textPayloads l <+: textPayloads ms :=
  (h.filter _).map _

-- What has become of the texts `ts`, which are sent with the payloads `pss`, once the messages in `l`
-- have been handled. As many of them have been published as last fragments have been among the messages,
-- and nothing is left over after any of the texts.
structure Published (ts : List Text) (pss : List (List (List UInt8))) (l : List Message) (s : Assembly)
    (calls : List LcdCall) : Prop where
  calls_eq : calls = (ts.take ((textPayloads l).countP IsLast)).map (·.call)
  shows    : ∀ c ∈ calls.getLast?, Assembly.Shows s.display c
  idle     : ∀ k, textPayloads l = (pss.take k).flatten →
    calls = (ts.take k).map (·.call) ∧ s.assemLen = 0

theorem Assembly.published {s : Assembly} {ms l : List Message} (h₀ : s.assemLen = 0)
    (hs : List.Forall₂ Text.Splits ts pss) (hm : textPayloads ms = pss.flatten) (hl : l <+: ms) :
    Published ts pss l (s.handleAll (l.map (.frame ·.frame))).1
      (s.handleAll (l.map (.frame ·.frame))).2 := by
  have ⟨ho, ha⟩ := feed_prefix hs (hm ▸ textPayloads_prefix hl)
  have ⟨hc, hr⟩ := Rep.feed (q := none) h₀ ha
  constructor
  case calls_eq => rw [hc, ho]
  case shows    => exact handleAll_shows _ (by rw [h₀]; exact Nat.zero_le _)
  case idle     =>
    intro k hk
    have hf := (feed_flatten (List.forall₂_take k hs)).left
    rw [hk, hf] at hc hr
    exact ⟨hc, hr⟩

namespace Command

def Action.receiver : Action → Receiver.Action
  | .push byte => .push byte
  | .poll      => .poll

-- The texts depend on the receiver's events only, not on how they are spread over the polls.
theorem run_eq (c : Command) (as : List Action) :
    (c.run as).1.receiver = (c.receiver.run (as.map Action.receiver)).1 ∧
    ((c.run as).1.assembly, (c.run as).2) =
      c.assembly.handleAll (c.receiver.run (as.map Action.receiver)).2 := by
  induction as generalizing c
  case nil => exact ⟨rfl, rfl⟩
  case cons a as hi =>
    have ⟨hr, ha⟩ := hi (c.act a).1
    cases a
    case push byte => exact ⟨hr, ha⟩
    case poll =>
      refine ⟨hr, ?_⟩
      rw [Prod.mk.injEq] at ha
      simp only [run, List.map_cons, Receiver.run, Action.receiver, Assembly.handleAll,
        Mealy.feed_append]
      rw [ha.left, ha.right]
      rfl

-- The bytes that the polls of a run have processed.
def popped (c : Command) (as : List Action) : List UInt8 :=
  c.receiver.popped (as.map Action.receiver)

-- Texts that arrive in fragments, with other frames in between, are published one by one in their
-- order, each with its last fragment.
theorem texts_published (c : Command) (as : List Action) (ms : List Message)
    (hi : c.receiver.ring.Inv) (hx : c.receiver.parser.index = 0) (h₀ : c.assembly.assemLen = 0)
    (hs : List.Forall₂ Text.Splits ts pss) (hm : textPayloads ms = pss.flatten)
    (hp : c.popped as <+: Message.encode ms) :
    (∃ l rest, Message.Reaches (c.popped as) ms l rest ∧
      Published ts pss l (c.run as).1.assembly (c.run as).2) ∧
    (c.popped as = Message.encode ms →
      (c.run as).2 = ts.map (·.call) ∧ (c.run as).1.assembly.assemLen = 0) ∧
    (c.run (as ++ [.poll])).1.receiver.ring.count = 0 := by
  have ⟨l, rest, hl, hf⟩ := Message.exists_reaches hp
  have he := (Receiver.run_eq (as.map Action.receiver) hi hx).left
  have hr := (c.run_eq as).right
  rw [show Mealy.feed Candidate.step [] (c.receiver.popped _) = _ from hf] at he
  rw [he] at hr
  have hd := Assembly.published h₀ hs hm hl.messages
  rw [←hr] at hd
  refine ⟨⟨l, rest, hl, hd⟩, fun ha => ?_, ?_⟩
  case refine_1 =>
    have ht := hd.idle pss.length
    rw [hl.eq_of_all ha, List.take_length, ←hs.length_eq, List.take_length] at ht
    exact ht hm
  case refine_2 =>
    rw [(c.run_eq _).left, List.map_append]
    exact Receiver.run_poll_drained _ hi

-- A text in two fragments, between which the SOC reports its status, and a second one in one piece.
def greetings : List Text :=
  [⟨⟨0x01, 2, [0x48, 0x69]⟩, by decide, by decide⟩, ⟨⟨0x00, 1, [0x4F]⟩, by decide, by decide⟩]

def greetingPayloads : List (List (List UInt8)) :=
  [[[0, 0x01, 2, 0x48], [1, 0x69]], [[1, 0x00, 1, 0x4F]]]

def greetingMessages : List Message :=
  [⟨textFrameType, [0, 0x01, 2, 0x48], isKnownType_text, by decide⟩,
    ⟨typeSocStatus, [0xAA, 0x55], isKnownType_status, by decide⟩,
    ⟨textFrameType, [1, 0x69], isKnownType_text, by decide⟩,
    ⟨textFrameType, [1, 0x00, 1, 0x4F], isKnownType_text, by decide⟩]

def greetingActions : List Action :=
  let bytes : List Action := (Message.encode greetingMessages).map .push
  bytes.take 15 ++ [.poll] ++ bytes.drop 15 ++ [.poll]

theorem greetings_split : List.Forall₂ Text.Splits greetings greetingPayloads :=
  have hc : ([0x48] : List UInt8) ≠ [] := by decide
  .cons (.parts (by decide) hc (.last (by decide)) rfl) <| .cons .whole .nil

theorem texts_published_greetings :
    (init.run greetingActions).2 = [⟨0x01, 2, [0x48, 0x69]⟩, ⟨0x00, 1, [0x4F]⟩] ∧
    (init.run greetingActions).1.assembly.assemLen = 0 := by
  have hp : init.popped greetingActions = Message.encode greetingMessages := by decide +kernel
  have h := texts_published init greetingActions greetingMessages Ring.Inv.init rfl rfl greetings_split
    (by decide) (hp ▸ List.prefix_rfl)
  exact h.right.left hp

end Command

end App.UartCmd
