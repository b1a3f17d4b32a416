import DvrModel.App.UartCmd.Service
import DvrModel.App.UartCmd.Theorems.Receiver

namespace App.UartCmd

variable {n size : Nat} {fifo bs : List UInt8} {byte : UInt8}

namespace Ring

variable {r : Ring}

-- The bytes that get into the ring.
def accept (r : Ring) : List UInt8 → List UInt8
  | []         => []
  | byte :: bs => (if (r.push byte).2 then [byte] else []) ++ accept (r.push byte).1 bs

-- Bytes that are put behind the `k` oldest cells. The counter of the ring need not be `k`.
structure Spans (r : Ring) (k : Nat) (q : List UInt8) : Prop where
  tail_lt : r.tail < rxBufSize
  head_eq : r.head = (r.tail + k) % rxBufSize
  cells   : Circular.window r.buf rxBufSize r.tail k = q

theorem Spans.push {k : Nat} {q : List UInt8} (h : r.Spans k q) (hk : k < rxBufSize)
    (hc : r.count < rxBufSize) : (r.push byte).1.Spans (k + 1) (q ++ [byte]) := by
  rw [Ring.push, if_neg (Nat.not_le.mpr hc)]
  refine ⟨h.tail_lt, ?_, ?_⟩
  case refine_1 =>
    show (r.head + 1) % rxBufSize = (r.tail + (k + 1)) % rxBufSize
    rw [h.head_eq, Nat.mod_add_mod, Nat.add_assoc]
  case refine_2 =>
    show Circular.window (Function.update r.buf r.head byte) _ _ _ = _
    rw [h.head_eq, Circular.window_push hk, h.cells]

theorem Spans.pop {k : Nat} {q : List UInt8} (h : r.Spans (k + 1) q) : ∃ q', q = r.buf r.tail :: q' ∧
    ({ r with tail := (r.tail + 1) % rxBufSize } : Ring).Spans k q' := by
  refine ⟨_, ?_, ⟨Nat.mod_lt _ (by decide), ?_, rfl⟩⟩
  case refine_1 => rw [←h.cells, Circular.window_pop, Nat.mod_eq_of_lt h.tail_lt]
  case refine_2 =>
    rw [h.head_eq, Nat.mod_add_mod]
    congr 1
    omega

theorem count_pushBytes (r : Ring) (bs : List UInt8) : (r.pushBytes bs).count = r.count + (r.accept bs).length := by
  induction bs generalizing r
  case nil => rfl
  case cons b bs hi =>
    rw [pushBytes, List.foldl_cons, ←pushBytes, hi, accept]
    by_cases hc : r.count ≥ rxBufSize
    case pos => simp [push, hc]
    case neg =>
      simp only [push, hc, if_false, if_true, List.length_append, List.length_singleton]
      omega

theorem count_push_le (h : r.count ≤ rxBufSize) : (r.push byte).1.count ≤ rxBufSize := by
  rw [push]
  split
  · exact h
  · exact Nat.lt_of_not_le ‹_›

theorem count_pushBytes_le (h : r.count ≤ rxBufSize) : (r.pushBytes bs).count ≤ rxBufSize := by
  induction bs generalizing r
  case nil => exact h
  case cons b bs hi => exact hi (count_push_le h)

theorem Spans.pushBytes {k : Nat} {q : List UInt8} (h : r.Spans k q)
    (hk : k + (r.accept bs).length ≤ rxBufSize) :
    (r.pushBytes bs).Spans (k + (r.accept bs).length) (q ++ r.accept bs) := by
  induction bs generalizing r k q
  case nil => simpa [accept, Ring.pushBytes] using h
  case cons b bs hi =>
    rw [Ring.pushBytes, List.foldl_cons, ←Ring.pushBytes]
    rw [accept] at hk ⊢
    by_cases hc : r.count < rxBufSize
    case pos =>
      have hp : (r.push b).2 = true := by rw [Ring.push, if_neg (Nat.not_le.mpr hc)]
      rw [if_pos hp, List.length_append, List.length_singleton] at hk
      rw [if_pos hp, List.length_append, List.length_singleton, ←Nat.add_assoc, ←List.append_assoc]
      exact hi (h.push (by omega) hc) (by omega)
    case neg =>
      have hp : r.push b = (r, false) := push_of_full (Nat.not_lt.mp hc)
      rw [hp] at hk ⊢
      exact hi h hk

theorem pushBytes_append {bs' : List UInt8} : r.pushBytes (bs ++ bs') = (r.pushBytes bs).pushBytes bs' :=
  List.foldl_append

end Ring

theorem take_chunk {m : Nat} (fifo : List UInt8) (h : m ≤ size) : fifo.take size =
    fifo.take m ++ (fifo.drop (fifo.take m).length).take (size - (fifo.take m).length) := by
  rcases Nat.le_total m fifo.length with hl | hl
  case inl =>
    rw [List.length_take, Nat.min_eq_left hl, ←List.take_add, Nat.add_sub_cancel' h]
  case inr => simp [List.take_of_length_le hl, List.take_of_length_le (Nat.le_trans hl h)]

-- However the bytes come in chunks, the interrupt puts the first `size` ones into the ring.
theorem rxLoop_eq {r : Ring} (hn : size ≤ n) : rxLoop n r size fifo =
    (r.pushBytes (fifo.take size), decide (fifo.take size ≠ [])) := by
  induction n generalizing r size fifo
  case zero =>
    have hs := Nat.le_zero.mp hn
    subst hs
    rfl
  case succ n hi =>
    have ht := take_chunk fifo (Nat.min_le_left size rxChunk)
    rw [rxLoop]
    by_cases hd : size = 0 ∨ fifo.take (min size rxChunk) = []
    case pos =>
      have hn : fifo.take size = [] := by
        rcases hd with hs | hf
        case inl => rw [hs, List.take_zero]
        case inr =>
          rcases List.take_eq_nil_iff.mp hf with hm | hf
          case inl => simp [show size = 0 by simp [rxChunk] at hm; exact hm]
          case inr => rw [hf, List.take_nil]
      simp only [if_pos hd, hn]
      rfl
    case neg =>
      have ⟨_, hc⟩ := not_or.mp hd
      have hl : 0 < (fifo.take (min size rxChunk)).length := List.length_pos_iff.mpr hc
      simp only [if_neg hd]
      rw [hi (by omega), ht, Ring.pushBytes_append]
      simp [hc]

namespace Service

variable {s : Service}

-- What has happened to the bytes so far: those that have got into the ring, those that have been taken out
-- again, and those that have come between the two halves of `ring->count--`, so that the store of the old
-- value has made the counter forget them.
structure History where
  accepted  : List UInt8
  popped    : List UInt8
  forgotten : Nat
  events    : List Event

namespace History

def init : History where
  accepted  := []
  popped    := []
  forgotten := 0
  events    := []

def observe (h : History) (s : Service) : Action → History
  | .rx size fifo =>
    { h with
      accepted  := h.accepted ++ s.ring.accept (fifo.take size)
      forgotten :=
        match s.pc with
        | .store _ _ => h.forgotten + (s.ring.accept (fifo.take size)).length
        | _          => h.forgotten }
  | .thread       =>
    { h with
      popped :=
        match s.pc with
        | .read => h.popped ++ [s.ring.buf s.ring.tail]
        | _     => h.popped
      events := h.events ++ s.thread.2.toList }

end History

variable {h : History}

def run (p : Service × History) (as : List Action) : Service × History :=
  as.foldl (fun p a => ((p.1.act a).1, p.2.observe p.1 a)) p

-- The number of bytes that are in the ring, whatever the counter says.
def held (s : Service) (h : History) : Nat :=
  match s.pc with
  | .take | .check | .read => s.ring.count + h.forgotten
  | .load _                => s.ring.count - 1 + h.forgotten
  | .store _ count         => count - 1 + h.forgotten

-- The byte that has been taken out, but not yet been given to the parser.
def Pc.inHand : Pc → List UInt8
  | .load byte | .store byte _ => [byte]
  | _                          => []

-- Where the thread has seen that the counter is not zero.
def Pc.Positive (count : Nat) : Pc → Prop
  | .read | .load _ => 0 < count
  | .store _ count  => 0 < count
  | _               => True

structure Inv (s : Service) (h : History) : Prop where
  ring   : ∃ q, s.ring.Spans (held s h) q ∧ h.accepted = h.popped ++ q
  parser : ∃ bs, h.popped = bs ++ Pc.inHand s.pc ∧
    Mealy.feed Parser.parseByte .init bs = (s.parser, h.events)
  asleep : s.AtRest → s.ring.count = 0
  pos    : Pc.Positive s.ring.count s.pc

theorem Inv.init : Inv .init .init where
  ring   := ⟨[], ⟨by decide, rfl, rfl⟩, rfl⟩
  parser := ⟨[], rfl, rfl⟩
  asleep := fun _ => rfl
  pos    := trivial

theorem rxIndicate_eq : s.rxIndicate size fifo =
    { s with
      ring := s.ring.pushBytes (fifo.take size)
      sem  := if fifo.take size = [] then s.sem else min (s.sem + 1) semValueMax } := by
  rw [rxIndicate, rxLoop_eq (Nat.le_refl _)]
  by_cases hf : fifo.take size = [] <;> simp [hf]

-- An interrupt adds to what is held just what gets into the ring, at whatever point it comes.
theorem held_rx (hi : Inv s h) : held (s.rxIndicate size fifo) (h.observe s (.rx size fifo)) =
    held s h + (s.ring.accept (fifo.take size)).length := by
  have hp := hi.pos
  rw [rxIndicate_eq]
  cases hc : s.pc <;> simp only [hc, Pc.Positive] at hp <;>
    simp only [held, History.observe, hc, Ring.count_pushBytes] <;> omega

theorem Inv.rx (hi : Inv s h)
    (hf : held (s.rxIndicate size fifo) (h.observe s (.rx size fifo)) ≤ rxBufSize) :
    Inv (s.rxIndicate size fifo) (h.observe s (.rx size fifo)) := by
  have ⟨q, hq, ha⟩ := hi.ring
  have hp := hi.pos
  rw [held_rx hi] at hf
  have hq' := hq.pushBytes hf
  rw [←held_rx hi] at hq'
  rw [rxIndicate_eq] at hq' ⊢
  refine ⟨⟨_, hq', by simp [History.observe, ha]⟩, hi.parser, ?_, ?_⟩
  case refine_1 =>
    intro ⟨hc, hs⟩
    have hr := hi.asleep
    by_cases hn : fifo.take size = []
    case pos =>
      simp only [hn, if_true] at hs ⊢
      exact hr ⟨hc, hs⟩
    case neg =>
      simp only [hn, if_false, semValueMax] at hs
      omega
  case refine_2 =>
    have hk := Ring.count_pushBytes s.ring (fifo.take size)
    cases hc : s.pc <;> simp only [hc, Pc.Positive] at hp ⊢ <;> omega

-- Each access of the thread.
theorem Inv.thread (hi : Inv s h) : Inv s.thread.1 (h.observe s .thread) := by
  have ⟨q, hq, ha⟩ := hi.ring
  have ⟨bs, hb, hf⟩ := hi.parser
  have hp := hi.pos
  cases hc : s.pc
  case take =>
    by_cases hz : s.sem = 0
    case pos =>
      have ht : s.thread = (s, none) := by simp [Service.thread, hc, hz]
      have ho : h.observe s .thread = h := by simp [History.observe, hc, ht]
      rw [ht, ho]
      exact hi
    case neg =>
      have ht : s.thread = ({ s with sem := s.sem - 1, pc := .check }, none) := by
        simp [Service.thread, hc, hz]
      have ho : h.observe s .thread = h := by simp [History.observe, hc, ht]
      rw [held, hc] at hq
      rw [hc] at hb
      rw [ht, ho]
      exact ⟨⟨q, hq, ha⟩, ⟨bs, hb, hf⟩, fun ⟨hc, _⟩ => (by cases hc), trivial⟩
  case check =>
    rw [held, hc] at hq
    rw [hc] at hb
    by_cases hz : s.ring.count = 0
    case pos =>
      have ht : s.thread = ({ s with pc := .take }, none) := by simp [Service.thread, hc, hz]
      have ho : h.observe s .thread = h := by simp [History.observe, hc, ht]
      rw [ht, ho]
      exact ⟨⟨q, hq, ha⟩, ⟨bs, hb, hf⟩, fun _ => hz, trivial⟩
    case neg =>
      have ht : s.thread = ({ s with pc := .read }, none) := by simp [Service.thread, hc, hz]
      have ho : h.observe s .thread = h := by simp [History.observe, hc, ht]
      rw [ht, ho]
      exact ⟨⟨q, hq, ha⟩, ⟨bs, hb, hf⟩, fun ⟨hc, _⟩ => (by cases hc), Nat.pos_of_ne_zero hz⟩
  case read =>
    rw [hc] at hb hp
    have hk : held s h = s.ring.count - 1 + h.forgotten + 1 := by
      simp only [Pc.Positive] at hp
      simp only [held, hc]
      omega
    rw [hk] at hq
    have ⟨q', hq', hr⟩ := hq.pop
    have ht : s.thread = ({ s with
      ring := { s.ring with tail := (s.ring.tail + 1) % rxBufSize }
      pc   := .load (s.ring.buf s.ring.tail) }, none) := by simp [Service.thread, hc]
    have ho : h.observe s .thread = { h with popped := h.popped ++ [s.ring.buf s.ring.tail] } := by
      simp [History.observe, hc, ht]
    rw [ht, ho]
    refine ⟨⟨q', hr, ?_⟩, ⟨bs, ?_, hf⟩, fun ⟨hc, _⟩ => (by cases hc), hp⟩
    · simp [ha, hq']
    · simpa [Pc.inHand] using hb
  case load byte =>
    rw [held, hc] at hq
    rw [hc] at hb hp
    have ht : s.thread = ({ s with pc := .store byte s.ring.count }, none) := by
      simp [Service.thread, hc]
    have ho : h.observe s .thread = h := by simp [History.observe, hc, ht]
    rw [ht, ho]
    exact ⟨⟨q, hq, ha⟩, ⟨bs, hb, hf⟩, fun ⟨hc, _⟩ => (by cases hc), hp⟩
  case store byte count =>
    rw [held, hc] at hq
    rw [hc] at hb
    have ht : s.thread = ({ s with
      ring   := { s.ring with count := count - 1 }
      parser := (s.parser.parseByte byte).1
      pc     := .check }, (s.parser.parseByte byte).2) := by simp [Service.thread, hc]
    have ho : h.observe s .thread =
        { h with events := h.events ++ (s.parser.parseByte byte).2.toList } := by
      simp [History.observe, hc, ht]
    rw [ht, ho]
    refine ⟨⟨q, ⟨hq.tail_lt, hq.head_eq, hq.cells⟩, ha⟩, ⟨bs ++ [byte], ?_, ?_⟩, ?_, trivial⟩
    · simpa [Pc.inHand] using hb
    · rw [Mealy.feed_concat, hf]
    · exact fun ⟨hc, _⟩ => by cases hc

-- At no time there are more bytes in the ring than it has cells.
def Fits (p : Service × History) : List Action → Prop
  | []      => True
  | a :: as => held (run p [a]).1 (run p [a]).2 ≤ rxBufSize ∧ Fits (run p [a]) as

theorem Inv.ran {p : Service × History} {as : List Action} (hi : Inv p.1 p.2) (hf : Fits p as) :
    Inv (Service.run p as).1 (Service.run p as).2 := by
  induction as generalizing p
  case nil => exact hi
  case cons a as ih =>
    refine ih (p := Service.run p [a]) ?_ hf.right
    cases a
    case rx size fifo => exact hi.rx hf.left
    case thread => exact hi.thread

-- What the thread has to do before it comes to rest.
def work (s : Service) : Nat :=
  match s.pc with
  | .take          => 2 * s.sem + 4 * s.ring.count
  | .check         => 2 * s.sem + 4 * s.ring.count + 1
  | .read          => 2 * s.sem + 4 * s.ring.count
  | .load _        => 2 * s.sem + 4 * s.ring.count - 1
  | .store _ count => 2 * s.sem + 4 * count - 2

-- Left alone, the thread makes progress with every access until it is at rest.
theorem work_thread (hi : Inv s h) (hr : ¬s.AtRest) : s.thread.1.work < s.work := by
  have hp := hi.pos
  cases hc : s.pc <;> rw [hc] at hp
  case take =>
    have hz : s.sem ≠ 0 := fun hz => hr ⟨hc, hz⟩
    simp only [thread, hc, hz, if_false, work]
    omega
  case check =>
    by_cases hz : s.ring.count = 0
    case pos =>
      simp only [thread, hc, hz, if_true, work]
      omega
    case neg =>
      simp only [thread, hc, hz, if_false, work]
      omega
  all_goals
    simp only [Pc.Positive] at hp
    simp only [thread, hc, work]
    omega

theorem run_append {p : Service × History} {as bs : List Action} : run p (as ++ bs) = run (run p as) bs :=
  List.foldl_append

-- Without further interrupts the thread comes to rest.
theorem Inv.rests (hi : Inv s h) : ∃ n ≤ s.work, ∃ s' h',
    Service.run (s, h) (List.replicate n .thread) = (s', h') ∧ s'.AtRest ∧ Inv s' h' ∧
    h'.accepted = h.accepted ∧ h'.forgotten = h.forgotten := by
  generalize hw : s.work = w
  induction w using Nat.strongRecOn generalizing s h
  case ind w ih =>
    by_cases hr : s.AtRest
    case pos => exact ⟨0, Nat.zero_le _, s, h, rfl, hr, hi, rfl, rfl⟩
    case neg =>
      have hl := work_thread hi hr
      have ⟨n, hn, s', h', hs⟩ := ih _ (hw ▸ hl) hi.thread rfl
      exact ⟨n + 1, by omega, s', h', hs⟩

-- What is left at rest are the bytes that the counter has forgotten.
theorem Inv.at_rest (hi : Inv s h) (hr : s.AtRest) : ∃ stuck, h.accepted = h.popped ++ stuck ∧
    stuck.length = h.forgotten ∧ Mealy.feed Parser.parseByte .init h.popped = (s.parser, h.events) := by
  have ⟨q, hq, ha⟩ := hi.ring
  have ⟨bs, hb, hf⟩ := hi.parser
  simp only [hr.left, Pc.inHand, List.append_nil] at hb
  simp only [held, hr.left] at hq
  refine ⟨q, ha, ?_, hb ▸ hf⟩
  rw [←hq.cells, Circular.length_window, hi.asleep hr, Nat.zero_add]

-- Interrupts may come at any time, with any number of bytes. When they cease, the thread comes to rest; it
-- has then parsed, in their order, all bytes that have got into the ring but the last ones, and there are as
-- many of these as have come between the two halves of a `ring->count--`. They stay in the ring until others
-- push them forward.
theorem settles (as : List Action) (hf : Fits (.init, .init) as) : ∃ n stuck,
    (run (.init, .init) (as ++ List.replicate n .thread)).1.AtRest ∧
    (run (.init, .init) as).2.accepted =
      (run (.init, .init) (as ++ List.replicate n .thread)).2.popped ++ stuck ∧
    stuck.length = (run (.init, .init) as).2.forgotten ∧
    (run (.init, .init) (as ++ List.replicate n .thread)).2.events =
      (Mealy.feed Candidate.step [] (run (.init, .init) (as ++ List.replicate n .thread)).2.popped).2 := by
  have hi := Inv.ran (p := (.init, .init)) .init hf
  have ⟨n, _, s', h', hr, ha, hi', hc, hg⟩ := hi.rests
  have ⟨stuck, hp, hl, he⟩ := hi'.at_rest ha
  have hs : run (.init, .init) (as ++ List.replicate n .thread) = (s', h') := run_append.trans hr
  have hc' := (Parser.Rep.idle (p := .init) rfl).feed h'.popped
  rw [he] at hc'
  refine ⟨n, stuck, ?_⟩
  rw [hs]
  exact ⟨ha, hc ▸ hp, hl.trans hg, hc'.left⟩

-- The second interrupt comes between the two halves.
def interrupted : List Action :=
  [.rx 1 [0xAA], .thread, .thread, .thread, .thread, .rx 2 [0x06, 0x01]]

theorem settles_interrupted : ∃ n stuck,
    (run (.init, .init) (interrupted ++ List.replicate n .thread)).1.AtRest ∧
    (run (.init, .init) interrupted).2.accepted =
      (run (.init, .init) (interrupted ++ List.replicate n .thread)).2.popped ++ stuck ∧
    stuck.length = (run (.init, .init) interrupted).2.forgotten ∧
    (run (.init, .init) (interrupted ++ List.replicate n .thread)).2.events =
      (Mealy.feed Candidate.step []
        (run (.init, .init) (interrupted ++ List.replicate n .thread)).2.popped).2 :=
  settles interrupted ⟨by decide, by decide, by decide, by decide, by decide, by decide, trivial⟩

example : (run (.init, .init) interrupted).2.forgotten = 2 := by decide

-- The counter, and the value of it that is about to be written back.
structure Counted (s : Service) : Prop where
  count : s.ring.count ≤ rxBufSize
  store : ∀ byte count, s.pc = .store byte count → count ≤ rxBufSize

theorem Counted.act (hs : Counted s) (a : Action) : Counted (s.act a).1 := by
  have ⟨hn, hst⟩ := hs
  cases a
  case rx size fifo =>
    rw [Service.act, rxIndicate_eq]
    exact ⟨Ring.count_pushBytes_le hn, hst⟩
  case thread =>
    cases hc : s.pc
    case take =>
      by_cases hz : s.sem = 0
      case pos => simpa only [Service.act, Service.thread, hc, hz, if_true] using hs
      case neg =>
        simp only [Service.act, Service.thread, hc, hz, if_false]
        exact ⟨hn, nofun⟩
    case check =>
      by_cases hz : s.ring.count = 0
      case pos =>
        simp only [Service.act, Service.thread, hc, hz, if_true]
        exact ⟨hn, nofun⟩
      case neg =>
        simp only [Service.act, Service.thread, hc, hz, if_false]
        exact ⟨hn, nofun⟩
    case read =>
      simp only [Service.act, Service.thread, hc]
      exact ⟨hn, nofun⟩
    case load byte =>
      simp only [Service.act, Service.thread, hc]
      refine ⟨hn, fun _ _ he => ?_⟩
      injection he with _ he
      exact he ▸ hn
    case store byte count =>
      simp only [Service.act, Service.thread, hc]
      exact ⟨Nat.le_trans (Nat.sub_le ..) <| hst _ _ hc, nofun⟩

theorem Counted.held_le (hs : Counted s) (hf : h.forgotten = 0) : held s h ≤ rxBufSize := by
  have hn := hs.count
  cases hc : s.pc <;> simp only [held, hc, hf] <;> try omega
  case store byte count => exact Nat.le_trans (Nat.sub_le ..) <| hs.store _ _ hc

theorem forgotten_le (p : Service × History) (as : List Action) :
    p.2.forgotten ≤ (run p as).2.forgotten := by
  induction as generalizing p
  case nil => exact Nat.le_refl _
  case cons a as ih =>
    refine Nat.le_trans ?_ <| ih _
    cases a
    case rx size fifo =>
      cases hc : p.1.pc <;> simp only [History.observe, hc, Nat.le_refl, Nat.le_add_right]
    case thread => exact Nat.le_refl _

-- As long as no interrupt comes between the two halves, the ring cannot hold too much.
theorem Counted.fits {p : Service × History} {as : List Action} (hs : Counted p.1)
    (hf : (run p as).2.forgotten = 0) : Fits p as := by
  induction as generalizing p
  case nil => trivial
  case cons a as ih =>
    have hf' : (run (run p [a]) as).2.forgotten = 0 := hf
    exact ⟨(hs.act a).held_le <| Nat.le_zero.mp <| hf' ▸ forgotten_le (run p [a]) as, ih (hs.act a) hf⟩

-- No wake-up is lost: if no interrupt comes between the two halves, everything that gets into the ring is
-- parsed, without waiting for any byte to come after it.
theorem settles_all (as : List Action) (hf : (run (.init, .init) as).2.forgotten = 0) : ∃ n,
    (run (.init, .init) (as ++ List.replicate n .thread)).1.AtRest ∧
    (run (.init, .init) (as ++ List.replicate n .thread)).2.events =
      (Mealy.feed Candidate.step [] (run (.init, .init) as).2.accepted).2 := by
  have hfit := Counted.fits (p := (.init, .init)) ⟨by decide, nofun⟩ hf
  have hi := Inv.ran (p := (.init, .init)) .init hfit
  have ⟨n, _, s', h', hr, ha, hi', hc, hg⟩ := hi.rests
  have ⟨stuck, hp, hl, he⟩ := hi'.at_rest ha
  have hn : stuck = [] := List.eq_nil_of_length_eq_zero <| hl.trans <| hg.trans hf
  have hs : run (.init, .init) (as ++ List.replicate n .thread) = (s', h') := run_append.trans hr
  have hc' := (Parser.Rep.idle (p := .init) rfl).feed h'.popped
  rw [he] at hc'
  refine ⟨n, ?_⟩
  rw [hs, ←hc, hp, hn, List.append_nil]
  exact ⟨ha, hc'.left⟩

theorem settles_all_between : ∃ n,
    (run (.init, .init) ([.rx 1 [0xAA], .thread, .rx 2 [0x06, 0x01]] ++ List.replicate n .thread)).1.AtRest ∧
    (run (.init, .init) ([.rx 1 [0xAA], .thread, .rx 2 [0x06, 0x01]] ++
      List.replicate n .thread)).2.events = (Mealy.feed Candidate.step []
        (run (.init, .init) [.rx 1 [0xAA], .thread, .rx 2 [0x06, 0x01]]).2.accepted).2 :=
  settles_all [.rx 1 [0xAA], .thread, .rx 2 [0x06, 0x01]] (by decide)

end Service

end App.UartCmd
