import DvrModel.App.Can.Receive
import DvrModel.Lib.Overwrite

namespace App.Can

open Overwrite

variable {b n : Nat} {msg : RxMsg}

namespace RxFifo

variable {f : RxFifo} {hand : List Nat}

-- The frames in the order in which they wait.
def frames (f : RxFifo) : List RxMsg :=
  f.uselist.map fun n => (f.buffer n).data

-- Every entry is free, in use or in the hands of the thread, and the header list of the device is a copy of
-- the list of those in use.
structure Inv (b : Nat) (hand : List Nat) (f : RxFifo) : Prop where
  entries : (f.freelist ++ (f.uselist ++ hand)).Perm (List.range msgBoxSz)
  number  : f.freenumbers = f.freelist.length
  list    : ∀ h, (f.hdr h).list = if h = b then f.uselist else []
  msgs    : (f.hdr b).msgs = f.uselist.length
  owner   : ∀ n, (f.buffer n).owner = if n ∈ f.uselist then some b else none

theorem Inv.init : Inv b [] init where
  entries := by simp [RxFifo.init]
  number  := by simp [RxFifo.init]
  list h  := by simp [RxFifo.init]
  msgs    := rfl
  owner n := by simp [RxFifo.init]

theorem Inv.nodup (h : f.Inv b hand) : (f.freelist ++ (f.uselist ++ hand)).Nodup :=
  h.entries.nodup_iff.mpr List.nodup_range

theorem Inv.length_eq (h : f.Inv b hand) : f.freelist.length + (f.uselist.length + hand.length) = msgBoxSz := by
  simpa using h.entries.length_eq

theorem Inv.connect (h : f.Inv b hand) : (f.connect b).Inv b hand where
  entries := h.entries
  number  := h.number
  list k  := by
    refine Eq.trans ?_ <| h.list k
    by_cases hk : k = b <;> simp [RxFifo.connect, hk]
  msgs    := by simpa [RxFifo.connect] using h.msgs
  owner   := h.owner

theorem data_unlink {k : Nat} : ((f.unlink n).buffer k).data = (f.buffer k).data := by
  by_cases hk : k = n <;> simp [unlink, hk]

theorem frames_unlink (f : RxFifo) (n : Nat) (use : List Nat) :
    ({ f.unlink n with uselist := use } : RxFifo).frames = use.map fun n => (f.buffer n).data :=
  List.map_congr_left fun _ _ => data_unlink

-- An entry leaves the list of those in use, or has not been part of it.
theorem Inv.unlink (h : f.Inv b hand) (free use : List Nat) (hu : use = f.uselist.erase n)
    (hp : (free ++ (use ++ n :: hand)).Perm (List.range msgBoxSz)) :
    ({ f.unlink n with freelist := free, freenumbers := free.length, uselist := use } : RxFifo).Inv b
      (n :: hand) where
  entries := hp
  number  := rfl
  list k  := by
    have hl := h.list k
    by_cases hk : k = b
    case pos =>
      subst hk
      simpa [RxFifo.unlink, hu] using congrArg (List.erase · n) hl
    case neg =>
      rw [if_neg hk] at hl
      simp [RxFifo.unlink, hl, hk]
  msgs    := by
    have ho := h.owner n
    have hm := h.msgs
    by_cases hn : n ∈ f.uselist
    case pos => simp [RxFifo.unlink, ho, hm, hn, hu, List.length_erase_of_mem hn]
    case neg => simp [RxFifo.unlink, ho, hm, hn, hu, List.erase_of_not_mem hn]
  owner k := by
    have hd : n ∉ use := by
      have hn := (List.nodup_append.mp <| hp.nodup_iff.mpr List.nodup_range).right.left
      exact fun hm => (List.nodup_append.mp hn).right.right _ hm _ List.mem_cons_self rfl
    have ho := h.owner k
    by_cases hk : k = n
    case pos => simp [RxFifo.unlink, hk, hd]
    case neg =>
      have hm : k ∈ use ↔ k ∈ f.uselist := hu ▸ List.mem_erase_of_ne hk
      simp [RxFifo.unlink, hk, ho, hm]

-- An entry has been found for the new frame. Frames only give way if the thread leaves too few entries.
theorem Inv.claim (h : f.Inv b hand) (hh : hand.length ≤ 1) : ∃ n f', f.claim = some (n, f') ∧
    f'.Inv b (n :: hand) ∧ (∀ k, (f'.buffer k).data = (f.buffer k).data) ∧
    (f.freelist ≠ [] ∧ f'.frames = f.frames ∨
      f.freelist = [] ∧ msgBoxSz ≤ f'.frames.length + 2 ∧ ∃ x, f.frames = x :: f'.frames) := by
  have hn := h.nodup
  have hl := h.length_eq
  cases hf : f.freelist
  case cons n free =>
    have hnum := h.number
    have hp := h.entries
    rw [hf] at hn hp hnum
    have hu : n ∉ f.uselist := by
      have ⟨hn, _⟩ := List.nodup_cons.mp hn
      exact fun hm => hn <| List.mem_append_right _ <| List.mem_append_left _ hm
    have hi := h.unlink (n := n) free f.uselist (List.erase_of_not_mem hu).symm <| by
      refine (List.Perm.trans ?_ hp)
      rw [List.cons_append, ←List.append_assoc, ←List.append_assoc]
      exact List.perm_middle
    refine ⟨n, _, ?_, hi, fun _ => data_unlink, .inl ⟨by simp, frames_unlink f n f.uselist⟩⟩
    simp [RxFifo.claim, hf, hnum]
    rfl
  case nil =>
    rw [hf] at hl
    have hnum := h.number
    have hp := h.entries
    rw [hf] at hp hnum
    cases hu : f.uselist
    case nil =>
      simp only [hu, msgBoxSz, List.length_nil] at hl
      omega
    case cons n use =>
      rw [hu] at hl hp
      have hi := h.unlink (n := n) [] use (by simp [hu]) <|
        List.perm_middle.trans hp
      have he : ({ f.unlink n with uselist := use } : RxFifo) =
          { f.unlink n with freelist := [], freenumbers := 0, uselist := use } := by
        simp [RxFifo.unlink, hf, hnum]
      have hfr := frames_unlink f n use
      refine ⟨n, { f.unlink n with uselist := use }, ?_, he ▸ hi, fun _ => data_unlink, .inr ⟨rfl, ?_, ?_⟩⟩
      case refine_1 => simp [RxFifo.claim, hf, hu]
      case refine_2 =>
        rw [hfr, List.length_map]
        simp only [List.length_nil, List.length_cons] at hl
        omega
      case refine_3 => exact ⟨_, by rw [hfr, frames, hu, List.map_cons]⟩

theorem Inv.not_mem_hand (h : f.Inv b (n :: hand)) : n ∉ hand ∧ n ∉ f.uselist := by
  have ⟨_, hn, _⟩ := List.nodup_append.mp h.nodup
  have ⟨_, hh, hd⟩ := List.nodup_append.mp hn
  exact ⟨(List.nodup_cons.mp hh).left, fun hm => hd _ hm _ List.mem_cons_self rfl⟩

-- A frame has been put behind the others.
theorem Inv.link (h : f.Inv b (n :: hand)) (hc : (f.hdr b).connected = true) (msg : RxMsg) :
    (f.link b n msg).Inv b hand ∧ (f.link b n msg).frames = f.frames ++ [msg] ∧
    ∀ k ∈ hand, ((f.link b n msg).buffer k).data = (f.buffer k).data := by
  have ⟨hh, hu⟩ := h.not_mem_hand
  have hl := h.list
  have hold (k : Nat) (hk : k ≠ n) :
      (Function.update f.buffer n { data := msg, owner := some b } k).data = (f.buffer k).data := by
    rw [Function.update_of_ne hk]
  rw [RxFifo.link, if_pos hc]
  refine ⟨⟨?_, h.number, fun k => ?_, ?_, fun k => ?_⟩, ?_, fun k hk => hold k fun he => hh (he ▸ hk)⟩
  case refine_1 =>
    refine List.Perm.trans (List.Perm.append_left _ ?_) h.entries
    rw [List.append_assoc]
    exact .refl _
  case refine_2 => by_cases hk : k = b <;> simp [hl, hk]
  case refine_3 => simp [h.msgs]
  case refine_4 =>
    have ho := h.owner k
    by_cases hk : k = n <;> simp [ho, hk]
  case refine_5 =>
    simp only [frames, List.map_append, List.map_singleton, Function.update_self]
    congr 1
    exact List.map_congr_left fun k hk => hold k fun he => hu (he ▸ hk)

theorem connected_claim {f' : RxFifo} {k : Nat} (h : f.claim = some (n, f')) :
    (f'.hdr k).connected = (f.hdr k).connected := by
  rw [RxFifo.claim] at h
  split at h
  case h_1 =>
    split at h
    case isTrue =>
      cases h
      rfl
    case isFalse => contradiction
  case h_2 =>
    cases h
    rfl
  case h_3 => contradiction

-- The interrupt always finds an entry. Frames are only overwritten if the box is full but for the entry that
-- the thread has in its hands, and the frame in these is left alone.
theorem Inv.isr (h : f.Inv b hand) (hh : hand.length ≤ 1) (hb : b < maxHdr) (msg : RxMsg) :
    ∃ f', f.isr b msg = some f' ∧
    f'.Inv b hand ∧ (∀ k ∈ hand, (f'.buffer k).data = (f.buffer k).data) ∧
    (f.freelist ≠ [] ∧ f'.frames = f.frames ++ [msg] ∨ f.freelist = [] ∧ ∃ x q, f.frames = x :: q ∧
      msgBoxSz ≤ q.length + 2 ∧ f'.frames = q ++ [msg]) := by
  have ⟨n, f', hc, hi, hd, hf⟩ := h.connect.claim hh
  have hk : (f'.hdr b).connected = true := by
    rw [connected_claim hc]
    simp [RxFifo.connect]
  have ⟨hi', hf', hd'⟩ := hi.link hk msg
  refine ⟨f'.link b n msg, ?_, hi', fun k hk => (hd' k hk).trans (hd k), ?_⟩
  case refine_1 => simp [RxFifo.isr, hc, hb]
  case refine_2 =>
    rw [hf']
    rcases hf with ⟨hn, he⟩ | ⟨hn, hl, x, hx⟩
    case inl => exact .inl ⟨hn, by rw [he]; rfl⟩
    case inr => exact .inr ⟨hn, x, f'.frames, hx, hl, rfl⟩

-- The thread takes the oldest frame out of the lists.
theorem Inv.remove (h : f.Inv b []) (hb : b = Port.rxHdrIndex) {n : Nat} {use : List Nat}
    (hu : f.uselist = n :: use) : ∃ f', f.remove Port.rxHdrIndex = some (n, f') ∧ f'.Inv b [n] ∧
    f.frames = (f'.buffer n).data :: f'.frames := by
  have hl : (f.hdr b).list = n :: use := by rw [h.list, if_pos rfl, hu]
  have ho : (f.buffer n).owner = some b := by rw [h.owner, if_pos (by simp [hu])]
  have hi := h.unlink (n := n) f.freelist use (by simp [hu]) <| by
    have hp := h.entries
    rw [hu] at hp
    refine List.Perm.trans (List.Perm.append_left _ ?_) hp
    exact List.perm_middle
  have hh : Function.update (f.unlink n).hdr b
      { f.hdr b with list := (f.hdr b).list.erase n, msgs := (f.hdr b).msgs - 1 } = (f.unlink n).hdr := by
    funext k
    by_cases hk : k = b <;> simp [RxFifo.unlink, hk, ho]
  rw [←h.number] at hi
  refine ⟨_, ?_, hi, ?_⟩
  case refine_1 =>
    simp only [RxFifo.remove, ←hb, hl, hu, List.erase_cons_head] at hh ⊢
    rw [hh]
    rfl
  case refine_2 =>
    rw [frames, hu, List.map_cons]
    exact congrArg₂ _ data_unlink.symm (frames_unlink f n use).symm

theorem Inv.release (h : f.Inv b [n]) : ∃ f', f.release n = some f' ∧ f'.Inv b [] ∧ f'.frames = f.frames := by
  have hl := h.length_eq
  have hn : f.freenumbers + 1 ≤ msgBoxSz := by
    rw [h.number]
    simp only [List.length_singleton] at hl
    omega
  refine ⟨_, if_pos hn, ⟨?_, ?_, h.list, h.msgs, h.owner⟩, rfl⟩
  case refine_1 =>
    refine List.Perm.trans ?_ h.entries
    rw [List.append_nil, List.append_assoc]
    exact List.Perm.append_left _ List.perm_append_comm
  case refine_2 => simp [h.number]

end RxFifo

-- What has become of the frames of a node: the log of its message box, and the frames that its thread is done
-- with.
structure History where
  log     : Log RxMsg
  handled : List RxMsg

namespace History

def init : History where
  log     := .empty
  handled := []

def isr (h : History) (p : Port) (msg : RxMsg) : History :=
  match p.fifo.freelist, p.fifo.frames with
  | [], x :: _ => { h with log := (h.log.overwrite x).put msg }
  | _,  _      => { h with log := h.log.put msg }

def thread (h : History) (p : Port) : History :=
  match p.pc with
  | .read       =>
    match (p.fifo.hdr Port.rxHdrIndex).list with
    | []     => h
    | n :: _ => { h with log := h.log.take (p.fifo.buffer n).data }
  | .handle msg => { h with handled := h.handled ++ [msg] }
  | _           => h

end History

namespace RxPc

-- The entry that the thread has in its hands.
def hand : RxPc → List Nat
  | copy n | give n _ => [n]
  | _                 => []

-- The frame that has been taken, but not been handled yet.
def frame (f : RxFifo) : RxPc → List RxMsg
  | copy n                  => [(f.buffer n).data]
  | give _ msg | handle msg => [msg]
  | _                       => []

theorem length_hand {pc : RxPc} : pc.hand.length ≤ 1 := by
  cases pc <;> simp [hand]

end RxPc

namespace Port

variable {p : Port} {h : History}

def AtRest (p : Port) : Prop :=
  p.pc = .take ∧ p.sem = 0

structure Inv (b : Nat) (p : Port) (h : History) : Prop where
  fifo   : p.fifo.Inv b p.pc.hand
  queue  : h.log.Holds (msgBoxSz - 1) p.fifo.frames
  taken  : h.log.taken = h.handled ++ p.pc.frame p.fifo
  asleep : p.AtRest → (p.fifo.hdr rxHdrIndex).list = []

theorem Inv.init : Inv b .init .init where
  fifo   := .init
  queue  := .empty
  taken  := rfl
  asleep := fun _ => rfl

theorem frame_eq {f f' : RxFifo} {pc : RxPc} (hd : ∀ k ∈ pc.hand, (f'.buffer k).data = (f.buffer k).data) :
    pc.frame f' = pc.frame f := by
  cases pc
  case copy n => rw [RxPc.frame, RxPc.frame, hd n List.mem_cons_self]
  all_goals rfl

theorem frames_ne_nil {f : RxFifo} (hf : f.frames ≠ []) : f.uselist.length > 0 :=
  List.length_pos_iff.mpr fun he => hf <| by rw [RxFifo.frames, he, List.map_nil]

theorem History.isr_of_free (hf : p.fifo.freelist ≠ []) : h.isr p msg = { h with log := h.log.put msg } := by
  rw [History.isr]
  split
  · contradiction
  · rfl

theorem Inv.isr (hi : Inv b p h) (hb : b < maxHdr) (msg : RxMsg) :
    ∃ p', p.isr b msg = some p' ∧ p'.pc = p.pc ∧ Inv b p' (h.isr p msg) := by
  have ⟨f', hf, hf', hd, hfr⟩ := hi.fifo.isr RxPc.length_hand hb msg
  have hn : f'.frames ≠ [] := by
    rcases hfr with ⟨_, he⟩ | ⟨_, _, _, _, _, he⟩ <;> simp [he]
  have hs : (if f'.uselist.length > 0 then min (p.sem + 1) semValueMax else p.sem) ≠ 0 := by
    rw [if_pos <| frames_ne_nil hn, semValueMax]
    omega
  let p' : Port :=
    { p with fifo := f', sem := if f'.uselist.length > 0 then min (p.sem + 1) semValueMax else p.sem }
  refine ⟨p', by simp only [Port.isr, hf]; rfl, rfl, hf', ?_, ?_, fun hr => absurd hr.right hs⟩
  case refine_1 =>
    rcases hfr with ⟨hn, he⟩ | ⟨hn, x, q, hq, hl, he⟩
    case inl =>
      simp only [p', he, History.isr_of_free hn]
      exact hi.queue.put msg
    case inr =>
      have hqu := hi.queue
      rw [hq] at hqu
      simp only [p', History.isr, hn, hq, he]
      exact hqu.overwrite (by omega) msg
  case refine_2 =>
    have ht : p'.pc.frame p'.fifo = p.pc.frame p.fifo := frame_eq hd
    rw [ht, History.isr]
    split <;> simpa using hi.taken

-- What the thread has to do before it comes to rest.
def steps : RxPc → Nat
  | .take     => 0
  | .read     => 1
  | .handle _ => 2
  | .give _ _ => 3
  | .copy _   => 4

def work (p : Port) : Nat :=
  2 * p.sem + 4 * p.fifo.frames.length + steps p.pc

-- The thread never fails, and it makes progress until it is at rest.
theorem Inv.thread (hi : Inv b p h) : ∃ p' msg, p.thread = some (p', msg) ∧ Inv b p' (h.thread p) ∧
    (¬p.AtRest → p'.work < p.work) := by
  have ⟨hf, hq, ht, ha⟩ := hi
  cases hc : p.pc
  case take =>
    rw [hc] at hf ht
    have hh : h.thread p = h := by simp only [History.thread, hc]
    rw [hh]
    by_cases hz : p.sem = 0
    case pos =>
      exact ⟨p, none, by simp only [Port.thread, hc, hz, if_true], hi, fun hr => absurd ⟨hc, hz⟩ hr⟩
    case neg =>
      refine ⟨{ p with sem := p.sem - 1, pc := .read }, none, ?_,
        ⟨hf, hq, ht, fun ⟨hr, _⟩ => by cases hr⟩, fun _ => ?_⟩
      case refine_1 => simp only [Port.thread, hc, hz, if_false]
      case refine_2 =>
        simp only [work, hc, steps]
        omega
  case read =>
    rw [hc] at hf ht
    cases hl : (p.fifo.hdr rxHdrIndex).list
    case nil =>
      have hh : h.thread p = h := by simp only [History.thread, hc, hl]
      rw [hh]
      refine ⟨{ p with pc := .take }, none, ?_, ⟨hf, hq, ht, fun _ => hl⟩, fun _ => ?_⟩
      case refine_1 => simp only [Port.thread, hc, RxFifo.remove, hl]
      case refine_2 => simp only [work, hc, steps, Nat.lt_add_one]
    case cons n use =>
      have hb := hf.list rxHdrIndex
      have hbe : b = rxHdrIndex := by
        by_cases hbe : rxHdrIndex = b
        case pos => exact hbe.symm
        case neg => simp [hl, hbe] at hb
      rw [hl, if_pos hbe.symm] at hb
      have ⟨f', hr, hf', hfr⟩ := hf.remove hbe hb.symm
      have hfr' : p.fifo.frames = (p.fifo.buffer n).data :: use.map fun n => (p.fifo.buffer n).data := by
        rw [RxFifo.frames, ←hb, List.map_cons]
      have hd : (f'.buffer n).data = (p.fifo.buffer n).data := by
        rw [hfr'] at hfr
        exact (List.cons.inj hfr).left.symm
      have hh : h.thread p = { h with log := h.log.take (p.fifo.buffer n).data } := by
        simp only [History.thread, hc, hl]
      rw [hfr, hd] at hq
      refine ⟨{ p with fifo := f', pc := .copy n }, none, ?_,
        ⟨hf', hh ▸ hq.take, ?_, fun ⟨hr, _⟩ => by cases hr⟩, fun _ => ?_⟩
      case refine_1 => simp only [Port.thread, hc, hr]
      case refine_2 =>
        rw [hh]
        simp only [Log.taken_take, ht, RxPc.frame, List.append_nil, hd]
      case refine_3 =>
        simp only [work, hc, steps, hfr, List.length_cons]
        omega
  case copy n =>
    rw [hc] at hf ht
    have hh : h.thread p = h := by simp only [History.thread, hc]
    rw [hh]
    refine ⟨{ p with pc := .give n (p.fifo.buffer n).data }, none, by simp only [Port.thread, hc],
      ⟨hf, hq, ht, fun ⟨hr, _⟩ => by cases hr⟩, fun _ => ?_⟩
    simp only [work, hc, steps, Nat.lt_add_one]
  case give n msg =>
    rw [hc] at hf ht
    have hh : h.thread p = h := by simp only [History.thread, hc]
    rw [hh]
    have ⟨f', hr, hf', hfr⟩ := hf.release
    refine ⟨{ p with fifo := f', pc := .handle msg }, none, by simp only [Port.thread, hc, hr],
      ⟨hf', hfr.symm ▸ hq, ht, fun ⟨hr, _⟩ => by cases hr⟩, fun _ => ?_⟩
    simp only [work, hc, steps, hfr, Nat.lt_add_one]
  case handle msg =>
    rw [hc] at hf ht
    have hh : h.thread p = { h with handled := h.handled ++ [msg] } := by simp only [History.thread, hc]
    rw [hh]
    refine ⟨{ p with pc := .read }, some msg, by simp only [Port.thread, hc],
      ⟨hf, hq, ?_, fun ⟨hr, _⟩ => by cases hr⟩, fun _ => ?_⟩
    case refine_1 => simpa [RxPc.frame] using ht
    case refine_2 => simp only [work, hc, steps, Nat.lt_add_one]

theorem received_thread : (h.thread p).log.received = h.log.received := by
  rw [History.thread]
  split
  · split <;> rfl
  · rfl
  · rfl

-- At rest, the frames that the thread has handled are all that have been taken, and none is left.
theorem Inv.at_rest (hi : Inv b p h) (hb : b = rxHdrIndex) (hr : p.AtRest) :
    h.log.Holds (msgBoxSz - 1) [] ∧ h.handled = h.log.taken := by
  have hl := hi.fifo.list b
  rw [if_pos rfl, hb, hi.asleep hr] at hl
  have hf : p.fifo.frames = [] := by rw [RxFifo.frames, ←hl, List.map_nil]
  refine ⟨hf ▸ hi.queue, ?_⟩
  rw [hi.taken, hr.left]
  simp [RxPc.frame]

-- A thread that asks for another header list than the device uses never finds a frame.
structure Deaf (p : Port) (h : History) : Prop where
  pc      : p.pc = .take ∨ p.pc = .read
  handled : h.handled = []

theorem Deaf.thread (hd : Deaf p h) (hi : Inv b p h) (hb : b ≠ rxHdrIndex) {p' : Port} {msg : Option RxMsg}
    (ht : p.thread = some (p', msg)) : Deaf p' (h.thread p) ∧ msg = none := by
  have hl := hi.fifo.list rxHdrIndex
  rw [if_neg hb.symm] at hl
  rcases hd.pc with hc | hc
  case inl =>
    have hh : h.thread p = h := by simp only [History.thread, hc]
    rw [hh]
    by_cases hz : p.sem = 0
    case pos =>
      simp only [Port.thread, hc, hz, if_true, Option.some.injEq, Prod.mk.injEq] at ht
      exact ⟨ht.left ▸ hd, ht.right.symm⟩
    case neg =>
      simp only [Port.thread, hc, hz, if_false, Option.some.injEq, Prod.mk.injEq] at ht
      exact ⟨⟨.inr (ht.left ▸ rfl), hd.handled⟩, ht.right.symm⟩
  case inr =>
    have hh : h.thread p = h := by simp only [History.thread, hc, hl]
    rw [hh]
    simp only [Port.thread, hc, RxFifo.remove, hl, Option.some.injEq, Prod.mk.injEq] at ht
    exact ⟨⟨.inl (ht.left ▸ rfl), hd.handled⟩, ht.right.symm⟩

end Port


namespace Reception

abbrev Histories := Fin portAll → History

variable {s s' : Reception} {h : Histories} {i : Fin portAll} {as : List Action}

def observe (h : Histories) (s : Reception) : Action → Histories
  | .tick | .monitor => h
  | .isr i msg       => Function.update h i <| (h i).isr (s.ports i) msg
  | .thread i        => Function.update h i <| (h i).thread (s.ports i)

-- A run, which ends early if an assertion of the driver does not hold.
def run (s : Reception) (h : Histories) : List Action → Option (Reception × Histories)
  | []      => some (s, h)
  | a :: as =>
    match s.act a with
    | none    => none
    | some s' => run s' (observe h s a) as

theorem fifoIndex_lt : fifoIndex i < maxHdr := by
  rw [fifoIndex]
  split <;> decide

-- What holds of every port, and of the nodes whose frames go to another header list than the thread asks for.
structure Inv (s : Reception) (h : Histories) : Prop where
  ports : ∀ i, (s.ports i).Inv (fifoIndex i) (h i)
  deaf  : ∀ i, fifoIndex i ≠ Port.rxHdrIndex → (s.ports i).Deaf (h i)
  off   : ∀ i, fifoIndex i ≠ Port.rxHdrIndex → ∀ j : Fin nodeAll, j.val = i.val →
    (s.app.nodes j).online = false ∧ (s.app.nodes j).life = 0

theorem Inv.init (time : Nat) : Inv (.init time) fun _ => .init where
  ports _     := .init
  deaf _ _    := ⟨.inl rfl, rfl⟩
  off _ _ _ _ := ⟨rfl, rfl⟩

theorem off_act {app : State} {j : Fin nodeAll} {a : State.Action}
    (h : (app.nodes j).online = false ∧ (app.nodes j).life = 0)
    (ha : ∀ n msg, a = .rx n msg → n.toNat ≠ j.val) :
    ((app.act a).nodes j).online = false ∧ ((app.act a).nodes j).life = 0 := by
  cases a
  case tick => exact h
  case rx n msg =>
    have hn := ha n msg rfl
    simp only [State.act, State.handleRx]
    split
    case isFalse => exact h
    case isTrue hl =>
      split
      case isFalse => exact h
      case isTrue =>
        have hj : j ≠ ⟨n.toNat, hl⟩ := fun he => hn (congrArg Fin.val he).symm
        simpa [State.setNode, hj] using h
  case monitor =>
    simp only [State.act, State.monitorThread]
    split
    case h_1 => exact h
    case h_2 now k _ =>
      simp only [State.checkNode]
      split
      case isFalse => exact h
      case isTrue ho =>
        by_cases hj : j = k
        case pos =>
          have := ho.left
          rw [←hj, h.left] at this
          contradiction
        case neg => simpa [State.setNode, hj] using h

theorem handleMsg_eq {app : State} {msg : RxMsg} :
    app.handleMsg i msg = if msg.len > 8 then app else app.act (.rx (.ofNat i.val) msg.toMsg) := rfl

-- What a step does to one port leaves the others alone.
theorem forall_update {p : Port} {e : History} (P : Fin portAll → Port → History → Prop)
    (hp : ∀ k, P k (s.ports k) (h k)) (hi : P i p e) (k : Fin portAll) :
    P k (Function.update s.ports i p k) (Function.update h i e k) := by
  by_cases hk : k = i
  case pos =>
    subst hk
    simpa using hi
  case neg => simpa [hk] using hp k

-- No step fails.
theorem Inv.act (hi : Inv s h) (a : Action) : ∃ s', s.act a = some s' ∧ Inv s' (observe h s a) := by
  cases a
  case tick =>
    refine ⟨{ s with app := s.app.act .tick }, rfl, hi.ports, hi.deaf, fun i hb j hj => ?_⟩
    exact off_act (a := .tick) (hi.off i hb j hj) (by simp)
  case monitor =>
    refine ⟨{ s with app := s.app.act .monitor }, rfl, hi.ports, hi.deaf, fun i hb j hj => ?_⟩
    exact off_act (a := .monitor) (hi.off i hb j hj) (by simp)
  case isr i msg =>
    have ⟨p', hp, hc, hi'⟩ := (hi.ports i).isr fifoIndex_lt msg
    have hh : ((h i).isr (s.ports i) msg).handled = (h i).handled := by
      rw [History.isr]
      split <;> rfl
    refine ⟨{ s with ports := Function.update s.ports i p' }, by simp only [Reception.act, hp], ?_, ?_, hi.off⟩
    case refine_1 => exact forall_update (Port.Inv <| fifoIndex ·) hi.ports hi'
    case refine_2 =>
      refine forall_update (fifoIndex · ≠ Port.rxHdrIndex → Port.Deaf · ·) hi.deaf fun hb => ?_
      refine ⟨?_, hh.trans (hi.deaf i hb).handled⟩
      rw [hc]
      exact (hi.deaf i hb).pc
  case thread i =>
    have ⟨p', msg, hp, hi', _⟩ := (hi.ports i).thread
    have hd (hb : fifoIndex i ≠ Port.rxHdrIndex) := (hi.deaf i hb).thread (hi.ports i) hb hp
    refine ⟨{ app := msg.elim s.app (s.app.handleMsg i), ports := Function.update s.ports i p' },
      by simp only [Reception.act, hp], ?_, ?_, fun k hb j hj => ?_⟩
    case refine_1 => exact forall_update (Port.Inv <| fifoIndex ·) hi.ports hi'
    case refine_2 =>
      exact forall_update (fifoIndex · ≠ Port.rxHdrIndex → Port.Deaf · ·) hi.deaf fun hb => (hd hb).left
    case refine_3 =>
      have ho := hi.off k hb j hj
      cases msg
      case none => exact ho
      case some msg =>
        rw [Option.elim_some, handleMsg_eq]
        split
        case isTrue => exact ho
        case isFalse =>
          refine off_act ho fun n m he hn => ?_
          have hk : i = k := by
            have hlt : i.val < 2 := i.isLt
            have ⟨he, _⟩ := State.Action.rx.inj he
            rw [←he, hj, UInt8.toNat_ofNat_of_lt' (Nat.lt_trans hlt (by decide))] at hn
            exact Fin.ext hn
          subst hk
          exact absurd (hd hb).right nofun

-- No run fails.
theorem Inv.run (hi : Inv s h) (as : List Action) : ∃ s' h', Reception.run s h as = some (s', h') ∧ Inv s' h' := by
  induction as generalizing s h
  case nil => exact ⟨s, h, rfl, hi⟩
  case cons a as ih =>
    have ⟨s', ha, hi'⟩ := hi.act a
    have ⟨t, h', hr, ht⟩ := ih hi'
    exact ⟨t, h', by simpa only [Reception.run, ha] using hr, ht⟩

theorem run_append {bs : List Action} {h' : Histories} (hr : run s h as = some (s', h')) :
    run s h (as ++ bs) = run s' h' bs := by
  induction as generalizing s h
  case nil =>
    cases hr
    rfl
  case cons a as ih =>
    simp only [List.cons_append, run] at hr ⊢
    split at hr
    case h_1 => contradiction
    case h_2 => exact ih hr

-- The frame that the interrupt of a node reads.
def Action.frame (i : Fin portAll) : Action → Option RxMsg
  | isr k msg => if k = i then some msg else none
  | _         => none

theorem received_isr {p : Port} {e : History} : (e.isr p msg).log.received = e.log.received ++ [msg] := by
  rw [History.isr]
  split <;> rfl

theorem received_observe (a : Action) :
    (observe h s a i).log.received = (h i).log.received ++ (a.frame i).toList := by
  cases a
  case tick | monitor => simp [observe, Action.frame]
  case isr k msg =>
    by_cases hk : i = k
    case pos =>
      subst hk
      simp [observe, Action.frame, received_isr]
    case neg => simp [observe, Action.frame, hk, Ne.symm hk]
  case thread k =>
    by_cases hk : i = k
    case pos =>
      subst hk
      simp [observe, Action.frame, Port.received_thread]
    case neg => simp [observe, Action.frame, hk]

theorem received_run {h' : Histories} (hr : run s h as = some (s', h')) :
    (h' i).log.received = (h i).log.received ++ as.filterMap (Action.frame i) := by
  induction as generalizing s h
  case nil =>
    cases hr
    simp
  case cons a as ih =>
    rw [run] at hr
    split at hr
    case h_1 => contradiction
    case h_2 =>
      rw [ih hr, received_observe, List.append_assoc, List.filterMap_cons]
      cases a.frame i <;> rfl

-- Left alone, a thread comes to rest.
theorem Inv.rests (hi : Inv s h) (i : Fin portAll) : ∃ n s' h',
    Reception.run s h (List.replicate n (.thread i)) = some (s', h') ∧ Inv s' h' ∧ (s'.ports i).AtRest := by
  induction hw : (s.ports i).work using Nat.strongRecOn generalizing s h
  case ind w ih =>
    by_cases hr : (s.ports i).AtRest
    case pos => exact ⟨0, s, h, rfl, hi, hr⟩
    case neg =>
      have ⟨s', ha, hi'⟩ := hi.act (.thread i)
      have ⟨p', msg, hp, _, hlt⟩ := (hi.ports i).thread
      have hs : s'.ports i = p' := by
        simp only [Reception.act, hp, Option.some.injEq] at ha
        simp [←ha]
      have ⟨n, t, h', hrun, ht⟩ := ih _ (hs ▸ hw ▸ hlt hr) hi' rfl
      exact ⟨n + 1, t, h', by simpa only [List.replicate_succ, Reception.run, ha] using hrun, ht⟩

-- Whatever the threads and the interrupts do, the driver never fails, and the latest frames of the first bus
-- are always handled, with no other frame needed to wake the thread up. Frames are only lost when others
-- come after them, and the order is kept.
theorem latest_handled (time : Nat) (as : List Action) : ∃ n s h,
    run (.init time) (fun _ => .init) (as ++ List.replicate n (.thread can0)) = some (s, h) ∧
    (s.ports can0).AtRest ∧
    List.Sublist (h can0).handled (as.filterMap <| Action.frame can0) ∧
    (as.filterMap <| Action.frame can0).drop ((as.filterMap <| Action.frame can0).length - (msgBoxSz - 1)) <:+
      (h can0).handled := by
  have ⟨s, h, hr, hi⟩ := (Inv.init time).run as
  have ⟨n, t, k, hn, hk, ha⟩ := hi.rests can0
  have ⟨hq, hh⟩ := (hk.ports can0).at_rest rfl ha
  have he : (k can0).log.received = as.filterMap (Action.frame can0) := by
    rw [received_run hn, received_run hr]
    simp [History.init, Log.empty, List.filterMap_replicate, Action.frame]
  refine ⟨n, t, k, (run_append hr).trans hn, ha, ?_, ?_⟩
  case refine_1 =>
    rw [hh, ←he]
    simpa using hq.sublist
  case refine_2 =>
    rw [hh, ←he]
    exact hq.suffix

-- The device of the second bus uses a header list that the thread does not ask for: no frame of it is ever
-- handled, and the node never comes online.
theorem second_deaf (time : Nat) (as : List Action) : ∃ s h,
    run (.init time) (fun _ => .init) as = some (s, h) ∧ (h can2).handled = [] ∧
    ∀ j : Fin nodeAll, j.val = can2.val → (s.app.nodes j).online = false ∧ (s.app.nodes j).life = 0 := by
  have ⟨s, h, hr, hi⟩ := (Inv.init time).run as
  have hb : fifoIndex can2 ≠ Port.rxHdrIndex := by decide
  exact ⟨s, h, hr, (hi.deaf can2 hb).handled, hi.off can2 hb⟩

end Reception

end App.Can
