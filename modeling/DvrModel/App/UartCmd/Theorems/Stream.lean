import DvrModel.Lib.Bytes
import DvrModel.App.UartCmd.Theorems.Receiver

namespace App.UartCmd

-- What a frame has to look like to get through.
structure Candidate.Whole (c : List UInt8) : Prop where
  head_eq   : c.head? = some frameHead
  length_eq : c.length = expectLen c
  length_ge : 6 ≤ c.length
  known     : isKnownType (c.getD 2 0) = true
  good      : isGood c = true

namespace Candidate

variable {c : List UInt8}

theorem getD_take (h : k < n) : (c.take n).getD k 0 = c.getD k 0 := by
  simp [h]

theorem expectLen_take (h : 2 ≤ n) : expectLen (c.take n) = expectLen c := by
  rw [expectLen, getD_take (by omega), expectLen]

theorem take_concat (h : k < c.length) : c.take k ++ [c.getD k 0] = c.take (k + 1) := by
  rw [List.take_add_one, List.getElem?_eq_getElem h, List.getD_eq_getElem?_getD,
    List.getElem?_eq_getElem h]
  rfl

-- The parser keeps every proper part of a frame and waits.
theorem Whole.step_take (h : Whole c) (hk : k + 1 < c.length) :
    step (c.take k) (c.getD k 0) = (c.take (k + 1), none) := by
  have hge := h.length_ge
  have hl : (c.take (k + 1)).length = k + 1 := List.length_take_of_le (by omega)
  cases k
  case zero =>
    have hh : c.getD 0 0 = frameHead := by
      rw [List.getD_eq_getElem?_getD, ←List.head?_eq_getElem?, h.head_eq]
      rfl
    rw [←take_concat (by omega), hh]
    rfl
  case succ k =>
    have hne : c.take (k + 1) ≠ [] := List.ne_nil_of_length_pos (by simp; omega)
    have ht : ¬(k + 1 + 1 = 3 ∧ !isKnownType ((c.take (k + 1 + 1)).getD 2 0)) := by
      rintro ⟨h₃, hu⟩
      rw [getD_take (by omega), h.known] at hu
      contradiction
    rw [step, if_neg hne, take_concat (by omega)]
    simp only [hl, expectLen_take (show 2 ≤ k + 1 + 1 by omega), if_neg ht, ←h.length_eq]
    by_cases h₂ : k + 1 + 1 = 2
    case pos => rw [if_pos h₂, if_neg (by omega)]
    case neg => rw [if_neg h₂, if_pos hk]

theorem Whole.feed_take (h : Whole c) (hk : k < c.length) :
    Mealy.feed step [] (c.take k) = (c.take k, []) := by
  induction k
  case zero => rfl
  case succ k hi =>
    rw [←take_concat (by omega), Mealy.feed_concat, hi (by omega), h.step_take hk,
      take_concat (by omega)]
    rfl

-- With its last byte the frame is delivered.
theorem Whole.feed_eq (h : Whole c) : Mealy.feed step [] c = ([], [.frame ⟨c.length, c⟩]) := by
  have hge := h.length_ge
  have ⟨n, hn⟩ : ∃ n, c.length = n + 1 := ⟨c.length - 1, by omega⟩
  have hc : c.take n ++ [c.getD n 0] = c := by rw [take_concat (by omega), ←hn, List.take_length]
  have hs : step (c.take n) (c.getD n 0) = ([], some <| .frame ⟨c.length, c⟩) := by
    have hne : c.take n ≠ [] := List.ne_nil_of_length_pos (by simp; omega)
    rw [step, if_neg hne, hc]
    simp only [←h.length_eq, h.good, if_true, Nat.lt_irrefl, if_false]
    rw [if_neg (by omega), if_neg (by omega), frame, ←h.length_eq, List.take_length]
  calc
    Mealy.feed step [] c = Mealy.feed step [] (c.take n ++ [c.getD n 0]) := by rw [hc]
    _ = _ := by rw [Mealy.feed_concat, h.feed_take (by omega), hs]; rfl

theorem feed_flatten {cs : List (List UInt8)} (h : ∀ c ∈ cs, Whole c) :
    Mealy.feed step [] cs.flatten = ([], cs.map fun c => .frame ⟨c.length, c⟩) := by
  induction cs
  case nil => rfl
  case cons c cs hi =>
    have ⟨hc, hcs⟩ := List.forall_mem_cons.mp h
    rw [List.flatten_cons, Mealy.feed_append, hc.feed_eq, hi hcs]
    rfl

end Candidate

theorem isKnownType_text : isKnownType textFrameType = true := rfl

theorem isKnownType_status : isKnownType typeSocStatus = true := rfl

-- What the sender puts into a frame.
structure Message where
  type      : UInt8
  payload   : List UInt8
  known     : isKnownType type = true
  length_le : payload.length ≤ 249

namespace Message

variable {m : Message}

-- The checksum is sent with its low byte first.
def crcBytes (m : Message) : List UInt8 :=
  [(crc16 m.payload).toUInt8, (crc16 m.payload >>> 8).toUInt8]

def frame (m : Message) : Frame where
  length := m.payload.length + 6
  data   :=
    frameHead :: .ofNat (m.payload.length + 6) :: m.type :: (m.payload ++ (m.crcBytes ++ [frameTail]))

theorem length_data : m.frame.data.length = m.frame.length := by
  simp [frame, crcBytes]

theorem expectLen_data : Candidate.expectLen m.frame.data = m.frame.length := by
  have := m.length_le
  simp [Candidate.expectLen, frame]
  omega

-- The bytes behind the payload.
theorem getD_data :
    m.frame.data.getD (m.payload.length + k + 3) 0 = (m.crcBytes ++ [frameTail]).getD k 0 := by
  simp [frame, List.getElem?_append_right]

theorem isGood_data : Candidate.isGood m.frame.data = true := by
  have hp : (m.frame.data.drop 3).take m.payload.length = m.payload := by simp [frame]
  have h₁ : m.frame.data.getD (m.frame.length - 3) 0 = (crc16 m.payload).toUInt8 :=
    getD_data (k := 0)
  have h₂ : m.frame.data.getD (m.frame.length - 2) 0 = (crc16 m.payload >>> 8).toUInt8 :=
    getD_data (k := 1)
  have h₃ : m.frame.data.getD (m.frame.length - 1) 0 = frameTail :=
    getD_data (k := 2)
  rw [Candidate.isGood, expectLen_data, h₁, h₂, h₃, Bytes.toUInt16_bytes,
    show m.frame.length - 6 = m.payload.length from rfl, hp]
  simp

theorem whole : Candidate.Whole m.frame.data where
  head_eq   := rfl
  length_eq := length_data.trans expectLen_data.symm
  length_ge := length_data ▸ Nat.le_add_left ..
  known     := m.known
  good      := isGood_data

theorem frame_eq : (⟨m.frame.data.length, m.frame.data⟩ : Frame) = m.frame := by
  rw [length_data]

-- The bytes of a list of messages, as they are sent.
def encode (ms : List Message) : List UInt8 :=
  (ms.map (·.frame.data)).flatten

theorem feed_encode {ms : List Message} :
    Mealy.feed Candidate.step [] (encode ms) = ([], ms.map (.frame ·.frame)) := by
  have hw : ∀ c ∈ ms.map (·.frame.data), Candidate.Whole c := by
    intro c hc
    have ⟨m, _, hm⟩ := List.mem_map.mp hc
    exact hm ▸ m.whole
  rw [encode, Candidate.feed_flatten hw, List.map_map]
  congr 2
  funext m
  exact congrArg Event.frame frame_eq

end Message

namespace Receiver

variable {r : Receiver} {as : List Action} {ms : List Message}

theorem delivered_map {ms : List Message} :
    delivered (ms.map (.frame ·.frame)) = ms.map (·.frame) := by
  simp [delivered, List.filterMap_map, Function.comp_def, Event.frame?]

theorem delivered_of_drained (hr : r.Idle) (hp : pushed as = Message.encode ms)
    (hn : NeverFull r as) (hd : (r.run as).1.ring.count = 0) :
    delivered (r.run as).2 = ms.map Message.frame ∧ (r.run as).1.parser.index = 0 := by
  have ha := hr.accepted_eq as
  rw [Ring.toList_eq_nil_iff.mpr hd, List.append_nil, accepted_eq_pushed hr.inv hn, hp] at ha
  have ⟨he, hc⟩ := hr.run_eq as
  rw [←ha, Message.feed_encode] at he hc
  exact ⟨by rw [he, delivered_map], hc.length_eq.symm⟩

theorem run_poll_drained (as : List Action) (hi : r.ring.Inv) :
    (r.run (as ++ [.poll])).1.ring.count = 0 := by
  have ⟨_, _, hd⟩ := poll_spec (run_spec as hi).inv
  rw [run_append]
  exact hd

theorem neverFull_poll (hn : NeverFull r as) : NeverFull r (as ++ [.poll]) :=
  neverFull_append.mpr ⟨hn, nofun, trivial⟩

-- However the pushes and the calls of the parser are interleaved, once the ring is empty exactly what
-- has been sent has arrived, and one more poll makes it empty.
theorem stream_round_trip (r : Receiver) (ms : List Message) (as : List Action) (hr : r.Idle)
    (hp : pushed as = Message.encode ms) (hn : NeverFull r as) :
    ((r.run as).1.ring.count = 0 →
      delivered (r.run as).2 = ms.map Message.frame ∧ (r.run as).1.parser.index = 0) ∧
    (r.run (as ++ [.poll])).1.ring.count = 0 ∧
    delivered (r.run (as ++ [.poll])).2 = ms.map Message.frame ∧
    (r.run (as ++ [.poll])).1.parser.index = 0 := by
  have hp' : pushed (as ++ [.poll]) = Message.encode ms := by
    rw [←hp]
    simp [pushed, Action.byte?]
  have hd := run_poll_drained as hr.inv
  exact ⟨delivered_of_drained hr hp hn, hd, delivered_of_drained hr hp' (neverFull_poll hn) hd⟩

-- A payload with head and tail bytes in it, sent in pieces.
def statusAndText : List Message :=
  [⟨typeSocStatus, [0xAA, 0x06, 0x01, 0x55], rfl, by decide⟩, ⟨textFrameType, [], rfl, by decide⟩]

def pieces : List Action :=
  let bytes := (Message.encode statusAndText).map .push
  bytes.take 3 ++ [.tryParse] ++ (bytes.drop 3).take 8 ++ [.poll] ++ bytes.drop 11

theorem stream_round_trip_pieces :
    delivered (run .init (pieces ++ [.poll])).2 = statusAndText.map Message.frame :=
  (stream_round_trip .init statusAndText pieces .init (by decide +kernel)
    (by decide +kernel)).right.right.left

end Receiver

end App.UartCmd
