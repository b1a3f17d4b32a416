import DvrModel.Lib.Mealy
import DvrModel.Rt.Theorems.RingBuffer
import DvrModel.App.UartCmd.Uart
import DvrModel.App.UartCmd.Theorems.Service

namespace App.UartCmd

variable {n size : Nat} {q : List UInt8} {r : Ring} {rb : Rt.RingBuffer}

theorem drop_length_take : q.drop (q.take n).length = q.drop n := by
  rw [List.length_take]
  cases Nat.le_total n q.length
  case inl h => rw [Nat.min_eq_left h]
  case inr h => rw [Nat.min_eq_right h, List.drop_length, List.drop_eq_nil_of_le h]

-- Reading from the ring buffer is reading from the bytes in it, until as many have been read as there were.
theorem indicateLoop_eq (h : rb.Rep q) (hn : size ≤ n) : ∃ rb', rb'.Rep (q.drop size) ∧
    rb'.bufferSize = rb.bufferSize ∧
    indicateLoop n r rb size = ((rxLoop n r size q).1, rb', (rxLoop n r size q).2) := by
  induction n generalizing r rb size q
  case zero =>
    cases Nat.le_zero.mp hn
    exact ⟨rb, h, rfl, rfl⟩
  case succ n hi =>
    by_cases hz : size = 0
    case pos =>
      cases hz
      refine ⟨rb, h, rfl, ?_⟩
      rw [indicateLoop, if_pos rfl, rxLoop, if_pos <| .inl rfl]
    case neg =>
      obtain ⟨hr, hd⟩ := h.get <| min size rxChunk
      have hb : (rb.get <| min size rxChunk).1.bufferSize = rb.bufferSize := rb.bufferSize_act <| .get _
      rw [indicateLoop, if_neg hz, rxLoop]
      generalize hg : rb.get (min size rxChunk) = g at hr hd hb
      obtain ⟨rb', data⟩ := g
      cases hd
      by_cases he : q.take (min size rxChunk) = []
      case pos =>
        have hq : q = [] := by
          cases List.take_eq_nil_iff.mp he
          case inl hm => exact absurd hm <| by simp [rxChunk, hz]
          case inr hq => exact hq
        cases hq
        refine ⟨rb', by simpa using hr, hb, ?_⟩
        simp only [he, if_pos, or_true]
      case neg =>
        have hl : 0 < (q.take (min size rxChunk)).length := List.length_pos_iff.mpr he
        have hle : (q.take (min size rxChunk)).length ≤ size := by
          rw [List.length_take]
          omega
        rw [←drop_length_take] at hr
        have hs : size - (q.take (min size rxChunk)).length ≤ n := by omega
        obtain ⟨rb'', hr', hb', hl'⟩ := hi (r := r.pushBytes (q.take (min size rxChunk))) hr hs
        rw [List.drop_drop, Nat.add_sub_cancel' hle] at hr'
        refine ⟨rb'', hr', hb'.trans hb, ?_⟩
        simp only [hl', hz, he, or_self, if_false]

namespace Uart

variable {u : Uart} {block : Block}

-- The bytes that are waiting in the ring buffer of the serial device.
structure Waiting (u : Uart) (q : List UInt8) : Prop where
  rep      : u.rb.Rep q
  size     : u.rb.bufferSize = rxBufSz

-- What the driver is to the service: an interrupt brings the bytes of its transfer.
def deliver : Action → Service.Action
  | .rxDone block => .rx block.bytes.length block.bytes
  | .thread       => .thread

-- Before that, the first interrupt also brings the bytes that are waiting.
def deliverFirst (q : List UInt8) : List Action → List Service.Action
  | []                  => []
  | .thread :: as       => .thread :: deliverFirst q as
  | .rxDone block :: as =>
    .rx ((q ++ block.bytes).take rxBufSz).length ((q ++ block.bytes).take rxBufSz) :: as.map deliver

-- The bytes that are left in the ring buffer.
def left (q : List UInt8) : List Action → List UInt8
  | []             => q
  | .thread :: as  => left q as
  | .rxDone _ :: _ => []

-- The bytes of some transfers.
def bytes (blocks : List Block) : List UInt8 :=
  blocks.flatMap (·.bytes)

-- What waits of the transfers that end before the callback has been set.
def early (before : List Block) : List UInt8 :=
  (bytes before).take rxBufSz

def Action.block? : Action → Option Block
  | .rxDone block => some block
  | .thread       => none

-- The transfers that end after the callback has been set.
def blocks (as : List Action) : List Block :=
  as.filterMap Action.block?

@[simp]
theorem blocks_nil : blocks [] = [] :=
  rfl

@[simp]
theorem blocks_rxDone {as : List Action} : blocks (.rxDone block :: as) = block :: blocks as :=
  rfl

@[simp]
theorem blocks_thread {as : List Action} : blocks (.thread :: as) = blocks as :=
  rfl

-- What the service can read in a call of the callback.
def offered : Service.Action → List UInt8
  | .rx size fifo => fifo.take size
  | .thread       => []

-- What has got through to the service, and behind it what still waits for the next interrupt.
def throughput (q : List UInt8) (as : List Action) : List UInt8 :=
  (deliverFirst q as).flatMap offered ++ left q as

theorem Waiting.init (pool : Nat → UInt8) : (Uart.init pool).Waiting [] where
  rep  := .empty (by decide : 0 < Rt.alignDown rxBufSz Rt.alignSize) rfl rfl rfl
  size := rfl

-- What is put behind the bytes that are waiting, as far as there is space.
theorem Waiting.put_block (h : u.Waiting q) (bs : List UInt8) :
    { u with rb := (u.rb.put bs).1 }.Waiting ((q ++ bs).take rxBufSz) where
  rep  := by
    have hl := h.size ▸ h.rep.cells.length_le
    rw [List.take_append, List.take_of_length_le hl, ←h.size]
    exact (h.rep.put bs).left
  size := (u.rb.bufferSize_act <| .put bs).trans h.size

theorem Waiting.take (h : u.Waiting q) : q.take rxBufSz = q :=
  List.take_of_length_le <| h.size ▸ h.rep.cells.length_le

-- The callback reads everything.
theorem hwSerialIsr_eq (h : u.Waiting q) (hi : u.indicate = true) : ∃ rb, u.hwSerialIsr =
    { u with rb, service := u.service.rxIndicate q.length q } ∧ { u with rb }.Waiting [] := by
  rw [hwSerialIsr, h.rep.dataLen_eq, if_pos hi]
  split
  case isTrue hz =>
    cases List.eq_nil_of_length_eq_zero hz
    exact ⟨u.rb, rfl, h⟩
  case isFalse =>
    have ⟨rb, hr, hs, hl⟩ := indicateLoop_eq (r := u.service.ring) h.rep (Nat.le_refl q.length)
    rw [List.drop_length] at hr
    refine ⟨rb, ?_, hr, hs.trans h.size⟩
    rw [rxIndicate, hl, Service.rxIndicate]
    cases (rxLoop q.length u.service.ring q.length q).2 <;> simp

theorem rxDone_eq (h : u.Waiting q) (hi : u.indicate = true) (block : Block) : ∃ rb, u.rxDone block =
    { u with
      rb
      service := u.service.rxIndicate ((q ++ block.bytes).take rxBufSz).length
        ((q ++ block.bytes).take rxBufSz) } ∧ { u with rb }.Waiting [] :=
  hwSerialIsr_eq (h.put_block block.bytes) hi

theorem take_block (block : Block) : ([] ++ block.bytes).take rxBufSz = block.bytes :=
  List.take_of_length_le <| Nat.le_trans block.length_le <| by decide

-- When nothing is waiting, nothing ever is.
theorem feed_drained {as : List Action} (h : u.Waiting []) (hi : u.indicate = true) :
    (Mealy.feed act u as).2 = (Mealy.feed Service.act u.service (as.map deliver)).2 ∧
    (Mealy.feed act u as).1.service = (Mealy.feed Service.act u.service (as.map deliver)).1 ∧
    (Mealy.feed act u as).1.Waiting [] := by
  induction as generalizing u
  case nil => exact ⟨rfl, rfl, h⟩
  case cons a as ih =>
    rw [List.map_cons, Mealy.feed_cons, Mealy.feed_cons]
    cases a
    case rxDone block =>
      have ⟨rb, hu, hw⟩ := rxDone_eq h hi block
      rw [take_block] at hu
      rw [act, hu]
      exact ih (u := { u with rb, service := _ }) ⟨hw.rep, hw.size⟩ hi
    case thread =>
      have hf := ih (u := { u with service := u.service.thread.1 }) ⟨h.rep, h.size⟩ hi
      exact ⟨congrArg _ hf.left, hf.right⟩

theorem take_append_take {bs : List UInt8} : (q.take n ++ bs).take n = (q ++ bs).take n := by
  rw [List.take_append, List.take_append, List.take_take, Nat.min_self, List.length_take]
  cases Nat.le_total n q.length
  case inl h => rw [Nat.min_eq_left h, Nat.sub_self, Nat.sub_eq_zero_of_le h]
  case inr h => rw [Nat.min_eq_right h]

-- As long as the callback has not been set, the bytes wait.
theorem foldl_rxDone (h : u.Waiting q) (hi : u.indicate = false) (before : List Block) :
    (before.foldl rxDone u).Waiting ((q ++ bytes before).take rxBufSz) ∧
    (before.foldl rxDone u).service = u.service := by
  induction before generalizing u q
  case nil =>
    rw [bytes, List.flatMap_nil, List.append_nil, h.take]
    exact ⟨h, rfl⟩
  case cons block before ih =>
    have hu : u.rxDone block = { u with rb := (u.rb.put block.bytes).1 } := by
      rw [rxDone, hwSerialIsr]
      split
      case isTrue  => rfl
      case isFalse => exact if_neg <| by simp [hi]
    rw [List.foldl_cons, hu, bytes, List.flatMap_cons, ←List.append_assoc, ←take_append_take]
    exact ih (h.put_block block.bytes) hi

theorem feed_first (h : u.Waiting q) (hi : u.indicate = true) (as : List Action) :
    (Mealy.feed act u as).2 = (Mealy.feed Service.act u.service (deliverFirst q as)).2 ∧
    (Mealy.feed act u as).1.service = (Mealy.feed Service.act u.service (deliverFirst q as)).1 ∧
    (Mealy.feed act u as).1.Waiting (left q as) := by
  induction as generalizing u
  case nil => exact ⟨rfl, rfl, h⟩
  case cons a as ih =>
    cases a
    case rxDone block =>
      have ⟨rb, hu, hw⟩ := rxDone_eq h hi block
      rw [deliverFirst, Mealy.feed_cons, Mealy.feed_cons, act, hu]
      exact feed_drained (u := { u with rb, service := _ }) ⟨hw.rep, hw.size⟩ hi
    case thread =>
      have hf := ih (u := { u with service := u.service.thread.1 }) ⟨h.rep, h.size⟩ hi
      rw [deliverFirst, Mealy.feed_cons, Mealy.feed_cons]
      exact ⟨congrArg _ hf.left, hf.right⟩

theorem bytes_append {bs₁ bs₂ : List Block} : bytes (bs₁ ++ bs₂) = bytes bs₁ ++ bytes bs₂ :=
  List.flatMap_append

theorem offered_deliver {as : List Action} : (as.map deliver).flatMap offered = bytes (blocks as) := by
  induction as
  case nil => rfl
  case cons a as ih =>
    rw [List.map_cons, List.flatMap_cons, ih]
    cases a
    case rxDone block => exact congrArg (· ++ bytes (blocks as)) List.take_length
    case thread       => rfl

-- Only the first transfer has to share the ring buffer with the bytes that are waiting.
theorem throughput_eq {as : List Action} (hq : q.take rxBufSz = q) : throughput q as =
    (q ++ bytes ((blocks as).take 1)).take rxBufSz ++ bytes ((blocks as).drop 1) := by
  induction as
  case nil => simpa [throughput, deliverFirst, left, bytes] using hq.symm
  case cons a as ih =>
    cases a
    case rxDone block =>
      rw [throughput, deliverFirst, List.flatMap_cons, offered_deliver, left, List.append_nil, offered,
        List.take_length]
      simp [bytes]
    case thread => exact ih

theorem throughput_early {before : List Block} {as : List Action} : throughput (early before) as =
    (bytes (before ++ (blocks as).take 1)).take rxBufSz ++ bytes ((blocks as).drop 1) := by
  have he : (early before).take rxBufSz = early before := by
    rw [early, List.take_take, Nat.min_self]
  rw [throughput_eq he, early, take_append_take, bytes_append]

theorem take_append_eq_iff {bs : List UInt8} : q.take n ++ bs = q ++ bs ↔ q.length ≤ n :=
  (List.append_left_inj bs).trans <| List.take_eq_self_iff q

-- The driver reorders nothing, and the service behaves as if each transfer were given to it whole, but for the
-- first one after the callback has been set: it comes behind the bytes that have been waiting, and what is
-- beyond the ring buffer then is lost. Nothing else is.
theorem delivers (pool : Nat → UInt8) (before : List Block) (as : List Action) :
    (Mealy.feed act (opened pool before) as).2 =
      (Mealy.feed Service.act .init (deliverFirst (early before) as)).2 ∧
    (Mealy.feed act (opened pool before) as).1.service =
      (Mealy.feed Service.act .init (deliverFirst (early before) as)).1 ∧
    (Mealy.feed act (opened pool before) as).1.rb.Rep (left (early before) as) ∧
    throughput (early before) as =
      (bytes (before ++ (blocks as).take 1)).take rxBufSz ++ bytes ((blocks as).drop 1) ∧
    (throughput (early before) as = bytes (before ++ blocks as) ↔
      (bytes (before ++ (blocks as).take 1)).length ≤ rxBufSz) := by
  have ⟨hw, hs⟩ := foldl_rxDone (.init pool) rfl before
  have hf := feed_first (u := opened pool before) ⟨hw.rep, hw.size⟩ rfl as
  have hs : (opened pool before).service = .init := hs
  rw [hs] at hf
  have hb : bytes (before ++ blocks as) =
      bytes (before ++ (blocks as).take 1) ++ bytes ((blocks as).drop 1) := by
    rw [←bytes_append, List.append_assoc, List.take_append_drop]
  refine ⟨hf.left, hf.right.left, hf.right.right.rep, throughput_early, ?_⟩
  rw [throughput_early, hb]
  exact take_append_eq_iff

theorem length_full {b : UInt8} : (List.replicate rxIdleTmpBufferSize b).length ≤ rxIdleTmpBufferSize :=
  Nat.le_of_eq List.length_replicate

def full (b : UInt8) : Block where
  bytes     := List.replicate rxIdleTmpBufferSize b
  length_le := length_full

theorem length_single {b : UInt8} : [b].length ≤ rxIdleTmpBufferSize :=
  Nat.le_of_ble_eq_true rfl

def single (b : UInt8) : Block where
  bytes     := [b]
  length_le := length_single

theorem length_bytes_full {b : UInt8} : (full b).bytes.length = 1024 :=
  List.length_replicate

theorem length_bytes_single {b : UInt8} : (single b).bytes.length = 1 :=
  rfl

-- Three transfers leave space for a fourth one, but four of them do not even for a single byte.
theorem delivers_full :
    throughput (early [full 1, full 2, full 3]) [.thread, .rxDone <| full 4, .thread, .rxDone <| single 5] =
      bytes [full 1, full 2, full 3, full 4, single 5] ∧
    throughput (early [full 1, full 2, full 3, full 4]) [.rxDone <| single 5, .thread, .rxDone <| single 6] ≠
      bytes [full 1, full 2, full 3, full 4, single 5, single 6] := by
  have ⟨_, _, _, _, h₁⟩ := delivers (fun _ => 0) [full 1, full 2, full 3]
    [.thread, .rxDone <| full 4, .thread, .rxDone <| single 5]
  have ⟨_, _, _, _, h₂⟩ := delivers (fun _ => 0) [full 1, full 2, full 3, full 4]
    [.rxDone <| single 5, .thread, .rxDone <| single 6]
  refine ⟨h₁.mpr ?_, h₂.not.mpr ?_⟩
  case refine_1 => simp [bytes, length_bytes_full, rxBufSz]
  case refine_2 => simp [bytes, length_bytes_full, length_bytes_single, rxBufSz]

end Uart

end App.UartCmd
