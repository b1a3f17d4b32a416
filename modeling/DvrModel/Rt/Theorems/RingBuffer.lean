import DvrModel.Rt.RingBuffer

namespace Rt

variable {buf : Nat → UInt8} {cap off start n : Nat} {q data : List UInt8}

-- A copy that does not reach the end of a circular buffer.
theorem memcpy_eq_write (h : off + data.length ≤ cap) :
    memcpy buf off data = Circular.write buf cap off data := by
  induction data generalizing buf off
  case nil => rfl
  case cons b bs hi =>
    rw [List.length_cons] at h
    rw [memcpy, Circular.write, Nat.mod_eq_of_lt (by omega), hi (by omega)]

-- Two copies that make up one block, which wraps.
theorem memcpy_wrap (hs : start < cap) (hl : cap - start ≤ data.length) (hd : data.length ≤ cap) :
    memcpy (memcpy buf start (data.take (cap - start))) 0 (data.drop (cap - start)) =
      Circular.write buf cap start data := by
  have ht : (data.take (cap - start)).length = cap - start := by
    rw [List.length_take]
    omega
  have hz : (start + (cap - start)) % cap = 0 := by
    rw [Nat.add_sub_cancel' (Nat.le_of_lt hs), Nat.mod_self]
  have h₁ : memcpy buf start (data.take (cap - start)) = Circular.write buf cap start _ :=
    memcpy_eq_write (by omega)
  have h₂ : ∀ buf', memcpy buf' 0 (data.drop (cap - start)) = Circular.write buf' cap 0 _ :=
    fun _ => memcpy_eq_write (by rw [List.length_drop]; omega)
  have ha : Circular.write buf cap start (data.take (cap - start) ++ data.drop (cap - start)) = _ :=
    Circular.write_append
  rw [List.take_append_drop, ht] at ha
  rw [h₁, h₂, ←hz, Circular.write_mod, ←ha]

theorem bytesAt_eq_window (h : off + n ≤ cap) : bytesAt buf off n = Circular.window buf cap off n := by
  refine List.map_congr_left fun i hi => ?_
  have := List.mem_range.mp hi
  rw [Nat.mod_eq_of_lt (by omega)]

namespace RingBuffer

variable {rb rb' : RingBuffer}

-- The writing side is `n` cells ahead of the reading side, in the same mirror or in the other one.
def Ahead (rb : RingBuffer) (n : Nat) : Prop :=
  rb.readIndex + n < rb.bufferSize ∧ rb.writeIndex = rb.readIndex + n ∧ rb.writeMirror = rb.readMirror ∨
  rb.bufferSize ≤ rb.readIndex + n ∧ rb.writeIndex + rb.bufferSize = rb.readIndex + n ∧
    rb.writeMirror = !rb.readMirror

-- The bytes of `q` are in the buffer.
structure Rep (rb : RingBuffer) (q : List UInt8) : Prop where
  cells : Circular.Cells rb.buf rb.bufferSize rb.readIndex q
  ahead : rb.Ahead q.length

theorem Ahead.dataLen_eq (h : rb.Ahead n) (hr : rb.readIndex < rb.bufferSize) (hn : n ≤ rb.bufferSize) :
    rb.dataLen = n := by
  cases h
  case inl h =>
    have ⟨_, hw, hm⟩ := h
    by_cases hz : n = 0
    case pos => simp [dataLen, status, hw, hm, hz]
    case neg => simp [dataLen, status, hw, hz, Nat.pos_of_ne_zero hz]
  case inr h =>
    have ⟨_, hw, hm⟩ := h
    by_cases hf : n = rb.bufferSize
    case pos =>
      have he : rb.readIndex = rb.writeIndex := by omega
      have hne : rb.readMirror ≠ rb.writeMirror := by simp [hm]
      rw [dataLen, status, if_pos he, if_neg hne, hf]
    case neg =>
      have he : rb.readIndex ≠ rb.writeIndex := by omega
      have hg : ¬rb.writeIndex > rb.readIndex := by omega
      rw [dataLen, status, if_neg he]
      show (if rb.writeIndex > rb.readIndex then _ else _) = n
      rw [if_neg hg]
      omega

namespace Rep

variable (h : rb.Rep q)

include h

theorem dataLen_eq : rb.dataLen = q.length :=
  h.ahead.dataLen_eq h.cells.tail_lt h.cells.length_le

theorem spaceLen_eq : rb.spaceLen = rb.bufferSize - q.length := by
  rw [spaceLen, h.dataLen_eq]

theorem writeIndex_lt : rb.writeIndex < rb.bufferSize := by
  have hr := h.cells.tail_lt
  have hl := h.cells.length_le
  cases h.ahead
  case inl ha =>
    have ⟨_, _, _⟩ := ha
    omega
  case inr ha =>
    have ⟨_, _, _⟩ := ha
    omega

theorem writeIndex_eq : rb.writeIndex = (rb.readIndex + q.length) % rb.bufferSize := by
  have hw := h.writeIndex_lt
  cases h.ahead
  case inl ha => rw [←ha.right.left, Nat.mod_eq_of_lt hw]
  case inr ha => rw [←ha.right.left, Nat.add_mod_right, Nat.mod_eq_of_lt hw]

-- The two copies write one block, which may wrap.
theorem buf_copyIn (hd : data.length ≤ rb.bufferSize) :
    (rb.copyIn data).buf = Circular.write rb.buf rb.bufferSize (rb.readIndex + q.length) data := by
  have hw := h.writeIndex_lt
  rw [←Circular.write_mod, ←h.writeIndex_eq, copyIn]
  split
  case isTrue hg => exact memcpy_eq_write (by omega)
  case isFalse hg => exact memcpy_wrap hw (Nat.not_lt.mp hg) hd

-- The two copies read one block.
theorem bytesAt_eq_take (hn : n ≤ q.length) (hg : rb.bufferSize - rb.readIndex ≥ n) :
    bytesAt rb.buf rb.readIndex n = q.take n := by
  have hr := h.cells.tail_lt
  exact (bytesAt_eq_window (by omega)).trans <| h.cells.take hn

theorem bytesAt_wrap (hn : n ≤ q.length) (hg : rb.bufferSize - rb.readIndex ≤ n) :
    bytesAt rb.buf rb.readIndex (rb.bufferSize - rb.readIndex) ++
      bytesAt rb.buf 0 (n - (rb.bufferSize - rb.readIndex)) = q.take n := by
  have hr := h.cells.tail_lt
  have hl := h.cells.length_le
  have hz : (rb.readIndex + (rb.bufferSize - rb.readIndex)) % rb.bufferSize = 0 := by
    rw [Nat.add_sub_cancel' (Nat.le_of_lt hr), Nat.mod_self]
  have hc : Circular.window rb.buf rb.bufferSize rb.readIndex
    (rb.bufferSize - rb.readIndex + (n - (rb.bufferSize - rb.readIndex))) = _ := Circular.window_add
  have h₁ : bytesAt rb.buf rb.readIndex (rb.bufferSize - rb.readIndex) =
    Circular.window rb.buf rb.bufferSize _ _ := bytesAt_eq_window (by omega)
  have h₂ : bytesAt rb.buf 0 (n - (rb.bufferSize - rb.readIndex)) =
    Circular.window rb.buf rb.bufferSize _ _ := bytesAt_eq_window (by omega)
  rw [hz, Nat.add_sub_cancel' hg, h.cells.take hn] at hc
  rw [h₁, h₂, hc]

-- The reading side after `n` bytes.
theorem read (hn : n ≤ q.length) (hr : rb'.readIndex = (rb.readIndex + n) % rb.bufferSize)
    (hm : rb'.readMirror = (rb.readMirror ^^ decide (rb.bufferSize ≤ rb.readIndex + n)))
    (he : rb'.buf = rb.buf ∧ rb'.writeIndex = rb.writeIndex ∧ rb'.writeMirror = rb.writeMirror ∧
      rb'.bufferSize = rb.bufferSize) : rb'.Rep (q.drop n) := by
  have ⟨hb, hw, hwm, hs⟩ := he
  have hlt := h.cells.tail_lt
  have hl := h.cells.length_le
  refine ⟨by rw [hb, hs, hr]; exact h.cells.drop hn, ?_⟩
  rw [List.length_drop, Ahead, hs, hw, hwm, hr, hm]
  by_cases hc : rb.bufferSize ≤ rb.readIndex + n
  case pos =>
    rw [Nat.mod_eq_sub_mod hc, Nat.mod_eq_of_lt (by omega), decide_eq_true hc, Bool.xor_true, Bool.not_not]
    cases h.ahead
    case inl ha => exact absurd ha.left <| by omega
    case inr ha => exact .inl ⟨by omega, by omega, ha.right.right⟩
  case neg =>
    rw [Nat.mod_eq_of_lt (Nat.not_le.mp hc), decide_eq_false hc, Bool.xor_false]
    cases h.ahead
    case inl ha => exact .inl ⟨by omega, by omega, ha.right.right⟩
    case inr ha => exact .inr ⟨by omega, by omega, ha.right.right⟩

-- The writing side after a block of bytes, for which there is enough space.
theorem written (hd : q.length + data.length ≤ rb.bufferSize)
    (hb : rb'.buf = Circular.write rb.buf rb.bufferSize (rb.readIndex + q.length) data)
    (hw : rb'.writeIndex = (rb.writeIndex + data.length) % rb.bufferSize)
    (hm : rb'.writeMirror = (rb.writeMirror ^^ decide (rb.bufferSize ≤ rb.writeIndex + data.length)))
    (he : rb'.readIndex = rb.readIndex ∧ rb'.readMirror = rb.readMirror ∧ rb'.bufferSize = rb.bufferSize) :
    rb'.Rep (q ++ data) := by
  have ⟨hr, hrm, hs⟩ := he
  have hlt := h.cells.tail_lt
  have hwl := h.writeIndex_lt
  have hc := h.cells.write data
  rw [Nat.sub_eq_zero_of_le hd, Nat.add_zero, Nat.mod_eq_of_lt hlt,
    Circular.latest_of_le (by rwa [List.length_append])] at hc
  refine ⟨by rwa [hb, hs, hr], ?_⟩
  rw [List.length_append, Ahead, hs, hr, hrm, hw, hm]
  by_cases hc : rb.bufferSize ≤ rb.writeIndex + data.length
  case pos =>
    rw [Nat.mod_eq_sub_mod hc, Nat.mod_eq_of_lt (by omega), decide_eq_true hc, Bool.xor_true]
    cases h.ahead
    case inl ha => exact .inr ⟨by omega, by omega, congrArg _ ha.right.right⟩
    case inr ha => exact absurd hd <| by omega
  case neg =>
    rw [Nat.mod_eq_of_lt (Nat.not_le.mp hc), decide_eq_false hc, Bool.xor_false]
    cases h.ahead
    case inl ha => exact .inl ⟨by omega, by omega, ha.right.right⟩
    case inr ha => exact .inr ⟨by omega, by omega, ha.right.right⟩

-- The writing side after more bytes than there has been space for: the buffer is full, and its oldest byte
-- is behind the newest one.
theorem overwritten (hd : rb.bufferSize ≤ q.length + data.length)
    (hb : rb'.buf = Circular.write rb.buf rb.bufferSize (rb.readIndex + q.length) data)
    (hw : rb'.writeIndex = (rb.writeIndex + data.length) % rb.bufferSize)
    (hr : rb'.readIndex = rb'.writeIndex) (hm : rb'.readMirror = !rb'.writeMirror)
    (hs : rb'.bufferSize = rb.bufferSize) : rb'.Rep (Circular.latest rb.bufferSize (q ++ data)) := by
  have hc := h.cells.write data
  have ha : rb.readIndex + (q.length + data.length - rb.bufferSize) + rb.bufferSize =
    rb.readIndex + q.length + data.length := by omega
  have hi : (rb.readIndex + (q.length + data.length - rb.bufferSize)) % rb.bufferSize = rb'.readIndex := by
    rw [hr, hw, h.writeIndex_eq, Nat.mod_add_mod, ←ha, Nat.add_mod_right]
  have hl : (Circular.latest rb.bufferSize (q ++ data)).length = rb.bufferSize := by
    rw [Circular.length_latest, List.length_append, Nat.min_eq_right hd]
  refine ⟨by rwa [hb, hs, ←hi], .inr ?_⟩
  rw [hl, hs, hr, hm, Bool.not_not]
  exact ⟨Nat.le_add_left .., rfl, rfl⟩

end Rep

-- What the copy does to the write index.
theorem copyIn_index (hw : rb.writeIndex < rb.bufferSize) (hd : data.length ≤ rb.bufferSize) :
    (rb.copyIn data).writeIndex = (rb.writeIndex + data.length) % rb.bufferSize ∧
    (rb.copyIn data).writeMirror =
      (rb.writeMirror ^^ decide (rb.bufferSize ≤ rb.writeIndex + data.length)) := by
  rw [copyIn]
  split
  case isTrue hg =>
    rw [Nat.mod_eq_of_lt (by omega), decide_eq_false (by omega), Bool.xor_false]
    exact ⟨rfl, rfl⟩
  case isFalse hg =>
    rw [Nat.mod_eq_sub_mod (by omega), Nat.mod_eq_of_lt (by omega), decide_eq_true (by omega), Bool.xor_true]
    exact ⟨by show _ - _ = _; omega, rfl⟩

theorem copyIn_frame (rb : RingBuffer) (data : List UInt8) : (rb.copyIn data).readIndex = rb.readIndex ∧
    (rb.copyIn data).readMirror = rb.readMirror ∧ (rb.copyIn data).bufferSize = rb.bufferSize := by
  rw [copyIn]
  split <;> exact ⟨rfl, rfl, rfl⟩

theorem advanceWrite_index (rb : RingBuffer) (hw : rb.writeIndex < rb.bufferSize) :
    rb.advanceWrite.writeIndex = (rb.writeIndex + 1) % rb.bufferSize ∧
    rb.advanceWrite.writeMirror = (rb.writeMirror ^^ decide (rb.bufferSize ≤ rb.writeIndex + 1)) := by
  rw [advanceWrite]
  split
  case isTrue he =>
    have hs : rb.writeIndex + 1 = rb.bufferSize := by omega
    rw [hs, Nat.mod_self, decide_eq_true (Nat.le_refl _), Bool.xor_true]
    exact ⟨rfl, rfl⟩
  case isFalse he =>
    rw [Nat.mod_eq_of_lt (by omega), decide_eq_false (by omega), Bool.xor_false]
    exact ⟨rfl, rfl⟩

theorem advanceWrite_frame (rb : RingBuffer) : rb.advanceWrite.readIndex = rb.readIndex ∧
    rb.advanceWrite.readMirror = rb.readMirror ∧ rb.advanceWrite.bufferSize = rb.bufferSize ∧
    rb.advanceWrite.buf = rb.buf := by
  rw [advanceWrite]
  split <;> exact ⟨rfl, rfl, rfl, rfl⟩

theorem Rep.copyIn (h : rb.Rep q) (hd : q.length + data.length ≤ rb.bufferSize) :
    (rb.copyIn data).Rep (q ++ data) :=
  have hl : data.length ≤ rb.bufferSize := Nat.le_trans (Nat.le_add_left ..) hd
  have hi := copyIn_index h.writeIndex_lt hl
  h.written hd (h.buf_copyIn hl) hi.left hi.right <| copyIn_frame ..

theorem Rep.put (h : rb.Rep q) (data : List UInt8) :
    (rb.put data).1.Rep (q ++ data.take (rb.bufferSize - q.length)) ∧
    (rb.put data).2 = min (rb.bufferSize - q.length) data.length := by
  rw [RingBuffer.put, h.spaceLen_eq]
  split
  case isTrue hz => exact ⟨by rwa [hz, List.take_zero, List.append_nil], by rw [hz, Nat.zero_min]⟩
  case isFalse =>
    refine ⟨h.copyIn ?_, rfl⟩
    have hl := h.cells.length_le
    rw [List.length_take]
    omega

theorem giveUp_frame (before rb : RingBuffer) (length : Nat) : (before.giveUp rb length).buf = rb.buf ∧
    (before.giveUp rb length).writeIndex = rb.writeIndex ∧
    (before.giveUp rb length).writeMirror = rb.writeMirror ∧
    (before.giveUp rb length).bufferSize = rb.bufferSize := by
  rw [giveUp]
  split
  case isTrue =>
    split
    case isTrue => exact ⟨rfl, rfl, rfl, rfl⟩
    case isFalse => split <;> exact ⟨rfl, rfl, rfl, rfl⟩
  case isFalse => exact ⟨rfl, rfl, rfl, rfl⟩

-- Where the reading side goes depends on which of the sides have wrapped.
theorem Rep.giveUp (h : rb.Rep q) (hd : data.length ≤ rb.bufferSize)
    (hf : rb.bufferSize < q.length + data.length) :
    (rb.giveUp (rb.copyIn data) data.length).readIndex = (rb.copyIn data).writeIndex ∧
    (rb.giveUp (rb.copyIn data) data.length).readMirror = !(rb.copyIn data).writeMirror := by
  have hl := h.cells.length_le
  have hr := h.cells.tail_lt
  have hw := h.writeIndex_lt
  have ⟨hi, hm⟩ := copyIn_index hw hd
  have ⟨hcr, hcm, _⟩ := copyIn_frame rb data
  have hs : data.length > rb.spaceLen := by
    rw [h.spaceLen_eq]
    omega
  rw [RingBuffer.giveUp, if_pos hs]
  split
  case isTrue hg =>
    refine ⟨rfl, ?_⟩
    rw [hm, decide_eq_false (by omega), Bool.xor_false]
    cases h.ahead
    case inl ha => exact absurd ha.right.left <| by omega
    case inr ha =>
      rw [ha.right.right, Bool.not_not]
      exact hcm
  case isFalse hg =>
    rw [Nat.mod_eq_sub_mod (by omega), Nat.mod_eq_of_lt (by omega)] at hi
    rw [decide_eq_true (by omega), Bool.xor_true] at hm
    split
    case isTrue hle =>
      rw [hi, hcr] at hle
      refine ⟨rfl, ?_⟩
      show (!(rb.copyIn data).readMirror) = _
      rw [hm, hcm]
      cases h.ahead
      case inl ha => exact absurd ha.right.left <| by omega
      case inr ha => rw [ha.right.right, Bool.not_not]
    case isFalse hle =>
      rw [hi, hcr] at hle
      refine ⟨rfl, ?_⟩
      show (rb.copyIn data).readMirror = _
      rw [hm, hcm, Bool.not_not]
      cases h.ahead
      case inl ha => exact ha.right.right.symm
      case inr ha => exact absurd ha.right.left <| by omega

theorem Rep.putForce (h : rb.Rep q) (data : List UInt8) :
    (rb.putForce data).1.Rep (Circular.latest rb.bufferSize (q ++ data)) ∧
    (rb.putForce data).2 = min data.length rb.bufferSize := by
  have hk : (if data.length > rb.bufferSize then data.drop (data.length - rb.bufferSize) else data) =
      Circular.latest rb.bufferSize data := by
    split
    case isTrue => rfl
    case isFalse hg => exact (Circular.latest_of_le <| Nat.not_lt.mp hg).symm
  rw [RingBuffer.putForce, hk, ←Circular.latest_append_latest]
  have hd : (Circular.latest rb.bufferSize data).length ≤ rb.bufferSize := by
    rw [Circular.length_latest]
    exact Nat.min_le_right ..
  refine ⟨?_, Circular.length_latest⟩
  generalize Circular.latest rb.bufferSize data = data at hd
  by_cases hf : rb.bufferSize < q.length + data.length
  case pos =>
    have ⟨hb, hw, hm, hs⟩ := giveUp_frame rb (rb.copyIn data) data.length
    have ⟨hr, hrm⟩ := h.giveUp hd hf
    refine h.overwritten (Nat.le_of_lt hf) (hb.trans <| h.buf_copyIn hd) ?_ (hr.trans hw.symm) ?_ ?_
    case refine_1 => exact hw.trans (copyIn_index h.writeIndex_lt hd).left
    case refine_2 => rw [hrm, hm]
    case refine_3 => exact hs.trans (copyIn_frame ..).right.right
  case neg =>
    have hf := Nat.not_lt.mp hf
    have hs : ¬data.length > rb.spaceLen := by
      rw [h.spaceLen_eq]
      omega
    rw [RingBuffer.giveUp, if_neg hs, Circular.latest_of_le (by rwa [List.length_append])]
    exact h.copyIn hf

-- The reading side moves on within its mirror, or into the other one.
theorem Rep.readOn (h : rb.Rep q) (hn : n ≤ q.length) (hg : rb.bufferSize - rb.readIndex > n) :
    { rb with readIndex := rb.readIndex + n }.Rep (q.drop n) := by
  have hl : rb.readIndex + n < rb.bufferSize := by omega
  refine h.read hn ?_ ?_ ⟨rfl, rfl, rfl, rfl⟩
  case refine_1 => exact (Nat.mod_eq_of_lt hl).symm
  case refine_2 => rw [decide_eq_false (Nat.not_le.mpr hl), Bool.xor_false]

theorem Rep.readWrap (h : rb.Rep q) (hn : n ≤ q.length) (hg : rb.bufferSize - rb.readIndex ≤ n) :
    { rb with readMirror := !rb.readMirror, readIndex := n - (rb.bufferSize - rb.readIndex) }.Rep
      (q.drop n) := by
  have hr := h.cells.tail_lt
  have hl := h.cells.length_le
  refine h.read hn ?_ ?_ ⟨rfl, rfl, rfl, rfl⟩
  case refine_1 =>
    show n - (rb.bufferSize - rb.readIndex) = _
    rw [Nat.mod_eq_sub_mod (by omega), Nat.mod_eq_of_lt (by omega)]
    omega
  case refine_2 =>
    have hl : rb.bufferSize ≤ rb.readIndex + n := by omega
    rw [decide_eq_true hl, Bool.xor_true]

theorem Rep.get (h : rb.Rep q) (n : Nat) : (rb.get n).1.Rep (q.drop n) ∧ (rb.get n).2 = q.take n := by
  have hd : q.drop n = q.drop (min q.length n) := by
    cases Nat.le_total n q.length
    case inl hn => rw [Nat.min_eq_right hn]
    case inr hn => rw [Nat.min_eq_left hn, List.drop_length, List.drop_eq_nil_of_le hn]
  have ht : q.take n = q.take (min q.length n) := by
    rw [List.take_eq_take_min, Nat.min_comm]
  have hm : min q.length n ≤ q.length := Nat.min_le_left ..
  rw [RingBuffer.get, h.dataLen_eq, hd, ht]
  split
  case isTrue hz =>
    rw [hz, Nat.zero_min]
    exact ⟨h, rfl⟩
  case isFalse =>
    by_cases hg : rb.bufferSize - rb.readIndex > min q.length n
    case pos =>
      rw [if_pos hg]
      exact ⟨h.readOn hm hg, h.bytesAt_eq_take hm <| Nat.le_of_lt hg⟩
    case neg =>
      rw [if_neg hg]
      exact ⟨h.readWrap hm <| Nat.not_lt.mp hg, h.bytesAt_wrap hm <| Nat.not_lt.mp hg⟩

-- The bytes up to the end of the buffer, or all of them.
theorem Rep.peek (h : rb.Rep q) :
    ∃ n, (q ≠ [] → 0 < n) ∧ rb.peek.1.Rep (q.drop n) ∧ rb.peek.2 = q.take n := by
  have hr := h.cells.tail_lt
  rw [RingBuffer.peek, h.dataLen_eq]
  split
  case isTrue hz => exact ⟨0, fun hq => absurd (List.eq_nil_of_length_eq_zero hz) hq, h, rfl⟩
  case isFalse hz =>
    split
    case isTrue hg =>
      exact ⟨q.length, fun _ => Nat.pos_of_ne_zero hz, h.readOn (Nat.le_refl _) hg,
        h.bytesAt_eq_take (Nat.le_refl _) <| Nat.le_of_lt hg⟩
    case isFalse hg =>
      have hw := h.readWrap (Nat.not_lt.mp hg) (Nat.le_refl _)
      rw [Nat.sub_self] at hw
      exact ⟨rb.bufferSize - rb.readIndex, fun _ => Nat.sub_pos_of_lt hr, hw,
        h.bytesAt_eq_take (Nat.not_lt.mp hg) (Nat.le_refl _)⟩

theorem Rep.getchar (h : rb.Rep q) : rb.getchar.1.Rep (q.drop 1) ∧ rb.getchar.2 = q.take 1 := by
  have hr := h.cells.tail_lt
  rw [RingBuffer.getchar, h.dataLen_eq]
  split
  case isTrue hz =>
    cases List.eq_nil_of_length_eq_zero hz
    exact ⟨h, rfl⟩
  case isFalse hz =>
    have hq := Nat.pos_of_ne_zero hz
    have hb : [rb.buf rb.readIndex] = q.take 1 := h.bytesAt_eq_take hq <| Nat.sub_pos_of_lt hr
    split
    case isTrue he =>
      have hs : rb.bufferSize - rb.readIndex = 1 := by omega
      have hw := h.readWrap hq <| Nat.le_of_eq hs
      rw [hs, Nat.sub_self] at hw
      exact ⟨hw, hb⟩
    case isFalse he => exact ⟨h.readOn hq <| by omega, hb⟩

-- One byte is a block of one byte.
theorem Rep.buf_update (h : rb.Rep q) (ch : UInt8) : Function.update rb.buf rb.writeIndex ch =
    Circular.write rb.buf rb.bufferSize (rb.readIndex + q.length) [ch] := by
  rw [h.writeIndex_eq]
  rfl

theorem Rep.putchar (h : rb.Rep q) (ch : UInt8) :
    (rb.putchar ch).1.Rep (q ++ [ch].take (rb.bufferSize - q.length)) ∧
    (rb.putchar ch).2 = min (rb.bufferSize - q.length) 1 := by
  rw [RingBuffer.putchar, h.spaceLen_eq]
  split
  case isTrue hz => exact ⟨by rwa [hz, List.take_zero, List.append_nil], by rw [hz, Nat.zero_min]⟩
  case isFalse hz =>
    have hs : 1 ≤ rb.bufferSize - q.length := Nat.pos_of_ne_zero hz
    rw [List.take_of_length_le hs, Nat.min_eq_right hs]
    have ⟨hr, hm, hb, hu⟩ := advanceWrite_frame { rb with buf := Function.update rb.buf rb.writeIndex ch }
    have ⟨hi, hw⟩ : _ ∧ _ :=
      advanceWrite_index { rb with buf := Function.update rb.buf rb.writeIndex ch } h.writeIndex_lt
    refine ⟨h.written ?_ (hu.trans <| h.buf_update ch) hi hw ⟨hr, hm, hb⟩, rfl⟩
    rw [List.length_singleton]
    omega

theorem Rep.status_eq_full (h : rb.Rep q) : rb.status = .full ↔ rb.bufferSize = q.length := by
  have hr := h.cells.tail_lt
  have hl := h.cells.length_le
  rw [status]
  cases h.ahead
  case inl ha =>
    rw [ha.right.right, if_pos rfl]
    refine iff_of_false ?_ <| by omega
    split <;> exact nofun
  case inr ha =>
    have hm : ¬rb.readMirror = rb.writeMirror := by simp [ha.right.right]
    rw [if_neg hm]
    by_cases he : rb.readIndex = rb.writeIndex
    case pos => exact iff_of_true (if_pos he) <| by omega
    case neg => exact iff_of_false (if_neg he ▸ nofun) <| by omega

theorem Rep.putcharForce (h : rb.Rep q) (ch : UInt8) :
    (rb.putcharForce ch).1.Rep (Circular.latest rb.bufferSize (q ++ [ch])) ∧
    (rb.putcharForce ch).2 = 1 := by
  have ⟨hr, hm, hb, hu⟩ := advanceWrite_frame { rb with buf := Function.update rb.buf rb.writeIndex ch }
  have ⟨hi, hw⟩ := advanceWrite_index { rb with buf := Function.update rb.buf rb.writeIndex ch } h.writeIndex_lt
  have hw : _ = (rb.writeMirror ^^ decide (rb.bufferSize ≤ rb.writeIndex + 1)) := hw
  have hl := h.cells.length_le
  rw [RingBuffer.putcharForce]
  split
  case h_1 hf =>
    have hf := h.status_eq_full.mp hf
    have hk : rb.bufferSize ≤ q.length + [ch].length := hf ▸ Nat.le_add_right ..
    have ha : rb.writeMirror = !rb.readMirror := by
      cases h.ahead
      case inl ha => exact absurd ha.left <| by omega
      case inr ha => exact ha.right.right
    split
    case isTrue he =>
      have hs : rb.bufferSize ≤ rb.writeIndex + 1 := by omega
      refine ⟨h.overwritten hk (hu.trans <| h.buf_update ch) hi rfl ?_ hb, rfl⟩
      have hx : (rb.writeMirror ^^ decide (rb.bufferSize ≤ rb.writeIndex + 1)) = rb.readMirror := by
        rw [decide_eq_true hs, Bool.xor_true, ha, Bool.not_not]
      exact congrArg (!·) <| hm.trans (hw.trans hx).symm
    case isFalse he =>
      have hs : ¬rb.bufferSize ≤ rb.writeIndex + 1 := by
        have := h.writeIndex_lt
        omega
      refine ⟨h.overwritten hk (hu.trans <| h.buf_update ch) hi rfl ?_ hb, rfl⟩
      have hx : rb.readMirror = !(rb.writeMirror ^^ decide (rb.bufferSize ≤ rb.writeIndex + 1)) := by
        rw [decide_eq_false hs, Bool.xor_false, ha, Bool.not_not]
      exact hm.trans <| hx.trans <| congrArg (!·) hw.symm
  case h_2 hf =>
    have hf := mt h.status_eq_full.mpr hf
    have hs : q.length + [ch].length ≤ rb.bufferSize := by
      rw [List.length_singleton]
      omega
    rw [Circular.latest_of_le (by rwa [List.length_append])]
    exact ⟨h.written hs (hu.trans <| h.buf_update ch) hi hw ⟨hr, hm, hb⟩, rfl⟩

theorem Rep.empty (hc : 0 < rb.bufferSize) (hr : rb.readIndex = 0) (hw : rb.writeIndex = 0)
    (hm : rb.writeMirror = rb.readMirror) : rb.Rep [] :=
  ⟨.nil <| hr ▸ hc, .inl ⟨hr ▸ hc, hw.trans hr.symm, hm⟩⟩

theorem alignDown_pos {size : Nat} (h : alignSize ≤ size) : 0 < alignDown size alignSize :=
  Nat.mul_pos (Nat.div_pos h <| by decide) <| by decide

theorem bufferSize_act (rb : RingBuffer) (op : Op) : (rb.act op).1.bufferSize = rb.bufferSize := by
  cases op
  case put =>
    rw [act, put]
    split
    case isTrue  => rfl
    case isFalse => exact (copyIn_frame ..).right.right
  case putForce => exact (giveUp_frame ..).right.right.right.trans (copyIn_frame ..).right.right
  case get =>
    simp only [act, get]
    split
    case isTrue  => rfl
    case isFalse => split <;> rfl
  case peek =>
    simp only [act, peek]
    split
    case isTrue  => rfl
    case isFalse => split <;> rfl
  case putchar =>
    simp only [act, putchar]
    split
    case isTrue  => rfl
    case isFalse => exact (advanceWrite_frame _).right.right.left
  case putcharForce ch =>
    have hs := (advanceWrite_frame { rb with buf := Function.update rb.buf rb.writeIndex ch }).right.right.left
    simp only [act, putcharForce]
    split
    case h_1 => split <;> exact hs
    case h_2 => exact hs
  case getchar =>
    simp only [act, getchar]
    split
    case isTrue  => rfl
    case isFalse => split <;> rfl
  case dataLen => rfl
  case reset   => rfl

-- One step of the ring buffer is one of the queue.
theorem Rep.act (h : rb.Rep q) (op : Op) :
    ∃ q', Queue.Step rb.bufferSize q op (rb.act op).2 q' ∧ (rb.act op).1.Rep q' := by
  cases op
  case put data =>
    have ⟨hr, he⟩ := h.put data
    exact ⟨_, by rw [RingBuffer.act, he]; exact .put data, hr⟩
  case putForce data =>
    have ⟨hr, he⟩ := h.putForce data
    exact ⟨_, by rw [RingBuffer.act, he]; exact .putForce data, hr⟩
  case get n =>
    have ⟨hr, he⟩ := h.get n
    exact ⟨_, by rw [RingBuffer.act, he]; exact .get n, hr⟩
  case peek =>
    have ⟨n, hn, hr, he⟩ := h.peek
    exact ⟨_, by rw [RingBuffer.act, he]; exact .peek n hn, hr⟩
  case putchar ch =>
    have ⟨hr, he⟩ := h.putchar ch
    exact ⟨_, by rw [RingBuffer.act, he]; exact .putchar ch, hr⟩
  case putcharForce ch =>
    have ⟨hr, he⟩ := h.putcharForce ch
    exact ⟨_, by rw [RingBuffer.act, he]; exact .putcharForce ch, hr⟩
  case getchar =>
    have ⟨hr, he⟩ := h.getchar
    exact ⟨_, by rw [RingBuffer.act, he]; exact .getchar, hr⟩
  case dataLen => exact ⟨q, by rw [RingBuffer.act, h.dataLen_eq]; exact .dataLen, h⟩
  case reset => exact ⟨[], .reset, .empty (Nat.zero_lt_of_lt h.cells.tail_lt) rfl rfl rfl⟩

theorem Rep.run {ops : List Op} (h : rb.Rep q) : ∃ q',
    Queue.Steps rb.bufferSize q ops (rb.run ops).2 q' ∧ (rb.run ops).1.Rep q' := by
  induction ops generalizing rb q
  case nil => exact ⟨q, .nil, h⟩
  case cons op ops hi =>
    have ⟨q₁, hs, h₁⟩ := h.act op
    have ⟨q₂, hss, h₂⟩ := hi h₁
    rw [bufferSize_act] at hss
    exact ⟨q₂, .cons hs hss, h₂⟩

-- Whatever is done to the ring buffer, it answers like the queue, and it then holds what the queue holds.
theorem refines_queue {size : Nat} (pool : Nat → UInt8) (ops : List Op) (h : alignSize ≤ size) :
    ∃ q, Queue.Steps (alignDown size alignSize) [] ops ((init pool size).run ops).2 q ∧
      ((init pool size).run ops).1.Rep q :=
  have hr : (init pool size).Rep [] := .empty (alignDown_pos h) rfl rfl rfl
  hr.run

theorem refines_queue_wrap : ∃ q, Queue.Steps (alignDown 9 alignSize) []
    [.put [1, 2, 3, 4, 5, 6], .get 4, .putForce [7, 8, 9, 10, 11, 12, 13], .getchar]
    ((init (fun _ => 0) 9).run
      [.put [1, 2, 3, 4, 5, 6], .get 4, .putForce [7, 8, 9, 10, 11, 12, 13], .getchar]).2 q ∧
    ((init (fun _ => 0) 9).run
      [.put [1, 2, 3, 4, 5, 6], .get 4, .putForce [7, 8, 9, 10, 11, 12, 13], .getchar]).1.Rep q :=
  refines_queue (fun _ => 0) _ <| by decide

end RingBuffer

end Rt
