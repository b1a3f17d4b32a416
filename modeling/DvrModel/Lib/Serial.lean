import DvrModel.Lib.Crc
import DvrModel.Lib.Mealy

-- Synchronous serial lines. The sender drives a clock and a data line. The receiver takes over the data line
-- on one of the two edges of the clock and collects words, the most significant bit first.
namespace Serial

inductive Edge
  | rising
  | falling
  deriving DecidableEq

-- The level of the clock after the edge.
def Edge.level : Edge → Bool
  | rising  => true
  | falling => false

inductive Event
  | clock (level : Bool)
  | data (level : Bool)
  deriving DecidableEq

structure Receiver (w : Nat) where
  clock : Bool
  data  : Bool
  shift : BitVec w
  count : Nat

variable {w n : Nat} {e : Edge} {r : Receiver w} {v d : BitVec w} {b idle : Bool}
  {bs : List Bool}

-- Shifts one bit into a register.
def push (v : BitVec w) (b : Bool) : BitVec w :=
  (v <<< 1) ||| (BitVec.ofBool b).setWidth w

namespace Receiver

def sample (r : Receiver w) : Receiver w × Option (BitVec w) :=
  if r.count + 1 = w
  then ({ r with shift := push r.shift r.data, count := 0 }, push r.shift r.data)
  else ({ r with shift := push r.shift r.data, count := r.count + 1 }, none)

def step (e : Edge) (r : Receiver w) : Event → Receiver w × Option (BitVec w)
  | .data b  => ({ r with data := b }, none)
  | .clock b =>
    if b ≠ r.clock ∧ b = e.level
    then { r with clock := b }.sample
    else ({ r with clock := b }, none)

-- The clock rests at its idle level and no word has been started.
structure Ready (idle : Bool) (r : Receiver w) : Prop where
  clock : r.clock = idle
  count : r.count = 0

end Receiver

-- For each bit the clock is put to its idle level first, and the data line is only changed there.
def sendBits (idle : Bool) (bs : List Bool) : List Event :=
  bs.flatMap fun b => [.clock idle, .data b, .clock !idle]

def send (idle : Bool) (d : BitVec w) : List Event :=
  sendBits idle (Crc.bits w d) ++ [.clock idle]

-- One whole period of the clock for each bit.
def periods (idle : Bool) (bs : List Bool) : List Event :=
  bs.flatMap fun b => [.data b, .clock !idle, .clock idle]

theorem sendBits_concat : sendBits idle bs ++ [.clock idle] = .clock idle :: periods idle bs := by
  induction bs
  case nil => rfl
  case cons b bs hi =>
    simp only [sendBits, periods, List.flatMap_cons, List.append_assoc] at hi ⊢
    rw [hi]
    rfl

-- Whichever edge the receiver samples on, a period of the clock has exactly one of them.
theorem feed_period (h : r.clock = idle) :
    Mealy.feed (Receiver.step e) r [.data b, .clock !idle, .clock idle] =
      (({ r with data := b } : Receiver w).sample.1,
        ({ r with data := b } : Receiver w).sample.2.toList) := by
  subst h
  cases r with | mk clock data shift count =>
  by_cases hc : count + 1 = w <;> cases e <;> cases clock <;>
    simp [Mealy.feed_cons, Receiver.step, Receiver.sample, Edge.level, hc]

theorem push_bits (hn : n ≤ w) :
    (Crc.bits n d).foldl push v = (v <<< n) ||| (d >>> (w - n)) := by
  induction n
  case zero => simp [Crc.bits, BitVec.ushiftRight_eq_zero]
  case succ n hi =>
    rw [Crc.bits_concat, List.foldl_append, hi (by omega), List.foldl_cons, List.foldl_nil]
    apply BitVec.eq_of_getLsbD_eq
    intro i hlt
    cases i
    case zero => simp [push, hlt, BitVec.getMsbD, show n < w by omega, Nat.sub_sub, Nat.add_comm 1 n]
    case succ i =>
      have h : w - n + i = w - (n + 1) + (i + 1) := by omega
      simp [push, hlt, h]

-- A register forgets what it held once a whole word has been shifted in.
theorem push_word : (Crc.bits w d).foldl push v = d := by
  rw [push_bits Nat.le.refl]
  simp

namespace Receiver

theorem sample_clock : r.sample.1.clock = r.clock := by
  rw [sample]
  split <;> rfl

-- The bits that complete a word.
theorem feed_periods (h : r.clock = idle) (hb : bs ≠ []) (hc : r.count + bs.length = w) :
    (Mealy.feed (step e) r <| periods idle bs).2 = [bs.foldl push r.shift] ∧
      Ready idle (Mealy.feed (step e) r <| periods idle bs).1 := by
  induction bs generalizing r
  case nil => contradiction
  case cons b bs hi =>
    rw [periods, List.flatMap_cons, ←periods, Mealy.feed_append, feed_period h]
    cases bs
    case nil =>
      have hc : r.count + 1 = w := by simpa using hc
      constructor
      case left => simp [periods, sample, hc]
      case right => exact ⟨by simpa [periods, sample_clock] using h, by simp [periods, sample, hc]⟩
    case cons b' bs =>
      have hn : ¬(r.count + 1 = w) := by simp at hc; omega
      have hs : ({ r with data := b } : Receiver w).sample =
          ({ r with data := b, shift := push r.shift b, count := r.count + 1 }, none) := by
        simp [sample, hn]
      simp only [hs]
      exact hi h (by simp) (by simp at hc ⊢; omega)

-- The delivery of one word. The receiver may sample on either edge, and its register may hold anything.
theorem feed_send (hw : 0 < w) (h : r.Ready idle) :
    (Mealy.feed (step e) r <| send idle d).2 = [d] ∧
      Ready idle (Mealy.feed (step e) r <| send idle d).1 := by
  have hs : step e r (.clock idle) = (r, none) := by simp [step, ←h.clock]
  have hb : Crc.bits w d ≠ [] := List.ne_nil_of_length_pos <| by simpa using hw
  have ⟨ho, hr⟩ := feed_periods (e := e) h.clock hb (by simp [h.count])
  rw [push_word] at ho
  rw [send, sendBits_concat, Mealy.feed_cons, hs]
  exact ⟨by simpa using ho, hr⟩

-- The delivery of a sequence of words: nothing is lost, doubled, made up or reordered.
theorem feed_send_all (hw : 0 < w) (h : r.Ready idle) (ds : List (BitVec w)) :
    (Mealy.feed (step e) r <| ds.flatMap (send idle)).2 = ds ∧
      Ready idle (Mealy.feed (step e) r <| ds.flatMap (send idle)).1 := by
  induction ds generalizing r
  case nil => exact ⟨rfl, h⟩
  case cons d ds hi =>
    have ⟨ho, hr⟩ := feed_send (e := e) (d := d) hw h
    have ⟨hos, hrs⟩ := hi hr
    rw [List.flatMap_cons, Mealy.feed_append]
    exact ⟨by simp [ho, hos], hrs⟩

end Receiver

end Serial
