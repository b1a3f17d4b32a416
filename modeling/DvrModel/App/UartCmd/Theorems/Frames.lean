import DvrModel.App.UartCmd.Theorems.Stream

namespace App.UartCmd

-- What every frame that is delivered looks like. The type is missing from the list, see below.
structure Frame.WellFormed (f : Frame) : Prop where
  data_length : f.data.length = f.length
  head_eq     : f.data.getD 0 0 = frameHead
  length_eq   : f.length = (f.data.getD 1 0).toNat
  length_ge   : 6 ≤ f.length
  length_le   : f.length ≤ 255
  tail_eq     : f.data.getD (f.length - 1) 0 = frameTail
  crc_eq      : crc16 (f.data.drop 3 |>.take (f.length - 6)) =
    (f.data.getD (f.length - 3) 0).toUInt16 ||| ((f.data.getD (f.length - 2) 0).toUInt16 <<< 8)

-- A stream in which the frames are found one after the other, with gaps in between.
inductive Blocks : List UInt8 → List Frame → Prop
  | gap   (g : List UInt8) : Blocks g []
  | frame (g : List UInt8) : f.WellFormed → Blocks bs fs → Blocks (g ++ (f.data ++ bs)) (f :: fs)

namespace Blocks

theorem gap_append (h : Blocks bs fs) : Blocks (g ++ bs) fs := by
  cases h
  case gap => exact .gap _
  case frame hf hb => exact List.append_assoc .. ▸ .frame _ hf hb

theorem append (h₁ : Blocks bs₁ fs₁) (h₂ : Blocks bs₂ fs₂) : Blocks (bs₁ ++ bs₂) (fs₁ ++ fs₂) := by
  induction h₁
  case gap => exact h₂.gap_append
  case frame hf _ hi =>
    rw [List.append_assoc, List.append_assoc]
    exact .frame _ hf hi

end Blocks

theorem delivered_forceFinish {b : Bool} :
    delivered (if b then some .forceFinish else none : Option Event).toList = [] := by
  cases b
  all_goals rfl

theorem delivered_append {es₁ es₂ : List Event} :
    delivered (es₁ ++ es₂) = delivered es₁ ++ delivered es₂ :=
  List.filterMap_append ..

namespace Candidate

variable {c : List UInt8} {byte : UInt8}

theorem getD_zero_eq (h : c.head? = some frameHead) : c.getD 0 0 = frameHead := by
  rw [List.getD_eq_getElem?_getD, ←List.head?_eq_getElem?, h]
  rfl

theorem wellFormed_frame (hh : c.head? = some frameHead) (h₁ : 6 ≤ expectLen c)
    (h₂ : expectLen c ≤ c.length) (hg : isGood c = true) : (frame c).WellFormed := by
  have hd (k) (hk : k < expectLen c) : (frame c).data.getD k 0 = c.getD k 0 := getD_take hk
  have hp : ((frame c).data.drop 3).take (expectLen c - 6) = (c.drop 3).take (expectLen c - 6) := by
    rw [frame, List.drop_take, List.take_take]
    congr 1
    omega
  simp only [isGood, Bool.and_eq_true, beq_iff_eq] at hg
  constructor
  case data_length => exact List.length_take_of_le h₂
  case head_eq     => rw [hd _ (by omega), getD_zero_eq hh]
  case length_eq   => exact congrArg UInt8.toNat (hd 1 (by omega)).symm
  case length_ge   => exact h₁
  case length_le   => exact expectLen_le
  case tail_eq     => exact (hd _ (show expectLen c - 1 < _ by omega)).trans hg.left
  case crc_eq      =>
    show crc16 (((frame c).data.drop 3).take (expectLen c - 6)) =
      ((frame c).data.getD (expectLen c - 3) 0).toUInt16 ||| _
    rw [hp, hg.right, hd _ (by omega), show (frame c).length = expectLen c from rfl, hd _ (by omega)]

-- One byte: some bytes leave the candidate, and a frame that is delivered is among them.
theorem step_blocks (byte : UInt8) (h : Inv c) :
    ∃ g, c ++ [byte] = g ++ (step c byte).1 ∧ Blocks g (delivered (step c byte).2.toList) := by
  have hs := h.step_spec byte
  generalize step c byte = s at hs ⊢
  cases hs
  case skip | badLength | badType => exact ⟨c ++ [byte], by simp, .gap _⟩
  case start hc _ => exact ⟨[], by simp [hc], .gap _⟩
  case wait => exact ⟨[], rfl, .gap _⟩
  case deliver h₁ h₂ hg =>
    have hc : c ≠ [] := List.ne_nil_of_length_pos (by omega)
    have hf := wellFormed_frame (head?_concat byte h hc) h₁ (by simpa using h₂) hg
    -- The bytes of the candidate behind the frame are lost.
    have ht : c ++ [byte] =
        [] ++ ((frame <| c ++ [byte]).data ++ (c ++ [byte]).drop (expectLen <| c ++ [byte])) :=
      (List.take_append_drop ..).symm
    refine ⟨c ++ [byte], by simp, ?_⟩
    nth_rewrite 1 [ht]
    exact .frame [] hf (.gap _)
  case reject =>
    have ⟨g, hg⟩ := resync_suffix (c := c ++ [byte])
    refine ⟨g, hg.symm, ?_⟩
    rw [delivered_forceFinish]
    exact .gap g

theorem feed_blocks (bs : List UInt8) :
    ∃ g, bs = g ++ (Mealy.feed step [] bs).1 ∧ Blocks g (delivered (Mealy.feed step [] bs).2) := by
  let P bs es c := Inv c ∧ ∃ g, bs = g ++ c ∧ Blocks g (delivered es)
  suffices h : P bs (Mealy.feed step [] bs).2 (Mealy.feed step [] bs).1 from h.right
  refine Mealy.feed_invariant ⟨.nil, [], rfl, .gap []⟩ (.of_forall fun _ _ => trivial) ?_
  intro _ _ _ byte _ ⟨hi, g, hb, hg⟩
  have ⟨g', hb', hg'⟩ := step_blocks byte hi
  refine ⟨hi.step byte, g ++ g', ?_, ?_⟩
  case refine_1 => rw [hb, List.append_assoc, hb', List.append_assoc]
  case refine_2 =>
    rw [delivered_append]
    exact hg.append hg'

-- A candidate is not longer than a frame and begins with a head, so it cannot outlast a longer stretch
-- of the stream without any head.
theorem feed_eq_nil_of_quiet {bs quiet : List UInt8} (hi : Inv (Mealy.feed step [] (bs ++ quiet)).1)
    (hl : 254 ≤ quiet.length) (hq : ∀ b ∈ quiet, b ≠ frameHead) :
    (Mealy.feed step [] (bs ++ quiet)).1 = [] := by
  have ⟨g, hg, _⟩ := feed_blocks (bs ++ quiet)
  generalize (Mealy.feed step [] (bs ++ quiet)).1 = c at hi hg
  by_contra hc
  have hs : c <:+ quiet := by
    refine List.suffix_of_suffix_length_le ⟨g, hg.symm⟩ (List.suffix_append ..) ?_
    exact Nat.le_trans hi.length_le hl
  exact hq frameHead (hs.subset <| List.mem_of_head? <| hi.head_eq hc) rfl

end Candidate

namespace Receiver

-- The delivered frames are disjoint blocks of the popped bytes, in their order. The popped bytes are
-- the first ones of those that have got into the ring.
theorem delivered_blocks (as : List Action) :
    accepted .init as = popped .init as ++ (run .init as).1.ring.toList ∧
    Blocks (popped .init as) (delivered (run .init as).2) := by
  have ⟨g, hb, hg⟩ := Candidate.feed_blocks (popped .init as)
  refine ⟨Idle.init.accepted_eq as, ?_⟩
  rw [(Idle.init.run_eq as).left]
  have := hg.append (.gap (Mealy.feed Candidate.step [] (popped .init as)).1)
  rwa [←hb, List.append_nil] at this

-- Whatever the receiver has been through, a stretch without any head brings the parser back to its idle
-- state, from which on every frame gets through.
theorem recovers {as : List Action} {bs quiet : List UInt8} (hp : popped .init as = bs ++ quiet)
    (hl : frameMaxSize ≤ quiet.length) (hq : ∀ b ∈ quiet, b ≠ frameHead) :
    (run .init as).1.parser.index = 0 ∧
    ∀ as' ms, popped (run .init as).1 as' = Message.encode ms →
      delivered ((run .init as).1.run as').2 = ms.map Message.frame ∧
      ((run .init as).1.run as').1.parser.index = 0 := by
  have hr := (Idle.init.run_eq as).right
  have hn := Candidate.feed_eq_nil_of_quiet (hp ▸ hr.inv) (Nat.le_trans (by decide) hl) hq
  rw [hp, hn] at hr
  refine ⟨hr.length_eq.symm, fun as' ms hp' => ?_⟩
  have ⟨he, hc⟩ := hr.feed (popped (run .init as).1 as')
  rw [(run_spec as' (run_spec as Ring.Inv.init).inv).parser, hp', Message.feed_encode] at he hc
  exact ⟨by rw [he, delivered_map], hc.length_eq.symm⟩

-- The head of a long frame, the rest of which is missing.
def torn : List UInt8 :=
  [0xAA, 0xFF, 0x01]

def silence : List UInt8 :=
  .replicate 512 0

def interrupted : List Action :=
  (torn ++ silence).flatMap fun b => [.push b, .poll]

theorem recovers_interrupted : (run .init interrupted).1.parser.index = 0 ∧
    ∀ as' ms, popped (run .init interrupted).1 as' = Message.encode ms →
      delivered ((run .init interrupted).1.run as').2 = ms.map Message.frame ∧
      ((run .init interrupted).1.run as').1.parser.index = 0 := by
  have hp : popped .init interrupted = torn ++ silence := popped_bytewise Ring.Inv.init rfl
  have hl : silence.length = frameMaxSize := List.length_replicate
  have hq : ∀ b ∈ silence, b ≠ frameHead := by
    intro b hb
    rw [List.eq_of_mem_replicate hb]
    decide
  exact recovers hp hl.ge hq

end Receiver

end App.UartCmd
