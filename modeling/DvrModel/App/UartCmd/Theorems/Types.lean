import DvrModel.App.UartCmd.Theorems.Frames

namespace App.UartCmd

def Frame.type (f : Frame) : UInt8 :=
  f.data.getD 2 0

namespace Candidate

variable {c : List UInt8} {byte : UInt8}

-- The candidate fails with this byte, and in what is left of it a type that is not known stands behind
-- the next head and an acceptable length. The parser does not look at this type again.
def Smuggles (c : List UInt8) (byte : UInt8) : Prop :=
  Fails (c ++ [byte]) ∧ 3 ≤ (rest <| c ++ [byte]).length ∧ 6 ≤ expectLen (rest <| c ++ [byte]) ∧
  isKnownType ((rest <| c ++ [byte]).getD 2 0) = false

instance : Decidable (Smuggles c byte) :=
  inferInstanceAs (Decidable <| _ ∧ _ ∧ _ ∧ _)

structure Known (c : List UInt8) : Prop where
  inv  : Inv c
  type : 3 ≤ c.length → isKnownType (c.getD 2 0) = true

theorem Known.nil : Known [] :=
  ⟨.nil, nofun⟩

theorem type_resync (hs : ¬Smuggles c byte) (hf : Fails (c ++ [byte]))
    (h : 3 ≤ (resync <| c ++ [byte]).length) :
    isKnownType ((resync <| c ++ [byte]).getD 2 0) = true := by
  unfold resync at h ⊢
  split at h
  case isTrue => contradiction
  case isFalse hn =>
    rw [if_neg hn]
    by_contra hu
    exact hs ⟨hf, h, by omega, by simpa using hu⟩

theorem Known.step (hs : ¬Smuggles c byte) (h : Known c) :
    Known (step c byte).1 ∧ ∀ f ∈ delivered (step c byte).2.toList, isKnownType f.type = true := by
  have hi := h.inv.step byte
  have hs' := h.inv.step_spec byte
  generalize Candidate.step c byte = s at hi hs' ⊢
  cases hs'
  case skip | badLength | badType => exact ⟨.nil, nofun⟩
  case start => exact ⟨⟨hi, nofun⟩, nofun⟩
  case wait hb _ _ =>
    refine ⟨⟨hi, fun h₃ => isKnownType_concat byte h.type hb ?_⟩, nofun⟩
    simpa using h₃
  case deliver h₁ h₂ _ =>
    refine ⟨.nil, fun f hf => ?_⟩
    have hf : f = frame (c ++ [byte]) := by simpa [delivered, Event.frame?] using hf
    rw [hf, Frame.type, frame, getD_take (by omega)]
    exact isKnownType_concat byte h.type (by omega) (by omega)
  case reject hf =>
    refine ⟨⟨hi, type_resync hs hf⟩, ?_⟩
    rw [delivered_forceFinish]
    exact List.forall_mem_nil _

theorem feed_known (h : Mealy.Along step (¬Smuggles · ·) [] bs) :
    ∀ f ∈ delivered (Mealy.feed step [] bs).2, isKnownType f.type = true := by
  let P (_ : List UInt8) es c := Known c ∧ ∀ f ∈ delivered es, isKnownType f.type = true
  suffices h : P bs (Mealy.feed step [] bs).2 (Mealy.feed step [] bs).1 from h.right
  refine Mealy.feed_invariant ⟨.nil, nofun⟩ h ?_
  intro _ _ _ _ hs ⟨hk, hf⟩
  have ⟨hk', hf'⟩ := hk.step hs
  refine ⟨hk', ?_⟩
  rw [delivered_append]
  exact List.forall_mem_append.mpr ⟨hf, hf'⟩

end Candidate

def Parser.Smuggles (p : Parser) (byte : UInt8) : Prop :=
  Candidate.Smuggles (Store.read p.temp 0 p.index) byte

instance : Decidable (Parser.Smuggles p byte) :=
  inferInstanceAs (Decidable <| Candidate.Smuggles ..)

namespace Receiver

variable {r : Receiver} {es : List Event} {as : List Action}

theorem mem_delivered_of_returned (h : returned es = some f) : f ∈ delivered es := by
  have ⟨e, he, hf⟩ := Option.bind_eq_some_iff.mp h
  exact List.mem_filterMap.mpr ⟨e, List.mem_of_getLast? he, hf⟩

theorem parseLoop_lastFrame : (parseLoop n r).1.lastFrame = r.lastFrame := by
  induction n generalizing r
  case zero => rfl
  case succ n hi =>
    rw [parseLoop]
    split
    case h_1 => rfl
    case h_2 =>
      simp only
      split
      case h_1 => rfl
      case h_2 | h_3 => rw [hi]

-- Only frames that the parser has returned get stored.
theorem pollLoop_lastFrame : (pollLoop n r).1.lastFrame = r.lastFrame ∨
    (pollLoop n r).1.lastFrame ∈ delivered (pollLoop n r).2 := by
  induction n generalizing r
  case zero => exact .inl rfl
  case succ n hi =>
    rw [pollLoop]
    split
    case h_1 => exact .inl parseLoop_lastFrame
    case h_2 f hf =>
      rw [delivered_append, List.mem_append]
      cases hi (r := { r.tryParseFrame.1 with lastFrame := f })
      case inl h => exact .inr <| .inl <| h ▸ mem_delivered_of_returned hf
      case inr h => exact .inr <| .inr h

theorem act_lastFrame : (r.act a).1.lastFrame = r.lastFrame ∨
    (r.act a).1.lastFrame ∈ delivered (r.act a).2 := by
  cases a
  case push     => exact .inl rfl
  case tryParse => exact .inl parseLoop_lastFrame
  case poll     => exact pollLoop_lastFrame

theorem run_lastFrame : (r.run as).1.lastFrame = r.lastFrame ∨
    (r.run as).1.lastFrame ∈ delivered (r.run as).2 := by
  induction as generalizing r
  case nil => exact .inl rfl
  case cons a as hi =>
    rw [run, delivered_append, List.mem_append]
    cases hi (r := (r.act a).1)
    case inl h =>
      simp only [h]
      exact act_lastFrame.imp id .inl
    case inr h => exact .inr <| .inr h

-- As long as no type is smuggled, only frames of known types are returned and stored.
theorem delivered_known (as : List Action)
    (h : Mealy.Along Parser.parseByte (¬Parser.Smuggles · ·) .init (popped .init as)) :
    (∀ f ∈ delivered (run .init as).2, isKnownType f.type = true) ∧
    ((run .init as).1.lastFrame = Receiver.init.lastFrame ∨
      isKnownType (run .init as).1.lastFrame.type = true) := by
  have hk := Candidate.feed_known <| Parser.Rep.along_iff _ _ (.idle rfl) |>.mp h
  rw [←(Idle.init.run_eq as).left] at hk
  exact ⟨hk, run_lastFrame.imp id (hk _)⟩

-- A candidate that fails with its last byte, and a frame that begins inside it.
def nested (type : UInt8) : List Action :=
  [0xAA, 0x08, 0x01, 0xAA, 0x06, type, 0x00, 0x00, 0x55].map .push ++ [.poll]

theorem delivered_known_nested :
    delivered (run .init <| nested typeSocStatus).2 = [⟨6, [0xAA, 0x06, 0x01, 0x00, 0x00, 0x55]⟩] ∧
    ∀ f ∈ delivered (run .init <| nested typeSocStatus).2, isKnownType f.type = true :=
  ⟨by decide +kernel, delivered_known (nested typeSocStatus) (by decide +kernel) |>.left⟩

theorem not_delivered_known_nested :
    ¬(∀ f ∈ delivered (run .init <| nested 0x07).2, isKnownType f.type = true) ∧
    isKnownType (run .init <| nested 0x07).1.lastFrame.type = false := by
  decide +kernel

end Receiver

end App.UartCmd
