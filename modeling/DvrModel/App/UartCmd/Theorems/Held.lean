import DvrModel.App.UartCmd.Theorems.Text

namespace App.UartCmd

-- The arguments with which a message is published.
def TextMsg.call (m : TextMsg) : LcdCall :=
  ⟨m.flag, m.textType, Store.read m.text 0 m.textLen.toNat⟩

namespace Assembly

-- What can be obtained is the message that has been published last.
def Whole (calls : List LcdCall) (s : Assembly) : Prop :=
  ∀ m, s.getTextMsg = some m → calls.getLast? = some m.call

def payloadLen (f : Frame) : UInt8 :=
  .ofNat (f.length - 6)

-- The frame is taken for a fragment: of the message in the making or, if there is none, of a new one.
structure Takes (s : Assembly) (f : Frame) : Prop where
  length  : 7 ≤ f.length
  head    : f.data.getD 0 0 = frameHead
  type    : f.data.getD 2 0 = textFrameType
  payload : 2 ≤ payloadLen f
  header  : s.assemLen = 0 → 3 ≤ payloadLen f ∧ (f.data.getD 5 0 = 1 ∨ f.data.getD 5 0 = 2)

-- Where the text starts in the frame.
def textOffset (s : Assembly) : Nat :=
  if s.assemLen = 0 then 6 else 4

-- How much of the text in the frame there is room for.
def copyLen (s : Assembly) (f : Frame) : Nat :=
  min ((payloadLen f).toNat + 3 - s.textOffset) (4096 - s.assemLen.toNat)

-- As far as the text that is held reaches, a fragment has nothing else to put in its place. This
-- includes the header of a first fragment and the terminator.
structure Repeats (s : Assembly) (f : Frame) : Prop where
  header : s.assemLen = 0 → f.data.getD 4 0 = s.msg.flag ∧ f.data.getD 5 0 = s.msg.textType
  chunk  : ∀ k, k < s.copyLen f → s.assemLen.toNat + k < s.msg.textLen.toNat →
    ∀ c ∈ f.data[s.textOffset + k]?, s.msg.text (s.assemLen.toNat + k) = c
  term   : 0 < s.copyLen f → s.assemLen.toNat + s.copyLen f < s.msg.textLen.toNat →
    s.msg.text (s.assemLen.toNat + s.copyLen f) = 0

-- A fragment after which more are to come arrives only when there is no message to be obtained, or
-- repeats what is there.
def Undisturbed (s : Assembly) (e : Event) : Prop :=
  ∀ f, e = .frame f → s.msg.valid ≠ 0 → s.Takes f → f.data.getD 3 0 ≠ 1 → s.Repeats f

-- The state after the header and the text of a fragment have been stored.
def store (s : Assembly) (f : Frame) : Assembly :=
  if s.assemLen = 0 then
    { s with msg.flag := f.data.getD 4 0, msg.textType := f.data.getD 5 0 }.append f.data 6
      ((payloadLen f).toUInt16 - 3)
  else
    s.append f.data 4 ((payloadLen f).toUInt16 - 1)

-- What any event does.
inductive Outcome (s : Assembly) : Event → Assembly × Option LcdCall → Prop
  | force     : s.assemLen ≠ 0 → Outcome s .forceFinish s.publish
  | fragment  : s.Takes f → f.data.getD 3 0 ≠ 1 → Outcome s (.frame f) (s.store f, none)
  | last      : s.Takes f → f.data.getD 3 0 = 1 → Outcome s (.frame f) (s.store f).publish
  | invalid   : ¬s.Takes f → Outcome s (.frame f) ({ s with msg.valid := 0, assemLen := 0 }, none)
  | ignored   : (∀ f, e = .frame f → ¬s.Takes f) → Outcome s e (s, none)

variable {s : Assembly} {f : Frame} {e : Event} {calls : List LcdCall}

theorem parseTextFrame_outcome (s : Assembly) (f : Frame) :
    Outcome s (.frame f) (s.parseTextFrame f) := by
  have hi (h : ¬s.Takes f) : Outcome s (.frame f) (s, none) :=
    .ignored fun _ hf => Event.frame.inj hf ▸ h
  have hf (s' : Assembly) (ht : s.Takes f) (hs : s.store f = s') :
      Outcome s (.frame f) (s'.finish (f.data.getD 3 0)) := by
    rw [finish, ← hs]
    split
    case isTrue h  => exact .last ht h
    case isFalse h => exact .fragment ht h
  unfold parseTextFrame
  split
  case isTrue h =>
    refine hi fun ⟨h₁, h₂, h₃, _, _⟩ => ?_
    rcases h with h | h | h
    · omega
    · exact h h₂
    · exact h h₃
  case isFalse h =>
    rw [not_or, not_or, not_not, not_not] at h
    obtain ⟨h₁, h₂, h₃⟩ := h
    simp only
    split
    case isTrue h => exact hi fun ht => absurd ht.payload (UInt8.not_le.mpr h)
    case isFalse h₄ =>
      have h₄ := UInt8.not_lt.mp h₄
      split
      case isFalse h₀ =>
        refine hf _ ⟨by omega, h₂, h₃, h₄, (absurd · h₀)⟩ ?_
        rw [store, if_neg h₀]
        rfl
      case isTrue h₀ =>
        split
        case isTrue h => exact hi fun ht => absurd (ht.header h₀).left (UInt8.not_le.mpr h)
        case isFalse h₅ =>
          split
          case isTrue h =>
            refine .invalid fun ht => ?_
            have := (ht.header h₀).right
            tauto
          case isFalse h =>
            refine hf _ ⟨by omega, h₂, h₃, h₄, fun _ => ⟨UInt8.not_lt.mp h₅, by tauto⟩⟩ ?_
            rw [store, if_pos h₀]
            rfl

theorem handle_outcome (s : Assembly) (e : Event) : Outcome s e (s.handle e) := by
  cases e
  case frame f =>
    rw [Assembly.handle]
    split
    case isTrue  => exact parseTextFrame_outcome s f
    case isFalse h => exact .ignored fun _ hf ht => h (Event.frame.inj hf ▸ ht.type)
  case forceFinish =>
    rw [Assembly.handle, forceFinishTextFrame]
    split
    case isTrue  => exact .ignored fun _ hf => absurd hf Event.noConfusion
    case isFalse h => exact .force h

theorem append_msg (s : Assembly) (data : List UInt8) (textOffset : Nat) (chunkLen : UInt16)
    {k : Nat} (hk : k = min chunkLen.toNat (4096 - s.assemLen.toNat)) :
    (s.append data textOffset chunkLen).msg = { s.msg with
      text := if 0 < k then
          Function.update (Store.write s.msg.text s.assemLen.toNat ((data.drop textOffset).take k))
            (s.assemLen.toNat + k) 0
        else
          s.msg.text } := by
  rcases append_cases s data textOffset chunkLen with ⟨hf, ha⟩ | ⟨copyLen, hs, h₀, hc, ha⟩
  case inl => rw [ha, if_neg (by omega)]
  case inr =>
    rw [ha, hk, ←hc, if_pos h₀, toNat_assemLen_add hs hc]

theorem read_append_iff (s : Assembly) (data : List UInt8) (textOffset : Nat) (chunkLen : UInt16)
    {k n : Nat} (hk : k = min chunkLen.toNat (4096 - s.assemLen.toNat)) :
    Store.read (s.append data textOffset chunkLen).msg.text 0 n = Store.read s.msg.text 0 n ↔
    (∀ i, i < k → s.assemLen.toNat + i < n →
      ∀ x ∈ data[textOffset + i]?, s.msg.text (s.assemLen.toNat + i) = x) ∧
    (0 < k → s.assemLen.toNat + k < n → s.msg.text (s.assemLen.toNat + k) = 0) := by
  rw [append_msg s data textOffset chunkLen hk]
  by_cases h : 0 < k
  case neg => simp [show k = 0 by omega]
  case pos =>
    dsimp only
    rw [if_pos h, Store.read_write_term (by simp)]
    refine and_congr (forall₂_congr fun i hi => ?_) (by simp [h])
    rw [List.getElem?_take_of_lt hi, List.getElem?_drop]

theorem chunkLen_toNat {f : Frame} {x : UInt16} (h : x.toNat ≤ (payloadLen f).toNat) :
    ((payloadLen f).toUInt16 - x).toNat = (payloadLen f).toNat - x.toNat := by
  have hl : (payloadLen f).toUInt16.toNat = (payloadLen f).toNat := UInt8.toNat_toUInt16 _
  rw [UInt16.toNat_sub_of_le _ _ (UInt16.le_iff_toNat_le.mpr (hl ▸ h)), hl]

-- Storing a fragment, with the given header, does not show exactly if it repeats what is there.
theorem call_append_iff {s₀ : Assembly} {data : List UInt8} {textOffset : Nat} {chunkLen : UInt16}
    {k : Nat} (hk : k = min chunkLen.toNat (4096 - s₀.assemLen.toNat)) {c : LcdCall}
    (hc : c.text = Store.read s₀.msg.text 0 s₀.msg.textLen.toNat) :
    (s₀.append data textOffset chunkLen).msg.call = c ↔
    (s₀.msg.flag = c.flag ∧ s₀.msg.textType = c.textType) ∧
    (∀ i, i < k → s₀.assemLen.toNat + i < s₀.msg.textLen.toNat →
      ∀ x ∈ data[textOffset + i]?, s₀.msg.text (s₀.assemLen.toNat + i) = x) ∧
    (0 < k → s₀.assemLen.toNat + k < s₀.msg.textLen.toNat →
      s₀.msg.text (s₀.assemLen.toNat + k) = 0) := by
  rw [← read_append_iff s₀ data textOffset chunkLen hk, ← hc]
  obtain ⟨flag, textType, text⟩ := c
  rw [TextMsg.call, LcdCall.mk.injEq, append_msg s₀ data textOffset chunkLen hk, and_assoc]

theorem call_store_iff (ht : s.Takes f) : (s.store f).msg.call = s.msg.call ↔ s.Repeats f := by
  have hp : 2 ≤ (payloadLen f).toNat := UInt8.le_iff_toNat_le.mp ht.payload
  rw [store]
  by_cases h₀ : s.assemLen = 0
  case pos =>
    have hp₃ : 3 ≤ (payloadLen f).toNat := UInt8.le_iff_toNat_le.mp (ht.header h₀).left
    have ho : s.textOffset = 6 := if_pos h₀
    have hk : s.copyLen f =
        min ((payloadLen f).toUInt16 - 3).toNat (4096 - s.assemLen.toNat) := by
      rw [copyLen, ho, chunkLen_toNat (x := 3) hp₃]
      rfl
    rw [if_pos h₀, ← ho]
    refine Iff.trans (call_append_iff (k := s.copyLen f) ?_ ?_) ?_
    case refine_1 => exact hk
    case refine_2 => rfl
    exact ⟨fun ⟨h₁, h₂, h₃⟩ => ⟨fun _ => h₁, h₂, h₃⟩, fun h => ⟨h.header h₀, h.chunk, h.term⟩⟩
  case neg =>
    have ho : s.textOffset = 4 := if_neg h₀
    have hk : s.copyLen f =
        min ((payloadLen f).toUInt16 - 1).toNat (4096 - s.assemLen.toNat) := by
      rw [copyLen, ho, chunkLen_toNat (x := 1) (Nat.le_of_succ_le hp)]
      rfl
    rw [if_neg h₀, ← ho]
    refine (call_append_iff (c := s.msg.call) hk rfl).trans ?_
    exact ⟨fun ⟨_, h₂, h₃⟩ => ⟨(absurd · h₀), h₂, h₃⟩, fun h => ⟨⟨rfl, rfl⟩, h.chunk, h.term⟩⟩

theorem store_valid (s : Assembly) (f : Frame) : (s.store f).msg.valid = s.msg.valid := by
  rw [store]
  split <;> rw [append_msg _ _ _ _ rfl]

theorem whole_of_invalid (h : s.msg.valid = 0) : Whole calls s := by
  intro m hm
  simp [getTextMsg, h] at hm

theorem whole_iff_of_valid (h : s.msg.valid ≠ 0) : Whole calls s ↔ calls.getLast? = some s.msg.call := by
  simp [Whole, getTextMsg, h]

theorem whole_publish (calls : List LcdCall) (s : Assembly) :
    Whole (calls ++ s.publish.2.toList) s.publish.1 := by
  have hv : s.publish.1.msg.valid ≠ 0 := by simp [publish]
  rw [whole_iff_of_valid hv, publish, Option.toList_some, List.getLast?_concat]
  rfl

-- Once the message is whole, it stays whole with an event exactly if the event leaves it undisturbed.
theorem whole_handle_iff (h : Whole calls s) (e : Event) :
    Whole (calls ++ (s.handle e).2.toList) (s.handle e).1 ↔ Undisturbed s e := by
  have ho := handle_outcome s e
  generalize s.handle e = r at ho ⊢
  cases ho
  case force => exact iff_of_true (whole_publish _ s) nofun
  case last f ht hl =>
    refine iff_of_true (whole_publish _ _) ?_
    rintro _ ⟨⟩ _ _ hn
    exact absurd hl hn
  case invalid f ht =>
    refine iff_of_true (whole_of_invalid rfl) ?_
    rintro _ ⟨⟩ _ ht' _
    exact absurd ht' ht
  case ignored ht =>
    rw [Option.toList_none, List.append_nil]
    exact iff_of_true h fun f hf _ ht' _ => absurd ht' (ht f hf)
  case fragment f ht hn =>
    rw [Option.toList_none, List.append_nil]
    by_cases hv : s.msg.valid = 0
    case pos =>
      refine iff_of_true (whole_of_invalid (store_valid s f ▸ hv)) ?_
      exact fun _ _ hv' _ _ => absurd hv hv'
    case neg =>
      rw [whole_iff_of_valid (store_valid s f ▸ hv), (whole_iff_of_valid hv).mp h, Option.some.injEq,
        eq_comm, call_store_iff ht]
      refine ⟨fun hr => ?_, fun hu => hu f rfl hv ht hn⟩
      rintro _ ⟨⟩ _ _ _
      exact hr

-- At every moment between two events, what can be obtained is the message that has been published last,
-- exactly if no fragment disturbs a message that can be obtained.
theorem whole_iff_undisturbed (es : List Event) :
    (∀ es', es' <+: es → Whole (init.handleAll es').2 (init.handleAll es').1) ↔
    Mealy.Along handle Undisturbed init es := by
  induction es using List.reverseRecOn
  case nil =>
    refine iff_of_true ?_ trivial
    rintro _ h
    rw [List.prefix_nil.mp h]
    exact whole_of_invalid rfl
  case append_singleton es e hi =>
    rw [Mealy.along_append, ← hi]
    simp only [List.prefix_concat_iff]
    constructor
    · intro h
      have hw := h _ (.inl rfl)
      rw [handleAll, Mealy.feed_concat] at hw
      exact ⟨fun es' h' => h es' (.inr h'),
        (whole_handle_iff (h es (.inr List.prefix_rfl)) e).mp hw, trivial⟩
    · rintro ⟨h, hu, _⟩ es' (rfl | h')
      · rw [handleAll, Mealy.feed_concat]
        exact (whole_handle_iff (h es List.prefix_rfl) e).mpr hu
      · exact h es' h'

-- A text in one piece, and the first of several fragments of the next one.
def overlapping : List Message :=
  [⟨textFrameType, [1, 0x01, 1, 0x48, 0x69], isKnownType_text, by decide⟩,
    ⟨textFrameType, [0, 0x00, 2, 0x4F], isKnownType_text, by decide⟩]

-- The two bytes that can be obtained are the first one of the next text and the terminator behind it.
theorem not_whole_overlapping :
    ¬Whole (init.handleAll (overlapping.map (.frame ·.frame))).2
      (init.handleAll (overlapping.map (.frame ·.frame))).1 := by
  rw [whole_iff_of_valid (by decide)]
  decide

end Assembly

end App.UartCmd
