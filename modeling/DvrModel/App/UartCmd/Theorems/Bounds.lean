import DvrModel.App.UartCmd.Access
import DvrModel.App.UartCmd.Theorems.Held

open Checked (Fault)

namespace App.UartCmd

-- The frames that the parser delivers.
structure Frame.Sized (f : Frame) : Prop where
  ge   : 6 ≤ f.length
  le   : f.length ≤ 255
  data : f.data.length = f.length

def Event.Sized : Event → Prop
  | frame f     => f.Sized
  | forceFinish => True

namespace Assembly

variable {s : Assembly} {data : List UInt8} {o k : Nat} {chunkLen : UInt16} {f : Frame}

theorem publishChecked_eq (h : s.assemLen.toNat ≤ 4096) : s.publishChecked = pure s.publish := by
  have hn : ¬s.assemLen > Svc.Lcd.textMsgMaxLen := UInt16.not_lt.mpr (UInt16.le_iff_toNat_le.mpr h)
  have hb : s.assemLen.toNat < textBufSize := Nat.lt_succ_of_le h
  have hl : ∀ i ∈ List.range s.assemLen.toNat,
      Checked.load s.msg.text textBufSize i = pure (s.msg.text i) := by
    intro i hi
    exact Checked.load_of_lt <| Nat.lt_trans (List.mem_range.mp hi) hb
  rw [publishChecked, if_neg hn, Checked.mapM_eq_pure hl, pure_bind,
    Checked.fill_of_le (by simp; omega), pure_bind, Checked.store_of_lt hb, pure_bind]

theorem appendChecked_eq (h : s.assemLen.toNat ≤ 4096) (ho : o + chunkLen.toNat ≤ k)
    (hk : k ≤ data.length) :
    s.appendChecked (data.take k) o chunkLen = pure (s.append data o chunkLen) := by
  rw [appendChecked, append]
  split
  case isFalse => rfl
  case isTrue hlt =>
    have hc : UInt16.toNat (if chunkLen > _ then _ else _) = _ := toNat_copyLen hlt
    rw [Checked.sub_of_le (UInt16.le_of_lt hlt), pure_bind]
    simp only
    generalize (if chunkLen > textMaxSize - s.assemLen then textMaxSize - s.assemLen
      else chunkLen) = copyLen at hc ⊢
    split
    case isFalse => rfl
    case isTrue =>
      have hadd := toNat_assemLen_add (UInt16.lt_iff_toNat_lt.mp hlt) hc
      have hl : ((data.take k).drop o).take copyLen.toNat = (data.drop o).take copyLen.toNat := by
        rw [List.drop_take, List.take_take, Nat.min_eq_left (by omega)]
      have hb : (s.assemLen + copyLen).toNat < textBufSize := by
        rw [hadd]
        exact Nat.lt_of_le_of_lt (m := 4096) (by omega) (by decide)
      rw [Checked.slice_of_le (by simp; omega), pure_bind, hl, Checked.fill_of_le (by simp; omega),
        pure_bind, Checked.add_of_le (UInt16.le_iff_toNat_le.mpr (by omega)), pure_bind,
        Checked.store_of_lt hb, pure_bind]

theorem finishChecked_eq (state : UInt8) (h : s.assemLen.toNat ≤ 4096) :
    s.finishChecked state = pure (s.finish state) := by
  rw [finishChecked, finish]
  split
  case isTrue  => exact publishChecked_eq h
  case isFalse => rfl

theorem forceFinishTextFrameChecked_eq (h : s.assemLen.toNat ≤ 4096) :
    s.forceFinishTextFrameChecked = pure s.forceFinishTextFrame := by
  rw [forceFinishTextFrameChecked, forceFinishTextFrame]
  split
  case isTrue  => rfl
  case isFalse => exact publishChecked_eq h

theorem toNat_payloadLen (h : f.Sized) : (payloadLen f).toNat = f.length - 6 := by
  have := h.le
  rw [payloadLen, UInt8.toNat_ofNat']
  omega

-- The lengths of the chunks, which end where the payload does.
theorem toNat_chunkLen {x : UInt16} (h : f.Sized) (hx : x.toNat ≤ f.length - 6) :
    x ≤ (payloadLen f).toUInt16 ∧ ((payloadLen f).toUInt16 - x).toNat = f.length - 6 - x.toNat := by
  have hn : (payloadLen f).toUInt16.toNat = f.length - 6 := by
    rw [UInt8.toNat_toUInt16, toNat_payloadLen h]
  have hle : x ≤ (payloadLen f).toUInt16 :=
    UInt16.le_iff_toNat_le.mpr <| Nat.le_trans hx (Nat.le_of_eq hn.symm)
  exact ⟨hle, by rw [UInt16.toNat_sub_of_le _ _ hle, hn]⟩

theorem item_payload {i : Nat} (h : f.Sized) (hi : i < f.length - 3) :
    Checked.item (f.data.take (f.length - 3)) i 0 = pure (f.data.getD i 0) := by
  have := h.data
  rw [Checked.item_of_lt (by simp; omega), List.getD_eq_getElem?_getD, List.getElem?_take_of_lt hi,
    ←List.getD_eq_getElem?_getD]

-- A chunk of the payload is appended, which may complete the message.
theorem chunkChecked_eq {x : UInt16} {state : UInt8} (h : f.Sized) (hs : s.assemLen.toNat ≤ 4096)
    (hx : x.toNat ≤ f.length - 6) (ho : o = x.toNat + 3) :
    (do
      let chunkLen ← Checked.sub (payloadLen f).toUInt16 x
      (← s.appendChecked (f.data.take (f.length - 3)) o chunkLen).finishChecked state) =
    pure (s.append f.data o ((payloadLen f).toUInt16 - x) |>.finish state) := by
  have ⟨hle, hn⟩ := toNat_chunkLen h hx
  have ⟨hge, _, hd⟩ := h
  rw [Checked.sub_of_le hle, pure_bind, appendChecked_eq hs (by omega) (by omega), pure_bind,
    finishChecked_eq _ (append_assemLen_le hs)]

theorem parseTextFrameChecked_eq (h : f.Sized) (hs : s.assemLen.toNat ≤ 4096) :
    s.parseTextFrameChecked f = pure (s.parseTextFrame f) := by
  have ⟨hge, hle, hd⟩ := h
  rw [parseTextFrameChecked, parseTextFrame]
  by_cases h₇ : f.length < 7
  case pos => rw [if_pos h₇, if_pos (.inl h₇)]
  case neg =>
    rw [if_neg h₇, Checked.item_of_lt (by omega), pure_bind]
    by_cases h₀ : f.data.getD 0 0 ≠ frameHead
    case pos => rw [if_pos h₀, if_pos (.inr (.inl h₀))]
    case neg =>
      rw [if_neg h₀, Checked.item_of_lt (by omega), pure_bind]
      by_cases h₂ : f.data.getD 2 0 ≠ textFrameType
      case pos => rw [if_pos h₂, if_pos (.inr (.inr h₂))]
      case neg =>
        have hp := toNat_payloadLen h
        rw [if_neg h₂, if_neg (by tauto), Checked.sub_of_le hge, pure_bind, Checked.fit_of_lt (by omega),
          pure_bind, Checked.sub_of_le (by omega), pure_bind, ←payloadLen]
        simp only
        split
        case isTrue => rfl
        case isFalse hp₂ =>
          rw [UInt8.lt_iff_toNat_lt, hp] at hp₂
          have hp₂ : ¬f.length - 6 < 2 := hp₂
          rw [item_payload h (by omega), pure_bind]
          split
          case isFalse => exact chunkChecked_eq h hs (x := 1) (by simp; omega) rfl
          case isTrue =>
            split
            case isTrue => rfl
            case isFalse hp₃ =>
              rw [UInt8.lt_iff_toNat_lt, hp] at hp₃
              have hp₃ : ¬f.length - 6 < 3 := hp₃
              rw [item_payload h (by omega), pure_bind, item_payload h (by omega), pure_bind]
              split
              case isTrue => rfl
              case isFalse => exact chunkChecked_eq h hs (x := 3) (by simp; omega) rfl

theorem handleChecked_eq {e : Event} (h : e.Sized) (hs : s.assemLen.toNat ≤ 4096) :
    s.handleChecked e = pure (s.handle e) := by
  cases e
  case forceFinish => exact forceFinishTextFrameChecked_eq hs
  case frame f =>
    have hl : f.data.length = f.length := Frame.Sized.data h
    have hg : 6 ≤ f.length := Frame.Sized.ge h
    rw [handleChecked, handle, Checked.item_of_lt (by omega), pure_bind]
    split
    case isTrue  => exact parseTextFrameChecked_eq h hs
    case isFalse => rfl

end Assembly

-- The byte is one of the payload of a text frame.
def Origin (es : List Event) (b : UInt8) : Prop :=
  ∃ f, .frame f ∈ es ∧ f.data.getD 2 0 = textFrameType ∧
    ∃ i, 3 ≤ i ∧ i < f.length - 3 ∧ f.data.getD i 0 = b

theorem Origin.mono {es es' : List Event} {b : UInt8} (h : Origin es b) (hs : es ⊆ es') :
    Origin es' b := by
  have ⟨f, hf, h⟩ := h
  exact ⟨f, hs hf, h⟩

-- A part of the payload.
theorem Frame.Sized.origin {es : List Event} {f : Frame} {o n : Nat} (h : f.Sized) (hf : .frame f ∈ es)
    (ht : f.data.getD 2 0 = textFrameType) (ho : 3 ≤ o) (hn : o + n ≤ f.length - 3) :
    o + n ≤ f.data.length ∧ ∀ i < n, Origin es (f.data.getD (o + i) 0) :=
  ⟨by rw [h.data]; omega, fun i hi => ⟨f, hf, ht, o + i, by omega, by omega, rfl⟩⟩

namespace Assembly

variable {s : Assembly} {es : List Event} {f : Frame}

-- A text of bounded length that is terminated, unless it is empty.
structure Terminated (text : Nat → UInt8) (len : UInt16) (es : List Event) : Prop where
  le     : len.toNat ≤ 4096
  term   : 0 < len → text len.toNat = 0
  origin : ∀ i < len.toNat, Origin es (text i)

theorem Terminated.mono {text : Nat → UInt8} {len : UInt16} {es' : List Event}
    (h : Terminated text len es) (hs : es ⊆ es') : Terminated text len es' :=
  ⟨h.le, h.term, fun i hi => (h.origin i hi).mono hs⟩

theorem Terminated.zero {text : Nat → UInt8} : Terminated text 0 es :=
  ⟨by decide, fun h => absurd h (by decide), nofun⟩

-- The text in the making and the one on the display. Of the one that has been published before, the
-- length is left.
structure Bounded (s : Assembly) (es : List Event) : Prop where
  text       : Terminated s.msg.text s.assemLen es
  display    : Terminated s.display.textMsg.text s.display.textMsg.textLen es
  textLen_le : s.msg.textLen.toNat ≤ 4096

theorem Bounded.init : Bounded .init [] :=
  ⟨.zero, .zero, by decide⟩

theorem Bounded.mono {es' : List Event} (h : s.Bounded es) (hs : es ⊆ es') : s.Bounded es' :=
  ⟨h.text.mono hs, h.display.mono hs, h.textLen_le⟩

theorem Bounded.append {data : List UInt8} {o : Nat} {n : UInt16} (h : s.Bounded es)
    (hd : o + n.toNat ≤ data.length ∧ ∀ i < n.toNat, Origin es (data.getD (o + i) 0)) :
    (s.append data o n).Bounded es := by
  rcases append_cases s data o n with ⟨_, ha⟩ | ⟨copyLen, hs, _, hk, ha⟩
  all_goals rw [ha]
  case inl => exact h
  case inr =>
    have hadd := toNat_assemLen_add hs hk
    refine ⟨⟨?le, fun _ => Function.update_self .., ?origin⟩, h.display, h.textLen_le⟩
    case le =>
      rw [hadd]
      omega
    case origin =>
      intro i hi
      have hi : i < s.assemLen.toNat + copyLen.toNat := hadd ▸ hi
      show Origin es ((Function.update _ _ _ : Nat → UInt8) i)
      rw [Function.update_of_ne (by omega)]
      by_cases hlt : i < s.assemLen.toNat
      case pos =>
        rw [Store.write_of_lt hlt]
        exact h.text.origin i hlt
      case neg =>
        obtain ⟨j, rfl⟩ := Nat.exists_eq_add_of_le (Nat.le_of_not_lt hlt)
        have := hd.left
        have hj : o + j < data.length := by omega
        rw [Store.write_add (by simp; omega), List.getElem_take, List.getElem_drop,
          ←List.getD_eq_getElem _ 0 hj]
        exact hd.right j (by omega)

-- The display gets a terminated copy.
theorem Terminated.publish (h : Terminated s.msg.text s.assemLen es) :
    Terminated s.publish.1.display.textMsg.text s.publish.1.display.textMsg.textLen es := by
  have hn : ¬s.assemLen > Svc.Lcd.textMsgMaxLen := UInt16.not_lt.mpr (UInt16.le_iff_toNat_le.mpr h.le)
  simp only [Assembly.publish, Svc.Lcd.Display.updateTextMessage, if_neg hn]
  refine ⟨h.le, fun _ => Function.update_self .., fun i hi => ?_⟩
  have hw := Store.write_add (m := s.display.textMsg.text) (a := 0) (k := i)
    (l := Store.read s.msg.text 0 s.assemLen.toNat) (by simpa using hi)
  rw [Store.getElem_read, Nat.zero_add] at hw
  rw [Function.update_of_ne (Nat.ne_of_lt hi), hw]
  exact h.origin i hi

theorem Bounded.store (h : s.Bounded es) (hs : f.Sized) (hf : .frame f ∈ es) (ht : s.Takes f) :
    (s.store f).Bounded es := by
  have hl := ht.length
  have hp := toNat_payloadLen hs
  rw [Assembly.store]
  split
  case isTrue h₀ =>
    have h₃ := UInt8.le_iff_toNat_le.mp (ht.header h₀).left
    have hn := (toNat_chunkLen (x := 3) hs (hp ▸ h₃)).right
    have h₃ : 3 ≤ f.length - 6 := hp ▸ h₃
    refine Bounded.append ⟨h.text, h.display, h.textLen_le⟩ <| hs.origin hf ht.type (by decide) ?_
    rw [hn, show UInt16.toNat 3 = 3 from rfl]
    omega
  case isFalse =>
    have h₂ := UInt8.le_iff_toNat_le.mp ht.payload
    have h₂ : 2 ≤ f.length - 6 := hp ▸ h₂
    have hn := (toNat_chunkLen (x := 1) hs (by simp; omega)).right
    refine h.append <| hs.origin hf ht.type (by decide) ?_
    rw [hn, show UInt16.toNat 1 = 1 from rfl]
    omega

-- A call is made with a text that is terminated.
structure Delivered (s : Assembly) (es : List Event) (call : LcdCall) : Prop where
  text : Store.read s.msg.text 0 s.msg.textLen.toNat = call.text
  term : Terminated s.msg.text s.msg.textLen es

theorem Bounded.publish (h : s.Bounded es) :
    s.publish.1.Bounded es ∧ ∀ call ∈ s.publish.2, s.publish.1.Delivered es call := by
  refine ⟨⟨.zero, h.text.publish, h.text.le⟩, ?_⟩
  rintro call ⟨⟩
  exact ⟨rfl, h.text⟩

theorem Bounded.outcome {e : Event} {r : Assembly × Option LcdCall} (h : s.Bounded es) (hs : e.Sized)
    (he : e ∈ es) (ho : s.Outcome e r) : r.1.Bounded es ∧ ∀ call ∈ r.2, r.1.Delivered es call := by
  cases ho
  case force          => exact h.publish
  case fragment ht _  => exact ⟨h.store hs he ht, nofun⟩
  case last ht _      => exact (h.store hs he ht).publish
  case invalid        => exact ⟨⟨.zero, h.display, h.textLen_le⟩, nofun⟩
  case ignored        => exact ⟨h, nofun⟩

theorem Bounded.handle {e : Event} (h : s.Bounded es) (hs : e.Sized) :
    (s.handle e).1.Bounded (es ++ [e]) ∧
    ∀ call ∈ (s.handle e).2, (s.handle e).1.Delivered (es ++ [e]) call :=
  (h.mono <| List.subset_append_left ..).outcome hs (by simp) (handle_outcome s e)

theorem handleAll_bounded (h : ∀ e ∈ es, e.Sized) : (handleAll .init es).1.Bounded es := by
  induction es using List.reverseRecOn
  case nil => exact .init
  case append_singleton es e hi =>
    have hb := hi fun e he => h e <| List.mem_append_left _ he
    rw [handleAll, Mealy.feed_concat]
    exact (hb.handle <| h e (by simp)).left

-- The assembly stays within its buffers, and it only copies from payloads. What it publishes is
-- terminated, both where it is read from and on the display.
theorem text_bounds (es : List Event) (h : ∀ e ∈ es, e.Sized) :
    Checked.feed handleChecked .init es = pure (handleAll .init es) ∧
    ∀ s, (handleAll .init es).1 = s →
      Terminated s.msg.text s.assemLen es ∧
      Terminated s.display.textMsg.text s.display.textMsg.textLen es ∧
      s.msg.textLen.toNat ≤ 4096 ∧
      ∀ e s' call, e.Sized → s.handle e = (s', some call) →
        Store.read s'.msg.text 0 s'.msg.textLen.toNat = call.text ∧
        Terminated s'.msg.text s'.msg.textLen (es ++ [e]) := by
  constructor
  case left =>
    refine Checked.feed_eq_pure (P := fun s => s.assemLen.toNat ≤ 4096) (by decide) h ?_
    intro s e hs he
    refine ⟨handleChecked_eq he hs, ?_⟩
    have hu := handle_update e hs
    generalize s.handle e = r at hu ⊢
    obtain ⟨s', o⟩ := r
    cases hu <;> assumption
  case right =>
    rintro s rfl
    have hb := handleAll_bounded h
    refine ⟨hb.text, hb.display, hb.textLen_le, fun e s' call he hc => ?_⟩
    have hd := (hb.handle he).right call
    rw [hc] at hd
    exact ⟨(hd rfl).text, (hd rfl).term⟩

-- The first fragment of a message, which is then cut off.
def cutOff : List Event :=
  [.frame ⟨10, [0xAA, 10, 2, 0, 1, 1, 0x48, 0xCD, 0xCD, 0x55]⟩, .forceFinish]

theorem text_bounds_cutOff : (handleAll .init cutOff).2 = [⟨1, 1, [0x48]⟩] ∧
    (handleAll .init cutOff).1.msg.textLen.toNat ≤ 4096 := by
  have h : ∀ e ∈ cutOff, e.Sized := by
    intro e he
    rcases List.mem_cons.mp he with rfl | he
    case inl => exact ⟨by decide, by decide, rfl⟩
    case inr => exact List.mem_singleton.mp he ▸ trivial
  exact ⟨by decide, ((text_bounds cutOff h).right _ rfl).right.right.left⟩

end Assembly

end App.UartCmd
