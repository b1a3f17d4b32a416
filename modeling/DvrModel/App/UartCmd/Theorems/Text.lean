import DvrModel.App.UartCmd.Text
import DvrModel.App.UartCmd.Theorems.Stream

namespace App.UartCmd

-- A message that is being put together from its fragments.
structure Partial where
  flag : UInt8
  type : UInt8
  text : List UInt8

-- What is published of it.
def Partial.call (p : Partial) : LcdCall where
  flag     := p.flag
  textType := p.type
  text     := p.text.take 4096

-- The reassembly of messages from the payloads of text frames, with texts of any length. The first
-- fragment has a header, which the others do not have.
namespace Reassembly

def close (state : UInt8) (p : Partial) : Option Partial × Option LcdCall :=
  if state = 1 then (none, some p.call) else (some p, none)

def accept : Option Partial → List UInt8 → Option Partial × Option LcdCall
  | none, state :: flag :: type :: chunk => close state ⟨flag, type, chunk⟩
  | some p, state :: chunk               => close state { p with text := p.text ++ chunk }
  | q, _                                 => (q, none)

-- The payload is what the receiver takes it for.
inductive Fits : Option Partial → List UInt8 → Prop
  | first : type = 1 ∨ type = 2 → chunk ≠ [] → Fits none (state :: flag :: type :: chunk)
  | next  : chunk ≠ [] → Fits (some p) (state :: chunk)

-- Exactly the last fragments complete a message.
def IsLast (payload : List UInt8) : Bool :=
  payload.head? == some 1

theorem length_feed (h : Mealy.Along accept Fits q ps) :
    (Mealy.feed accept q ps).2.length = ps.countP IsLast := by
  induction ps generalizing q
  case nil => rfl
  case cons p ps hi =>
    have ⟨hf, ha⟩ := h
    rw [Mealy.feed_cons, List.length_append, hi ha, List.countP_cons, Nat.add_comm]
    congr 1
    cases hf
    all_goals
      simp only [accept, close, IsLast, List.head?_cons, beq_iff_eq, Option.some.injEq]
      split <;> rfl

end Reassembly

namespace Assembly

variable {s : Assembly} {t chunk data : List UInt8} {textOffset : Nat} {chunkLen : UInt16}

-- As much of a chunk is copied as there is room for.
theorem toNat_copyLen (h : s.assemLen < textMaxSize) :
    (if chunkLen > textMaxSize - s.assemLen then textMaxSize - s.assemLen else chunkLen).toNat =
      min chunkLen.toNat (4096 - s.assemLen.toNat) := by
  have hr : (textMaxSize - s.assemLen).toNat = 4096 - s.assemLen.toNat :=
    UInt16.toNat_sub_of_le _ _ (UInt16.le_of_lt h)
  rw [←hr]
  split
  case isTrue hgt =>
    have := UInt16.lt_iff_toNat_lt.mp hgt
    omega
  case isFalse hle =>
    have := UInt16.le_iff_toNat_le.mp (UInt16.not_lt.mp hle)
    omega

-- As much as is copied fits into the array.
theorem toNat_assemLen_add {copyLen : UInt16} {n : Nat} (hs : s.assemLen.toNat < 4096)
    (hk : copyLen.toNat = min n (4096 - s.assemLen.toNat)) :
    (s.assemLen + copyLen).toNat = s.assemLen.toNat + copyLen.toNat := by
  rw [UInt16.toNat_add, Nat.mod_eq_of_lt (by omega)]

-- What appending a chunk does: nothing if there is no room or no byte.
theorem append_cases (s : Assembly) (data : List UInt8) (textOffset : Nat) (chunkLen : UInt16) :
    ((4096 ≤ s.assemLen.toNat ∨ chunkLen.toNat = 0) ∧ s.append data textOffset chunkLen = s) ∨
    ∃ copyLen : UInt16, s.assemLen.toNat < 4096 ∧ 0 < copyLen.toNat ∧
      copyLen.toNat = min chunkLen.toNat (4096 - s.assemLen.toNat) ∧
      s.append data textOffset chunkLen = { s with
        msg.text := Function.update
          (Store.write s.msg.text s.assemLen.toNat ((data.drop textOffset).take copyLen.toNat))
          (s.assemLen + copyLen).toNat 0
        assemLen := s.assemLen + copyLen } := by
  rw [Assembly.append]
  split
  case isFalse hf => exact .inl ⟨.inl (UInt16.le_iff_toNat_le.mp (UInt16.not_lt.mp hf)), rfl⟩
  case isTrue hf =>
    have hs : s.assemLen.toNat < 4096 := UInt16.lt_iff_toNat_lt.mp hf
    have hk : UInt16.toNat (if chunkLen > _ then _ else _) = _ := toNat_copyLen hf
    simp only
    generalize (if chunkLen > textMaxSize - s.assemLen then textMaxSize - s.assemLen
      else chunkLen) = copyLen at hk ⊢
    split
    case isTrue h₀ => exact .inr ⟨copyLen, hs, UInt16.lt_iff_toNat_lt.mp h₀, hk, rfl⟩
    case isFalse hn =>
      have h₀ : copyLen.toNat ≤ 0 := UInt16.le_iff_toNat_le.mp (UInt16.not_lt.mp hn)
      exact .inl ⟨.inr (by omega), rfl⟩

theorem append_frame : (s.append data textOffset chunkLen).msg.flag = s.msg.flag ∧
    (s.append data textOffset chunkLen).msg.textType = s.msg.textType ∧
    (s.append data textOffset chunkLen).display = s.display := by
  rcases append_cases s data textOffset chunkLen with ⟨_, h⟩ | ⟨_, _, _, _, h⟩
  all_goals rw [h]; exact ⟨rfl, rfl, rfl⟩

theorem append_assemLen_le (h : s.assemLen.toNat ≤ 4096) :
    (s.append data textOffset chunkLen).assemLen.toNat ≤ 4096 := by
  rcases append_cases s data textOffset chunkLen with ⟨_, ha⟩ | ⟨copyLen, hs, _, hk, ha⟩
  all_goals rw [ha]
  case inl => exact h
  case inr =>
    show (s.assemLen + copyLen).toNat ≤ 4096
    rw [toNat_assemLen_add hs hk]
    omega

-- The first bytes of `t`, as many as there is room for, have been collected.
structure Filled (s : Assembly) (t : List UInt8) : Prop where
  text : Store.read s.msg.text 0 s.assemLen.toNat = t.take 4096
  term : t ≠ [] → s.msg.text s.assemLen.toNat = 0

theorem Filled.nil (h : s.assemLen = 0) : s.Filled [] :=
  ⟨by rw [h]; rfl, nofun⟩

theorem Filled.assemLen_eq (h : s.Filled t) : s.assemLen.toNat = min 4096 t.length := by
  have := congrArg List.length h.text
  simpa using this

-- The text is extended by as much of the chunk as there is room for.
theorem Filled.write {copyLen : UInt16} (h : s.Filled t)
    (hk : copyLen.toNat = min chunk.length (4096 - s.assemLen.toNat)) (hs : s.assemLen.toNat < 4096) :
    { s with
      msg.text := Function.update
        (Store.write s.msg.text s.assemLen.toNat (chunk.take copyLen.toNat))
        (s.assemLen + copyLen).toNat 0
      assemLen := s.assemLen + copyLen }.Filled (t ++ chunk) := by
  have hn := h.assemLen_eq
  have hadd := toNat_assemLen_add hs hk
  have hl : (chunk.take copyLen.toNat).length = copyLen.toNat := List.length_take_of_le (by omega)
  have ht : t.take 4096 = t := List.take_of_length_le (by omega)
  have hw := Store.read_write_right (m := s.msg.text) (a := 0) (congrArg (s.assemLen.toNat + ·) hl)
  refine ⟨?_, fun _ => Function.update_self ..⟩
  show Store.read (Function.update _ _ _) 0 (s.assemLen + copyLen).toNat = _
  rw [Store.read_update_of_le (by omega), hadd]
  rw [Nat.zero_add, Store.take_read (by omega), h.text, ht] at hw
  rw [hw, List.take_append, ht, hk]
  congr 1
  rw [List.take_eq_take_iff]
  omega

theorem Filled.append (h : s.Filled t) (hc : chunk ≠ [])
    (hl : chunk.length = chunkLen.toNat) (hd : (data.drop textOffset).take chunkLen.toNat = chunk) :
    (s.append data textOffset chunkLen).Filled (t ++ chunk) := by
  have hn := h.assemLen_eq
  have hp := List.length_pos_iff.mpr hc
  rcases append_cases s data textOffset chunkLen with ⟨hf, ha⟩ | ⟨copyLen, hs, _, hk, ha⟩
  all_goals rw [ha]
  case inl =>
    have hf' : 4096 ≤ s.assemLen.toNat := hf.resolve_right (by omega)
    refine ⟨?_, fun _ => h.term (List.ne_nil_of_length_pos (by omega))⟩
    rw [h.text, List.take_append_of_le_length (by omega)]
  case inr =>
    have ht : (data.drop textOffset).take copyLen.toNat = chunk.take copyLen.toNat := by
      rw [←hd, List.take_take, Nat.min_eq_left (by omega)]
    rw [ht]
    exact h.write (hl ▸ hk) hs

-- The assembly holds a message in the making.
structure Holds (s : Assembly) (p : Partial) : Prop where
  flag   : s.msg.flag = p.flag
  type   : s.msg.textType = p.type
  filled : s.Filled p.text
  ne_nil : p.text ≠ []

theorem Holds.assemLen_ne_zero {p : Partial} (h : s.Holds p) : s.assemLen ≠ 0 := by
  intro h₀
  have hp := List.length_pos_iff.mpr h.ne_nil
  have hn := h.filled.assemLen_eq
  rw [h₀] at hn
  have : (0 : UInt16).toNat = 0 := rfl
  omega

def Rep (s : Assembly) : Option Partial → Prop
  | none   => s.assemLen = 0
  | some p => s.Holds p

-- The end of a fragment, whether it is the last one or not.
theorem Holds.finish {p : Partial} (state : UInt8) (h : s.Holds p) :
    (s.finish state).2 = (Reassembly.close state p).2 ∧
    (s.finish state).1.Rep (Reassembly.close state p).1 := by
  unfold Assembly.finish Reassembly.close
  split
  case isTrue =>
    refine ⟨?_, rfl⟩
    simp only [publish, h.flag, h.type, h.filled.text]
    rfl
  case isFalse => exact ⟨rfl, h⟩

end Assembly

-- The payloads of the text frames among the messages.
def textPayloads (ms : List Message) : List (List UInt8) :=
  (ms.filter (·.type == textFrameType)).map (·.payload)

namespace Message

variable {m : Message}

theorem getD_data_payload (h : k < m.payload.length) :
    m.frame.data.getD (k + 3) 0 = m.payload.getD k 0 := by
  show (_ :: _ :: _ :: (m.payload ++ _)).getD (k + 3) 0 = _
  rw [List.getD_cons_succ, List.getD_cons_succ, List.getD_cons_succ, List.getD_append _ _ _ _ h]

theorem take_drop_data (h : k + n = m.payload.length) :
    (m.frame.data.drop (k + 3)).take n = m.payload.drop k := by
  show ((_ :: _ :: _ :: (m.payload ++ _)).drop (k + 3)).take n = _
  rw [List.drop_succ_cons, List.drop_succ_cons, List.drop_succ_cons,
    List.drop_append_of_le_length (by omega), List.take_left' (by simp; omega)]

-- The length of the payload that `app_uart_cmd_parse_text_frame` derives from that of the frame.
def payloadLen (m : Message) : UInt8 :=
  .ofNat (m.frame.length - 6)

theorem payloadLen_toNat : m.payloadLen.toNat = m.payload.length := by
  have := m.length_le
  show (UInt8.ofNat (m.payload.length + 6 - 6)).toNat = _
  rw [UInt8.toNat_ofNat']
  omega

theorem payloadLen_sub_toNat {x : UInt16} (h : x.toNat ≤ m.payload.length) :
    (m.payloadLen.toUInt16 - x).toNat = m.payload.length - x.toNat := by
  have hl : m.payloadLen.toUInt16.toNat = m.payload.length := by
    rw [UInt8.toNat_toUInt16, payloadLen_toNat]
  rw [UInt16.toNat_sub_of_le _ _ (UInt16.le_iff_toNat_le.mpr (hl ▸ h)), hl]

end Message

namespace Assembly

variable {s s' : Assembly} {m : Message} {q : Option Partial}

-- What becomes of a text frame, in terms of its payload.
theorem parseTextFrame_eq (ht : m.type = textFrameType) (hl : 2 ≤ m.payload.length) :
    s.parseTextFrame m.frame =
      if s.assemLen = 0 then
        if m.payload.length < 3 then
          (s, none)
        else if m.payload.getD 2 0 ≠ 1 ∧ m.payload.getD 2 0 ≠ 2 then
          ({ s with msg.valid := 0, assemLen := 0 }, none)
        else
          { s with msg.flag := m.payload.getD 1 0, msg.textType := m.payload.getD 2 0 }.append
            m.frame.data 6 (m.payloadLen.toUInt16 - 3) |>.finish (m.payload.getD 0 0)
      else
        s.append m.frame.data 4 (m.payloadLen.toUInt16 - 1) |>.finish (m.payload.getD 0 0) := by
  have h₀ : ¬(m.frame.length < 7 ∨ m.frame.data.getD 0 0 ≠ frameHead ∨
      m.frame.data.getD 2 0 ≠ textFrameType) := by
    have hlen : m.frame.length = m.payload.length + 6 := rfl
    rintro (h | h | h)
    · omega
    · exact h rfl
    · exact h ht
  have h₂ : ¬m.payloadLen < 2 := by
    rw [UInt8.lt_iff_toNat_lt, Message.payloadLen_toNat]
    exact Nat.not_lt.mpr hl
  have h₃ : m.payloadLen < 3 ↔ m.payload.length < 3 := by
    rw [UInt8.lt_iff_toNat_lt, Message.payloadLen_toNat]
    rfl
  have hp : UInt8.ofNat (m.frame.length - 6) = m.payloadLen := rfl
  have hg : m.frame.data.getD 3 0 = m.payload.getD 0 0 := Message.getD_data_payload (by omega)
  rw [parseTextFrame, if_neg h₀]
  simp only [hp, if_neg h₂, h₃, hg]
  split
  case isFalse => rfl
  case isTrue =>
    split
    case isTrue => rfl
    case isFalse h =>
      have hg₁ : m.frame.data.getD 4 0 = m.payload.getD 1 0 := Message.getD_data_payload (by omega)
      have hg₂ : m.frame.data.getD 5 0 = m.payload.getD 2 0 := Message.getD_data_payload (by omega)
      simp only [hg₁, hg₂]

theorem handle_text (ht : m.type = textFrameType) :
    s.handle (.frame m.frame) = s.parseTextFrame m.frame :=
  if_pos ht

theorem handle_status (ht : m.type ≠ textFrameType) : s.handle (.frame m.frame) = (s, none) :=
  if_neg ht

-- The assembly does what the reassembly does with a payload that it takes for the right one.
theorem Rep.handle (hr : s.Rep q) (ht : m.type = textFrameType) (hf : Reassembly.Fits q m.payload) :
    (s.handle (.frame m.frame)).2 = (Reassembly.accept q m.payload).2 ∧
    (s.handle (.frame m.frame)).1.Rep (Reassembly.accept q m.payload).1 := by
  rw [handle_text ht]
  generalize hp : m.payload = payload at hf
  cases hf
  case first type chunk state flag hk hc =>
    have hl : m.payload.length = chunk.length + 3 := by rw [hp]; rfl
    have hx : (m.payloadLen.toUInt16 - 3).toNat = chunk.length := by
      rw [Message.payloadLen_sub_toNat (x := 3) (by simp; omega), hl]
      rfl
    have hd : (m.frame.data.drop 6).take (m.payloadLen.toUInt16 - 3).toNat = chunk := by
      rw [hx, Message.take_drop_data (k := 3) (by omega), hp]
      rfl
    have hn : ¬(type ≠ 1 ∧ type ≠ 2) := by tauto
    rw [parseTextFrame_eq ht (by omega), if_pos (show s.assemLen = 0 from hr), if_neg (by omega), hp]
    simp only [List.getD_cons_zero, List.getD_cons_succ, if_neg hn]
    refine Holds.finish state ⟨append_frame.left, append_frame.right.left, ?_, hc⟩
    exact Filled.append (t := []) (.nil hr) hc hx.symm hd
  case next chunk p state hc =>
    have hl : m.payload.length = chunk.length + 1 := by rw [hp]; rfl
    have hcl := List.length_pos_iff.mpr hc
    have hx : (m.payloadLen.toUInt16 - 1).toNat = chunk.length := by
      rw [Message.payloadLen_sub_toNat (x := 1) (by simp; omega), hl]
      rfl
    have hd : (m.frame.data.drop 4).take (m.payloadLen.toUInt16 - 1).toNat = chunk := by
      rw [hx, Message.take_drop_data (k := 1) (by omega), hp]
      rfl
    have hh : s.Holds p := hr
    rw [parseTextFrame_eq ht (by omega), if_neg hh.assemLen_ne_zero, hp]
    refine Holds.finish state
      ⟨append_frame.left.trans hh.flag, append_frame.right.left.trans hh.type, ?_, by simp [hc]⟩
    exact hh.filled.append hc hx.symm hd

-- Frames with the status of the SOC may come in between.
theorem Rep.feed {ms : List Message} (hr : s.Rep q)
    (ha : Mealy.Along Reassembly.accept Reassembly.Fits q (textPayloads ms)) :
    (s.handleAll (ms.map (.frame ·.frame))).2 =
      (Mealy.feed Reassembly.accept q (textPayloads ms)).2 ∧
    (s.handleAll (ms.map (.frame ·.frame))).1.Rep
      (Mealy.feed Reassembly.accept q (textPayloads ms)).1 := by
  unfold handleAll
  induction ms generalizing s q
  case nil => exact ⟨rfl, hr⟩
  case cons m ms hi =>
    by_cases ht : m.type = textFrameType
    case pos =>
      have hp : textPayloads (m :: ms) = m.payload :: textPayloads ms := by simp [textPayloads, ht]
      rw [hp] at ha ⊢
      have ⟨ho, hr'⟩ := hr.handle ht ha.left
      have ⟨hos, hrs⟩ := hi hr' ha.right
      rw [List.map_cons, Mealy.feed_cons, Mealy.feed_cons, ho, hos]
      exact ⟨rfl, hrs⟩
    case neg =>
      have hp : textPayloads (m :: ms) = textPayloads ms := by simp [textPayloads, ht]
      rw [hp] at ha ⊢
      have ⟨hos, hrs⟩ := hi hr ha
      rw [List.map_cons, Mealy.feed_cons, handle_status ht]
      exact ⟨hos, hrs⟩

-- The display shows what it has been called with.
structure Shows (d : Svc.Lcd.Display) (c : LcdCall) : Prop where
  valid    : d.textMsg.valid = 1
  flag     : d.textMsg.flag = c.flag
  textType : d.textMsg.textType = c.textType
  textLen  : d.textMsg.textLen.toNat = c.text.length
  text     : Store.read d.textMsg.text 0 c.text.length = c.text
  term     : d.textMsg.text c.text.length = 0

theorem shows_publish (h : s.assemLen.toNat ≤ 4096) :
    ∃ c, s.publish.2 = some c ∧ Shows s.publish.1.display c := by
  have hn : ¬s.assemLen > Svc.Lcd.textMsgMaxLen := UInt16.not_lt.mpr (UInt16.le_iff_toNat_le.mpr h)
  refine ⟨_, rfl, rfl, rfl, rfl, ?_, ?_, ?_⟩
  all_goals simp only [publish, Svc.Lcd.Display.updateTextMessage, if_neg hn, Store.length_read]
  case refine_2 =>
    rw [Store.read_update_of_le (by omega)]
    exact Store.read_write Store.length_read
  case refine_3 => exact Function.update_self ..

-- What any event does to the display: it publishes something, or it leaves the display alone. In either
-- case the text keeps to its bound.
inductive Update (s s' : Assembly) : Option LcdCall → Prop
  | quiet (bound : s'.assemLen.toNat ≤ 4096) (display : s'.display = s.display) : Update s s' none
  | call  (bound : s'.assemLen.toNat ≤ 4096) (shows : Shows s'.display c) : Update s s' (some c)

theorem publish_update (h : s'.assemLen.toNat ≤ 4096) : s.Update s'.publish.1 s'.publish.2 := by
  have ⟨c, hc, hs⟩ := shows_publish h
  exact hc ▸ .call (Nat.zero_le _) hs

theorem finish_update (state : UInt8) (h : s'.assemLen.toNat ≤ 4096) (hd : s'.display = s.display) :
    s.Update (s'.finish state).1 (s'.finish state).2 := by
  unfold finish
  split
  case isTrue  => exact publish_update h
  case isFalse => exact .quiet h hd

theorem parseTextFrame_update (f : Frame) (h : s.assemLen.toNat ≤ 4096) :
    s.Update (s.parseTextFrame f).1 (s.parseTextFrame f).2 := by
  have hq : s.Update s none := .quiet h rfl
  unfold parseTextFrame
  split
  case isTrue => exact hq
  case isFalse =>
    simp only
    split
    case isTrue => exact hq
    case isFalse =>
      split
      case isFalse => exact finish_update _ (append_assemLen_le h) append_frame.right.right
      case isTrue =>
        split
        case isTrue => exact hq
        case isFalse =>
          split
          case isTrue  => exact .quiet (Nat.zero_le _) rfl
          case isFalse => exact finish_update _ (append_assemLen_le h) append_frame.right.right

theorem handle_update (e : Event) (h : s.assemLen.toNat ≤ 4096) :
    s.Update (s.handle e).1 (s.handle e).2 := by
  have hq : s.Update s none := .quiet h rfl
  cases e
  case forceFinish =>
    show s.Update s.forceFinishTextFrame.1 s.forceFinishTextFrame.2
    unfold forceFinishTextFrame
    split
    case isTrue  => exact hq
    case isFalse => exact publish_update h
  case frame f =>
    unfold Assembly.handle
    simp only
    split
    case isTrue  => exact parseTextFrame_update f h
    case isFalse => exact hq

-- The display shows the last text that has been published, if any.
theorem handleAll_shows (es : List Event) (h : s.assemLen.toNat ≤ 4096) :
    ∀ c ∈ (s.handleAll es).2.getLast?, Shows (s.handleAll es).1.display c := by
  let P (_ : List Event) (cs : List LcdCall) (s : Assembly) :=
    s.assemLen.toNat ≤ 4096 ∧ ∀ c ∈ cs.getLast?, Shows s.display c
  suffices h : P es (s.handleAll es).2 (s.handleAll es).1 from h.right
  refine Mealy.feed_invariant ⟨h, nofun⟩ (.of_forall fun _ _ => trivial) ?_
  intro _ cs s e _ ⟨hb, hs⟩
  have hu := handle_update e hb
  generalize s.handle e = r at hu ⊢
  have ⟨s', o⟩ := r
  cases hu
  case quiet hb' hd =>
    refine ⟨hb', ?_⟩
    rw [Option.toList_none, List.append_nil, show s'.display = s.display from hd]
    exact hs
  case call c hb' hc =>
    refine ⟨hb', ?_⟩
    rw [Option.toList_some, List.getLast?_concat]
    intro _ h
    exact Option.mem_some.mp h ▸ hc

end Assembly

end App.UartCmd
