import DvrModel.App.UartCmd.Theorems.Publish

namespace App.UartCmd

open Reassembly
open scoped List

-- What reaches the assembly while the frames of a text are being sent.
inductive Arrival
  | fragment (m : Message)
  | forceFinish

namespace Arrival

def message? : Arrival → Option Message
  | fragment m  => some m
  | forceFinish => none

def event : Arrival → Event
  | fragment m  => .frame m.frame
  | forceFinish => .forceFinish

end Arrival

-- A text, the frames in which it is sent and what arrives of them. Any of the frames may have been lost.
-- If it was damaged, this may have caused a forced finish.
structure Transfer extends Text where
  frames   : List Message
  types    : ∀ m ∈ frames, m.type = textFrameType
  splits   : toText.Splits (frames.map (·.payload))
  arrivals : List Arrival
  received : arrivals.filterMap (·.message?) <+ frames

-- What is published stems from this text alone.
structure Text.Yields (t : Text) (c : LcdCall) : Prop where
  flag : c.flag = t.flag
  type : c.textType = t.type
  text : c.text <+ t.text

namespace Message

-- Nothing comes of the frame if it is taken for a first one.
def Dismissed (m : Message) : Prop :=
  m.payload.length < 3 ∨ m.payload.getD 2 0 ≠ 1 ∧ m.payload.getD 2 0 ≠ 2

-- The frame has the header of the text.
def Heads (m : Message) (t : Text) : Prop :=
  m.payload.getD 1 0 = t.flag ∧ m.payload.getD 2 0 = t.type

end Message

-- Nothing is left over from another text when the first of the frames that are received arrives. A frame
-- that arrives while nothing is being assembled has the header of its text, or nothing comes of it.
def Text.Clear (t : Text) : Assembly → Bool → List Arrival → Prop
  | _, _,     []                => True
  | s, begun, .forceFinish :: as => t.Clear (s.handle .forceFinish).1 begun as
  | s, begun, .fragment m :: as  =>
    (begun = false → s.assemLen = 0) ∧ (s.assemLen = 0 → m.Dismissed ∨ m.Heads t) ∧
    t.Clear (s.handle (.frame m.frame)).1 true as

namespace Transfer

def events (x : Transfer) : List Event :=
  x.arrivals.map (·.event)

def AllClear (s : Assembly) : List Transfer → Prop
  | []      => True
  | x :: xs => x.Clear s false x.arrivals ∧ AllClear (s.handleAll x.events).1 xs

end Transfer

-- The text in the payloads of a message.
def textOf : List (List UInt8) → List UInt8
  | []      => []
  | p :: ps => p.drop 3 ++ ps.flatMap (·.tail)

variable {t : Text} {ps ps' : List (List UInt8)} {p : Partial} {q : Option Partial} {m : Message}
  {payload : List UInt8} {s : Assembly}

theorem Continues.flatMap_tail (h : Continues rest ps) : ps.flatMap (·.tail) = rest := by
  induction h
  case last => simp
  case more hi => simp [hi]

theorem Text.Splits.textOf_eq (h : t.Splits ps) : textOf ps = t.text := by
  cases h
  case whole => simp [textOf]
  case parts hr ht => simp [textOf, hr.flatMap_tail, ht]

theorem Continues.two_le (h : Continues rest ps) (hp : payload ∈ ps) : 2 ≤ payload.length := by
  induction h
  case last hc => simp_all [Nat.one_le_iff_ne_zero]
  case more hc _ hi =>
    rcases List.mem_cons.mp hp with rfl | hp
    · have := List.length_pos_iff.mpr hc
      rw [List.length_cons]
      omega
    · exact hi hp

theorem Text.Splits.two_le (h : t.Splits ps) (hp : payload ∈ ps) : 2 ≤ payload.length := by
  cases h
  case whole => simp_all
  case parts hc hr _ =>
    rcases List.mem_cons.mp hp with rfl | hp
    · simp
    · exact hr.two_le hp

theorem textOf_append (h : ps ≠ []) : textOf (ps ++ ps') = textOf ps ++ ps'.flatMap (·.tail) := by
  cases ps
  case nil => contradiction
  case cons p ps => simp [textOf]

theorem textOf_append_left (ps ps' : List (List UInt8)) : textOf ps <+: textOf (ps ++ ps') := by
  cases ps
  case nil => exact List.nil_prefix
  case cons p ps => exact textOf_append (List.cons_ne_nil p ps) ▸ List.prefix_append ..

-- What a frame adds if it is taken for a first one.
theorem drop_three_suffix (ps : List (List UInt8)) (payload : List UInt8) :
    payload.drop 3 <:+ textOf (ps ++ [payload]) := by
  cases ps
  case nil => simp [textOf]
  case cons p ps =>
    rw [textOf_append (List.cons_ne_nil p ps), List.flatMap_singleton]
    refine List.IsSuffix.trans ?_ (List.suffix_append ..)
    exact List.drop_one.symm ▸ List.drop_drop (i := 2) (j := 1) ▸ List.drop_suffix ..

-- What is being assembled stems from this text, of which the payloads `ps` have passed.
structure Fill (t : Text) (ps : List (List UInt8)) (p : Partial) : Prop where
  flag : p.flag = t.flag
  type : p.type = t.type
  text : p.text <+ textOf ps

theorem Fill.mono (h : Fill t ps p) (ps' : List (List UInt8)) : Fill t (ps ++ ps') p :=
  ⟨h.flag, h.type, h.text.trans (textOf_append_left ps ps').sublist⟩

theorem Fill.yields (h : Fill t ps p) (hs : t.Splits (ps ++ ps')) : t.Yields p.call where
  flag := h.flag
  type := h.type
  text := calc
    p.text.take 4096 <+ p.text := List.take_sublist ..
    _ <+ textOf ps             := h.text
    _ <+ textOf (ps ++ ps')    := (textOf_append_left ps ps').sublist
    _ = t.text                 := hs.textOf_eq

theorem Message.Heads.payload_eq (h : m.Heads t) :
    ∃ state chunk, m.payload = state :: t.flag :: t.type :: chunk := by
  obtain ⟨hf, ht⟩ := h
  have hk := t.known
  rw [← ht] at hk
  rw [← hf, ← ht]
  -- Without its third byte the type would be neither 1 nor 2.
  match m.payload, hk with
  | [], hk                           => simp at hk
  | [_], hk                          => simp at hk
  | [_, _], hk                       => simp at hk
  | state :: flag :: type :: chunk, _ => exact ⟨state, chunk, rfl⟩

namespace Assembly

-- The state of the assembly while the frames of a text arrive, of which the payloads `ps` have passed.
def Free (s : Assembly) (t : Text) (ps : List (List UInt8)) : Prop :=
  s.assemLen = 0 ∨ ∃ p, s.Holds p ∧ Fill t ps p

-- What an event leaves behind and what it publishes.
structure Keeps (t : Text) (ps : List (List UInt8)) (r : Assembly × Option LcdCall) : Prop where
  free   : r.1.Free t ps
  yields : ∀ c ∈ r.2, t.Yields c

theorem Free.mono (h : s.Free t ps) (ps' : List (List UInt8)) : s.Free t (ps ++ ps') :=
  h.imp_right fun ⟨p, hp, hf⟩ => ⟨p, hp, hf.mono ps'⟩

theorem Keeps.of_close {state : UInt8} {r : Assembly × Option LcdCall} (hf : Fill t ps p)
    (hs : t.Splits (ps ++ ps')) (ho : r.2 = (close state p).2) (hr : r.1.Rep (close state p).1) :
    Keeps t ps r := by
  unfold close at ho hr
  split at ho
  case isTrue h =>
    rw [if_pos h] at hr
    refine ⟨.inl hr, fun c hc => ?_⟩
    rw [ho, Option.mem_some] at hc
    exact hc ▸ hf.yields hs
  case isFalse h =>
    rw [if_neg h] at hr
    exact ⟨.inr ⟨p, hr, hf⟩, by simp [ho]⟩

theorem handle_forceFinish_assemLen : (s.handle .forceFinish).1.assemLen = 0 := by
  rw [Assembly.handle, forceFinishTextFrame]
  split
  case isTrue h => exact h
  case isFalse  => rfl

theorem Keeps.forceFinish (h : s.Free t ps) (hs : t.Splits (ps ++ ps')) :
    Keeps t ps (s.handle .forceFinish) := by
  rcases h with h | ⟨p, hh, hf⟩
  case inl =>
    have hn : s.handle .forceFinish = (s, none) := if_pos h
    exact hn ▸ ⟨.inl h, nofun⟩
  case inr =>
    have hp : s.handle .forceFinish = s.finish 1 := if_neg hh.assemLen_ne_zero
    have ⟨ho, hr⟩ := hh.finish 1
    exact hp ▸ .of_close hf hs ho hr

-- A frame that is taken for the next one of the text.
theorem Keeps.next (ht : m.type = textFrameType) (hl : 2 ≤ m.payload.length) (hh : s.Holds p)
    (hf : Fill t ps p) (hs : t.Splits (ps ++ m.payload :: ps')) :
    Keeps t (ps ++ [m.payload]) (s.handle (.frame m.frame)) := by
  have hne : ps ≠ [] := by
    rintro rfl
    exact hh.ne_nil (List.sublist_nil.mp hf.text)
  obtain ⟨state, chunk, hp⟩ := List.exists_cons_of_length_pos (show 0 < m.payload.length by omega)
  have hc : chunk ≠ [] := by
    rintro rfl
    simp [hp] at hl
  have ⟨ho, hr⟩ := Rep.handle (q := some p) hh ht (hp ▸ .next hc)
  have hf' : Fill t (ps ++ [m.payload]) { p with text := p.text ++ chunk } := by
    refine ⟨hf.flag, hf.type, ?_⟩
    rw [textOf_append hne, hp, List.flatMap_singleton, List.tail_cons]
    exact hf.text.append_right chunk
  rw [← List.singleton_append, ← List.append_assoc] at hs
  rw [hp] at ho hr
  exact .of_close hf' hs ho hr

-- A header without any text is published at once, or comes to nothing.
theorem handle_header (ht : m.type = textFrameType) (h₀ : s.assemLen = 0)
    (hp : m.payload = [state, t.flag, t.type]) :
    (s.handle (.frame m.frame)).1.assemLen = 0 ∧
    ∀ c ∈ (s.handle (.frame m.frame)).2, c = ⟨t.flag, t.type, []⟩ := by
  have hl : m.payload.length = 3 := by rw [hp]; rfl
  have hn : ¬(t.type ≠ 1 ∧ t.type ≠ 2) := by
    have := t.known
    tauto
  have hx : (m.payloadLen.toUInt16 - 3).toNat = 0 := by
    rw [Message.payloadLen_sub_toNat (x := 3) hl.ge, hl]
    rfl
  rw [handle_text ht, parseTextFrame_eq ht (by omega), if_pos h₀, if_neg (by omega), hp]
  simp only [List.getD_cons_zero, List.getD_cons_succ, if_neg hn]
  generalize hs₀ : { s with msg.flag := t.flag, msg.textType := t.type } = s₀
  have h₀' : s₀.assemLen = 0 := by rw [← hs₀]; exact h₀
  rcases append_cases s₀ m.frame.data 6 (m.payloadLen.toUInt16 - 3) with ⟨_, ha⟩ | ⟨_, _, hc, hk, _⟩
  case inr => omega
  rw [ha, finish]
  split
  case isTrue =>
    refine ⟨rfl, fun c hc => ?_⟩
    rw [publish, Option.mem_some] at hc
    rw [← hc, h₀', ← hs₀]
    rfl
  case isFalse => exact ⟨h₀', by simp⟩

-- A frame that is taken for a first one and has the header of the text.
theorem Keeps.first (ht : m.type = textFrameType) (h₀ : s.assemLen = 0) (hh : m.Heads t)
    (hs : t.Splits (ps ++ m.payload :: ps')) :
    Keeps t (ps ++ [m.payload]) (s.handle (.frame m.frame)) := by
  have ⟨state, chunk, hp⟩ := hh.payload_eq
  by_cases hc : chunk = []
  case pos =>
    have ⟨h₁, h₂⟩ := handle_header ht h₀ (hc ▸ hp)
    refine ⟨.inl h₁, fun c hc => ?_⟩
    exact h₂ c hc ▸ ⟨rfl, rfl, List.nil_sublist _⟩
  case neg =>
    have ⟨ho, hr⟩ := Rep.handle (q := none) h₀ ht (hp ▸ .first t.known hc)
    have hf : Fill t (ps ++ [m.payload]) ⟨t.flag, t.type, chunk⟩ := by
      refine ⟨rfl, rfl, ?_⟩
      have := (drop_three_suffix ps m.payload).sublist
      rwa [hp] at this ⊢
    rw [← List.singleton_append, ← List.append_assoc] at hs
    rw [hp] at ho hr
    exact .of_close hf hs ho hr

-- A frame that is taken for a first one, but nothing comes of it.
theorem Keeps.dismissed (ht : m.type = textFrameType) (hl : 2 ≤ m.payload.length) (h₀ : s.assemLen = 0)
    (hd : m.Dismissed) : Keeps t ps (s.handle (.frame m.frame)) := by
  rw [handle_text ht, parseTextFrame_eq ht hl, if_pos h₀]
  split
  case isTrue => exact ⟨.inl h₀, nofun⟩
  case isFalse h =>
    rw [if_pos (hd.resolve_left h)]
    exact ⟨.inl rfl, nofun⟩

theorem Keeps.fragment (ht : m.type = textFrameType) (hl : 2 ≤ m.payload.length) (h : s.Free t ps)
    (hc : s.assemLen = 0 → m.Dismissed ∨ m.Heads t) (hs : t.Splits (ps ++ m.payload :: ps')) :
    Keeps t (ps ++ [m.payload]) (s.handle (.frame m.frame)) := by
  rcases h with h₀ | ⟨p, hh, hf⟩
  case inl =>
    rcases hc h₀ with hd | hd
    · exact .dismissed ht hl h₀ hd
    · exact .first ht h₀ hd hs
  case inr => exact .next ht hl hh hf hs

-- What is being assembled belongs to one of the texts.
def Owned (ts : List Text) (s : Assembly) : Prop :=
  s.assemLen = 0 ∨ ∃ t ∈ ts, ∃ ps ps', t.Splits (ps ++ ps') ∧ s.Free t ps

-- What has become of the texts once some events have been handled.
structure Unmixed (ts : List Text) (r : Assembly × List LcdCall) : Prop where
  owned  : r.1.Owned ts
  yields : ∀ c ∈ r.2, ∃ t ∈ ts, t.Yields c

variable {ts ts' : List Text} {as : List Arrival} {ms : List Message}

theorem Owned.mono (h : s.Owned ts) (hs : ts ⊆ ts') : s.Owned ts' :=
  h.imp_right fun ⟨t, ht, hp⟩ => ⟨t, hs ht, hp⟩

theorem Unmixed.mono {r : Assembly × List LcdCall} (h : Unmixed ts r) (hs : ts ⊆ ts') :
    Unmixed ts' r where
  owned        := h.owned.mono hs
  yields c hc  := have ⟨t, ht, hy⟩ := h.yields c hc; ⟨t, hs ht, hy⟩

theorem Unmixed.cons {e : Event} {es : List Event} (hy : ∀ c ∈ (s.handle e).2, ∃ t ∈ ts, t.Yields c)
    (h : Unmixed ts ((s.handle e).1.handleAll es)) : Unmixed ts (s.handleAll (e :: es)) := by
  refine ⟨h.owned, fun c hc => ?_⟩
  rw [handleAll, Mealy.feed_cons, List.mem_append, Option.mem_toList] at hc
  exact hc.elim (hy c) (h.yields c)

-- The frames that are yet to come after the first one has arrived.
theorem Unmixed.of_free (ht : t ∈ ts) (hy : ∀ m ∈ ms, m.type = textFrameType)
    (hs : t.Splits (ps ++ ms.map (·.payload))) (hm : as.filterMap (·.message?) <+ ms)
    (hf : s.Free t ps) (hc : t.Clear s true as) : Unmixed ts (s.handleAll (as.map (·.event))) := by
  induction as generalizing s ps ms
  case nil => exact ⟨.inr ⟨t, ht, ps, _, hs, hf⟩, nofun⟩
  case cons a as hi =>
    cases a
    case forceFinish =>
      have hk := Keeps.forceFinish hf hs
      exact .cons (fun c hc => ⟨t, ht, hk.yields c hc⟩) (hi hy hs hm hk.free hc)
    case fragment m =>
      have ⟨r₁, r₂, hr, hmr, hsub⟩ := List.cons_sublist_iff.mp hm
      have ⟨u, v, huv⟩ := List.append_of_mem hmr
      have hms : ms = u ++ m :: (v ++ r₂) := by rw [hr, huv]; simp
      have hs' : t.Splits ((ps ++ u.map (·.payload)) ++
          m.payload :: (v ++ r₂).map (·.payload)) := by
        simpa [hms] using hs
      have hmm : m ∈ ms := by simp [hms]
      have hl : 2 ≤ m.payload.length := hs'.two_le (by simp)
      have hk := Keeps.fragment (hy m hmm) hl (hf.mono _) hc.right.left hs'
      refine .cons (fun c hc => ⟨t, ht, hk.yields c hc⟩) ?_
      refine hi (fun m' hm' => hy m' ?_) ?_ (hsub.trans (List.sublist_append_right v r₂)) hk.free
        hc.right.right
      · simp [hms, List.mem_append.mp hm']
      · simpa using hs'

-- The frames of a text. Before the first one arrives there may be something left of the texts before.
theorem Unmixed.of_owned (hy : ∀ m ∈ ms, m.type = textFrameType) (hs : t.Splits (ms.map (·.payload)))
    (hm : as.filterMap (·.message?) <+ ms) (ho : s.Owned ts) (hc : t.Clear s false as) :
    Unmixed (t :: ts) (s.handleAll (as.map (·.event))) := by
  induction as generalizing s
  case nil => exact ⟨ho.mono (List.subset_cons_self ..), nofun⟩
  case cons a as hi =>
    cases a
    case forceFinish =>
      refine .cons (fun c hc => ?_) (hi hm (.inl handle_forceFinish_assemLen) hc)
      rcases ho with h₀ | ⟨t', ht', ps, ps', hs', hf⟩
      case inl =>
        have hk : Keeps t [] (s.handle .forceFinish) := .forceFinish (.inl h₀) hs
        exact ⟨t, List.mem_cons_self, hk.yields c hc⟩
      case inr =>
        have hk := Keeps.forceFinish hf hs'
        exact ⟨t', List.mem_cons_of_mem _ ht', hk.yields c hc⟩
    case fragment m =>
      have hf : s.Free t [] := .inl (hc.left rfl)
      exact .of_free List.mem_cons_self hy hs hm hf ⟨nofun, hc.right⟩

theorem Unmixed.append {es₁ es₂ : List Event} (h₁ : Unmixed ts (s.handleAll es₁))
    (h₂ : Unmixed ts ((s.handleAll es₁).1.handleAll es₂)) : Unmixed ts (s.handleAll (es₁ ++ es₂)) := by
  rw [handleAll, Mealy.feed_append]
  exact ⟨h₂.owned, fun c hc => (List.mem_append.mp hc).elim (h₁.yields c) (h₂.yields c)⟩

-- Whatever gets lost, no text is mixed with another as long as the frames arrive when they should.
theorem Unmixed.of_allClear {xs : List Transfer} (ho : s.Owned ts) (hc : Transfer.AllClear s xs) :
    Unmixed (ts ++ xs.map (·.toText)) (s.handleAll (xs.flatMap (·.events))) := by
  induction xs generalizing s ts
  case nil => exact ⟨ho.mono (List.subset_append_left ..), nofun⟩
  case cons x xs hi =>
    have h₁ := Unmixed.of_owned x.types x.splits x.received ho hc.left
    have h₂ := hi h₁.owned hc.right
    have hs : x.toText :: ts ++ xs.map (·.toText) ⊆ ts ++ (x :: xs).map (·.toText) := by
      intro t
      simp
      tauto
    rw [List.flatMap_cons]
    exact .append (h₁.mono fun _ h => hs (List.mem_append_left _ h)) (h₂.mono hs)

end Assembly

-- Every text that is published while any number of texts are being sent stems from one of them alone.
theorem Transfer.yields_of_allClear (xs : List Transfer) (hc : AllClear .init xs) :
    ∀ c ∈ (Assembly.init.handleAll (xs.flatMap (·.events))).2, ∃ x ∈ xs, x.Yields c := by
  intro c h
  have ho : Assembly.init.Owned [] := .inl rfl
  have hu := Assembly.Unmixed.of_allClear ho hc
  have ⟨t, ht, hy⟩ := hu.yields c h
  obtain ⟨x, hx, rfl⟩ := List.mem_map.mp ht
  exact ⟨x, hx, hy⟩

namespace Transfer

theorem first_length_le : [(0 : UInt8), 0x01, 2, 0x48].length ≤ 249 := by decide

def fragments : List Message :=
  [⟨textFrameType, [0, 0x01, 2, 0x48], isKnownType_text, first_length_le⟩,
    ⟨textFrameType, [0, 0x65], isKnownType_text, by decide⟩,
    ⟨textFrameType, [1, 0x79], isKnownType_text, by decide⟩]

def whole : Message :=
  ⟨textFrameType, [1, 0x00, 1, 0x4F, 0x6B], isKnownType_text, by decide⟩

theorem fragments_types : ∀ m ∈ fragments, m.type = textFrameType := by decide

def hey : Text := ⟨⟨0x01, 2, [0x48, 0x65, 0x79]⟩, by decide, by decide⟩

def ok : Text := ⟨⟨0x00, 1, [0x4F, 0x6B]⟩, by decide, by decide⟩

theorem hey_splits : hey.Splits (fragments.map (·.payload)) := by
  have h (c : UInt8) : [c] ≠ [] := List.cons_ne_nil c []
  exact .parts (by decide) (h 0x48) (.more (by decide) (h 0x65) (.last (h 0x79))) rfl

theorem ok_splits : ok.Splits ([whole].map (·.payload)) := .whole

theorem whole_types : ∀ m ∈ [whole], m.type = textFrameType := by decide

theorem whole_received : [Arrival.fragment whole].filterMap (·.message?) <+ [whole] :=
  List.Sublist.refl _

-- The second text arrives undamaged.
def okWhole : Transfer where
  toText   := ok
  frames   := [whole]
  types    := whole_types
  splits   := ok_splits
  arrivals := [.fragment whole]
  received := whole_received

theorem lostMiddle_received :
    [Arrival.fragment (fragments[0]), .fragment (fragments[2])].filterMap (·.message?) <+ fragments :=
  .cons_cons _ <| .cons _ <| .cons_cons _ .slnil

-- Of the first text the second fragment is lost.
def heyLostMiddle : Transfer where
  toText   := hey
  frames   := fragments
  types    := fragments_types
  splits   := hey_splits
  arrivals := [.fragment (fragments[0]), .fragment (fragments[2])]
  received := lostMiddle_received

theorem lostLast_received :
    [Arrival.fragment (fragments[0]), .fragment (fragments[1])].filterMap (·.message?) <+ fragments :=
  .cons_cons _ <| .cons_cons _ <| .cons _ .slnil

-- Of the first text the last fragment is lost.
def heyLostLast : Transfer where
  toText   := hey
  frames   := fragments
  types    := fragments_types
  splits   := hey_splits
  arrivals := [.fragment (fragments[0]), .fragment (fragments[1])]
  received := lostLast_received

theorem allClear_lostMiddle : AllClear .init [heyLostMiddle, okWhole] := by
  refine ⟨⟨fun _ => rfl, fun _ => .inr ⟨rfl, rfl⟩, (absurd · Bool.noConfusion), fun h => ?_, trivial⟩,
    ⟨fun _ => ?_, fun _ => .inr ⟨rfl, rfl⟩, trivial⟩, trivial⟩
  · exact absurd h (by decide)
  · decide

theorem yields_lostMiddle :
    (Assembly.init.handleAll ([heyLostMiddle, okWhole].flatMap (·.events))).2 =
      [⟨0x01, 2, [0x48, 0x79]⟩, ⟨0x00, 1, [0x4F, 0x6B]⟩] ∧
    ∀ c ∈ (Assembly.init.handleAll ([heyLostMiddle, okWhole].flatMap (·.events))).2,
      ∃ x ∈ [heyLostMiddle, okWhole], x.Yields c :=
  ⟨by decide, yields_of_allClear [heyLostMiddle, okWhole] allClear_lostMiddle⟩

-- The header of the second text ends up in the first one, behind which the second one is published.
theorem not_yields_lostLast :
    ∃ c ∈ (Assembly.init.handleAll ([heyLostLast, okWhole].flatMap (·.events))).2,
      ∀ x ∈ [heyLostLast, okWhole], ¬x.Yields c := by
  refine ⟨⟨0x01, 2, [0x48, 0x65, 0x00, 1, 0x4F, 0x6B]⟩, by decide, ?_⟩
  intro x hx hy
  have : 6 ≤ x.text.length := hy.text.length_le
  rcases List.mem_pair.mp hx with rfl | rfl <;> revert this <;> decide

end Transfer

end App.UartCmd
