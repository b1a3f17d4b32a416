import DvrModel.Svc.Lcd.Theorems.Choice
import DvrModel.Svc.Lcd.Theorems.Safety

open Svc.Eeprom (Io Device)
open Svc.Storage
open Crash (Yields)

namespace Svc.Lcd

inductive Editor
  | vin
  | provinceId
  | cityId
  | plate
  | phone
  deriving DecidableEq

namespace Editor

def page : Editor → Page
  | vin        => .systemSettingVehicleInfoVin
  | provinceId => .systemSettingVehicleInfoProvinceId
  | cityId     => .systemSettingVehicleInfoCityId
  | plate      => .systemSettingVehicleInfoPlateSet
  | phone      => .systemSettingHostParamLocalPhone

-- The page that is entered when the editor is left.
def parent : Editor → Page
  | phone => .systemSettingHostParam
  | _     => .systemSettingVehicleInfo

-- The number of positions.
def size : Editor → Nat
  | vin        => vinLen
  | provinceId => provinceIdLen
  | cityId     => cityIdLen
  | plate      => 7
  | phone      => 11

def Safe (u : Ui) : Editor → Prop
  | vin        => u.vin.Safe
  | provinceId => u.provinceId.Safe
  | cityId     => u.cityId.Safe
  | plate      => u.plate.Safe
  | phone      => u.phone.Safe

-- The character at each position, if there is one.
def shown (u : Ui) : Editor → Nat → Option UInt8
  | vin, i        => u.vin.shown i
  | provinceId, i => u.provinceId.shown i
  | cityId, i     => u.cityId.shown i
  | plate, i      => some (u.plate.shown i)
  | phone, i      => some (u.phone.digits i)

-- The character that a key chooses for a position.
def chosen (u : Ui) (k : Key) : Editor → Nat → Option UInt8
  | vin, i        => u.vin.chosen k i
  | provinceId, i => u.provinceId.chosen k i
  | cityId, i     => u.cityId.chosen k i
  | plate, i      => u.plate.chosen k i
  | phone, i      => u.phone.chosen k i

-- The characters of the value that is stored, unless it is not set.
def stored (cs : Cells) : Editor → Option (Nat → UInt8)
  | vin        => ifSet Vin.valid (fun v i => (Bytes.ofArray v.vin).getD i 0) (cs .vin)
  | provinceId => ifSet ProvinceId.valid (fun v i => (Bytes.ofArray v.id).getD i 0) (cs .provinceId)
  | cityId     => ifSet CityId.valid (fun v i => (Bytes.ofArray v.id).getD i 0) (cs .cityId)
  | plate      => ifSet (·.plateNumber.valid) (fun c => plateChars c.plateNumber) (cs .config)
  | phone      => ifSet (fun _ => 1) (fun c i => (Bytes.ofArray c.localPhone).getD i 0) (cs .config)
where
  ifSet {α : Type} (valid : α → UInt8) (chars : α → Nat → UInt8) (v : Option α) : Option (Nat → UInt8) :=
    (v.filter (valid · == 1)).map chars

-- The characters that an editor begins with otherwise. There are none in identifiers.
def initial : Editor → Nat → Option UInt8
  | plate, 0 => some 0
  | plate, 1 => some 'A'.toUInt8
  | plate, _ => some '0'.toUInt8
  | phone, _ => some '0'.toUInt8
  | _,     _ => none

def prior (cs : Cells) (e : Editor) (i : Nat) : Option UInt8 :=
  ((e.stored cs).map (· i)).or (e.initial i)

end Editor

namespace Editor

variable {e : Editor} {u : Ui} {d : Device} {now : UInt32} {i : Nat}

-- An editor that has just been prepared.
structure Fresh (e : Editor) (d : Device) (u : Ui) : Prop where
  safe  : e.Safe u
  shown : ∀ i < e.size, e.shown u i = e.prior (Cells.ofDevice d) i

theorem map_ifSet {α : Type} {v : Option α} {fallback : α} (valid : α → UInt8) (chars : α → Nat → UInt8)
    {c : Option UInt8} : ((stored.ifSet valid chars v).map (· i)).or c =
      if v.isSome && valid (v.getD fallback) == 1 then some (chars (v.getD fallback) i) else c := by
  cases v
  case none => rfl
  case some v => by_cases hv : valid v = 1 <;> simp [stored.ifSet, Option.filter, hv]

-- An identifier that has been loaded is decoded and encoded again.
theorem fresh_ident {I : Ident} {n : Nat} {L : Layout α} {r : Bool × α} (valid : α → UInt8)
    (chars : α → Chars (n + 1)) {isChar : UInt8 → Bool} {index : UInt8 → UInt8} (hn : n = I.len.toNat)
    (ha : ∀ v, L.accepts v = identValid isChar (valid v) (chars v))
    (hc : ∀ c, isChar c = true → index c < I.charCount ∧ plateTailChar (index c) = c)
    (hr : r = ((L.stored d).isSome, (L.stored d).getD L.fallback)) :
    (Picker.prepare (Ui.storedChars index r.1 (valid r.2) (chars r.2)) : Picker I).Safe ∧
    ∀ i < n, (Picker.prepare (Ui.storedChars index r.1 (valid r.2) (chars r.2)) : Picker I).shown i =
      ((stored.ifSet valid (fun v i => (Bytes.ofArray (chars v)).getD i 0) (L.stored d)).map
        (· i)).or none := by
  have hv : r.1 = true → identValid isChar (valid r.2) (chars r.2) = true := ha r.2 ▸ accepts_of_load hr
  have hs := storedChars_lt hv fun c h => (hc c h).left
  refine ⟨.prepare (hn ▸ hs), fun i hi => ?_⟩
  rw [Picker.shown_prepare hv (fun c h => (hc c h).right) hn hi, hr]
  exact (map_ifSet valid fun v i => (Bytes.ofArray (chars v)).getD i 0).symm

theorem initial_plate : initial plate i = some (PlateEditor.init.shown i) := by
  match i with
  | 0 | 1 | _ + 2 => rfl

theorem initial_phone (h : i < 11) : initial phone i = some (PhoneEditor.zeros i) :=
  congrArg some (if_pos h).symm

theorem prepare_yields (hd : FaultFree d) :
    Yields (u.prepare e.page) (fun u' d' => e.Fresh d u' ∧ OnlyRead d d') d := by
  cases e
  case vin =>
    show Yields u.prepareVin _ d
    refine (load_yields_stored (L := Storage.vin) rfl hd).bind fun r d' ⟨hr, h⟩ => .pure ⟨?_, h⟩
    have ⟨hs, hi⟩ := fresh_ident Vin.valid Vin.vin (I := .vin) rfl (fun _ => rfl)
      (fun _ h => ⟨plateTailIndex_lt h, plateTailChar_plateTailIndex h⟩) hr
    exact ⟨hs, hi⟩
  case provinceId =>
    show Yields u.prepareProvinceId _ d
    refine (load_yields_stored (L := Storage.provinceId) rfl hd).bind fun r d' ⟨hr, h⟩ => .pure ⟨?_, h⟩
    have ⟨hs, hi⟩ := fresh_ident ProvinceId.valid ProvinceId.id (I := .provinceId) rfl (fun _ => rfl)
      (fun _ h => ⟨sub_lt_of_isDigit h, plateTailChar_sub h⟩) hr
    exact ⟨hs, hi⟩
  case cityId =>
    show Yields u.prepareCityId _ d
    refine (load_yields_stored (L := Storage.cityId) rfl hd).bind fun r d' ⟨hr, h⟩ => .pure ⟨?_, h⟩
    have ⟨hs, hi⟩ := fresh_ident CityId.valid CityId.id (I := .cityId) rfl (fun _ => rfl)
      (fun _ h => ⟨sub_lt_of_isDigit h, plateTailChar_sub h⟩) hr
    exact ⟨hs, hi⟩
  case plate =>
    show Yields (loadPlateNumber >>= _) _ d
    refine (loadField_yields hd).bind fun r d' ⟨hr, h⟩ => .pure ⟨?_, h⟩
    have hv : plateNumberValid r.2 = true := valid_of_loadField (f := .plateNumber) hr
    refine ⟨show PlateEditor.Safe (.prepare _) from .prepare fun _ => hv, fun i hi => ?_⟩
    show some (PlateEditor.shown (.prepare _) i) = _
    rw [PlateEditor.shown_prepare (fun _ => hv) hi, apply_ite some, ← initial_plate, hr, prior, stored,
      show Cells.ofDevice d .config = config.stored d from rfl]
    generalize config.stored d = v
    exact (map_ifSet (fun c : Config => c.plateNumber.valid) fun c => plateChars c.plateNumber).symm
  case phone =>
    show Yields (loadLocalPhone >>= _) _ d
    refine (loadField_yields hd).bind fun r d' ⟨hr, h⟩ => .pure ⟨?_, h⟩
    have hv : phoneDigitsValid r.2 = true := valid_of_loadField (f := .localPhone) hr
    refine ⟨show PhoneEditor.Safe (.prepare _) from .prepare fun _ => hv, fun i hi => ?_⟩
    show some (PhoneEditor.digits (.prepare _) i) = _
    rw [PhoneEditor.digits_prepare, apply_ite some, ← initial_phone hi, hr, prior, stored,
      show Cells.ofDevice d .config = config.stored d from rfl]
    generalize config.stored d = v
    cases v <;> rfl

theorem pageEnter_yields (hd : FaultFree d) : Yields (u.pageEnter now e.page)
    (fun u' d' => (e.Fresh d u' ∧ OnlyRead d d') ∧ u'.currentPageId = e.page) d := by
  have hm : e.page ≠ .max := by cases e <;> decide
  refine .and_returns ?_ (Ui.pageEnter_currentPageId hm)
  rw [Ui.pageEnter, if_neg hm]
  refine (prepare_yields hd).bind fun u' d' h => .pure ⟨⟨?_, ?_⟩, h.right⟩
  · exact h.left.safe
  · exact h.left.shown

-- The cells after the value of the editor has been saved.
def put (u : Ui) (cs : Cells) : Editor → Cells
  | vin        => cs.set .vin (⟨1, u.vin.text vinLen⟩ : Vin)
  | provinceId => cs.set .provinceId (⟨1, u.provinceId.text provinceIdLen⟩ : ProvinceId)
  | cityId     => cs.set .cityId (⟨1, u.cityId.text cityIdLen⟩ : CityId)
  | plate      => cs.set .config (Field.plateNumber.set (cs.value .config) u.plate.value)
  | phone      => cs.set .config (Field.localPhone.set (cs.value .config) u.phone.value)

-- What the keys of an editor lead to.
inductive Leads (e : Editor) (u : Ui) (k : Key) (d : Device) (u' : Ui) (d' : Device) : Prop
  | stay  : u'.currentPageId = u.currentPageId → d' = d → e.Safe u' →
    (∀ i, e.shown u' i = (e.chosen u k i).or (e.shown u i)) → Leads e u k d u' d'
  | leave : u'.currentPageId = e.parent → OnlyRead d d' → Leads e u k d u' d'
  | save  : u'.currentPageId = .commonConfigOk → FaultFree d' →
    Cells.ofDevice d' = e.put u (Cells.ofDevice d) → (∀ i, e.chosen u k i = none) →
    (∀ i < e.size, (e.shown u i).isSome = true) → Leads e u k d u' d'

theorem saveAndOk_yields {save : Io Bool} {cs : Cells} {p : Page} (h : Puts save d cs) :
    Yields (u.saveAndOk now p save) (fun u' d' =>
      u'.currentPageId = .commonConfigOk ∧ FaultFree d' ∧ Cells.ofDevice d' = cs) d := by
  refine .bind h fun ok d₁ ⟨hk, hd, hc⟩ => ?_
  rw [if_pos hk]
  refine (refreshStatusConfig_yields hd).bind fun c d₂ ⟨_, h₂⟩ => ?_
  refine ((Ui.pageEnter_yields h₂.faultFree).and_returns (Ui.pageEnter_currentPageId (by decide))).mono ?_
  intro u' d₃ ⟨⟨_, h₃⟩, hp⟩
  exact ⟨hp, h₃.faultFree, (h₂.trans h₃).cells.trans hc⟩

theorem leads_of_reply {w : Ui} {k : Key} {r : Reply} {p : Page} {save : Io Bool} (hd : FaultFree d)
    (hp : w.currentPageId = u.currentPageId) (hs : e.Safe { w with needRedraw := true })
    (hc : ∀ i, e.shown { w with needRedraw := true } i = (e.chosen u k i).or (e.shown u i))
    (hr : r = .save → Puts save d (e.put u (Cells.ofDevice d)) ∧ (∀ i, e.chosen u k i = none) ∧
      ∀ i < e.size, (e.shown u i).isSome = true) :
    Yields (w.reply now e.parent p save r) (e.Leads u k d) d := by
  cases r
  case redraw => exact .pure <| .stay hp rfl hs hc
  case leave =>
    have hm : e.parent ≠ .max := by cases e <;> decide
    refine ((Ui.pageEnter_yields hd).and_returns (Ui.pageEnter_currentPageId hm)).mono ?_
    exact fun _ _ h => .leave h.right h.left.right
  case save =>
    have ⟨hw, hn, hi⟩ := hr rfl
    exact (saveAndOk_yields hw).mono fun _ _ ⟨hp, hd, hc⟩ => .save hp hd hc hn hi

end Editor

-- When an identifier is saved, the key does not choose anything, and all positions are set.
theorem Picker.saves {I : Ident} {p : Picker I} {k : Key} (h : (p.handle k).2 = .save) :
    (p.handle k).1 = p ∧ (∀ i, p.chosen k i = none) ∧ ∀ i < I.len.toNat, (p.shown i).isSome = true := by
  have ⟨he, hm, ha, _⟩ := handle_save h
  exact ⟨he, fun i => chosen_of_area (by rw [ha]; decide), fun i => isSome_shown hm⟩

theorem PlateEditor.saves {p : PlateEditor} {k : Key} (h : (p.handle k).2 = .save) :
    (p.handle k).1 = p ∧ ∀ i, p.chosen k i = none := by
  refine ⟨handle_save h, fun i => if_neg fun hc => ?_⟩
  rcases hc.left with rfl | rfl <;> cases h

theorem PhoneEditor.saves {p : PhoneEditor} {k : Key} (h : (p.handle k).2 = .save) :
    (p.handle k).1 = p ∧ ∀ i, p.chosen k i = none := by
  refine ⟨handle_save h, fun i => if_neg fun hc => ?_⟩
  obtain ⟨rfl, hf, _⟩ := hc
  simp only [handle, handleS4, hf] at h
  cases h

namespace Editor

variable {e : Editor} {u : Ui} {d : Device} {now : UInt32} {k : Key} {i : Nat}

theorem handleKey_yields (hd : FaultFree d) (hs : e.Safe u) :
    Yields (u.handleKey now e.page.handler k) (e.Leads u k d) d := by
  cases e
  case vin =>
    have hs : u.vin.Safe := hs
    refine leads_of_reply (e := vin) (w := { u with vin := (u.vin.handle k).1 }) hd rfl (hs.handle k)
      (fun i => Picker.shown_handle hs) fun hr => ?_
    have ⟨he, hc, hi⟩ := Picker.saves hr
    refine ⟨?_, hc, hi⟩
    show Puts (saveVin ⟨1, (u.vin.handle k).1.text vinLen⟩) d _
    rw [he]
    exact Puts.save (k := .vin) hd (hs.identValid rfl take_36_plateTailChars)
  case provinceId =>
    have hs : u.provinceId.Safe := hs
    refine leads_of_reply (e := provinceId) (w := { u with provinceId := (u.provinceId.handle k).1 }) hd
      rfl (hs.handle k) (fun i => Picker.shown_handle hs) fun hr => ?_
    have ⟨he, hc, hi⟩ := Picker.saves hr
    refine ⟨?_, hc, hi⟩
    show Puts (saveProvinceId ⟨1, (u.provinceId.handle k).1.text provinceIdLen⟩) d _
    rw [he]
    exact Puts.save (k := .provinceId) hd (hs.identValid rfl take_10_plateTailChars)
  case cityId =>
    have hs : u.cityId.Safe := hs
    refine leads_of_reply (e := cityId) (w := { u with cityId := (u.cityId.handle k).1 }) hd rfl
      (hs.handle k) (fun i => Picker.shown_handle hs) fun hr => ?_
    have ⟨he, hc, hi⟩ := Picker.saves hr
    refine ⟨?_, hc, hi⟩
    show Puts (saveCityId ⟨1, (u.cityId.handle k).1.text cityIdLen⟩) d _
    rw [he]
    exact Puts.save (k := .cityId) hd (hs.identValid rfl take_10_plateTailChars)
  case plate =>
    have hs : u.plate.Safe := hs
    refine leads_of_reply (e := plate) (w := { u with plate := (u.plate.handle k).1 }) hd rfl
      (hs.handle k) (fun i => PlateEditor.shown_handle) fun hr => ?_
    have ⟨he, hc⟩ := PlateEditor.saves hr
    refine ⟨?_, hc, fun _ _ => rfl⟩
    show Puts (savePlateNumber (u.plate.handle k).1.value) d _
    rw [he]
    exact Puts.saveField (f := .plateNumber) hd hs.plateNumberValid
  case phone =>
    have hs : u.phone.Safe := hs
    refine .bind (Q := phone.Leads u k d) (leads_of_reply (e := phone)
      (w := { u with phone := (u.phone.handle k).1 }) hd rfl (hs.handle k)
      (fun i => PhoneEditor.digits_handle) fun hr => ?_) fun u' d' h => .pure ?_
    · have ⟨he, hc⟩ := PhoneEditor.saves hr
      refine ⟨?_, hc, fun _ _ => rfl⟩
      show Puts (saveLocalPhone (u.phone.handle k).1.value) d _
      rw [he]
      exact Puts.saveField (f := .localPhone) hd hs.phoneDigitsValid
    · cases h
      case stay hp hd hs hi => exact .stay hp hd hs hi
      case leave hp ho => exact .leave hp ho
      case save hp hd hc hn hi => exact .save hp hd hc hn hi

-- A key is handled. The visit ends as soon as another page is shown.
def visit (e : Editor) (s : Ui × Device) (l : UInt32 × Key) : Option (Ui × Device) :=
  if s.1.currentPageId = e.page then
    match (s.1.handleKey l.1 e.page.handler l.2).run s.2 with
    | (some u, d) => some (u, d)
    | (none, _)   => none
  else
    none

theorem visit_eq_some_iff {s s' : Ui × Device} {l : UInt32 × Key} : e.visit s l = some s' ↔
    s.1.currentPageId = e.page ∧ (s.1.handleKey l.1 e.page.handler l.2).run s.2 = (some s'.1, s'.2) := by
  obtain ⟨u', d'⟩ := s'
  rw [visit]
  by_cases hp : s.1.currentPageId = e.page
  case neg => simp [hp]
  case pos =>
    rcases hr : (s.1.handleKey l.1 e.page.handler l.2).run s.2 with ⟨_ | u, d⟩ <;> simp [hp]

abbrev KeyStep := Lts.Edge (Ui × Device) (UInt32 × Key)

abbrev Visit (e : Editor) (s₀ : Ui × Device) (es : List KeyStep) (s : Ui × Device) : Prop :=
  Lts.Run (fun s l s' => e.visit s l = some s') s₀ es s

-- The character that has been chosen last for a position.
def lastChosen (e : Editor) (es : List KeyStep) (i : Nat) : Option UInt8 :=
  Lts.latest (fun v => e.chosen v.src.1 v.label.2 i) es

-- The state that a visit has come to. When a value has been saved, the editor was in `u`.
inductive Visited (e : Editor) (d : Device) (es : List KeyStep)
    (s : Ui × Device) : Prop
  | inside : s.1.currentPageId = e.page → OnlyRead d s.2 → e.Safe s.1 →
    (∀ i < e.size, e.shown s.1 i = (e.lastChosen es i).or (e.prior (Cells.ofDevice d) i)) →
    Visited e d es s
  | left : s.1.currentPageId = e.parent → OnlyRead d s.2 → Visited e d es s
  | saved (u : Ui) : s.1.currentPageId = .commonConfigOk → e.Safe u →
    Cells.ofDevice s.2 = e.put u (Cells.ofDevice d) → (∀ i < e.size, (e.shown u i).isSome = true) →
    (∀ i < e.size, e.shown u i = (e.lastChosen es i).or (e.prior (Cells.ofDevice d) i)) →
    Visited e d es s

theorem page_ne_parent : e.page ≠ e.parent := by
  cases e <;> decide

theorem page_ne_commonConfigOk : e.page ≠ .commonConfigOk := by
  cases e <;> decide

theorem parent_ne_commonConfigOk : e.parent ≠ .commonConfigOk := by
  cases e <;> decide

theorem Visited.enter {s : Ui × Device} (hp : s.1.currentPageId = e.page) (ho : OnlyRead d s.2)
    (h : e.Fresh d s.1) : e.Visited d [] s := by
  apply Visited.inside hp ho h.safe
  intro i hi
  rw [h.shown i hi, lastChosen, Lts.latest_nil, Option.none_or]

theorem Visited.step {es : List KeyStep} {s s' : Ui × Device}
    {l : UInt32 × Key} (h : e.Visited d es s) (ht : e.visit s l = some s') :
    e.Visited d (es ++ [⟨s, l, s'⟩]) s' := by
  obtain ⟨hp, hr⟩ := visit_eq_some_iff.mp ht
  cases h
  case left hl _ => exact absurd (hp.symm.trans hl) page_ne_parent
  case saved hl _ _ _ _ => exact absurd (hp.symm.trans hl) page_ne_commonConfigOk
  case inside ho hs hi =>
    have hc (i) : e.lastChosen (es ++ [⟨s, l, s'⟩]) i = (e.chosen s.1 l.2 i).or (e.lastChosen es i) :=
      Lts.latest_concat ..
    cases (handleKey_yields ho.faultFree hs).of_run hr
    case stay hp' hd hs' hi' =>
      refine .inside (hp'.trans hp) (hd ▸ ho) hs' fun i h => ?_
      rw [hi', hi i h, hc, Option.or_assoc]
    case leave hp' ho' => exact .left hp' (ho.trans ho')
    case save hp' hd hc' hn hi' =>
      refine .saved s.1 hp' hs (ho.cells ▸ hc') hi' fun i h => ?_
      rw [hi i h, hc, hn, Option.none_or]

theorem visited {es : List KeyStep} {s₀ s : Ui × Device}
    (h₀ : e.Visited d [] s₀) (h : e.Visit s₀ es s) : e.Visited d es s := by
  induction h
  case refl => exact h₀
  case step ht hi => exact hi.step ht

theorem ifSet_eq_some_iff {α : Type} {valid : α → UInt8} {chars : α → Nat → UInt8} {v : Option α}
    {w : Nat → UInt8} :
    stored.ifSet valid chars v = some w ↔ ∃ x, v = some x ∧ valid x = 1 ∧ chars x = w := by
  cases v
  case none => simp [stored.ifSet]
  case some x => by_cases hv : valid x = 1 <;> simp [stored.ifSet, Option.filter, hv]

-- What has been put into the cells is what was shown.
theorem stored_put {c : Cells} (h : ∀ i < e.size, (e.shown u i).isSome = true) :
    ∃ v, e.stored (e.put u c) = some v ∧ ∀ i < e.size, e.shown u i = some (v i) := by
  cases e
  case vin | provinceId | cityId =>
    exact ⟨_, ifSet_eq_some_iff.mpr ⟨_, Cells.set_self, rfl, rfl⟩,
      fun i hi => Picker.shown_eq_text (h i hi) hi⟩
  case plate =>
    exact ⟨_, ifSet_eq_some_iff.mpr ⟨_, Cells.set_self, rfl, rfl⟩,
      fun i hi => congrArg some (PlateEditor.plateChars_value hi).symm⟩
  case phone =>
    exact ⟨_, ifSet_eq_some_iff.mpr ⟨_, Cells.set_self, rfl, rfl⟩,
      fun i hi => congrArg some (PhoneEditor.getD_value (Nat.lt_succ_of_lt hi)).symm⟩

-- Nothing changes if what is shown is what has been stored before.
theorem put_eq_self {v : Nat → UInt8} (hs : e.Safe u) (hv : e.stored (Cells.ofDevice d) = some v)
    (h : ∀ i < e.size, e.shown u i = some (v i)) :
    e.put u (Cells.ofDevice d) = Cells.ofDevice d := by
  cases e
  case vin =>
    obtain ⟨⟨valid, cs⟩, hx, rfl, rfl⟩ := ifSet_eq_some_iff.mp hv
    have ht : u.vin.text vinLen = cs := Picker.text_eq (Layout.accepts_of_stored (L := Storage.vin) hx) h
    rw [put, ht]
    exact Cells.set_eq_self hx
  case provinceId =>
    obtain ⟨⟨valid, cs⟩, hx, rfl, rfl⟩ := ifSet_eq_some_iff.mp hv
    have ht : u.provinceId.text provinceIdLen = cs :=
      Picker.text_eq (Layout.accepts_of_stored (L := Storage.provinceId) hx) h
    rw [put, ht]
    exact Cells.set_eq_self hx
  case cityId =>
    obtain ⟨⟨valid, cs⟩, hx, rfl, rfl⟩ := ifSet_eq_some_iff.mp hv
    have ht : u.cityId.text cityIdLen = cs :=
      Picker.text_eq (Layout.accepts_of_stored (L := Storage.cityId) hx) h
    rw [put, ht]
    exact Cells.set_eq_self hx
  case plate =>
    obtain ⟨c, hx, h₁, rfl⟩ := ifSet_eq_some_iff.mp hv
    have hs : u.plate.Safe := hs
    have hc := Field.plateNumber.valid_get (Layout.accepts_of_stored (L := config) hx)
    have hp : u.plate.value = c.plateNumber := by
      refine plateChars_ext hs.plateNumberValid hc h₁.symm fun i hi => ?_
      exact (PlateEditor.plateChars_value hi).trans (Option.some.inj (h i hi))
    rw [put, hp, Cells.value, show Cells.ofDevice d .config = some c from hx]
    exact Cells.set_eq_self hx
  case phone =>
    obtain ⟨c, hx, _, rfl⟩ := ifSet_eq_some_iff.mp hv
    have hs : u.phone.Safe := hs
    have hc := Field.localPhone.valid_get (Layout.accepts_of_stored (L := config) hx)
    have hp : u.phone.value = c.localPhone := by
      simp only [Field.valid, Field.get, phoneDigitsValid, Bool.and_eq_true, beq_iff_eq] at hc
      apply chars_ext (hs.terminator.trans hc.right.symm)
      intro i hi
      exact (PhoneEditor.getD_value (Nat.lt_succ_of_lt hi)).trans (Option.some.inj (h i hi))
    rw [put, hp, Cells.value, show Cells.ofDevice d .config = some c from hx]
    exact Cells.set_eq_self hx

-- What a visit is meant to do to the memory. The value that is saved consists of the characters that
-- have been chosen last, and of those that were there before.
structure Faithful (e : Editor) (d : Device) (es : List KeyStep)
    (s : Ui × Device) : Prop where
  handles   : s.1.currentPageId = e.page → ∀ l, (e.visit s l).isSome = true
  unsaved   : s.1.currentPageId ≠ .commonConfigOk → s.2.mem = d.mem
  saved     : s.1.currentPageId = .commonConfigOk → ∃ v, e.stored (Cells.ofDevice s.2) = some v ∧
    ∀ i < e.size, (e.lastChosen es i).or (e.prior (Cells.ofDevice d) i) = some (v i)
  untouched : s.1.currentPageId = .commonConfigOk → (e.stored (Cells.ofDevice d)).isSome = true →
    (∀ i < e.size, e.lastChosen es i = none) → Cells.ofDevice s.2 = Cells.ofDevice d

theorem Visited.faithful {es : List KeyStep} {s : Ui × Device}
    (h : e.Visited d es s) : e.Faithful d es s := by
  cases h
  case inside hp ho hs _ =>
    have hk : s.1.currentPageId ≠ .commonConfigOk := hp ▸ page_ne_commonConfigOk
    refine ⟨fun _ l => ?_, fun _ => ho.mem, (absurd · hk), (absurd · hk)⟩
    obtain ⟨u', d', hr, _⟩ : Yields (s.1.handleKey l.1 e.page.handler l.2) (e.Leads s.1 l.2 s.2) s.2 :=
      handleKey_yields ho.faultFree hs
    exact Option.isSome_iff_exists.mpr ⟨(u', d'), visit_eq_some_iff.mpr ⟨hp, hr⟩⟩
  case left hp ho =>
    have hk : s.1.currentPageId ≠ .commonConfigOk := hp ▸ parent_ne_commonConfigOk
    have hn : s.1.currentPageId ≠ e.page := hp ▸ page_ne_parent.symm
    exact ⟨(absurd · hn), fun _ => ho.mem, (absurd · hk), (absurd · hk)⟩
  case saved u hp hs hc hi hl =>
    have hn : s.1.currentPageId ≠ e.page := hp ▸ page_ne_commonConfigOk.symm
    refine ⟨(absurd · hn), (absurd hp ·), fun _ => ?_, fun _ hv hn => ?_⟩
    · obtain ⟨v, hv, hi⟩ := stored_put (c := Cells.ofDevice d) hi
      exact ⟨v, hc ▸ hv, fun i h => hl i h ▸ hi i h⟩
    · have ⟨v, hv⟩ := Option.isSome_iff_exists.mp hv
      rw [hc]
      apply put_eq_self hs hv
      intro i h
      rw [hl i h, hn i h, prior, hv]
      rfl

end Editor

-- From the entry of its page on, each of the editors saves what it shows.
theorem saved_as_shown (e : Editor) {d : Device} (hd : FaultFree d) (u : Ui) (now : UInt32) :
    Yields (u.pageEnter now e.page) (fun u₀ d₀ =>
      ∀ es s, e.Visit (u₀, d₀) es s → e.Faithful d es s) d := by
  refine (Editor.pageEnter_yields hd).mono fun u₀ d₀ ⟨⟨hf, ho⟩, hp⟩ es s h => ?_
  exact (Editor.visited (.enter hp ho hf) h).faithful

-- The digits `2` and `0` are chosen on a device that has never been written to.
theorem saved_as_shown_provinceId : ∃ u₀ d₀ es s v,
    ((Ui.init .init).pageEnter 0 Editor.provinceId.page).run blank = (some u₀, d₀) ∧
    Editor.provinceId.Visit (u₀, d₀) es s ∧ s.1.currentPageId = .commonConfigOk ∧
    Editor.provinceId.stored (Cells.ofDevice s.2) = some v ∧ v 0 = '2'.toUInt8 ∧ v 1 = '0'.toUInt8 := by
  obtain ⟨u₀, d₀, hr, h⟩ := saved_as_shown .provinceId (d := blank) ⟨rfl, fun _ => rfl, fun _ => rfl⟩
    (.init .init) 0
  have hu : (u₀, d₀) = (((Ui.init .init).pageEnter 0 Editor.provinceId.page).run blank).map
      (·.getD (.init .init)) id := by
    rw [hr]
    rfl
  have ⟨es, s, hs, hp⟩ := Lts.exists_run_of_trace Editor.provinceId.visit
    ((((Ui.init .init).pageEnter 0 Editor.provinceId.page).run blank).map (·.getD (.init .init)) id)
    [(1, .s1), (2, .s3), (3, .s3), (4, .s4), (5, .s4), (6, .s4)]
    (fun (es, s) => s.1.currentPageId = .commonConfigOk && Editor.provinceId.lastChosen es 0 = some 50 &&
      Editor.provinceId.lastChosen es 1 = some 48) (by decide +kernel)
  rw [← hu] at hs
  simp only [Bool.and_eq_true, decide_eq_true_eq] at hp
  obtain ⟨⟨hp, h₀⟩, h₁⟩ := hp
  obtain ⟨v, hv, hi⟩ := (h es s hs).saved hp
  have hv₀ := hi 0 (by decide)
  have hv₁ := hi 1 (by decide)
  rw [h₀] at hv₀
  rw [h₁] at hv₁
  exact ⟨u₀, d₀, es, s, v, hr, hs, hp, hv, (Option.some.inj hv₀).symm, (Option.some.inj hv₁).symm⟩

end Svc.Lcd
