import DvrModel.Svc.Lcd.Theorems.Editor
import DvrModel.Svc.Lcd.Theorems.Step

open Svc.Eeprom (Io)
open Svc.Storage
open Crash (Returns)

namespace Svc.Lcd

-- All five editors keep inside of their arrays and tables, also those whose page is not shown.
structure Editors (u : Ui) : Prop where
  vin        : u.vin.Safe
  provinceId : u.provinceId.Safe
  cityId     : u.cityId.Safe
  plate      : u.plate.Safe
  phone      : u.phone.Safe

-- A field of the configuration that has been loaded successfully is valid.
theorem loadField_accepted (f : Field) :
    Returns (fun r => r.1 = true → f.valid r.2 = true) (loadField f.get) :=
  .bind (Layout.load_accepted rfl) fun _ hr => .pure fun hv => f.valid_get (hr hv)

-- The indices of the characters of a valid identifier.
theorem storedChars_lt {n : Nat} {cs : Chars (n + 1)} {result : Bool} {valid : UInt8}
    {isChar : UInt8 → Bool} {index : UInt8 → UInt8} {m : UInt8}
    (hv : result = true → identValid isChar valid cs = true)
    (hi : ∀ c, isChar c = true → index c < m) :
    ∀ chars, Ui.storedChars index result valid cs = some chars → ∀ i < n, chars i < m := by
  intro chars hs i hn
  simp only [Ui.storedChars, Option.ite_none_right_eq_some, Option.some.injEq, Bool.and_eq_true,
    beq_iff_eq] at hs
  obtain ⟨⟨hr, rfl⟩, rfl⟩ := hs
  exact hi _ <| isChar_of_identValid (hv hr) hn

namespace Editors

variable {u u' : Ui} {p : Page} {now : UInt32}

theorem congr (h : Editors u) (hv : u'.vin = u.vin) (hp : u'.provinceId = u.provinceId)
    (hc : u'.cityId = u.cityId) (hn : u'.plate = u.plate) (hl : u'.phone = u.phone) : Editors u' := by
  obtain ⟨h₁, h₂, h₃, h₄, h₅⟩ := h
  exact ⟨hv ▸ h₁, hp ▸ h₂, hc ▸ h₃, hn ▸ h₄, hl ▸ h₅⟩

theorem init (configCache : App.UartCmd.ConfigStatus) : Editors (.init configCache) where
  vin        := .init
  provinceId := .init
  cityId     := .init
  plate      := .init
  phone      := .init

-- Whatever the memory holds and whichever transfers fail, a page is entered with indices in range.
theorem prepare (h : Editors u) : Returns Editors (u.prepare p) := by
  unfold Ui.prepare
  split
  case h_1 =>
    refine .bind (loadField_accepted .localPhone) fun r hr => .pure ?_
    exact ⟨h.vin, h.provinceId, h.cityId, h.plate, .prepare hr⟩
  case h_2 | h_3 => exact .bind_any fun _ => .pure <| h.congr rfl rfl rfl rfl rfl
  case h_4 => exact .pure <| h.congr rfl rfl rfl rfl rfl
  case h_5 =>
    refine .bind (loadField_accepted .plateNumber) fun r hr => .pure ?_
    exact ⟨h.vin, h.provinceId, h.cityId, .prepare hr, h.phone⟩
  case h_6 =>
    refine .bind (Layout.load_accepted rfl) fun r hr => .pure ?_
    have hs := storedChars_lt hr fun _ => plateTailIndex_lt
    exact ⟨.prepare hs, h.provinceId, h.cityId, h.plate, h.phone⟩
  case h_7 =>
    refine .bind (Layout.load_accepted rfl) fun r hr => .pure ?_
    have hs := storedChars_lt hr fun _ => sub_lt_of_isDigit
    exact ⟨h.vin, .prepare hs, h.cityId, h.plate, h.phone⟩
  case h_8 =>
    refine .bind (Layout.load_accepted rfl) fun r hr => .pure ?_
    have hs := storedChars_lt hr fun _ => sub_lt_of_isDigit
    exact ⟨h.vin, h.provinceId, .prepare hs, h.plate, h.phone⟩
  case h_9 => exact .pure h

theorem pageEnter (h : Editors u) : Returns Editors (u.pageEnter now p) := by
  refine .ite (fun _ => .pure h) fun _ => ?_
  have h : Editors { u with currentPageId := p } := h.congr rfl rfl rfl rfl rfl
  exact .bind h.prepare fun _ hu => .pure <| hu.congr rfl rfl rfl rfl rfl

theorem closed (h : Editors u) : Closed (Returns Editors) u now :=
  .of_returns h (fun _ => h.pageEnter) fun plate _ _ hs _ => by
    have hp : plate.Safe := by
      rcases hs with rfl | rfl
      · exact h.plate
      · exact h.plate.saved
    exact pageEnter ⟨h.vin, h.provinceId, h.cityId, hp, h.phone⟩

theorem reply (h : Editors u) (hp : p ≠ .commonConfigOk) (hs : Saves save) (r : Reply) :
    Returns Editors (u.reply now parent p save r) := by
  cases r
  case redraw => exact .pure <| h.congr rfl rfl rfl rfl rfl
  case leave => exact h.pageEnter
  case save => exact h.closed.saveAndOk _ _ hp hs

theorem edited {w : Ui} {r : Reply} (h : Editors u) (hw : Edited u w r) : Editors w := by
  cases hw
  case vin k        => exact { h with vin := h.vin.handle k }
  case provinceId k => exact { h with provinceId := h.provinceId.handle k }
  case cityId k     => exact { h with cityId := h.cityId.handle k }
  case plate k      => exact { h with plate := h.plate.handle k }
  case phone k      => exact { h with phone := h.phone.handle k }

theorem effect (h : Editors u) (he : Effect u now x) : Returns Editors x := by
  induction he
  case refl => exact .pure h
  case home | turn => exact .pure <| h.congr rfl rfl rfl rfl rfl
  case navUp =>
    have ⟨_, _, he⟩ := u.handleNavUp_eq
    exact .pure <| he ▸ h.congr rfl rfl rfl rfl rfl
  case navDown =>
    have ⟨_, _, he⟩ := u.handleNavDown_eq
    exact .pure <| he ▸ h.congr rfl rfl rfl rfl rfl
  case enter => exact h.pageEnter
  case back => exact h.closed.handleBack
  case confirm => exact h.closed.handleConfirm
  case reply r _ _ _ hw _ hp hs => exact (h.edited hw).reply hp hs r
  case redraw hi => exact .bind hi fun _ hu => .pure <| hu.congr rfl rfl rfl rfl rfl

theorem isInductive : Inductive Editors where
  handleKey u now hd k h := h.effect (.handleKey u now hd k)
  autoReturn _ _ h       := h.closed.handleAutoReturn
  clear _ h              := h.congr rfl rfl rfl rfl rfl
  dynamicRefresh u now io h := by
    have ⟨_, _, _, he, _⟩ := u.handleDynamicRefresh_eq now io
    exact he ▸ h.congr rfl rfl rfl rfl rfl
  render u h := by
    rw [Ui.render]
    split
    case isTrue => exact h.congr rfl rfl rfl rfl rfl
    case isFalse => exact h
  update u a h := by
    have ⟨_, _, _, _, _, _, he, _⟩ := u.update_eq a
    exact he ▸ h.congr rfl rfl rfl rfl rfl

end Editors

-- What the editors hand over to the storage is accepted there, and it is complete.
structure SavesValid (u : Ui) : Prop where
  vin        : ∀ k, (u.vin.handle k).2 = .save →
    (u.vin.handle k).1.editMask = Ident.vin.completeMask ∧
    vinValid ⟨1, (u.vin.handle k).1.text vinLen⟩ = true
  provinceId : ∀ k, (u.provinceId.handle k).2 = .save →
    (u.provinceId.handle k).1.editMask = Ident.provinceId.completeMask ∧
    provinceIdValid ⟨1, (u.provinceId.handle k).1.text provinceIdLen⟩ = true
  cityId     : ∀ k, (u.cityId.handle k).2 = .save →
    (u.cityId.handle k).1.editMask = Ident.cityId.completeMask ∧
    cityIdValid ⟨1, (u.cityId.handle k).1.text cityIdLen⟩ = true
  plate      : ∀ k, plateNumberValid (u.plate.handle k).1.value = true
  phone      : ∀ k, phoneDigitsValid (u.phone.handle k).1.value = true

theorem Picker.handle_save_editMask {I : Ident} {p : Picker I} {k : Key} (h : (p.handle k).2 = .save) :
    (p.handle k).1.editMask = I.completeMask := by
  have ⟨he, hm, _⟩ := handle_save h
  rw [he, hm]

theorem Editors.savesValid {u : Ui} (h : Editors u) : SavesValid u where
  vin k hs        := ⟨Picker.handle_save_editMask hs, (h.vin.handle k).identValid rfl take_36_plateTailChars⟩
  provinceId k hs :=
    ⟨Picker.handle_save_editMask hs, (h.provinceId.handle k).identValid rfl take_10_plateTailChars⟩
  cityId k hs     :=
    ⟨Picker.handle_save_editMask hs, (h.cityId.handle k).identValid rfl take_10_plateTailChars⟩
  plate k         := (h.plate.handle k).plateNumberValid
  phone k         := (h.phone.handle k).phoneDigitsValid

theorem editors_safe {s₀ s : State} {es : List Edge} (h₀ : Started s₀) (h : Run s₀ es s) :
    Editors s.ui ∧ SavesValid s.ui := by
  have he : Editors s.ui := by
    refine Editors.isInductive.run ?_ h
    obtain ⟨configCache, _, _, _, rfl⟩ := h₀
    exact .init configCache
  exact ⟨he, he.savesValid⟩

-- In the editor of the VIN the last character but one of the list is set at the first position.
theorem editors_safe_vin : ∃ es s, Run boot es s ∧
    s.ui.currentPageId = .systemSettingVehicleInfoVin ∧
    plateTailChar (s.ui.vin.chars 0) = 'Y'.toUInt8 ∧ Editors s.ui ∧ SavesValid s.ui := by
  have ⟨es, s, hr, hp⟩ := Lts.exists_run_of_trace State.step boot
    (toVehicleInfo ++ press [.s4] 9 ++ press [.s1] 6 ++ press [.s2] 7 ++ press [.s2] 7 ++ press [.s4] 9)
    (fun r => r.2.ui.currentPageId = .systemSettingVehicleInfoVin ∧
      plateTailChar (r.2.ui.vin.chars 0) = 'Y'.toUInt8) (by decide +kernel)
  have hp := of_decide_eq_true hp
  have ⟨he, hv⟩ := editors_safe started_boot hr
  exact ⟨es, s, hr, hp.left, hp.right, he, hv⟩

end Svc.Lcd
