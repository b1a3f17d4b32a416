import DvrModel.App.UartCmd.Theorems.Status
import DvrModel.Svc.Lcd.Theorems.Step

open Svc.Eeprom (Io Device)
open Svc.Storage
open App (VehicleInputs)
open App.UartCmd
open Crash (Yields)

namespace Svc.Lcd

-- What is reported is what is stored.
def Reported (u : Ui) (d : Device) : Prop :=
  FaultFree d ∧ u.configCache = (Cells.ofDevice d).status

namespace Reported

variable {u : Ui} {d : Device} {p : Page} {now : UInt32} {save : Io Bool}

theorem of_onlyRead {u' : Ui} {d' : Device} (h : Reported u d) (hu : u'.configCache = u.configCache)
    (hd : OnlyRead d d') : Reported u' d' :=
  ⟨hd.faultFree, by rw [hu, h.right, hd.cells]⟩

theorem pageEnter (h : Reported u d) : Yields (u.pageEnter now p) Reported d :=
  (Ui.pageEnter_yields h.left).mono fun _ _ hu => h.of_onlyRead hu.left hu.right

-- Every save that succeeds is followed by a refresh.
theorem saveAndOk (h : Reported u d) (hs : Saves save) : Yields (u.saveAndOk now p save) Reported d := by
  refine (hs d h.left).bind fun r d' hr => .ite (fun _ => ?_) fun hf => .pure ?_
  · refine (refreshStatusConfig_yields hr.left).bind fun c d'' hc => ?_
    exact pageEnter ⟨hc.right.faultFree, hc.left.trans <| congrArg Cells.status hc.right.cells.symm⟩
  · refine ⟨hr.left, ?_⟩
    rw [hr.right (by simpa using hf)]
    exact h.right

theorem closed (h : Reported u d) : Closed (Yields · Reported d) u now where
  refl             := .pure h
  pageEnter _      := h.pageEnter
  commonOk _ _     := pageEnter h
  saveAndOk _ _ _  := h.saveAndOk

theorem reply (h : Reported u d) (hs : Saves save) (r : Reply) :
    Yields (u.reply now parent p save r) Reported d := by
  cases r
  case redraw => exact .pure h
  case leave => exact h.pageEnter
  case save => exact h.saveAndOk hs

theorem effect (h : Reported u d) (he : Effect u now x) : Yields x Reported d := by
  induction he
  case refl | home | turn => exact .pure h
  case navUp =>
    have ⟨_, _, he⟩ := u.handleNavUp_eq
    exact .pure <| he ▸ h
  case navDown =>
    have ⟨_, _, he⟩ := u.handleNavDown_eq
    exact .pure <| he ▸ h
  case enter => exact h.pageEnter
  case back => exact h.closed.handleBack
  case confirm => exact h.closed.handleConfirm
  case reply w r _ _ _ hw _ _ hs =>
    have h : Reported w d := by cases hw <;> exact h
    exact h.reply hs r
  case redraw hi => exact hi.bind fun _ _ hu => .pure hu

theorem step {s s' : State} {a : Action} (hs : Reported s.ui s.device) (h : Step s a s') :
    Reported s'.ui s'.device := by
  cases h
  case handled hu => exact (hs.effect (.handleKey ..)).of_run hu
  case refresh ui _ _ hu =>
    have hr := hs.closed.handleAutoReturn.of_run hu
    have ⟨_, _, _, he, _⟩ := ui.handleDynamicRefresh_eq s.tick s.inputs
    rw [he]
    exact hr
  case render =>
    dsimp only
    rw [Ui.render]
    split <;> exact hs
  case update a =>
    have ⟨_, _, _, _, _, _, he, _⟩ := s.ui.update_eq a
    rw [he]
    exact hs
  all_goals exact hs

-- The thread never gets stuck.
theorem isSome_step {s : State} (h : Reported s.ui s.device) (a : Action) :
    (s.step a).isSome = true := by
  cases a
  case lcd =>
    have hy : Yields s.toThread.step (fun _ _ => True) s.device := by
      rw [Thread.step]
      split
      case h_1 | h_4 | h_5 | h_6 => exact .pure trivial
      case h_2 =>
        refine .ite (fun _ => ?_) fun _ => .pure trivial
        exact (h.effect (.handleKey ..)).bind fun _ _ _ => .pure trivial
      case h_3 => exact h.closed.handleAutoReturn.bind fun _ _ _ => .pure trivial
    obtain ⟨t, d', hr, _⟩ := hy
    simp [State.step, hr]
  all_goals rfl

end Reported

-- What can be loaded from a device.
structure Loads (d : Device) (config : Config) (vin : Vin) (provinceId : ProvinceId) (cityId : CityId) :
    Prop where
  config     : ∃ result, (loadConfig.run d).1 = some (result, config)
  vin        : ∃ result, (loadVin.run d).1 = some (result, vin)
  provinceId : ∃ result, (loadProvinceId.run d).1 = some (result, provinceId)
  cityId     : ∃ result, (loadCityId.run d).1 = some (result, cityId)

theorem loads_cells {d : Device} (hd : FaultFree d) : Loads d ((Cells.ofDevice d).value .config)
    ((Cells.ofDevice d).value .vin) ((Cells.ofDevice d).value .provinceId)
    ((Cells.ofDevice d).value .cityId) where
  config     := ⟨_, Layout.load_run_faultFree hd⟩
  vin        := ⟨_, Layout.load_run_faultFree hd⟩
  provinceId := ⟨_, Layout.load_run_faultFree hd⟩
  cityId     := ⟨_, Layout.load_run_faultFree hd⟩

theorem Cells.describes_status {d : Device} : ConfigStatus.Describes (Cells.ofDevice d).status.encode
    ((Cells.ofDevice d).value .config) ((Cells.ofDevice d).value .vin)
    ((Cells.ofDevice d).value .provinceId) ((Cells.ofDevice d).value .cityId) := by
  apply ConfigStatus.describes_ofStored
  have hv := Cells.configValid_value (d := d)
  simp only [configValid, plateNumberValid, Bool.and_eq_true, decide_eq_true_eq] at hv
  exact hv.right.left.left.left.right

-- Whatever the memory holds when `app_usart_cmd_init` fills the cache, and whatever happens then.
theorem reported_config {d : Device} (hd : FaultFree d) : Yields refreshStatusConfig (fun cache d₁ =>
    ∀ tick inputs es s, Run (.start cache tick inputs d₁) es s →
      (∀ a, (s.step a).isSome = true) ∧
      ∃ config vin provinceId cityId, Loads s.device config vin provinceId cityId ∧
        ∀ (io : VehicleInputs) (anyKeyPressed : Bool) (bufSize : Nat), mcuStatusFrameSize ≤ bufSize →
          Sealed (buildMcuVersion s.ui.configCache io anyKeyPressed bufSize) ∧
          ConfigStatus.Describes
            (Bytes.slice (buildMcuVersion s.ui.configCache io anyKeyPressed bufSize) 12 46)
            config vin provinceId cityId) d := by
  refine (refreshStatusConfig_yields hd).mono fun cache d₁ ⟨hc, h₁⟩ tick inputs es s h => ?_
  have hs : Reported s.ui s.device := by
    refine h.invariant (P := fun s => Reported s.ui s.device) ?_ fun ht hs => hs.step (.of_step ht)
    exact ⟨h₁.faultFree, hc.trans <| congrArg Cells.status h₁.cells.symm⟩
  refine ⟨hs.isSome_step, _, _, _, _, loads_cells hs.left, fun io anyKeyPressed bufSize hb => ?_⟩
  refine ⟨sealed_buildMcuVersion hb, ?_⟩
  rw [slice_buildMcuVersion hb, hs.right]
  exact Cells.describes_status

-- The second plate class is chosen on a device that has never been written to.
def toPlateClass : List Action :=
  toVehicleInfo ++ press [.s3] 9 ++ press [.s3] 9 ++ press [.s3, .s4] 9 ++ press [.s3, .s4] 9

theorem reported_config_plateClass : ∃ cache d₁ es s, refreshStatusConfig.run blank = (some cache, d₁) ∧
    Run (.start cache 0 ⟨⟨0, 0⟩, fun _ => 0⟩ d₁) es s ∧ s.ui.configCache.plateClass = 2 ∧
    ∃ config vin provinceId cityId, Loads s.device config vin provinceId cityId ∧
      ConfigStatus.Describes
        (Bytes.slice (buildMcuVersion s.ui.configCache ⟨⟨1, 1⟩, fun _ => 1⟩ true 64) 12 46)
        config vin provinceId cityId := by
  obtain ⟨cache, d₁, hr, h⟩ := reported_config (d := blank) ⟨rfl, fun _ => rfl, fun _ => rfl⟩
  have hc : cache = ((refreshStatusConfig.run blank).1.getD .init) := by rw [hr]; rfl
  have hd : d₁ = (refreshStatusConfig.run blank).2 := by rw [hr]
  have ⟨es, s, hs, hp⟩ := Lts.exists_run_of_trace State.step
    (.start ((refreshStatusConfig.run blank).1.getD .init) 0 ⟨⟨0, 0⟩, fun _ => 0⟩
      (refreshStatusConfig.run blank).2) toPlateClass
    (·.2.ui.configCache.plateClass = 2) (by decide +kernel)
  rw [← hc, ← hd] at hs
  obtain ⟨_, config, vin, provinceId, cityId, hl, hf⟩ := h _ _ _ _ hs
  exact ⟨cache, d₁, es, s, hr, hs, by simpa using hp, config, vin, provinceId, cityId, hl,
    (hf _ true 64 (by decide)).right⟩

end Svc.Lcd
