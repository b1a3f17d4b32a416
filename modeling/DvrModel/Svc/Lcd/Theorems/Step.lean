import DvrModel.Svc.Lcd.Thread
import DvrModel.Svc.Storage.Theorems.FaultFree

open Svc.Eeprom (Io Device)
open Svc.Storage
open App (VehicleInputs)
open Crash (Returns Yields)

namespace Svc.Lcd

-- The steps of the system, one constructor for each thing that can happen.
inductive Step (s : State) : Action → State → Prop
  | top     : s.pc = .top →
    Step s .lcd { s with
      pc := .poll s.ui.currentPageId.handler s.ui.currentPageId.handler.first }
  | idle    : s.pc = .poll h k → s.keys k = false → Step s .lcd { s with pc := .idle h k }
  | handled : s.pc = .poll h k → s.keys k = true →
    (s.ui.handleKey s.tick h k).run s.device = (some ui, device) →
    Step s .lcd { s with ui, device, keys := Function.update s.keys k false, pc := .handled h k }
  | refresh : s.pc = .refresh → (s.ui.handleAutoReturn s.tick).run s.device = (some ui, device) →
    Step s .lcd { s with device, ui := ui.handleDynamicRefresh s.tick s.inputs, pc := .test }
  | test    : s.pc = .test →
    Step s .lcd { s with pc := if s.ui.needRedraw then .render else .top }
  | render  : s.pc = .render →
    Step s .lcd { s with ui := s.ui.render, screen := some s.view, pc := .clear }
  | clear   : s.pc = .clear →
    Step s .lcd { s with ui := { s.ui with needRedraw := false }, pc := .top }
  | post    : Step s (.post k) { s with keys := Function.update s.keys k true }
  | tick    : Step s .tick { s with tick := s.tick + 1 }
  | update  : Step s (.update a) { s with ui := s.ui.update a }
  | inputs  : Step s (.inputs io) { s with inputs := io }

variable {s s' : State} {a : Action} {t : Thread} {d d' : Device}

theorem step_lcd (h : s.step .lcd = some s') :
    s.toThread.step.run s.device = (some s'.toThread, s'.device) := by
  simp only [State.step] at h
  split at h
  case h_1 t d hr =>
    cases h
    exact hr
  case h_2 => cases h

theorem Step.of_step (h : s.step a = some s') : Step s a s' := by
  cases a
  case post => cases h; exact .post
  case tick => cases h; exact .tick
  case update => cases h; exact .update
  case inputs => cases h; exact .inputs
  case lcd =>
    have hr := step_lcd h
    obtain ⟨t', d'⟩ := s'
    cases hpc : s.pc <;> simp only [Thread.step, hpc] at hr
    case top => cases hr; exact .top hpc
    case test => cases hr; exact .test hpc
    case render => cases hr; exact .render hpc
    case clear => cases hr; exact .clear hpc
    case refresh =>
      obtain ⟨ui, d₁, hu, hr⟩ := Crash.run_bind_eq_some hr
      cases hr
      exact .refresh hpc hu
    case poll h k =>
      rw [Thread.poll] at hr
      split at hr
      case isTrue hk =>
        obtain ⟨ui, d₁, hu, hr⟩ := Crash.run_bind_eq_some hr
        cases hr
        exact .handled hpc hk hu
      case isFalse hk =>
        cases hr
        exact .idle hpc (by simpa using hk)

-- An event that has been posted is handled when its key is polled.
theorem handleKey_of_step {hd : Handler} {k : Key} (hpc : s.pc = .poll hd k) (hk : s.keys k = true)
    (h : s.step .lcd = some s') :
    (s.ui.handleKey s.tick hd k).run s.device = (some s'.ui, s'.device) := by
  have hr := step_lcd h
  simp only [Thread.step, hpc, Thread.poll, hk, if_true] at hr
  obtain ⟨ui, d₁, hu, hr⟩ := Crash.run_bind_eq_some hr
  obtain ⟨ht, rfl⟩ := Prod.mk.inj hr
  rw [← Option.some.inj ht, hu]

namespace Ui

-- The variables that an update may change. It does not take a request for drawing back, and it starts
-- over with the first page of a message that it stores.
theorem update_eq (u : Ui) (a : Update) :
    ∃ home textMsg overtimeDriveCount totalMileageKm totalMileageRemM needRedraw,
      u.update a = { u with
        home, textMsg, overtimeDriveCount, totalMileageKm, totalMileageRemM, needRedraw } ∧
      (textMsg = u.textMsg ∨ textMsg.pageIndex = 0 ∧ textMsg.pageCount = 0) ∧
      (u.needRedraw = true → needRedraw = true) := by
  cases a
  case homeTime | homeSpeed | driveTime | homeLocation =>
    exact ⟨_, _, _, _, _, _, rfl, .inl rfl, fun h => by simp [h]⟩
  case cardId c =>
    cases c
    case none => exact ⟨_, _, _, _, _, _, rfl, .inl rfl, id⟩
    case some => exact ⟨_, _, _, _, _, _, rfl, .inl rfl, fun h => by simp [h]⟩
  case textMessage flag textType utf8Text textLen =>
    cases utf8Text
    case none => exact ⟨_, _, _, _, _, _, rfl, .inl rfl, id⟩
    case some =>
      exact ⟨_, _, _, _, _, _, rfl, .inr ⟨rfl, rfl⟩, fun h => by simp [Display.updateTextMessage, display, h]⟩
  case topStatus =>
    simp only [update, updateTopStatus]
    split
    case isTrue => exact ⟨_, _, _, _, _, _, rfl, .inl rfl, fun h => by simp [h]⟩
    case isFalse => exact ⟨_, _, _, _, _, _, rfl, .inl rfl, id⟩
  case overtimeDriveCount =>
    simp only [update, updateOvertimeDriveCount]
    split
    case isTrue => exact ⟨_, _, _, _, _, _, rfl, .inl rfl, fun h => by simp [h]⟩
    case isFalse => exact ⟨_, _, _, _, _, _, rfl, .inl rfl, id⟩
  case totalMileage =>
    simp only [update, updateTotalMileage]
    split
    case isTrue => exact ⟨_, _, _, _, _, _, rfl, .inl rfl, fun h => by simp [h]⟩
    case isFalse => exact ⟨_, _, _, _, _, _, rfl, .inl rfl, id⟩

-- The variables that the dynamic refresh may change.
theorem handleDynamicRefresh_eq (u : Ui) (now : UInt32) (io : VehicleInputs) :
    ∃ vehicleStatusLastBits vehicleStatusCheckTick needRedraw,
      u.handleDynamicRefresh now io = { u with
        vehicleStatusLastBits, vehicleStatusCheckTick, needRedraw } ∧
      (u.needRedraw = true → needRedraw = true) := by
  rw [handleDynamicRefresh]
  split
  case isTrue => exact ⟨_, _, _, rfl, id⟩
  case isFalse =>
    split
    case isTrue => exact ⟨_, _, _, rfl, id⟩
    case isFalse =>
      dsimp only
      split
      case isTrue => exact ⟨_, _, _, rfl, id⟩
      case isFalse =>
        split
        case isTrue => exact ⟨_, _, _, rfl, fun _ => rfl⟩
        case isFalse => exact ⟨_, _, _, rfl, id⟩

-- The selection of items changes nothing else.
theorem handleNavUp_eq (u : Ui) :
    ∃ pageSelected needRedraw, u.handleNavUp = { u with pageSelected, needRedraw } := by
  rw [handleNavUp]
  split <;> exact ⟨_, _, rfl⟩

theorem handleNavDown_eq (u : Ui) :
    ∃ pageSelected needRedraw, u.handleNavDown = { u with pageSelected, needRedraw } := by
  rw [handleNavDown]
  split <;> exact ⟨_, _, rfl⟩

theorem saved_eq (u : Ui) (p : Page) :
    ∃ plate, (plate = u.plate ∨ plate = u.plate.saved) ∧ u.saved p = { u with plate } := by
  unfold saved
  split
  case h_1 => exact ⟨_, .inr rfl, rfl⟩
  case h_2 => exact ⟨_, .inl rfl, rfl⟩

theorem prepare_currentPageId (u : Ui) (p : Page) :
    Returns (·.currentPageId = u.currentPageId) (u.prepare p) := by
  unfold prepare
  split
  case h_4 | h_9 => exact .pure rfl
  all_goals exact .bind_any fun _ => .pure rfl

theorem pageEnter_currentPageId {u : Ui} {now : UInt32} {p : Page} (hp : p ≠ .max) :
    Returns (·.currentPageId = p) (u.pageEnter now p) := by
  rw [pageEnter, if_neg hp]
  exact .bind (prepare_currentPageId _ p) fun _ hu => .pure hu

-- Entering a page reads from the memory at most.
theorem prepare_yields {u : Ui} {p : Page} (hd : FaultFree d) :
    Yields (u.prepare p) (fun u' d' => u'.configCache = u.configCache ∧ OnlyRead d d') d := by
  unfold prepare
  split
  case h_1 | h_2 | h_3 | h_5 =>
    exact (loadField_yields hd).bind fun _ _ h => .pure ⟨rfl, h.right⟩
  case h_6 | h_7 | h_8 =>
    exact (load_yields hd).bind fun _ _ h => .pure ⟨rfl, h.right⟩
  case h_4 | h_9 => exact .pure ⟨rfl, .refl hd⟩

theorem pageEnter_yields {u : Ui} {now : UInt32} {p : Page} (hd : FaultFree d) :
    Yields (u.pageEnter now p) (fun u' d' => u'.configCache = u.configCache ∧ OnlyRead d d') d :=
  .ite (fun _ => .pure ⟨rfl, .refl hd⟩) fun _ => (prepare_yields hd).bind fun _ _ h => .pure h

end Ui

-- What is true of all that the generic handling may do: leave everything as it is, enter a page, or save
-- something and enter the confirmation. `M` says something about a computation.
structure Closed (M : Io Ui → Prop) (u : Ui) (now : UInt32) : Prop where
  refl      : M (pure u)
  pageEnter : ∀ p, M (u.pageEnter now p)
  commonOk  : ∀ p, p ≠ .commonConfigOk → M (u.pageEnterCommonOk now p)
  saveAndOk : ∀ p save, p ≠ .commonConfigOk → Saves save → M (u.saveAndOk now p save)

namespace Closed

variable {M : Io Ui → Prop} {u : Ui} {now : UInt32} {p : Page} {save : Io Bool}

theorem handleBack (h : Closed M u now) : M (u.handleBack now) := by
  rw [Ui.handleBack]
  split
  case isTrue => exact h.pageEnter _
  case isFalse =>
    split
    case isTrue => exact h.pageEnter _
    case isFalse => split <;> exact h.pageEnter _

theorem confirm (h : Closed M u now) (c : Confirm) : M (u.confirm now c) := by
  cases c
  case loadStatus        => exact h.pageEnter _
  case keyVolume         => exact h.commonOk _ (by decide)
  case backlightTime     => exact h.commonOk _ (by decide)
  case brightnessLevel   => exact h.commonOk _ (by decide)
  case vehiclePlateColor => exact h.saveAndOk _ _ (by decide) (.saveField .plateColor _)
  case vehiclePlateClass => exact h.saveAndOk _ _ (by decide) (.saveField .plateClass _)

theorem handleConfirm (h : Closed M u now) : M (u.handleConfirm now) := by
  rw [Ui.handleConfirm]
  split
  case h_1 => exact h.refl
  case h_2 =>
    split
    case isTrue =>
      split
      case isTrue => exact h.pageEnter _
      case isFalse =>
        split
        case isTrue => exact h.pageEnter _
        case isFalse => exact h.refl
    case isFalse =>
      split
      case h_1 => exact h.confirm _
      case h_2 =>
        dsimp only
        split
        case isTrue => exact h.pageEnter _
        case isFalse => exact h.refl

theorem handleAutoReturn (h : Closed M u now) : M (u.handleAutoReturn now) := by
  rw [Ui.handleAutoReturn]
  split
  case h_1 => exact h.refl
  case h_2 =>
    split
    case isTrue => exact h.refl
    case isFalse =>
      split
      case isTrue => exact h.pageEnter _
      case isFalse => exact h.refl

-- Nothing needs to be known about the saves if only the result is spoken about.
theorem of_returns {Q : Ui → Prop} (h : Q u) (hp : ∀ p, Returns Q (u.pageEnter now p))
    (hc : ∀ plate configCache p, plate = u.plate ∨ plate = u.plate.saved → p ≠ .commonConfigOk →
      Returns Q ({ u with plate, configCache }.pageEnterCommonOk now p)) : Closed (Returns Q) u now where
  refl               := .pure h
  pageEnter          := hp
  commonOk p         := hc u.plate u.configCache p (.inl rfl)
  saveAndOk p _ hp _ := by
    have ⟨plate, hs, he⟩ := u.saved_eq p
    rw [Ui.saveAndOk, he]
    exact .bind_any fun _ => .ite (fun _ => .bind_any fun _ => hc plate _ p hs hp) fun _ => .pure h

end Closed

-- One of the editors has handled a key.
inductive Edited (u : Ui) : Ui → Reply → Prop
  | vin (k : Key)    : Edited u { u with vin := (u.vin.handle k).1 } (u.vin.handle k).2
  | provinceId (k : Key) :
    Edited u { u with provinceId := (u.provinceId.handle k).1 } (u.provinceId.handle k).2
  | cityId (k : Key) : Edited u { u with cityId := (u.cityId.handle k).1 } (u.cityId.handle k).2
  | plate (k : Key)  : Edited u { u with plate := (u.plate.handle k).1 } (u.plate.handle k).2
  | phone (k : Key)  : Edited u { u with phone := (u.phone.handle k).1 } (u.phone.handle k).2

-- Everything that the keys can do.
inductive Effect (u : Ui) (now : UInt32) : Io Ui → Prop
  | refl    : Effect u now (pure u)
  | home    : Effect u now (pure { u with homeSubpage, needRedraw := true })
  | turn    : u.textMsg.handleS2 = some textMsg ∨ u.textMsg.handleS3 = some textMsg →
    Effect u now (pure { u with textMsg, needRedraw := true })
  | navUp   : Effect u now (pure u.handleNavUp)
  | navDown : Effect u now (pure u.handleNavDown)
  | enter   : Effect u now (u.pageEnter now p)
  | back    : Effect u now (u.handleBack now)
  | confirm : Effect u now (u.handleConfirm now)
  | reply   : Edited u w r → parent ≠ .max → p ≠ .commonConfigOk → Saves save →
    Effect u now (w.reply now parent p save r)
  | redraw  : Effect u now x → Effect u now (x >>= fun u' => pure { u' with needRedraw := true })

theorem Effect.handleKey (u : Ui) (now : UInt32) (hd : Handler) (k : Key) :
    Effect u now (u.handleKey now hd k) := by
  cases hd
  case home =>
    cases k
    case s1      => exact .refl
    case s2 | s3 => exact .home
    case s4      => exact .enter (p := .mainMenu)
  case textNormal =>
    cases k
    case s1 => exact .enter (p := .driveRecordInfoCenterText)
    case s2 =>
      show Effect u now (pure (Ui.handleTextNormalKey.turn u u.textMsg.handleS2))
      cases hm : u.textMsg.handleS2
      case none => exact .refl
      case some => exact .turn (.inl hm)
    case s3 =>
      show Effect u now (pure (Ui.handleTextNormalKey.turn u u.textMsg.handleS3))
      cases hm : u.textMsg.handleS3
      case none => exact .refl
      case some => exact .turn (.inr hm)
    case s4 => exact .refl
  case generic =>
    cases k
    case s1 => exact .back
    case s2 => exact .navUp
    case s3 => exact .navDown
    case s4 => exact .confirm
  case vin        => exact .reply (.vin k) (by decide) (by decide) (.save .vin _)
  case provinceId => exact .reply (.provinceId k) (by decide) (by decide) (.save .provinceId _)
  case cityId     => exact .reply (.cityId k) (by decide) (by decide) (.save .cityId _)
  case plateSet   => exact .reply (.plate k) (by decide) (by decide) (.saveField .plateNumber _)
  case localPhone => exact .redraw <| .reply (.phone k) (by decide) (by decide) (.saveField .localPhone _)

-- What all operations on the variables of the display preserve, holds throughout a run.
structure Inductive (P : Ui → Prop) : Prop where
  handleKey      : ∀ u now h k, P u → Returns P (u.handleKey now h k)
  autoReturn     : ∀ u now, P u → Returns P (u.handleAutoReturn now)
  dynamicRefresh : ∀ u now io, P u → P (u.handleDynamicRefresh now io)
  render         : ∀ u, P u → P u.render
  clear          : ∀ u, P u → P { u with needRedraw := false }
  update         : ∀ u a, P u → P (u.update a)

theorem Inductive.step {P : Ui → Prop} (hP : Inductive P) (h : Step s a s') (hs : P s.ui) : P s'.ui := by
  cases h
  case handled hu => exact hP.handleKey _ _ _ _ hs _ _ (by rw [hu])
  case refresh hu => exact hP.dynamicRefresh _ _ _ <| hP.autoReturn _ _ hs _ _ (by rw [hu])
  case render => exact hP.render _ hs
  case clear => exact hP.clear _ hs
  case update => exact hP.update _ _ hs
  all_goals exact hs

theorem Inductive.run {P : Ui → Prop} (hP : Inductive P) {s₀ : State} {es : List Edge}
    (h₀ : P s₀.ui) (h : Run s₀ es s) : P s.ui :=
  h.invariant (P := (P ·.ui)) h₀ fun ht => hP.step (.of_step ht)

namespace Pc

variable {h h' : Handler} {k k' : Key}

theorem idle_eq_poll (he : idle h k = poll h' k') : h' = h ∨ h' = .generic := by
  cases h <;> cases k <;> simp_all [idle, Handler.next]

theorem handled_eq_poll (he : handled h k = poll h' k') :
    h' = .generic ∨ h = .localPhone ∧ h' = .localPhone ∧ k ≠ .s4 := by
  cases h <;> cases k <;> simp [handled, idle, Handler.next] at he ⊢
  all_goals simp [← he.left]

theorem idle_ne_clear : idle h k ≠ .clear := by
  cases h <;> cases k <;> decide

theorem handled_ne_clear : handled h k ≠ .clear := by
  cases h <;> cases k <;> decide

end Pc

-- While the loop polls the keys, it does so in the handler of the current page or in the generic one.
def Polls (s : State) : Prop :=
  ∀ h k, s.pc = .poll h k → h = .generic ∨ h = s.ui.currentPageId.handler

-- Only the last key that the phone's handler polls may leave its page.
theorem handleLocalPhoneKey_currentPageId {u : Ui} {now : UInt32} {k : Key} (hk : k ≠ .s4) :
    Returns (·.currentPageId = u.currentPageId) (u.handleLocalPhoneKey now k) := by
  cases k
  case s4 => contradiction
  all_goals exact .bind (P := (·.currentPageId = u.currentPageId)) (.pure rfl) fun _ hu => .pure hu

theorem Polls.step (hs : Polls s) (h : Step s a s') : Polls s' := by
  intro hd k hp
  cases h
  case top =>
    cases hp
    exact .inr rfl
  case idle hpc _ =>
    rcases Pc.idle_eq_poll hp with rfl | rfl
    · exact hs _ _ hpc
    · exact .inl rfl
  case handled k₁ _ _ hpc _ hu =>
    rcases Pc.handled_eq_poll hp with rfl | ⟨rfl, rfl, hk⟩
    · exact .inl rfl
    · rcases hs _ _ hpc with h | h
      · cases h
      · have hc := handleLocalPhoneKey_currentPageId hk _ _ (congrArg Prod.fst hu)
        exact .inr (hc ▸ h)
  case refresh | render | clear => cases hp
  case test =>
    dsimp only at hp
    split at hp <;> cases hp
  case post | tick | inputs => exact hs _ _ hp
  case update a =>
    have ⟨_, _, _, _, _, _, he, _⟩ := s.ui.update_eq a
    rw [he]
    exact hs _ _ hp

-- The beginning on a device that has never been written to.
def boot : State :=
  .start .init 0 ⟨⟨0, 0⟩, fun _ => 0⟩ Storage.blank

theorem started_boot : Started boot :=
  ⟨_, _, _, _, rfl⟩

-- Some keys are pressed, and then the loop takes a number of steps.
def press (ks : List Key) (n : Nat) : List Action :=
  ks.map .post ++ List.replicate n .lcd

-- From the home page to the list of what is known about the vehicle.
def toVehicleInfo : List Action :=
  press [.s4] 9 ++ press [.s3] 9 ++ press [.s3, .s4] 9 ++ press [.s3] 9 ++ press [.s3, .s4] 9

theorem polls {s₀ : State} {es : List Edge} (h₀ : Started s₀) (h : Run s₀ es s) : Polls s := by
  refine h.invariant (fun hd k hp => ?_) fun ht hs => hs.step (.of_step ht)
  obtain ⟨_, _, _, _, rfl⟩ := h₀
  cases hp

end Svc.Lcd
