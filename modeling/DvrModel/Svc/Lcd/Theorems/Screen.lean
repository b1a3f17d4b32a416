import DvrModel.Svc.Lcd.Theorems.Redraw

open App (VehicleInputs)

namespace Svc.Lcd

-- A change of something that the current page shows, for which nothing requests a rendering: neither the
-- page of the location nor the one of the driver is taken into account by the updates that concern it.
inductive Unseen (u : Ui) : Update → Prop
  | topStatus : u.currentPageId = .driveRecordLocation → v ≠ u.home.topStatusValue →
    Unseen u (.topStatus v)
  | homeSpeed : u.currentPageId = .driveRecordLocation → v ≠ u.home.speedKmhX10 →
    Unseen u (.homeSpeed v)
  | cardId    : u.currentPageId = .driveRecordDriverInfo → .ofString c ≠ u.home.cardId →
    Unseen u (.cardId (some c))

theorem cardId_take (c : CardId) : c.val.take 20 = c.val :=
  List.take_of_length_le (Nat.le_trans c.property (by decide))

theorem ofString_eq_of_take {c : CardId} {s : List UInt8} (h : c.val = s.take 20) : .ofString s = c := by
  apply Subtype.ext
  show s.take 19 = c.val
  rw [← List.take_of_length_le c.property, h, List.take_take]
  rfl

-- The pages that show something that an update may change.
def Update.pages : Update → List Page
  | homeTime _           => [.home]
  | topStatus _          => [.home, .driveRecordLocation]
  | homeSpeed _          => [.home, .driveRecordLocation]
  | driveTime _          => [.home]
  | cardId _             => [.home, .driveRecordDriverInfo]
  | homeLocation _       => [.home]
  | textMessage ..       => [.driveRecordInfoCenterTextNormal]
  | overtimeDriveCount _ => [.driveRecordFatigue]
  | totalMileage ..      => [.driveRecordMileage]

namespace Ui

variable {u : Ui} {a : Update}

-- Most pages show nothing that any update could change.
theorem view_update_of_ne (h : u.currentPageId ∉ [.home, .driveRecordFatigue, .driveRecordLocation,
    .driveRecordMileage, .driveRecordDriverInfo, .driveRecordInfoCenterTextNormal]) :
    (u.update a).view = u.view := by
  have ⟨_, _, _, _, _, _, he, _⟩ := u.update_eq a
  rw [he]
  funext io
  cases hp : u.currentPageId <;> simp [hp] at h <;> simp [view, hp]

theorem view_update_of_not_mem (h : u.currentPageId ∉ a.pages) : (u.update a).view = u.view := by
  by_cases hp : u.currentPageId ∈ [.home, .driveRecordFatigue, .driveRecordLocation,
      .driveRecordMileage, .driveRecordDriverInfo, .driveRecordInfoCenterTextNormal]
  case neg => exact view_update_of_ne hp
  case pos =>
    simp only [List.mem_cons, List.not_mem_nil, or_false] at hp
    funext io
    cases a
    case homeTime | homeSpeed | driveTime | homeLocation =>
      rcases hp with hp | hp | hp | hp | hp | hp <;> simp [hp, Update.pages] at h <;>
      simp [hp, view, update, updateHomeTime, updateHomeSpeed, updateDriveTime, updateHomeLocation,
        homeUiSetData, cardId_take]
    case cardId c =>
      cases c
      case none => rfl
      case some =>
        rcases hp with hp | hp | hp | hp | hp | hp <;> simp [hp, Update.pages] at h <;>
        simp [hp, view, update, updateCardId, homeUiSetData]
    case textMessage flag textType utf8Text textLen =>
      cases utf8Text
      case none => rfl
      case some =>
        rcases hp with hp | hp | hp | hp | hp | hp <;> simp [hp, Update.pages] at h <;>
        simp [hp, view, update, updateTextMessage]
    case topStatus =>
      simp only [update, updateTopStatus]
      rcases hp with hp | hp | hp | hp | hp | hp <;> simp [hp, Update.pages] at h <;>
      split <;> simp [hp, view]
    case overtimeDriveCount =>
      simp only [update, updateOvertimeDriveCount]
      rcases hp with hp | hp | hp | hp | hp | hp <;> simp [hp, Update.pages] at h <;>
      split <;> simp [hp, view]
    case totalMileage =>
      simp only [update, updateTotalMileage]
      rcases hp with hp | hp | hp | hp | hp | hp <;> simp [hp, Update.pages] at h <;>
      split <;> simp [hp, view]

-- On the home page every change of its data is noticed.
theorem homeUiSetData_cases {speedKmhX10 : UInt16} {time driveTime : Time} {c : List UInt8}
    (hm : u.menuMode = false) :
    (u.homeUiSetData speedKmhX10 time driveTime c).needRedraw = true ∨
    u.homeUiSetData speedKmhX10 time driveTime c = u := by
  by_cases h : u.home.speedKmhX10 = speedKmhX10 ∧ u.home.time = time ∧ u.home.driveTime = driveTime ∧
      u.home.cardId.val = c.take 20
  case pos =>
    obtain ⟨rfl, rfl, rfl, h⟩ := h
    simp [homeUiSetData, ← h]
  case neg =>
    left
    simp only [homeUiSetData, hm]
    simp
    tauto

end Ui

section

variable {u : Ui} {a : Update}

-- Every update requests a rendering, leaves what is shown as it is, or goes unseen.
theorem requests_or_unseen (hn : Nav u) (a : Update) :
    (u.update a).needRedraw = true ∨ (u.update a).view = u.view ∨ Unseen u a := by
  by_cases hp : u.currentPageId ∈ a.pages
  case neg => exact .inr <| .inl <| Ui.view_update_of_not_mem hp
  case pos =>
    have hm (h : u.currentPageId = .home) : u.menuMode = false := by simp [hn.menuMode, h]
    cases a <;> simp only [Update.pages, List.mem_cons, List.not_mem_nil, or_false] at hp
    case homeTime | driveTime =>
      exact (Ui.homeUiSetData_cases (hm hp)).imp_right fun h => .inl (congrArg Ui.view h)
    case homeSpeed speed =>
      rcases hp with hp | hp
      · exact (Ui.homeUiSetData_cases (hm hp)).imp_right fun h => .inl (congrArg Ui.view h)
      · by_cases hs : speed = u.home.speedKmhX10
        · right; left
          simp [Ui.update, Ui.updateHomeSpeed, Ui.homeUiSetData, hs, cardId_take]
        · exact .inr <| .inr <| .homeSpeed hp hs
    case cardId c =>
      cases c
      case none => exact .inr <| .inl rfl
      case some c =>
        rcases hp with hp | hp
        · exact (Ui.homeUiSetData_cases (hm hp)).imp_right fun h => .inl (congrArg Ui.view h)
        · by_cases hs : .ofString c = u.home.cardId
          · right; left
            funext io
            simp [Ui.update, Ui.updateCardId, Ui.homeUiSetData, Ui.view, hp, hs]
          · exact .inr <| .inr <| .cardId hp hs
    case topStatus v =>
      by_cases hv : v = u.home.topStatusValue
      · right; left
        simp [Ui.update, Ui.updateTopStatus, hv]
      · rcases hp with hp | hp
        · left
          simp [Ui.update, Ui.updateTopStatus, Ne.symm hv, hm hp]
        · exact .inr <| .inr <| .topStatus hp hv
    case homeLocation l =>
      by_cases hl : l = u.home.location
      · right; left
        simp [Ui.update, Ui.updateHomeLocation, hl]
      · left
        simp [Ui.update, Ui.updateHomeLocation, Ne.symm hl, hp]
    case textMessage flag textType utf8Text textLen =>
      cases utf8Text
      case none => exact .inr <| .inl rfl
      case some =>
        left
        simp [Ui.update, Ui.updateTextMessage, Display.updateTextMessage, Ui.display, hp]
    case overtimeDriveCount =>
      simp only [Ui.update, Ui.updateOvertimeDriveCount]
      split
      case isTrue => exact .inl (by simp [hp])
      case isFalse => exact .inr <| .inl rfl
    case totalMileage =>
      simp only [Ui.update, Ui.updateTotalMileage]
      split
      case isTrue => exact .inl (by simp [hp])
      case isFalse => exact .inr <| .inl rfl

theorem Unseen.view_ne (h : Unseen u a) (io : VehicleInputs) : (u.update a).view io ≠ u.view io := by
  cases h
  case topStatus v hp hv => simp [Ui.update, Ui.updateTopStatus, Ui.view, hp, hv, Ne.symm hv]
  case homeSpeed v hp hv => simp [Ui.update, Ui.updateHomeSpeed, Ui.homeUiSetData, Ui.view, hp, hv]
  case cardId c hp hc =>
    have ht : u.home.cardId.val ≠ c.take 20 := fun h => hc (ofString_eq_of_take h)
    simp [Ui.update, Ui.updateCardId, Ui.homeUiSetData, Ui.view, hp, hc, ht]

theorem Unseen.needRedraw_eq (h : Unseen u a) (hn : Nav u) : (u.update a).needRedraw = u.needRedraw := by
  have hm (h : u.currentPageId ≠ .home) : u.menuMode = true := by simp [hn.menuMode, h]
  cases h
  case topStatus v hp hv => simp [Ui.update, Ui.updateTopStatus, Ne.symm hv, hm (by simp [hp])]
  case homeSpeed v hp hv => simp [Ui.update, Ui.updateHomeSpeed, Ui.homeUiSetData, hm (by simp [hp])]
  case cardId c hp hc => simp [Ui.update, Ui.updateCardId, Ui.homeUiSetData, hm (by simp [hp])]

theorem requests_iff (hn : Nav u) (io : VehicleInputs) :
    ((u.update a).view io ≠ u.view io → (u.update a).needRedraw = true) ↔
    (Unseen u a → u.needRedraw = true) := by
  constructor
  case mp =>
    intro h hu
    rw [← hu.needRedraw_eq hn]
    exact h (hu.view_ne io)
  case mpr =>
    intro h hv
    rcases requests_or_unseen hn a with hr | he | hu
    · exact hr
    · exact absurd (congrFun he io) hv
    · exact Ui.needRedraw_update (h hu)

end

-- Whenever no rendering is requested, the latest one shows the current data.
def Current (es : List Edge) : Prop :=
  ∀ e ∈ es, e.dst.ui.needRedraw = false → e.dst.screen = some e.dst.view

-- Neither an update nor a change of the inputs concerns the current page, unless a rendering is requested.
-- The inputs are shown on the page of the vehicle's status, which checks them only from time to time.
def Edge.Seen (e : Edge) : Prop :=
  match e.label with
  | .update a  => Unseen e.src.ui a → e.src.ui.needRedraw = true
  | .inputs io => e.src.ui.view io ≠ e.src.view → e.src.ui.needRedraw = true
  | _          => True

-- Between a rendering and the next step of the loop, which clears the flag, nothing changes what the
-- current page shows.
def Undisturbed (es : List Edge) : Prop :=
  ∀ (l : List Edge) (g : Edge) (m : List Edge) (e : Edge) (r : List Edge),
    es = l ++ g :: (m ++ e :: r) → g.Renders → (∀ x ∈ m, x.label ≠ .lcd) → e.label = .lcd →
    e.src.view = g.src.view

theorem Undisturbed.of_append {es r : List Edge} (h : Undisturbed (es ++ r)) : Undisturbed es :=
  fun l g m e r' hes => h l g m e (r' ++ r) (by simp [hes])

variable {s s' s₀ : State} {a : Action} {g : Edge} {es m : List Edge}

theorem Edge.Renders.dst (hg : g.Renders) (hs : Step g.src g.label g.dst) :
    g.dst.pc = .clear ∧ g.dst.screen = some g.src.view := by
  have ⟨hl, hpc⟩ := hg
  rw [hl] at hs
  generalize hd : g.dst = s' at hs
  cases hs <;> simp_all

-- What has been rendered stays on the screen while the loop does not move.
theorem screen_of_renders (hg : g.Renders) (hs : Step g.src g.label g.dst) (h : Run g.dst m s)
    (hm : ∀ x ∈ m, x.label ≠ .lcd) : s.pc = .clear ∧ s.screen = some g.src.view := by
  induction h
  case refl => exact hg.dst hs
  case step m s a s' _ ht hi =>
    have hi := hi fun x hx => hm x (List.mem_append_left _ hx)
    have ha : a ≠ .lcd := hm ⟨s, a, s'⟩ (by simp)
    have ht := Step.of_step ht
    cases ht
    case post | tick | update | inputs => exact hi
    all_goals contradiction

-- The flag is about to be cleared only since the latest rendering.
theorem renders_of_clear (hpc₀ : s₀.pc ≠ .clear) (h : Run s₀ es s) (hpc : s.pc = .clear) :
    ∃ l g m, es = l ++ g :: m ∧ g.Renders ∧ (∀ x ∈ m, x.label ≠ .lcd) ∧
      s.screen = some g.src.view := by
  induction h
  case refl => contradiction
  case step es s a s' _ ht hi =>
    have ht := Step.of_step ht
    by_cases hs : s.pc = .clear
    case neg =>
      have hg := ht.renders_of_clear hpc hs
      exact ⟨es, ⟨s, a, s'⟩, [], rfl, hg, by simp, (Edge.Renders.dst (g := ⟨s, a, s'⟩) hg ht).right⟩
    case pos =>
      have ha : a ≠ .lcd := by
        rintro rfl
        cases ht <;> simp_all
      have ⟨l, g, m, hes, hg, hm, hsc⟩ := hi hs
      refine ⟨l, g, m ++ [⟨s, a, s'⟩], by simp [hes], hg, fun x hx => ?_, ?_⟩
      · rcases List.mem_append.mp hx with hx | hx
        · exact hm x hx
        · exact List.mem_singleton.mp hx ▸ ha
      · cases ht
        case post | tick | update | inputs => exact hsc
        all_goals contradiction

-- Unless a rendering is requested, the screen shows what there is to show.
def Shows (s : State) : Prop :=
  s.ui.needRedraw = true ∨ s.screen = some s.view

theorem Shows.of_requested (hs : Shows s) (hr : Requested s.ui s'.ui) (hsc : s'.screen = s.screen)
    (hin : s'.inputs = s.inputs) : Shows s' := by
  rcases hr with hr | ⟨hv, hr⟩
  · exact .inl hr
  · have he : s'.view = s.view := by rw [Thread.view, Thread.view, hv, hin]
    rw [Shows, hr, hsc, he]
    exact hs

-- A step of another thread.
theorem Shows.of_seen (hs : Shows s) (hn : Nav s.ui) (h : Step s a s') (he : Edge.Seen ⟨s, a, s'⟩)
    (ha : a ≠ .lcd) : Shows s' := by
  cases h
  case post | tick => exact hs
  case update a =>
    by_cases hv : (s.ui.update a).view s.inputs = s.ui.view s.inputs
    case pos => exact hs.imp Ui.needRedraw_update fun h => h.trans (congrArg some hv.symm)
    case neg => exact .inl ((requests_iff hn s.inputs).mpr he hv)
  case inputs io =>
    by_cases hv : s.ui.view io = s.view
    case pos => exact hs.imp_right fun h => h.trans (congrArg some hv.symm)
    case neg => exact .inl (he hv)
  all_goals contradiction

-- A step of the loop.
theorem Shows.of_lcd (hs : Shows s) (hc : s.pc = .clear → s.screen = some s.view)
    (h : Step s .lcd s') : Shows s' := by
  by_cases hpc : s.pc = .clear
  case pos =>
    cases h
    case clear => exact .inr (hc hpc)
    all_goals simp_all
  case neg =>
    have hr := h.requested hpc
    cases h
    case render => exact .inr (congrArg some (congrFun s.ui.view_render s.inputs).symm)
    all_goals exact hs.of_requested hr rfl rfl

theorem shows (h₀ : Started s₀) (h : Run s₀ es s) (hc : ∀ e ∈ es, e.Seen) (hu : Undisturbed es) :
    Shows s := by
  have hs₀ : s₀.pc = .top ∧ Nav s₀.ui ∧ Shows s₀ := by
    obtain ⟨configCache, _, _, _, rfl⟩ := h₀
    exact ⟨rfl, .init configCache, .inl rfl⟩
  induction h
  case refl => exact hs₀.right.right
  case step es s a s' hrun ht hi =>
    have hs := hi (fun e he => hc e (List.mem_append_left _ he)) hu.of_append
    have hn := Nav.isInductive.run hs₀.right.left hrun
    by_cases ha : a = .lcd
    case neg => exact hs.of_seen hn (.of_step ht) (hc _ (by simp)) ha
    case pos =>
      subst ha
      refine hs.of_lcd (fun hpc => ?_) (.of_step ht)
      have ⟨l, g, m, hes, hg, hm, hsc⟩ := renders_of_clear (by simp [hs₀.left]) hrun hpc
      have hv := hu l g m ⟨s, .lcd, s'⟩ [] (by simp [hes]) hg hm rfl
      exact hsc.trans (congrArg some hv.symm)

namespace Current

-- The states that the steps start from are current as well.
theorem src (hc : Current es) (h₀ : s₀.ui.needRedraw = true) (h : Run s₀ es s) (he : e ∈ es)
    (hr : e.src.ui.needRedraw = false) : e.src.screen = some e.src.view := by
  have ⟨l, r, hes⟩ := List.append_of_mem he
  have ⟨hl, _, _⟩ := (hes ▸ h).split
  rcases hl.last with ⟨_, hs⟩ | ⟨l, x, rfl, hx⟩
  case inl => simp [hs, h₀] at hr
  case inr => exact hx ▸ hc x (by simp [hes]) (hx ▸ hr)

theorem seen (hc : Current es) (h₀ : Started s₀) (h : Run s₀ es s) (he : e ∈ es) : e.Seen := by
  have hs₀ : s₀.ui.needRedraw = true ∧ Nav s₀.ui := by
    obtain ⟨configCache, _, _, _, rfl⟩ := h₀
    exact ⟨rfl, .init configCache⟩
  have ht := Step.of_step (h.step_of_mem he)
  have hn : Nav e.src.ui := h.invariant_src (P := (Nav ·.ui)) hs₀.right
    (fun ht => Nav.isInductive.step (.of_step ht)) he
  have hsrc := hc.src hs₀.left h he
  have hdst := hc e he
  obtain ⟨s, a, s'⟩ := e
  replace ht : Step s a s' := ht
  cases a
  case update a =>
    cases ht
    intro hu
    by_contra hr
    have hr : s.ui.needRedraw = false := by simpa using hr
    have hsc := hdst ((hu.needRedraw_eq hn).trans hr)
    exact hu.view_ne s.inputs (Option.some.inj (hsc.symm.trans (hsrc hr)))
  case inputs io =>
    cases ht
    intro hv
    by_contra hr
    have hr : s.ui.needRedraw = false := by simpa using hr
    exact hv (Option.some.inj ((hdst hr).symm.trans (hsrc hr)))
  all_goals trivial

theorem undisturbed (hc : Current es) (h : Run s₀ es s) : Undisturbed es := by
  rintro l g m e r rfl hg hm hl
  have ⟨_, hs, hrun⟩ := h.split
  have ⟨hrun, hs', _⟩ := hrun.split
  have ⟨hpc, hsc⟩ := screen_of_renders hg (.of_step hs) hrun hm
  have hdst := hc e (by simp)
  rw [hl] at hs'
  have ht := Step.of_step hs'
  generalize e.dst = s' at ht hdst
  cases ht
  case clear => exact Option.some.inj ((hdst rfl).symm.trans hsc)
  all_goals simp_all

end Current

-- The updates that go unseen are all that an update can do to a page without a request, and apart from
-- them and the inputs only what happens during a rendering is missed.
theorem screen_current (h₀ : Started s₀) (h : Run s₀ es s) :
    (∀ a, ((s.ui.update a).view s.inputs ≠ s.view → (s.ui.update a).needRedraw = true) ↔
      (Unseen s.ui a → s.ui.needRedraw = true)) ∧
    (Current es ↔ (∀ e ∈ es, e.Seen) ∧ Undisturbed es) := by
  have hn₀ : Nav s₀.ui := by
    obtain ⟨configCache, _, _, _, rfl⟩ := h₀
    exact .init configCache
  refine ⟨fun a => requests_iff (Nav.isInductive.run hn₀ h) s.inputs, ?_⟩
  constructor
  case mp => exact fun hc => ⟨fun _ he => hc.seen h₀ h he, hc.undisturbed h⟩
  case mpr =>
    intro ⟨hs, hu⟩ e he hr
    obtain ⟨l, r, rfl⟩ := List.append_of_mem he
    have ⟨hl, ht, _⟩ := h.split
    rw [show l ++ e :: r = l ++ [e] ++ r by simp] at hu
    have hsh : Shows e.dst := shows h₀ (hl.step ht)
      (fun x hx => hs x (by simp at hx ⊢; tauto)) hu.of_append
    exact hsh.resolve_left (by simp [hr])

-- From the home page to the one of the location.
def toLocation : List Action :=
  press [.s4] 9 ++ press [.s4] 9 ++ press [.s3, .s4] 9

theorem screen_current_location : ∃ es s, Run boot es s ∧
    s.ui.currentPageId = .driveRecordLocation ∧ s.ui.home.topStatusValue = 5 ∧
    (∀ a, ((s.ui.update a).view s.inputs ≠ s.view → (s.ui.update a).needRedraw = true) ↔
      (Unseen s.ui a → s.ui.needRedraw = true)) ∧
    (Current es ↔ (∀ e ∈ es, e.Seen) ∧ Undisturbed es) := by
  have ⟨es, s, hr, hp⟩ := Lts.exists_run_of_trace State.step boot
    (.update (.topStatus 5) :: toLocation)
    (fun r => r.2.ui.currentPageId = .driveRecordLocation ∧ r.2.ui.home.topStatusValue = 5)
    (by decide +kernel)
  have hp := of_decide_eq_true hp
  exact ⟨es, s, hr, hp.left, hp.right, screen_current started_boot hr⟩

-- The number of satellites changes while the location is shown.
theorem not_requests_location : ∃ es s, Run boot es s ∧ ∃ a,
    (s.ui.update a).view s.inputs ≠ s.view ∧ (s.ui.update a).needRedraw = false := by
  have ⟨es, s, hr, hp⟩ := Lts.exists_run_of_trace State.step boot toLocation
    (fun r => r.2.ui.currentPageId = .driveRecordLocation ∧ r.2.ui.home.topStatusValue ≠ 7 ∧
      (r.2.ui.update (.topStatus 7)).needRedraw = false) (by decide +kernel)
  obtain ⟨hp, hv, hn⟩ := of_decide_eq_true hp
  exact ⟨es, s, hr, .topStatus 7, Unseen.view_ne (.topStatus hp hv.symm) s.inputs, hn⟩

end Svc.Lcd
