import DvrModel.Svc.Lcd.Theorems.Editor
import DvrModel.Svc.Lcd.Theorems.Navigation

open Svc.Eeprom (Io Device)
open Svc.Storage (Saves)
open App (VehicleInputs)
open Crash (Returns)

namespace Svc.Lcd

-- What is shown does not change without a request for drawing it, and such a request is not taken back.
def Requested (u u' : Ui) : Prop :=
  u'.needRedraw = true ∨ (u'.view = u.view ∧ u'.needRedraw = u.needRedraw)

namespace Requested

variable {u u' : Ui} {p : Page} {now : UInt32}

theorem refl : Requested u u :=
  .inr ⟨rfl, rfl⟩

theorem needRedraw (h : Requested u u') (hu : u.needRedraw = true) : u'.needRedraw = true := by
  rcases h with h | ⟨_, h⟩
  · exact h
  · rwa [h]

theorem trans {u'' : Ui} (h : Requested u u') (h' : Requested u' u'') : Requested u u'' := by
  rcases h' with h' | ⟨hv, hr⟩
  · exact .inl h'
  · rcases h with h | ⟨hv', hr'⟩
    · exact .inl (hr ▸ h)
    · exact .inr ⟨hv.trans hv', hr.trans hr'⟩

theorem pageEnter_of_ne {v : Ui} (hp : p ≠ .max) : Returns (Requested v) (u.pageEnter now p) := by
  rw [Ui.pageEnter, if_neg hp]
  exact .bind_any fun _ => .pure (.inl rfl)

theorem pageEnter : Returns (Requested u) (u.pageEnter now p) := by
  by_cases hp : p = .max
  case pos => simpa [Ui.pageEnter, hp] using .pure refl
  case neg => exact pageEnter_of_ne hp

theorem closed : Closed (Returns (Requested u)) u now :=
  .of_returns refl (fun _ => pageEnter) fun _ _ _ _ _ => pageEnter_of_ne (by decide)

theorem handleNavUp : Requested u u.handleNavUp := by
  rw [Ui.handleNavUp]
  split
  case isTrue => exact .inl rfl
  case isFalse => exact refl

theorem handleNavDown : Requested u u.handleNavDown := by
  rw [Ui.handleNavDown]
  split
  case isTrue => exact .inl rfl
  case isFalse => exact refl

-- An editor is as it was when it wants its value to be saved.
theorem eq_of_edited {w : Ui} (h : Edited u w .save) : w = u := by
  generalize hr : Reply.save = r at h
  cases h
  case vin        => exact congrArg ({ u with vin := · }) (Picker.handle_save hr.symm).left
  case provinceId => exact congrArg ({ u with provinceId := · }) (Picker.handle_save hr.symm).left
  case cityId     => exact congrArg ({ u with cityId := · }) (Picker.handle_save hr.symm).left
  case plate      => exact congrArg ({ u with plate := · }) (PlateEditor.handle_save hr.symm)
  case phone      => exact congrArg ({ u with phone := · }) (PhoneEditor.handle_save hr.symm)

theorem effect (h : Effect u now x) : Returns (Requested u) x := by
  cases h
  case refl => exact .pure refl
  case home => exact .pure (.inl rfl)
  case turn => exact .pure (.inl rfl)
  case navUp => exact .pure handleNavUp
  case navDown => exact .pure handleNavDown
  case enter => exact pageEnter
  case back => exact closed.handleBack
  case confirm => exact closed.handleConfirm
  case reply w r _ _ _ hw hm hp hs =>
    cases r
    case redraw => exact .pure (.inl rfl)
    case leave => exact pageEnter_of_ne hm
    case save => exact eq_of_edited hw ▸ closed.saveAndOk _ _ hp hs
  case redraw => exact .bind_any fun _ => .pure (.inl rfl)

theorem handleDynamicRefresh {io : VehicleInputs} : Requested u (u.handleDynamicRefresh now io) := by
  have ⟨_, _, needRedraw, he, hr⟩ := u.handleDynamicRefresh_eq now io
  rw [he]
  cases needRedraw
  case true => exact .inl rfl
  case false => exact .inr ⟨rfl, (Bool.eq_false_iff.mpr fun h => absurd (hr h) (by decide)).symm⟩

end Requested

namespace Ui

theorem view_render (u : Ui) : u.render.view = u.view := by
  rw [render]
  split
  case isTrue h =>
    have ht : (u.textMsg.render.isShown, u.textMsg.render.string, u.textMsg.render.pageIndex) =
        (u.textMsg.isShown, u.textMsg.string, u.textMsg.pageIndex) := by
      rw [TextMsg.render]
      split <;> rfl
    simp only [Prod.mk.injEq] at ht
    funext io
    simp [view, h, ht]
  case isFalse => rfl

theorem needRedraw_render (u : Ui) : u.render.needRedraw = u.needRedraw := by
  rw [render]
  split <;> rfl

theorem needRedraw_update {u : Ui} {a : Update} (h : u.needRedraw = true) :
    (u.update a).needRedraw = true := by
  have ⟨_, _, _, _, _, _, he, _, hr⟩ := u.update_eq a
  rw [he]
  exact hr h

-- The update executes one of the statements that set the flag, whether or not it is set already.
def Requests (u : Ui) (a : Update) : Prop :=
  ({ u with needRedraw := false }.update a).needRedraw = true

instance {u : Ui} {a : Update} : Decidable (u.Requests a) :=
  inferInstanceAs <| Decidable (_ = _)

theorem Requests.needRedraw {u : Ui} {a : Update} (h : u.Requests a) :
    (u.update a).needRedraw = true := by
  cases hr : u.needRedraw
  case true => exact needRedraw_update hr
  case false =>
    have he : { u with needRedraw := false } = u := by rw [← hr]
    rwa [Requests, he] at h

end Ui

variable {s s' s₀ : State} {a : Action} {es : List Edge}

-- Apart from clearing the flag, the loop keeps the screen up to date or requests that it is drawn.
theorem Step.requested (h : Step s .lcd s') (hc : s.pc ≠ .clear) : Requested s.ui s'.ui := by
  cases h
  case handled hu => exact Requested.effect (.handleKey ..) _ _ (congrArg Prod.fst hu)
  case refresh hu =>
    exact (Requested.closed.handleAutoReturn _ _ (congrArg Prod.fst hu)).trans .handleDynamicRefresh
  case render => exact .inr ⟨s.ui.view_render, s.ui.needRedraw_render⟩
  case clear h => exact absurd h hc
  case top | idle | test => exact .refl

theorem Step.needRedraw (h : Step s a s') (hc : a = .lcd → s.pc ≠ .clear)
    (hr : s.ui.needRedraw = true) : s'.ui.needRedraw = true := by
  cases a
  case lcd => exact (h.requested (hc rfl)).needRedraw hr
  case update =>
    cases h
    exact Ui.needRedraw_update hr
  case post | tick | inputs =>
    cases h
    exact hr

theorem Step.ui_update {a : Update} (h : Step s (.update a) s') : s'.ui = s.ui.update a := by
  cases h
  rfl

theorem Step.ui_clear (h : Step s .lcd s') (hc : s.pc = .clear) :
    s'.ui = { s.ui with needRedraw := false } := by
  cases h <;> simp_all

-- With this step an update requests a rendering.
def Edge.Requests (e : Edge) : Prop :=
  ∃ a, e.label = .update a ∧ e.src.ui.Requests a

-- With this step the current page is rendered.
def Edge.Renders (e : Edge) : Prop :=
  e.label = .lcd ∧ e.src.pc = .render

-- Every request of an update is followed by a rendering before the flag is found to be cleared.
def Redrawn (es : List Edge) : Prop :=
  ∀ (l : List Edge) (e : Edge) (r : List Edge), es = l ++ e :: r → e.Requests →
    ∀ (m : List Edge) (e' : Edge) (r' : List Edge), r = m ++ e' :: r' → e'.dst.ui.needRedraw = false →
      ∃ e'' ∈ m ++ [e'], e''.Renders ∧ e''.dst.screen = some e''.src.view

theorem Step.pc_eq (h : Step s a s') (ha : a ≠ .lcd) : s'.pc = s.pc := by
  cases h
  case post | tick | inputs | update => rfl
  all_goals contradiction

-- Only a rendering leads to the place where the flag is cleared.
theorem Step.renders_of_clear (h : Step s a s') (hc : s'.pc = .clear) (hs : s.pc ≠ .clear) :
    a = .lcd ∧ s.pc = .render := by
  cases h
  case post | tick | inputs | update => exact absurd hc hs
  case render hpc => exact ⟨rfl, hpc⟩
  case top | refresh | clear => cases hc
  case test =>
    dsimp only at hc
    split at hc <;> cases hc
  case idle => exact absurd hc Pc.idle_ne_clear
  case handled => exact absurd hc Pc.handled_ne_clear

-- A request that is pending remains so until the page has been rendered.
theorem rendered_or_pending (h₀ : s₀.ui.needRedraw = true) (hc : s₀.pc ≠ .clear) (h : Run s₀ es s) :
    (∃ e ∈ es, e.Renders ∧ e.dst.screen = some e.src.view) ∨
    (s.ui.needRedraw = true ∧ s.pc ≠ .clear) := by
  induction h
  case refl => exact .inr ⟨h₀, hc⟩
  case step es s a s' _ ht hi =>
    have ht := Step.of_step ht
    rcases hi with ⟨e, he, hr⟩ | ⟨hr, hpc⟩
    · exact .inl ⟨e, List.mem_append_left _ he, hr⟩
    · by_cases hc' : s'.pc = .clear
      case neg => exact .inr ⟨ht.needRedraw (fun _ => hpc) hr, hc'⟩
      case pos =>
        obtain ⟨rfl, hp⟩ := ht.renders_of_clear hc' hpc
        refine .inl ⟨⟨s, .lcd, s'⟩, by simp, ⟨rfl, hp⟩, ?_⟩
        cases ht <;> simp_all

theorem Edge.Requests.needRedraw {e : Edge} (h : e.Requests) (hs : Step e.src e.label e.dst) :
    e.dst.ui.needRedraw = true ∧ e.dst.pc = e.src.pc := by
  obtain ⟨a, hl, hr⟩ := h
  rw [hl] at hs
  exact ⟨hs.ui_update ▸ hr.needRedraw, hs.pc_eq (by simp)⟩

-- While the loop does not move, neither does the flag.
theorem needRedraw_of_idle (h₀ : s₀.ui.needRedraw = true) (h : Run s₀ es s)
    (hl : ∀ e ∈ es, e.label ≠ .lcd) : s.ui.needRedraw = true := by
  refine h.invariant_of (P := (·.ui.needRedraw = true)) (C := (·.label ≠ .lcd)) h₀ ?_ hl
  exact fun ht ha hr => (Step.of_step ht).needRedraw (absurd · ha) hr

theorem pc_of_idle (h : Run s₀ es s) (hl : ∀ e ∈ es, e.label ≠ .lcd) : s.pc = s₀.pc :=
  h.invariant_of (P := (·.pc = s₀.pc)) (C := (·.label ≠ .lcd)) rfl
    (fun ht ha hp => ((Step.of_step ht).pc_eq ha).trans hp) hl

-- A request is lost if it comes between a rendering and the step that clears the flag, unless the run
-- ends there, and in no other case.
theorem redrawn_iff (h : Run s₀ es s) :
    Redrawn es ↔ ∀ (l : List Edge) (e : Edge) (r : List Edge), es = l ++ e :: r → e.Requests →
      e.src.pc = .clear → ∀ e' ∈ r, e'.label ≠ .lcd := by
  constructor
  case mp =>
    rintro hr l e r rfl hq hpc e' he' hl
    obtain ⟨m, e₁, r', rfl, hl₁, hm⟩ := Lts.exists_first (P := (·.label = .lcd)) ⟨e', he', hl⟩
    have ⟨_, hs, hrun⟩ := h.split
    have ⟨hrun₁, hs₁, _⟩ := hrun.split
    have hpc₁ : e₁.src.pc = .clear := by
      rw [pc_of_idle hrun₁ hm, (hq.needRedraw (.of_step hs)).right, hpc]
    have hn : e₁.dst.ui.needRedraw = false := by
      rw [(Step.of_step (hl₁ ▸ hs₁)).ui_clear hpc₁]
    obtain ⟨e₂, he₂, ⟨hl₂, hpc₂⟩, _⟩ := hr l e _ rfl hq m e₁ r' rfl hn
    rcases List.mem_append.mp he₂ with he₂ | he₂
    · exact hm e₂ he₂ hl₂
    · rw [List.mem_singleton.mp he₂, hpc₁] at hpc₂
      cases hpc₂
  case mpr =>
    rintro hc l e _ rfl hq m e' r' rfl hn
    have ⟨_, hs, hrun⟩ := h.split
    have ⟨hrun₁, hs₁, _⟩ := hrun.split
    have hrun₂ : Run e.dst (m ++ [e']) e'.dst := .step hrun₁ hs₁
    have ⟨hd, hpc⟩ := hq.needRedraw (.of_step hs)
    by_cases hpc' : e.src.pc = .clear
    case pos =>
      have hl : ∀ e'' ∈ m ++ [e'], e''.label ≠ .lcd := fun e'' he =>
        hc l e _ rfl hq hpc' e'' <| by simp at he ⊢; tauto
      simp [needRedraw_of_idle hd hrun₂ hl] at hn
    case neg =>
      rcases rendered_or_pending hd (hpc ▸ hpc') hrun₂ with hr | ⟨hr, _⟩
      · exact hr
      · simp [hr] at hn

theorem redrawn_homeSpeed :
    ∃ es s, Run boot es s ∧ s.ui.home.speedKmhX10 = 1 ∧ s.ui.needRedraw = false ∧ Redrawn es := by
  have ⟨es, s, hr, hp⟩ := Lts.exists_run_of_trace State.step boot (.update (.homeSpeed 1) :: press [] 13)
    (fun r => r.2.ui.home.speedKmhX10 = 1 ∧ r.2.ui.needRedraw = false ∧
      ∀ e ∈ r.1, e.label matches .lcd ∨ e.src.pc ≠ .clear) (by decide)
  obtain ⟨hv, hn, hc⟩ := of_decide_eq_true hp
  refine ⟨es, s, hr, hv, hn, (redrawn_iff hr).mpr fun l e r hes ⟨a, ha, _⟩ hpc => ?_⟩
  rcases hc e (by simp [hes]) with hl | hl
  · simp [ha] at hl
  · exact absurd hpc hl

-- The speed changes right after the page has been rendered.
theorem not_redrawn_homeSpeed : ∃ es s, Run boot es s ∧ ¬Redrawn es := by
  have ⟨es, s, hr, hp⟩ := Lts.exists_run_of_trace State.step boot (press [] 12)
    (fun r => r.2.pc = .clear ∧ r.2.ui.Requests (.homeSpeed 1)) (by decide)
  obtain ⟨hpc, hq⟩ : s.pc = .clear ∧ s.ui.Requests (.homeSpeed 1) := of_decide_eq_true hp
  let s₁ : State := { s with ui := s.ui.update (.homeSpeed 1) }
  let s₂ : State := { s₁ with ui := { s₁.ui with needRedraw := false }, pc := .top }
  have h₁ : s.step (.update (.homeSpeed 1)) = some s₁ := rfl
  have h₂ : s₁.step .lcd = some s₂ := by
    have hpc₁ : s₁.pc = .clear := hpc
    simp [State.step, Thread.step, hpc₁, s₂]
  refine ⟨_, s₂, .step (.step hr h₁) h₂, fun h => ?_⟩
  have hl := h es ⟨s, .update (.homeSpeed 1), s₁⟩ [⟨s₁, .lcd, s₂⟩] (by simp) ⟨_, rfl, hq⟩ [] _ [] rfl rfl
  obtain ⟨e, he, ⟨_, hr⟩, _⟩ := hl
  obtain rfl : e = ⟨s₁, .lcd, s₂⟩ := by simpa using he
  simp [s₁, hpc] at hr

end Svc.Lcd
