import DvrModel.Svc.Lcd.Theorems.Step

open Svc.Eeprom (Device)
open Crash (Returns)

namespace Svc.Lcd

-- The home page and the editors for which the loop goes on to the generic handling when there was no
-- event.
def Page.FallsThrough (p : Page) : Prop :=
  p.handler ∈ [.home, .vin, .provinceId, .cityId, .plateSet]

instance : DecidablePred Page.FallsThrough :=
  fun _ => inferInstanceAs <| Decidable (_ ∈ _)

-- The page that `lcd_page_handle_back` enters.
def Ui.backPage (u : Ui) : Page :=
  if u.currentPageId = .commonConfigOk then
    u.commonOkReturnPage
  else if u.currentPageId = .home then
    .mainMenu
  else
    match u.currentPageId.getPageNode with
    | none      => .home
    | some node => if node.parentId ≠ .max then node.parentId else .home

-- With this step a handler consumes the event of a key.
def Edge.Consumes (e : Edge) (h : Handler) (k : Key) : Prop :=
  e.label = .lcd ∧ e.src.pc = .poll h k ∧ e.src.keys k = true

-- The keys of the home page and of the editors are left to their own handlers. In particular the first
-- key does not leave the page, and it has no effect on the home page.
def OwnKeys (es : List Edge) : Prop :=
  ∀ e ∈ es, ∀ h k, e.Consumes h k → e.src.ui.currentPageId.FallsThrough →
    h = e.src.ui.currentPageId.handler ∧
    (k = .s1 → e.dst.ui.currentPageId = e.src.ui.currentPageId) ∧
    (k = .s1 → e.src.ui.currentPageId = .home → e.dst.ui = e.src.ui)

namespace Edge

-- The handler of one of the pages has polled its last key without an event, and gives up.
def GivesUp (e : Edge) : Prop :=
  e.label = .lcd ∧ e.src.ui.currentPageId.FallsThrough ∧
  e.src.pc = .poll e.src.ui.currentPageId.handler .s4 ∧ e.src.keys .s4 = false

-- The generic handling of the first key goes back to one of the pages.
def GoesBack (e : Edge) : Prop :=
  e.Consumes .generic .s1 ∧ e.src.ui.backPage.FallsThrough

-- If this is a step of the loop at all, it polls a key for the generic handling.
def Generic (e : Edge) : Prop :=
  e.label = .lcd → ∃ k, e.src.pc = .poll .generic k

end Edge

-- The event of a key is there after the step `g`, or it is posted in the course of the steps `m`.
def Arrives (g : Edge) (m : List Edge) (k : Key) : Prop :=
  g.dst.keys k = true ∨ ∃ x ∈ m, x.label = .post k

-- When the handler of one of the pages gives up, or when the generic handling goes back to such a page,
-- the event of a key is there, or it is posted afterwards but before the generic handling polls the key.
def Overtaken (es : List Edge) : Prop :=
  ∃ (l : List Edge) (g : Edge) (m : List Edge) (e : Edge) (r : List Edge) (k : Key),
    es = l ++ g :: (m ++ e :: r) ∧ (g.GivesUp ∨ g.GoesBack) ∧ (∀ x ∈ m, x.Generic) ∧ Arrives g m k ∧
    e.label = .lcd ∧ e.src.pc = .poll .generic k

variable {s s' s₀ : State} {a : Action} {h h' : Handler} {k k' : Key} {g : Edge} {es m : List Edge}

theorem Page.FallsThrough.ne_generic {p : Page} (hp : p.FallsThrough) : p.handler ≠ .generic := by
  intro h
  simp [FallsThrough, h] at hp

theorem Page.FallsThrough.ne_max {p : Page} (hp : p.FallsThrough) : p ≠ .max := by
  rintro rfl
  contradiction

-- One of the pages leaves the keys to the generic handling only after the last one.
theorem Pc.idle_eq_generic {p : Page} (hp : p.FallsThrough) (h : idle p.handler k = poll .generic k') :
    k = .s4 := by
  rw [Page.FallsThrough] at hp
  cases hh : p.handler <;> cases k <;> simp [hh, idle, Handler.next] at h hp ⊢

theorem Pc.idle_s4 {p : Page} (hp : p.FallsThrough) : idle p.handler .s4 = poll .generic .s1 := by
  rw [Page.FallsThrough] at hp
  cases hh : p.handler <;> simp [hh, idle, Handler.next] at hp ⊢

-- After an event only the generic handling goes on to itself.
theorem Pc.handled_eq_generic (h : handled h' k = poll .generic k') : h' = .generic ∧ k ≠ .s4 := by
  cases h' <;> cases k <;> simp [handled, idle, Handler.next] at h ⊢

namespace Ui

variable {u : Ui} {now : UInt32}

theorem handleBack_eq : u.handleBack now = u.pageEnter now u.backPage := by
  simp only [handleBack, backPage]
  split
  case isTrue => rfl
  case isFalse =>
    split
    case isTrue => rfl
    case isFalse => cases u.currentPageId.getPageNode <;> rfl

-- Among the keys of the generic handling that are followed by others, only the first one changes the
-- page.
theorem handleGenericKey_currentPageId (hk : k ≠ .s4) :
    Returns (fun u' => u'.currentPageId = u.currentPageId ∨ k = .s1 ∧ u'.currentPageId = u.backPage)
      (u.handleGenericKey now k) := by
  cases k
  case s1 =>
    rw [handleGenericKey, handleBack_eq]
    by_cases hp : u.backPage = .max
    case pos => simpa [pageEnter, hp] using .pure (.inl rfl)
    case neg => exact (pageEnter_currentPageId hp).mono fun _ h => .inr ⟨rfl, h⟩
  case s2 =>
    refine .pure (.inl ?_)
    rw [handleNavUp]
    split <;> rfl
  case s3 =>
    refine .pure (.inl ?_)
    rw [handleNavDown]
    split <;> rfl
  case s4 => contradiction

end Ui

-- What the generic handling finds on one of the pages has arrived since the page's own handler gave up, or
-- since the page was entered.
def Exposed (es : List Edge) (s : State) : Prop :=
  ∃ (l : List Edge) (g : Edge) (m : List Edge), es = l ++ g :: m ∧ (g.GivesUp ∨ g.GoesBack) ∧
    (∀ x ∈ m, x.Generic) ∧ ∀ k, s.keys k = true → Arrives g m k

namespace Exposed

theorem of_last (hg : Edge.GivesUp ⟨s, a, s'⟩ ∨ Edge.GoesBack ⟨s, a, s'⟩) :
    Exposed (es ++ [⟨s, a, s'⟩]) s' :=
  ⟨es, ⟨s, a, s'⟩, [], rfl, hg, by simp, fun _ => .inl⟩

theorem step (hx : Exposed es s) (hg : Edge.Generic ⟨s, a, s'⟩)
    (hk : ∀ k, s'.keys k = true → s.keys k = true ∨ a = .post k) : Exposed (es ++ [⟨s, a, s'⟩]) s' := by
  have ⟨l, g, m, hes, hgs, hm, hks⟩ := hx
  refine ⟨l, g, m ++ [⟨s, a, s'⟩], by simp [hes], hgs, fun x hx => ?_, fun k h => ?_⟩
  · rcases List.mem_append.mp hx with hx | hx
    · exact hm x hx
    · exact List.mem_singleton.mp hx ▸ hg
  · rcases hk k h with h | rfl
    · refine (hks k h).imp_right fun ⟨x, hx, hl⟩ => ⟨x, List.mem_append_left _ hx, hl⟩
    · exact .inr ⟨⟨s, .post k, s'⟩, by simp, rfl⟩

-- The generic handling has gone on from one key to the next, or it has just been entered.
theorem of_idle (hpl : Polls s) (hp : s.ui.currentPageId.FallsThrough) (hpc : s.pc = .poll h k)
    (hk : s.keys k = false) (hn : Pc.idle h k = .poll .generic k')
    (hx : s.pc = .poll .generic k → Exposed es s) :
    Exposed (es ++ [⟨s, .lcd, { s with pc := .idle h k }⟩]) { s with pc := .idle h k } := by
  rcases hpl h k hpc with rfl | rfl
  case inl => exact (hx hpc).step (fun _ => ⟨k, hpc⟩) fun _ => .inl
  case inr =>
    obtain rfl := Pc.idle_eq_generic hp hn
    exact of_last (.inl ⟨rfl, hp, hpc, hk⟩)

theorem of_handled {ui : Ui} {device : Device} (hpc : s.pc = .poll h k) (hk : s.keys k = true)
    (hu : (s.ui.handleKey s.tick h k).run s.device = (some ui, device))
    (hp : ui.currentPageId.FallsThrough) (hn : Pc.handled h k = .poll .generic k')
    (hx : s.pc = .poll .generic k → s.ui.currentPageId.FallsThrough → Exposed es s) :
    let s' := { s with ui, device, keys := Function.update s.keys k false, pc := .handled h k }
    Exposed (es ++ [⟨s, .lcd, s'⟩]) s' := by
  obtain ⟨rfl, h₄⟩ := Pc.handled_eq_generic hn
  rcases Ui.handleGenericKey_currentPageId h₄ _ _ (congrArg Prod.fst hu) with hc | ⟨rfl, hc⟩
  case inl =>
    refine (hx hpc (hc ▸ hp)).step (fun _ => ⟨k, hpc⟩) fun k₁ h₁ => .inl ?_
    by_cases he : k₁ = k
    case pos => exact he ▸ hk
    case neg => simpa [he] using h₁
  case inr => exact of_last (.inr ⟨⟨rfl, hpc, hk⟩, hc ▸ hp⟩)

end Exposed

theorem exposed (h₀ : Started s₀) (h : Run s₀ es s) (hpc : s.pc = .poll .generic k)
    (hp : s.ui.currentPageId.FallsThrough) : Exposed es s := by
  induction h generalizing k
  case refl =>
    obtain ⟨_, _, _, _, rfl⟩ := h₀
    cases hpc
  case step es s a s' hrun hs hi =>
    have hpl := polls h₀ hrun
    have hs := Step.of_step hs
    cases hs
    case top =>
      exact absurd (Pc.poll.inj hpc).left hp.ne_generic
    case idle hpc' hk => exact .of_idle hpl hp hpc' hk hpc fun he => hi he hp
    case handled hpc' hk hu => exact .of_handled hpc' hk hu hp hpc fun he => hi he
    case refresh | render | clear => cases hpc
    case test =>
      dsimp only at hpc
      split at hpc <;> cases hpc
    case post k₁ =>
      refine (hi hpc hp).step nofun fun k₂ h₂ => ?_
      by_cases he : k₂ = k₁
      case pos => exact .inr (he ▸ rfl)
      case neg => exact .inl (by simpa [he] using h₂)
    case tick | inputs => exact (hi hpc hp).step nofun fun _ => .inl
    case update a =>
      have ⟨_, _, _, _, _, _, he, _⟩ := s.ui.update_eq a
      exact (hi hpc (by simpa [he] using hp)).step nofun fun _ => .inl

-- A handler gives up, or the generic handling goes back, and the page stays or becomes one of those in
-- question.
theorem fallsThrough_of_exposes (hs : g.src.step g.label = some g.dst) (hg : g.GivesUp ∨ g.GoesBack) :
    g.dst.ui.currentPageId.FallsThrough := by
  obtain ⟨s, a, s'⟩ := g
  rcases hg with ⟨rfl, hp, hpc, hk⟩ | ⟨⟨rfl, hpc, hk⟩, hp⟩
  case inl =>
    have hst : Step s .lcd s' := .of_step hs
    cases hst
    case idle => exact hp
    case handled hpc' hk' _ =>
      obtain ⟨-, rfl⟩ := Pc.poll.inj (hpc.symm.trans hpc')
      exact absurd (hk.symm.trans hk') Bool.false_ne_true
    all_goals simp_all
  case inr =>
    have hu := congrArg Prod.fst (handleKey_of_step hpc hk hs)
    rw [Ui.handleKey, Ui.handleGenericKey, Ui.handleBack_eq] at hu
    exact Ui.pageEnter_currentPageId hp.ne_max _ _ hu ▸ hp

-- As long as the generic handling finds no event, the page stays and so do the events.
theorem consumes_or_arrives (hg : g.dst.ui.currentPageId.FallsThrough) (h : Run g.dst m s)
    (hm : ∀ x ∈ m, x.Generic) :
    (∃ x ∈ m, x.src.ui.currentPageId.FallsThrough ∧ ∃ k, x.Consumes .generic k) ∨
    (s.ui.currentPageId.FallsThrough ∧ ∀ k, Arrives g m k → s.keys k = true) := by
  induction h
  case refl => exact .inr ⟨hg, fun k hk => hk.resolve_right (by simp)⟩
  case step m s a s' hrun hs hi =>
    rcases hi fun x hx => hm x (List.mem_append_left _ hx) with ⟨x, hx, hc⟩ | ⟨hp, hk⟩
    case inl => exact .inl ⟨x, List.mem_append_left _ hx, hc⟩
    case inr =>
      have hgen : Edge.Generic ⟨s, a, s'⟩ := hm _ (by simp)
      have hk : ∀ k, Arrives g (m ++ [⟨s, a, s'⟩]) k → s.keys k = true ∨ a = .post k := by
        intro k
        rintro (h | ⟨x, hx, hl⟩)
        · exact .inl (hk k (.inl h))
        · rcases List.mem_append.mp hx with hx | hx
          · exact .inl (hk k (.inr ⟨x, hx, hl⟩))
          · obtain rfl := List.mem_singleton.mp hx
            exact .inr hl
      have hst := Step.of_step hs
      cases hst
      case idle => exact .inr ⟨hp, fun k h => (hk k h).resolve_right nofun⟩
      case handled h₁ k₁ _ _ hpc hk₁ _ =>
        obtain ⟨k₂, hpc₂⟩ := hgen rfl
        obtain ⟨rfl, rfl⟩ := Pc.poll.inj (hpc.symm.trans hpc₂)
        exact .inl ⟨⟨s, .lcd, _⟩, List.mem_append_right _ (List.mem_singleton_self _), hp, k₁, rfl, hpc, hk₁⟩
      case post k₁ =>
        refine .inr ⟨hp, fun k h => ?_⟩
        rcases hk k h with h | h
        · simp [Function.update_apply, h]
        · cases h
          simp
      case tick | inputs => exact .inr ⟨hp, fun k h => (hk k h).resolve_right nofun⟩
      case update a =>
        have ⟨_, _, _, _, _, _, he, _⟩ := s.ui.update_eq a
        exact .inr ⟨by simpa [he] using hp, fun k h => (hk k h).resolve_right nofun⟩
      all_goals
        obtain ⟨k, hpc⟩ := hgen rfl
        simp_all

-- The page's own handler does not go back on its first key.
theorem handleKey_s1 {u : Ui} {now : UInt32} (hp : u.currentPageId.FallsThrough) :
    Returns (fun u' => u'.currentPageId = u.currentPageId ∧ (u.currentPageId = .home → u' = u))
      (u.handleKey now u.currentPageId.handler .s1) := by
  have hh : u.currentPageId = .home → u.currentPageId.handler = .home := fun h => h ▸ rfl
  rw [Page.FallsThrough] at hp
  cases he : u.currentPageId.handler <;> simp [he] at hp hh
  case home => exact .pure ⟨rfl, fun _ => rfl⟩
  case vin | provinceId | cityId | plateSet => exact .pure ⟨rfl, fun h => absurd h hh⟩

-- An event that arrives too late for the own handler is consumed by the generic one exactly if the run gets
-- there.
theorem ownKeys_iff (h₀ : Started s₀) (h : Run s₀ es s) : OwnKeys es ↔ ¬Overtaken es := by
  constructor
  case mp =>
    rintro ho ⟨l, g, m, e, r, k, rfl, hg, hm, hk, hl, hpc⟩
    have ⟨_, hgs, hrun⟩ := h.split
    have ⟨hrun, _, _⟩ := hrun.split
    have hp := fallsThrough_of_exposes hgs hg
    -- Whichever event the generic handling consumes first violates the claim.
    have hc : ∃ x ∈ l ++ g :: (m ++ e :: r), x.src.ui.currentPageId.FallsThrough ∧
        ∃ k, x.Consumes .generic k := by
      rcases consumes_or_arrives hp hrun hm with ⟨x, hx, hc⟩ | ⟨hp, hks⟩
      · exact ⟨x, by simp [hx], hc⟩
      · exact ⟨e, by simp, hp, k, hl, hpc, hks k hk⟩
    have ⟨x, hx, hp, k, hc⟩ := hc
    exact hp.ne_generic (ho x hx _ k hc hp).left.symm
  case mpr =>
    intro hn e he hd k ⟨hl, hpc, hk⟩ hp
    obtain ⟨l, r, rfl⟩ := List.append_of_mem he
    have ⟨hrun, hstep, _⟩ := h.split
    obtain rfl : hd = e.src.ui.currentPageId.handler := by
      refine (polls h₀ hrun hd k hpc).resolve_left ?_
      rintro rfl
      have ⟨l₁, g, m, hes, hg, hm, hks⟩ := exposed h₀ hrun hpc hp
      exact hn ⟨l₁, g, m, e, r, k, by simp [hes], hg, hm, hks k hk, hl, hpc⟩
    refine ⟨rfl, ?_⟩
    suffices k = .s1 → e.dst.ui.currentPageId = e.src.ui.currentPageId ∧
        (e.src.ui.currentPageId = .home → e.dst.ui = e.src.ui) from
      ⟨fun h => (this h).left, fun h => (this h).right⟩
    rintro rfl
    exact handleKey_s1 hp _ _ <| congrArg Prod.fst <| handleKey_of_step hpc hk (hl ▸ hstep)

theorem ownKeys_iff_mainMenu :
    ∃ es s, Run boot es s ∧ s.ui.currentPageId = .mainMenu ∧ (OwnKeys es ↔ ¬Overtaken es) := by
  have ⟨es, s, hr, hp⟩ := Lts.exists_run_of_trace State.step boot (press [.s2] 9 ++ press [.s4] 9)
    (fun r => r.2.ui.currentPageId = .mainMenu) (by decide)
  exact ⟨es, s, hr, of_decide_eq_true hp, ownKeys_iff started_boot hr⟩

-- The first key is pressed right after the home page has polled all of its keys, and the generic handling
-- enters the menu.
theorem not_ownKeys_overtaken : ∃ es s, Run boot es s ∧ ¬OwnKeys es := by
  have ⟨es, s, hr, hp⟩ := Lts.exists_run_of_trace State.step boot
    (press [] 5 ++ press [.s1] 1)
    (fun r => ∃ e ∈ r.1, e.label matches .lcd ∧ e.src.pc = .poll .generic .s1 ∧ e.src.keys .s1 ∧
      e.src.ui.currentPageId = .home) (by decide)
  refine ⟨es, s, hr, fun ho => ?_⟩
  obtain ⟨e, he, hl, hpc, hk, hp⟩ := of_decide_eq_true hp
  have hl : e.label = .lcd := by split at hl <;> first | assumption | cases hl
  have ⟨hg, _⟩ := ho e he _ _ ⟨hl, hpc, hk⟩ (hp ▸ by decide)
  simp [hp, Page.handler] at hg

end Svc.Lcd
