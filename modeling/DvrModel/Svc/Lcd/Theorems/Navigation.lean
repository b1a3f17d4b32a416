import DvrModel.Svc.Lcd.Theorems.Step
import Mathlib.Tactic.Common

open Svc.Eeprom (Io Device)
open Svc.Storage
open Crash (Returns)

namespace Svc.Lcd

-- The page of the message exists. A page other than the first one can only be reached after the message
-- has been rendered, when the number of its pages is known.
def TextMsg.Paged (m : TextMsg) : Prop :=
  (m.pageIndex = 0 ∧ m.pageCount ≤ 1) ∨ (m.pageCount = textPageCount m.text ∧ m.pageIndex < m.pageCount)

-- What the pages remember while they are not shown.
structure Sane (u : Ui) : Prop where
  selected   : ∀ p, (u.pageSelected p).toNat < max 1 p.selectCount.toNat
  returnPage : u.commonOkReturnPage ≠ .max ∧ u.commonOkReturnPage ≠ .commonConfigOk
  text       : u.textMsg.Paged

structure Nav (u : Ui) : Prop extends Sane u where
  page     : u.currentPageId ≠ .max
  menuMode : u.menuMode = decide (u.currentPageId ≠ .home)

namespace TextMsg

variable {m m' : TextMsg}

theorem textPageCount_pos {text : Nat → UInt8} : 0 < textPageCount text := by
  rw [textPageCount]
  split
  case isTrue => decide
  case isFalse h => exact UInt16.pos_iff_ne_zero.mpr h

theorem Paged.lt_pageCount (h : m.Paged) : m.pageIndex.toNat < max 1 m.pageCount.toNat := by
  rcases h with ⟨h, _⟩ | ⟨_, h⟩
  · simp [h]
  · exact Nat.lt_of_lt_of_le h (Nat.le_max_right ..)

theorem Paged.lt_textPageCount (h : m.Paged) : m.pageIndex < textPageCount m.text := by
  rcases h with ⟨h, _⟩ | ⟨h, hi⟩
  · exact h ▸ textPageCount_pos
  · exact h ▸ hi

theorem Paged.render (h : m.Paged) : m.render.Paged := by
  rw [TextMsg.render]
  split
  case isTrue => exact .inr ⟨rfl, h.lt_textPageCount⟩
  case isFalse => exact h

theorem Paged.handleS2 (h : m.Paged) (ht : m.handleS2 = some m') : m'.Paged := by
  simp only [TextMsg.handleS2, Option.ite_none_right_eq_some, Option.some.injEq] at ht
  obtain ⟨hp, rfl⟩ := ht
  rcases h with ⟨h, _⟩ | ⟨h, hi⟩
  · simp [h] at hp
  · refine .inr ⟨h, ?_⟩
    show m.pageIndex - 1 < m.pageCount
    grind

theorem Paged.handleS3 (h : m.Paged) (ht : m.handleS3 = some m') : m'.Paged := by
  simp only [TextMsg.handleS3, Option.ite_none_right_eq_some, Option.some.injEq] at ht
  obtain ⟨⟨_, hp⟩, rfl⟩ := ht
  rcases h with ⟨h, hc⟩ | ⟨h, hi⟩
  · simp only [h, UInt16.le_iff_toNat_le] at hp hc
    simp at hp hc
    omega
  · refine .inr ⟨h, ?_⟩
    show m.pageIndex + 1 < m.pageCount
    have := m.pageCount.toNat_lt
    simp only [UInt16.lt_iff_toNat_lt, UInt16.toNat_add]
    simp
    omega

end TextMsg

namespace Sane

variable {u : Ui} {p : Page} {selected : UInt8}

theorem select (h : Sane u) (hs : selected.toNat < max 1 p.selectCount.toNat) :
    Sane (u.select p selected) where
  returnPage := h.returnPage
  text       := h.text
  selected q := by
    by_cases hq : q = p
    case pos => simpa [Ui.select, hq] using hs
    case neg => simpa [Ui.select, hq] using h.selected q

theorem selectStored (h : Sane u) (hp : p.selectCount = 5) {r : Bool × UInt8} :
    Sane (u.selectStored p r) := by
  apply h.select
  rw [hp]
  split
  case isTrue hv =>
    have hv : (r.1 = true ∧ 1 ≤ r.2) ∧ r.2 ≤ 5 := by simpa using hv
    have h₁ : 1 ≤ r.2.toNat := hv.left.right
    have h₅ : r.2.toNat ≤ 5 := hv.right
    rw [Bytes.toNat_sub_one h₁]
    show r.2.toNat - 1 < 5
    omega
  case isFalse => decide

-- Entering a page leaves nothing behind that is out of range, whatever the loads deliver.
theorem prepare (h : Sane u) : Returns Sane (u.prepare p) := by
  unfold Ui.prepare
  split
  case h_2 | h_3 => exact .bind_any fun _ => .pure <| h.selectStored rfl
  case h_4       => exact .pure ⟨h.selected, h.returnPage, .inl ⟨rfl, UInt16.le_refl _⟩⟩
  case h_9       => exact .pure h
  all_goals exact .bind_any fun _ => .pure ⟨h.selected, h.returnPage, h.text⟩

theorem pageEnter (h : Sane u) (hp : p ≠ .max) : Returns Nav (u.pageEnter now p) := by
  rw [Ui.pageEnter, if_neg hp]
  have h : Sane { u with currentPageId := p } := ⟨h.selected, h.returnPage, h.text⟩
  refine .bind (h.prepare.and <| Ui.prepare_currentPageId _ p) fun u' hu => .pure ?_
  exact { hu.left with page := hu.right ▸ hp, menuMode := by simp [hu.right] }

theorem pageEnterCommonOk (h : Sane u) (hp : p ≠ .commonConfigOk) :
    Returns Nav (u.pageEnterCommonOk now p) := by
  have h' : Sane { u with commonOkReturnPage := if p = .max then .home else p } := by
    refine ⟨h.selected, ?_, h.text⟩
    dsimp only
    split
    case isTrue => decide
    case isFalse hm => exact ⟨hm, hp⟩
  exact h'.pageEnter (by decide)

end Sane

namespace Nav

variable {u : Ui} {p : Page} {now : UInt32}

-- Everything that leaves the variables of the navigation alone.
theorem congr {u' : Ui} (h : Nav u) (hs : u'.pageSelected = u.pageSelected)
    (hr : u'.commonOkReturnPage = u.commonOkReturnPage) (ht : u'.textMsg = u.textMsg)
    (hp : u'.currentPageId = u.currentPageId) (hm : u'.menuMode = u.menuMode) : Nav u' := by
  refine ⟨⟨?_, ?_, ?_⟩, ?_, ?_⟩
  · exact hs ▸ h.selected
  · exact hr ▸ h.returnPage
  · exact ht ▸ h.text
  · exact hp ▸ h.page
  · rw [hm, hp, h.menuMode]

theorem redraw (h : Nav u) : Nav { u with needRedraw := b } :=
  h.congr rfl rfl rfl rfl rfl

theorem pageEnter (h : Nav u) : Returns Nav (u.pageEnter now p) := by
  by_cases hp : p = .max
  case pos => simpa [Ui.pageEnter, hp] using .pure h
  case neg => exact h.toSane.pageEnter hp

theorem closed (h : Nav u) : Closed (Returns Nav) u now :=
  .of_returns h (fun _ => h.pageEnter) fun _ _ _ _ =>
    Sane.pageEnterCommonOk ⟨h.selected, h.returnPage, h.text⟩

theorem handleNavUp (h : Nav u) : Nav u.handleNavUp := by
  rw [Ui.handleNavUp]
  split
  case isTrue hs =>
    refine redraw (u := u.select _ _) { h.toSane.select ?_ with page := h.page, menuMode := h.menuMode }
    have := h.selected u.currentPageId
    rw [Bytes.toNat_sub_one hs.right]
    omega
  case isFalse => exact h

theorem handleNavDown (h : Nav u) : Nav u.handleNavDown := by
  rw [Ui.handleNavDown]
  split
  case isTrue hs =>
    refine redraw (u := u.select _ _) { h.toSane.select ?_ with page := h.page, menuMode := h.menuMode }
    have := u.currentPageId.selectCount.toNat_lt
    rw [Bytes.toNat_add_one (by omega)]
    exact Nat.lt_of_lt_of_le hs.right (Nat.le_max_right ..)
  case isFalse => exact h

theorem reply (h : Nav u) (hp : p ≠ .commonConfigOk) (hs : Saves save) (r : Reply) :
    Returns Nav (u.reply now parent p save r) := by
  cases r
  case redraw => exact .pure h.redraw
  case leave => exact h.pageEnter
  case save => exact h.closed.saveAndOk _ _ hp hs

theorem effect (h : Nav u) (he : Effect u now x) : Returns Nav x := by
  induction he
  case refl => exact .pure h
  case home => exact .pure <| h.congr rfl rfl rfl rfl rfl
  case turn ht =>
    have ht := ht.elim h.text.handleS2 h.text.handleS3
    exact .pure ⟨⟨h.selected, h.returnPage, ht⟩, h.page, h.menuMode⟩
  case navUp => exact .pure h.handleNavUp
  case navDown => exact .pure h.handleNavDown
  case enter => exact h.pageEnter
  case back => exact h.closed.handleBack
  case confirm => exact h.closed.handleConfirm
  case reply w r _ _ _ hw _ hp hs =>
    have h : Nav w := by cases hw <;> exact h.congr rfl rfl rfl rfl rfl
    exact h.reply hp hs r
  case redraw hi => exact .bind hi fun _ hu => .pure hu.redraw

theorem handleDynamicRefresh (h : Nav u) : Nav (u.handleDynamicRefresh now io) := by
  have ⟨_, _, _, he, _⟩ := u.handleDynamicRefresh_eq now io
  exact he ▸ h.congr rfl rfl rfl rfl rfl

theorem render (h : Nav u) : Nav u.render := by
  rw [Ui.render]
  split
  case isTrue => exact ⟨⟨h.selected, h.returnPage, h.text.render⟩, h.page, h.menuMode⟩
  case isFalse => exact h

theorem update (h : Nav u) (a : Update) : Nav (u.update a) := by
  have ⟨_, textMsg, _, _, _, _, he, ht, _⟩ := u.update_eq a
  have ht : textMsg.Paged := by
    rcases ht with ht | ⟨hi, hc⟩
    · exact ht ▸ h.text
    · exact .inl ⟨hi, by simp [hc]⟩
  exact he ▸ ⟨⟨h.selected, h.returnPage, ht⟩, h.page, h.menuMode⟩

theorem init (configCache : App.UartCmd.ConfigStatus) : Nav (.init configCache) where
  selected p := by simp [Ui.init]
  returnPage := by simp [Ui.init]
  text       := .inl ⟨rfl, by simp [Ui.init, Display.init]⟩
  page       := by simp [Ui.init]
  menuMode   := rfl

theorem isInductive : Inductive Nav where
  handleKey u now hd k h := h.effect (.handleKey u now hd k)
  autoReturn _ _ h := h.closed.handleAutoReturn
  dynamicRefresh _ _ _ h := h.handleDynamicRefresh
  render _ h := h.render
  clear _ h := h.redraw
  update _ a h := h.update a

end Nav

-- Both keys lead from the confirmation back to the page that it belongs to.
theorem leaves_commonConfigOk {u : Ui} {now : UInt32} {k : Key} (h : Nav u)
    (hp : u.currentPageId = .commonConfigOk) (hk : k = .s1 ∨ k = .s4) :
    Returns (·.currentPageId = u.commonOkReturnPage) (u.handleKey now .generic k) := by
  have he : Returns (·.currentPageId = u.commonOkReturnPage) (u.pageEnter now u.commonOkReturnPage) :=
    Ui.pageEnter_currentPageId h.returnPage.left
  rcases hk with rfl | rfl
  case inl => simpa [Ui.handleKey, Ui.handleGenericKey, Ui.handleBack, hp] using he
  case inr =>
    simpa [Ui.handleKey, Ui.handleGenericKey, Ui.handleConfirm, hp, Page.getPageNode] using he

theorem navigation_invariant {s₀ s : State} {es : List Edge} (h₀ : Started s₀) (h : Run s₀ es s) :
    s.ui.currentPageId ≠ .max ∧
    (s.ui.menuMode = true ↔ s.ui.currentPageId ≠ .home) ∧
    (∀ p, (s.ui.pageSelected p).toNat < max 1 p.selectCount.toNat) ∧
    s.ui.commonOkReturnPage ≠ .max ∧ s.ui.commonOkReturnPage ≠ .commonConfigOk ∧
    (∀ hd k, s.ui.currentPageId = .commonConfigOk → k = .s1 ∨ k = .s4 → s.pc = .poll hd k →
      s.keys k = true → ∀ s', s.step .lcd = some s' →
        s'.ui.currentPageId = s.ui.commonOkReturnPage) ∧
    s.ui.textMsg.pageIndex.toNat < max 1 s.ui.textMsg.pageCount.toNat ∧
    s.ui.textMsg.pageIndex < textPageCount s.ui.textMsg.text := by
  have hn : Nav s.ui := by
    refine Nav.isInductive.run ?_ h
    obtain ⟨configCache, _, _, _, rfl⟩ := h₀
    exact .init configCache
  refine ⟨hn.page, by simp [hn.menuMode], hn.selected, hn.returnPage.left, hn.returnPage.right, ?_,
    hn.text.lt_pageCount, hn.text.lt_textPageCount⟩
  intro hd k hp hk hpc he s' hs
  obtain rfl : hd = .generic := by
    rcases polls h₀ h hd k hpc with hd | hd
    · exact hd
    · simpa [hp, Page.handler] using hd
  exact leaves_commonConfigOk hn hp hk _ _ <| congrArg Prod.fst <| handleKey_of_step hpc he hs

theorem navigation_invariant_mainMenu :
    ∃ es s, Run boot es s ∧ s.ui.currentPageId = .mainMenu ∧ s.ui.menuMode = true ∧
      (s.ui.pageSelected .mainMenu).toNat < 3 := by
  have ⟨es, s, hr, hp⟩ := Lts.exists_run_of_trace State.step boot (press [.s4] 9)
    (·.2.ui.currentPageId = .mainMenu) (by decide)
  have hp : s.ui.currentPageId = .mainMenu := by simpa using hp
  have ⟨_, hm, hs, _⟩ := navigation_invariant started_boot hr
  exact ⟨es, s, hr, hp, hm.mpr (by simp [hp]), hs .mainMenu⟩

end Svc.Lcd
