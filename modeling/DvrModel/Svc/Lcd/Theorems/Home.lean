import DvrModel.Svc.Lcd.Theorems.Screen

open Crash (Returns)

namespace Svc.Lcd

-- What an update stores for the home page, and for the page of the mileage.
def Update.onHome (home : HomeData) : Update → HomeData
  | homeTime time           => { home with time }
  | topStatus value         => { home with topStatusValue := value }
  | homeSpeed speedKmhX10   => { home with speedKmhX10 }
  | driveTime time          => { home with driveTime := time }
  | cardId (some c)         => { home with cardId := .ofString c }
  | homeLocation location   => { home with location }
  | _                       => home

def Update.onTotal (total : UInt32 × UInt16) : Update → UInt32 × UInt16
  | totalMileage odoKm odoRemM => (odoKm, odoRemM)
  | _                          => total

namespace Ui

variable {u : Ui} {a : Update}

def total (u : Ui) : UInt32 × UInt16 :=
  (u.totalMileageKm, u.totalMileageRemM)

theorem home_update : (u.update a).home = a.onHome u.home := by
  cases a
  case homeTime | homeSpeed | driveTime =>
    simp [update, updateHomeTime, updateHomeSpeed, updateDriveTime, homeUiSetData, cardId_take, Update.onHome]
  case cardId c =>
    cases c
    case none => rfl
    case some c =>
      by_cases hc : u.home.cardId.val = c.take 20
      case pos => simp [update, updateCardId, homeUiSetData, hc, Update.onHome, ofString_eq_of_take hc]
      case neg => simp [update, updateCardId, homeUiSetData, hc, Update.onHome]
  case topStatus =>
    simp only [update, updateTopStatus, Update.onHome]
    split
    case isTrue => rfl
    case isFalse hv => rw [←Decidable.not_not.mp hv]
  case textMessage flag textType utf8Text textLen => cases utf8Text <;> rfl
  case homeLocation => rfl
  case overtimeDriveCount | totalMileage =>
    simp only [update, updateOvertimeDriveCount, updateTotalMileage, Update.onHome]
    split <;> rfl

theorem total_update : (u.update a).total = a.onTotal u.total := by
  cases a
  case homeTime | homeSpeed | driveTime | homeLocation => rfl
  case cardId c => cases c <;> rfl
  case textMessage flag textType utf8Text textLen => cases utf8Text <;> rfl
  case topStatus | overtimeDriveCount =>
    simp only [update, updateTopStatus, updateOvertimeDriveCount, Update.onTotal]
    split <;> rfl
  case totalMileage odoKm odoRemM =>
    simp only [update, updateTotalMileage, Update.onTotal]
    split
    case isTrue => rfl
    case isFalse h =>
      obtain ⟨hk, hr⟩ := not_or.mp h
      rw [total, Decidable.not_not.mp hk, Decidable.not_not.mp hr]

end Ui

-- The data of the updates is left alone by everything that the LCD thread does itself.
structure Kept (home : HomeData) (total : UInt32 × UInt16) (u : Ui) : Prop where
  home  : u.home = home
  total : u.total = total

namespace Kept

variable {home : HomeData} {total : UInt32 × UInt16} {u : Ui} {p : Page} {now : UInt32}

theorem prepare (h : Kept home total u) : Returns (Kept home total) (u.prepare p) := by
  unfold Ui.prepare
  split
  case h_4 | h_9 => exact .pure ⟨h.home, h.total⟩
  all_goals exact .bind_any fun _ => .pure ⟨h.home, h.total⟩

theorem pageEnter (h : Kept home total u) : Returns (Kept home total) (u.pageEnter now p) := by
  rw [Ui.pageEnter]
  refine .ite (fun _ => .pure h) fun _ => ?_
  have h : Kept home total { u with currentPageId := p } := ⟨h.home, h.total⟩
  exact .bind h.prepare fun _ hu => .pure ⟨hu.home, hu.total⟩

theorem closed (h : Kept home total u) : Closed (Returns <| Kept home total) u now :=
  .of_returns h (fun _ => h.pageEnter) fun _ _ _ _ _ => pageEnter ⟨h.home, h.total⟩

theorem handleNavUp (h : Kept home total u) : Kept home total u.handleNavUp := by
  have ⟨_, _, he⟩ := u.handleNavUp_eq
  exact he ▸ ⟨h.home, h.total⟩

theorem handleNavDown (h : Kept home total u) : Kept home total u.handleNavDown := by
  have ⟨_, _, he⟩ := u.handleNavDown_eq
  exact he ▸ ⟨h.home, h.total⟩

theorem reply {parent : Page} (h : Kept home total u) (hp : p ≠ .commonConfigOk) (hs : Storage.Saves save)
    (r : Reply) : Returns (Kept home total) (u.reply now parent p save r) := by
  cases r
  case redraw => exact .pure ⟨h.home, h.total⟩
  case leave => exact h.pageEnter
  case save => exact h.closed.saveAndOk _ _ hp hs

theorem effect (h : Kept home total u) (he : Effect u now x) : Returns (Kept home total) x := by
  induction he
  case refl => exact .pure h
  case home | turn => exact .pure ⟨h.home, h.total⟩
  case navUp => exact .pure h.handleNavUp
  case navDown => exact .pure h.handleNavDown
  case enter => exact h.pageEnter
  case back => exact h.closed.handleBack
  case confirm => exact h.closed.handleConfirm
  case reply w r _ _ _ hw _ hp hs =>
    have h : Kept home total w := by cases hw <;> exact ⟨h.home, h.total⟩
    exact h.reply hp hs r
  case redraw hi => exact .bind hi fun _ hu => .pure ⟨hu.home, hu.total⟩

theorem step {s s' : State} {a : Action} (h : Kept home total s.ui) (ht : s.step a = some s')
    (ha : ∀ b, a ≠ .update b) : Kept home total s'.ui := by
  have hs := Step.of_step ht
  cases hs
  case handled hd k _ _ _ _ hu => exact h.effect (.handleKey _ _ hd k) _ _ (by rw [hu])
  case refresh ui _ _ hu =>
    have hr : Kept home total ui := h.closed.handleAutoReturn _ _ (by rw [hu])
    have ⟨_, _, _, he, _⟩ := ui.handleDynamicRefresh_eq s.tick s.inputs
    exact he ▸ ⟨hr.home, hr.total⟩
  case render =>
    have hr : s.ui.render.home = s.ui.home ∧ s.ui.render.total = s.ui.total := by
      rw [Ui.render]
      split <;> exact ⟨rfl, rfl⟩
    exact ⟨hr.left.trans h.home, hr.right.trans h.total⟩
  case clear => exact ⟨h.home, h.total⟩
  case update b => exact absurd rfl (ha b)
  all_goals exact h

end Kept

end Svc.Lcd
