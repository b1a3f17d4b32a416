import DvrModel.Svc.Power.Theorems.Step

open App App.Config

namespace Svc.Power

-- The outputs that the final power cut lowers: the supplies of the SOC and the hold of the MCU.
def State.RailsCut (s : State) : Prop :=
  s.pins .pwrenSoc = false ∧ s.pins .pwren24v = false ∧ s.pins .pwrHold = false

def State.RailsUp (s : State) : Prop :=
  s.pins .pwrenSoc = true ∧ s.pins .pwren24v = true ∧ s.pins .pwrHold = true

-- The readings of an iteration that takes place at or after the tick `clock`.
structure Readings.After (t : Readings) (clock : UInt32) : Prop where
  clock_le_eval  : clock ≤ t.eval
  eval_le_cut    : t.eval ≤ t.cut
  eval_le_cam    : t.eval ≤ t.cam
  pending_le_cam : t.pending ≤ t.cam

theorem readings_append {now : UInt32} {l r : List Iteration} {e : Iteration} :
    readings now (l ++ e :: r) =
      readings now l ++ (e.label.1.ticks.toList ++ r.flatMap (·.label.1.ticks.toList)) := by
  simp [readings]

theorem NonDecreasing.split {now : UInt32} {l r : List Iteration} {e : Iteration}
    (h : NonDecreasing now (l ++ e :: r)) :
    NonDecreasing now l ∧ ∀ clock ∈ readings now l, e.label.1.ticks.After clock := by
  rw [NonDecreasing, readings_append, List.pairwise_append] at h
  have ⟨hl, hr, hc⟩ := h
  have ht := (List.pairwise_append.mp hr).left
  simp only [Readings.toList, List.pairwise_cons, List.mem_cons] at ht
  refine ⟨hl, fun clock hm => ⟨hc _ hm _ ?_, ht.left _ ?_, ht.left _ ?_, ht.right.right.left _ ?_⟩⟩
  all_goals simp [Readings.toList]

theorem NonDecreasing.of_prefix {now : UInt32} {es es' : List Iteration} (h : NonDecreasing now es)
    (hp : es' <+: es) : NonDecreasing now es' := by
  obtain ⟨r, rfl⟩ := hp
  rw [NonDecreasing, readings, List.flatMap_append, ←List.cons_append, List.pairwise_append] at h
  exact h.left

namespace State

variable {s s' : State} {i : Input} {ws : List GpioWrite} {clock now : UInt32} {backlight : Bool}

-- What every iteration keeps: the two flags of the final cut go together, they are set as soon as the
-- stage is in progress, and while they are set the rails are cut.
structure Inv (s : State) (clock : UInt32) : Prop where
  tick_le           : s.shutdownPendingEnterTick ≤ clock
  holdCut_eq_socCut : s.finalHoldCutDone = s.finalSocCutDone
  cut_of_inProgress : s.stage = .shutdownInProgress → s.finalSocCutDone = true
  rails_of_cut      : s.finalSocCutDone = true → s.RailsCut

theorem Inv.init : (Power.init now backlight).Inv clock where
  tick_le           := UInt32.zero_le
  holdCut_eq_socCut := rfl
  cut_of_inProgress := nofun
  rails_of_cut      := nofun

theorem Inv.socCut_false_of_railsUp (hi : s.Inv clock) (hup : s.RailsUp) :
    s.finalSocCutDone = false := by
  by_contra hd
  have hcut := hi.rails_of_cut (by simpa using hd)
  exact absurd (hup.left.symm.trans hcut.left) (by decide)

-- An iteration that makes no write to the rails.
structure Quiet (s s' : State) (ws : List GpioWrite) : Prop where
  writes : ∀ w ∈ ws, w = ⟨.cam12vEn, true⟩
  rails  : ∀ p ≠ .cam12vEn, s'.pins p = s.pins p

-- An iteration that executes the final cut, all of it.
structure Cut (s : State) (i : Input) (s' : State) (ws : List GpioWrite) : Prop where
  timeout : s.ShutdownTimeout i
  soc     : ⟨.pwrenSoc, false⟩ ∈ ws
  v24     : ⟨.pwren24v, false⟩ ∈ ws
  hold    : ⟨.pwrHold, false⟩ ∈ ws
  rails   : s'.RailsCut

theorem Quiet.railsCut (q : Quiet s s' ws) (h : s.RailsCut) : s'.RailsCut := by
  simpa [RailsCut, q.rails] using h

theorem Quiet.railsUp (q : Quiet s s' ws) (h : s.RailsUp) : s'.RailsUp := by
  simpa [RailsUp, q.rails] using h

-- The tick at which the shutdown became pending is never ahead of the clock.
theorem tick_le (e : Step s i s' ws) (ht : i.ticks.After clock)
    (h : s.shutdownPendingEnterTick ≤ clock) : s'.shutdownPendingEnterTick ≤ i.ticks.cam := by
  rw [e.pendingTick_eq]
  rcases handleStageTransition.pendingTick_cases e.evaluated e.stage i.ticks with hp | hp | hp
  all_goals rw [Step.moved, hp]
  · have hc := UInt32.le_trans ht.clock_le_eval ht.eval_le_cam
    exact e.eval.frame.pendingTick ▸ UInt32.le_trans h hc
  · exact UInt32.zero_le
  · exact ht.pending_le_cam

-- The final cut is a no-op unless the shutdown is in progress and has not cut anything yet.
theorem cut_eq_self (hi : s.Inv clock) (e : Step s i s' ws)
    (h : e.stage = .shutdownInProgress → s.finalSocCutDone = true) : e.cut = (e.moved, []) := by
  have hf := e.eval.frame
  by_cases hs : e.stage = .shutdownInProgress
  case pos =>
    have hm : e.moved = { e.evaluated with stage := .shutdownInProgress } := by
      rw [Step.moved, hs, handleStageTransition.inProgress_eq]
    apply handleFinalPowerCut.of_done <;> rw [hm]
    · exact hf.socCutDone ▸ h hs
    · exact hf.holdCutDone ▸ hi.holdCut_eq_socCut ▸ h hs
  case neg => exact handleFinalPowerCut.of_ne <| by rwa [Step.moved, handleStageTransition.stage_eq]

theorem iteration_quiet (hi : s.Inv clock) (ht : i.ticks.After clock)
    (h : iteration s i = some (s', ws))
    (hc : s'.stage = .shutdownInProgress → s.finalSocCutDone = true) :
    s'.Inv i.ticks.cam ∧ Quiet s s' ws := by
  have ⟨e⟩ := Step.of_iteration h
  have hf := e.eval.frame
  have hcut := cut_eq_self hi e (e.stage_eq ▸ hc)
  have hfl := handleStageTransition.flags_cases e.evaluated e.stage i.ticks
  rw [←Step.moved, hf.socCutDone, hf.holdCutDone, hi.holdCut_eq_socCut] at hfl
  have hq : Quiet s s' ws := by
    have hw := e.writes_eq_cut
    rw [hcut, List.nil_append] at hw
    refine ⟨hw ▸ e.cam, fun p hp => ?_⟩
    rw [e.pins_eq hp, hcut]
    rfl
  refine ⟨⟨tick_le e ht hi.tick_le, ?_, fun hp => ?_, fun hd => ?_⟩, hq⟩
  · rw [e.socCutDone_eq, e.holdCutDone_eq, hcut]
    rcases hfl with h | h <;> rw [h.left, h.right]
  · have hs : e.moved = { e.evaluated with stage := .shutdownInProgress } := by
      rw [Step.moved, ←e.stage_eq, hp, handleStageTransition.inProgress_eq]
    rw [e.socCutDone_eq, hcut, hs]
    exact hf.socCutDone ▸ hc hp
  · rw [e.socCutDone_eq, hcut] at hd
    have := hfl.resolve_right fun h => by simp [h.left] at hd
    exact hq.railsCut <| hi.rails_of_cut <| this.left ▸ hd

theorem iteration_cut (hi : s.Inv clock) (ht : i.ticks.After clock)
    (h : iteration s i = some (s', ws)) (hs : s'.stage = .shutdownInProgress)
    (hd : s.finalSocCutDone = false) : s'.Inv i.ticks.cam ∧ Cut s i s' ws := by
  have ⟨e⟩ := Step.of_iteration h
  have hf := e.eval.frame
  have hst : e.stage = .shutdownInProgress := e.stage_eq ▸ hs
  have hto : s.ShutdownTimeout i := by
    refine (hst ▸ e.eval).timeout_of_inProgress.resolve_right fun hp => ?_
    simp [hi.cut_of_inProgress hp] at hd
  -- The timer that had expired at the evaluation has also expired at the cut, which comes later.
  have hx : ticksToMs s.shutdownPendingEnterTick i.ticks.cut ≥ pwrShutdownInProgressMs := by
    have hle := UInt32.le_trans hi.tick_le ht.clock_le_eval
    exact UInt32.le_trans hto.expired (ticksToMs_mono hle ht.eval_le_cut)
  have hm : e.moved = { e.evaluated with stage := .shutdownInProgress } := by
    rw [Step.moved, hst, handleStageTransition.inProgress_eq]
  have hcut : e.cut = ({ e.moved with finalSocCutDone := true, finalHoldCutDone := true },
      cutSocOutputs ++ releaseMcuHold) := by
    apply handleFinalPowerCut.of_expired <;> rw [hm]
    · exact hf.socCutDone ▸ hd
    · exact hf.holdCutDone ▸ hi.holdCut_eq_socCut ▸ hd
    · show ticksToMs e.evaluated.shutdownPendingEnterTick i.ticks.cut ≥ _
      exact hf.pendingTick ▸ hx
  have hr : s'.RailsCut := by
    refine ⟨?_, ?_, ?_⟩ <;> rw [e.pins_eq (by decide), hcut] <;> rfl
  refine ⟨⟨tick_le e ht hi.tick_le, ?_, fun _ => ?_, fun _ => hr⟩, ⟨hto, ?_, ?_, ?_, hr⟩⟩
  · rw [e.socCutDone_eq, e.holdCutDone_eq, hcut]
  · rw [e.socCutDone_eq, hcut]
  all_goals
    rw [e.writes_eq_cut, hcut]
    apply List.mem_append_left
    show _ ∈ cutSocOutputs ++ releaseMcuHold
    decide

-- One iteration keeps the invariant. It touches the rails only by cutting all of them at once.
theorem iteration_spec (hi : s.Inv clock) (ht : i.ticks.After clock)
    (h : iteration s i = some (s', ws)) : s'.Inv i.ticks.cam ∧ (Quiet s s' ws ∨ Cut s i s' ws) := by
  by_cases hc : s'.stage = .shutdownInProgress → s.finalSocCutDone = true
  case pos =>
    have ⟨hi', hq⟩ := iteration_quiet hi ht h hc
    exact ⟨hi', .inl hq⟩
  case neg =>
    have ⟨hs, hd⟩ := Classical.not_imp.mp hc
    have ⟨hi', hx⟩ := iteration_cut hi ht h hs (by simpa using hd)
    exact ⟨hi', .inr hx⟩

-- A timeout brings the shutdown in progress, and nothing else starts the final cut.
theorem inProgress_of_timeout (h : iteration s i = some (s', ws)) (ht : s.ShutdownTimeout i) :
    s'.stage = .shutdownInProgress := by
  have ⟨e⟩ := Step.of_iteration h
  rw [e.stage_eq]
  exact e.eval.inProgress_of_timeout ht

theorem active_iff (h : iteration s i = some (s', ws)) :
    (s'.stage = .accActive ∨ s'.stage = .onActive) ↔ (s.MainPresent i ∧ ¬Ignitionless i) := by
  have ⟨e⟩ := Step.of_iteration h
  rw [e.stage_eq]
  exact e.eval.active_iff

end State

namespace Iteration

def ticks (e : Iteration) : Readings :=
  e.label.1.ticks

def ShutdownTimeout (e : Iteration) : Prop :=
  e.src.ShutdownTimeout e.label.1

-- The iteration sees debounced main power and the ignition on.
def Reactivates (e : Iteration) : Prop :=
  e.src.MainPresent e.label.1 ∧ ¬State.Ignitionless e.label.1

def DrivesLow (e : Iteration) (p : Pin) : Prop :=
  ⟨p, false⟩ ∈ e.label.2

end Iteration

namespace Runs

open Iteration

variable {now : UInt32} {backlight : Bool} {es l r : List Iteration} {e : Iteration} {s : State}

theorem inv (h : Runs now backlight es s) (ho : NonDecreasing now es) :
    ∃ clock ∈ readings now es, s.Inv clock := by
  induction h
  case refl => exact ⟨now, List.mem_cons_self, .init⟩
  case step es s i s' h hn hi =>
    have ⟨ho', ha⟩ := ho.split
    have ⟨clock, hm, hinv⟩ := hi ho'
    refine ⟨i.1.ticks.cam, ?_, (State.iteration_spec hinv (ha _ hm) hn).left⟩
    simp [readings_append, Readings.toList]

-- Every iteration of a run starts in a state that keeps the invariant, and later than everything before.
theorem at_split (h : Runs now backlight (l ++ e :: r) s) (ho : NonDecreasing now (l ++ e :: r)) :
    ∃ clock, e.src.Inv clock ∧ e.ticks.After clock := by
  have ⟨ho', ha⟩ := ho.split
  have ⟨clock, hm, hinv⟩ := inv h.split.left ho'
  exact ⟨clock, hinv, ha clock hm⟩

theorem iteration_of_mem (h : Runs now backlight es s) (he : e ∈ es) :
    iteration e.src e.label.1 = some (e.dst, e.label.2) :=
  h.step_of_mem he

-- The rails stay up until the first timeout of the shutdown and are cut ever after.
theorem rails_cases (h : Runs now backlight es s) (ho : NonDecreasing now es) :
    ((∀ e ∈ es, ¬e.ShutdownTimeout) ∧ s.RailsUp) ∨
    ((∃ e ∈ es, e.ShutdownTimeout) ∧ s.RailsCut) := by
  induction h
  case refl => exact .inl ⟨by simp, rfl, rfl, rfl⟩
  case step es s l s' h hn hi =>
    have ⟨clock, hinv, ha⟩ := at_split (h.step hn) ho
    have ⟨_, hs⟩ := State.iteration_spec hinv ha hn
    rcases hi ho.split.left with ⟨hne, hup⟩ | ⟨⟨e, he, ht⟩, hcut⟩
    case inl =>
      by_cases ht : s.ShutdownTimeout l.1
      case pos =>
        have hd := hinv.socCut_false_of_railsUp hup
        have ⟨_, hc⟩ := State.iteration_cut hinv ha hn (State.inProgress_of_timeout hn ht) hd
        exact .inr ⟨⟨⟨s, l, s'⟩, by simp, hc.timeout⟩, hc.rails⟩
      case neg =>
        refine .inl ⟨?_, (hs.resolve_right fun hc => ht hc.timeout).railsUp hup⟩
        simpa [or_imp, forall_and] using ⟨hne, ht⟩
    case inr =>
      refine .inr ⟨⟨e, List.mem_append_left _ he, ht⟩, ?_⟩
      cases hs
      case inl hq => exact hq.railsCut hcut
      case inr hc => exact hc.rails

-- The first timeout of a run executes the whole final cut in one iteration.
theorem cut_of_first_timeout (h : Runs now backlight (l ++ e :: r) s)
    (ho : NonDecreasing now (l ++ e :: r)) (ht : e.ShutdownTimeout)
    (hl : ∀ x ∈ l, ¬x.ShutdownTimeout) : State.Cut e.src e.label.1 e.dst e.label.2 := by
  have ⟨hl', hn, _⟩ := h.split
  have ⟨clock, hinv, ha⟩ := at_split h ho
  have hup : e.src.RailsUp := (rails_cases hl' ho.split.left).elim (·.right) fun ⟨⟨x, hx, hxt⟩, _⟩ =>
    absurd hxt (hl x hx)
  have hd := hinv.socCut_false_of_railsUp hup
  exact (State.iteration_cut hinv ha hn (State.inProgress_of_timeout hn ht) hd).right

theorem quiet_or_cut (h : Runs now backlight (l ++ e :: r) s)
    (ho : NonDecreasing now (l ++ e :: r)) :
    State.Quiet e.src e.dst e.label.2 ∨ State.Cut e.src e.label.1 e.dst e.label.2 := by
  have ⟨clock, hinv, ha⟩ := at_split h ho
  exact (State.iteration_spec hinv ha h.split.right.left).right

end Runs

-- The documented order of the final power cut: whenever the hold of the MCU is released, the supplies
-- of the SOC were cut by an earlier iteration of the same shutdown, and the difference of the two
-- configured delays lies between the two.
def HoldCutSequenced (es : List Iteration) : Prop :=
  ∀ l e r, es = l ++ e :: r → e.DrivesLow .pwrHold →
    (¬e.DrivesLow .pwrenSoc ∧ ¬e.DrivesLow .pwren24v) ∧
    ∃ l₁ e₁ l₂, l = l₁ ++ e₁ :: l₂ ∧ e₁.DrivesLow .pwrenSoc ∧ e₁.DrivesLow .pwren24v ∧
      (∀ x ∈ e₁ :: l₂ ++ [e], isShutdownFlowStage x.dst.stage = true) ∧
      e₁.ticks.cut.toNat + (pwrFinalHoldCutDelayMs - pwrFinalSocCutDelayMs).toNat ≤ e.ticks.cut.toNat

theorem not_holdCutSequenced_of_mem {es : List Iteration} {e : Iteration} (he : e ∈ es)
    (hh : e.DrivesLow .pwrHold) (hs : e.DrivesLow .pwrenSoc) : ¬HoldCutSequenced es := by
  intro h
  have ⟨l, r, hes⟩ := List.append_of_mem he
  exact (h l e r hes hh).left.left hs

-- An iteration at a single tick, with 24 V on the main supply.
def Input.powered (tick : UInt32) (acc : UInt8) : Input where
  adc     := { estBat24Mv := 24000, estSuperCMv := 0 }
  vehicle := { wkAcc := acc, wkOn := 0 }
  ticks   := { eval := tick, hold := tick, pending := tick, cut := tick, cam := tick }

-- A parked vehicle: main power is confirmed within a second, the shutdown becomes pending, and after
-- another three seconds its timer expires.
def Input.parked : List Input :=
  (List.range 10).map (fun n => .powered (100 * (n.toUInt32 + 1)) 0) ++ [.powered 4000 0]

-- The documented order is never observed: it holds of a run only as long as the run does not get to
-- the final cut at all.
theorem holdCutSequenced_iff {now : UInt32} {backlight : Bool} {es : List Iteration} {s : State}
    (h : Runs now backlight es s) (ho : NonDecreasing now es) :
    HoldCutSequenced es ↔ ∀ e ∈ es, ¬e.ShutdownTimeout := by
  constructor
  case mp =>
    intro hs
    by_contra hc
    push Not at hc
    have ⟨l, e, r, hes, ht, hl⟩ := Lts.exists_first hc
    have hcut := Runs.cut_of_first_timeout (hes ▸ h) (hes ▸ ho) ht hl
    exact (hs l e r hes hcut.hold).left.left hcut.soc
  case mpr =>
    intro hn l e r hes hd
    have he : e ∈ es := by simp [hes]
    have hq := (Runs.quiet_or_cut (hes ▸ h) (hes ▸ ho)).resolve_right fun hc => hn e he hc.timeout
    have := hq.writes _ hd
    simp at this

theorem holdCutSequenced_iff_parked : ∃ es s, Runs 0 true es s ∧ NonDecreasing 0 es ∧
    es.length = 11 ∧ (HoldCutSequenced es ↔ ∀ e ∈ es, ¬e.ShutdownTimeout) := by
  have ⟨es, s, h, hp⟩ := Lts.exists_run_of_replay iteration (init 0 true) Input.parked
    (fun r => decide (NonDecreasing 0 r.1) && r.1.length == 11) (by decide +kernel)
  simp only [Bool.and_eq_true, decide_eq_true_eq, beq_iff_eq] at hp
  exact ⟨es, s, h, hp.left, hp.right, holdCutSequenced_iff h hp.left⟩

theorem not_holdCutSequenced_parked : ∃ es s, Runs 0 true es s ∧ NonDecreasing 0 es ∧
    ¬HoldCutSequenced es := by
  have ⟨es, s, h, hp⟩ := Lts.exists_run_of_replay iteration (init 0 true) Input.parked
    (fun r => decide (NonDecreasing 0 r.1) && r.1.any fun e =>
      decide (⟨.pwrHold, false⟩ ∈ e.label.2) && decide (⟨.pwrenSoc, false⟩ ∈ e.label.2))
    (by decide +kernel)
  simp only [Bool.and_eq_true, decide_eq_true_eq, List.any_eq_true] at hp
  have ⟨ho, e, he, hh, hs⟩ := hp
  exact ⟨es, s, h, ho, not_holdCutSequenced_of_mem he hh hs⟩

-- The active stages are those in which the SOC has to be up.
def ActivePowered (es : List Iteration) : Prop :=
  ∀ e ∈ es, e.dst.stage = .accActive ∨ e.dst.stage = .onActive → e.dst.RailsUp

-- Nothing raises the rails again after the final cut, so an active stage is powered exactly as long as
-- the ignition does not come back after a timeout.
theorem activePowered_iff {now : UInt32} {backlight : Bool} {es : List Iteration} {s : State}
    (h : Runs now backlight es s) (ho : NonDecreasing now es) :
    ActivePowered es ↔
    ¬∃ l e₁ e₂ r, es = l ++ e₂ :: r ∧ e₁ ∈ l ∧ e₁.ShutdownTimeout ∧ e₂.Reactivates := by
  constructor
  case mp =>
    rintro hp ⟨l, e₁, e₂, r, rfl, he₁, ht, hr⟩
    have ⟨hl, hn, _⟩ := h.split
    have hrun : Runs now backlight (l ++ [e₂]) e₂.dst := hl.step hn
    have hup := hp e₂ (by simp) ((State.active_iff hn).mpr hr)
    rcases Runs.rails_cases hrun (ho.of_prefix (by simp)) with ⟨hne, _⟩ | ⟨_, hcut⟩
    · exact hne e₁ (by simp [he₁]) ht
    · exact absurd (hup.left.symm.trans hcut.left) (by decide)
  case mpr =>
    intro hn e he ha
    have ⟨l, r, hes⟩ := List.append_of_mem he
    subst hes
    have ⟨hl, hs, _⟩ := h.split
    have hrun : Runs now backlight (l ++ [e]) e.dst := hl.step hs
    rcases Runs.rails_cases hrun (ho.of_prefix (by simp)) with ⟨_, hup⟩ | ⟨⟨e₁, he₁, ht⟩, _⟩
    case inl => exact hup
    case inr =>
      simp only [List.mem_append, List.mem_singleton] at he₁
      rcases he₁ with he₁ | rfl
      · exact absurd ⟨l, e₁, e, r, rfl, he₁, ht, (State.active_iff hs).mp ha⟩ hn
      · rw [State.inProgress_of_timeout hs ht] at ha
        simp at ha

theorem activePowered_iff_parked : ∃ es s, Runs 0 true es s ∧ NonDecreasing 0 es ∧
    es.length = 12 ∧
    (ActivePowered es ↔
    ¬∃ l e₁ e₂ r, es = l ++ e₂ :: r ∧ e₁ ∈ l ∧ e₁.ShutdownTimeout ∧ e₂.Reactivates) := by
  have ⟨es, s, h, hp⟩ := Lts.exists_run_of_replay iteration (init 0 true)
    (Input.parked ++ [.powered 4100 1])
    (fun r => decide (NonDecreasing 0 r.1) && r.1.length == 12) (by decide +kernel)
  simp only [Bool.and_eq_true, decide_eq_true_eq, beq_iff_eq] at hp
  exact ⟨es, s, h, hp.left, hp.right, activePowered_iff h hp.left⟩

-- The driver comes back a moment after the parked vehicle has cut its rails.
theorem not_activePowered_parked : ∃ es s, Runs 0 true es s ∧ NonDecreasing 0 es ∧
    ¬ActivePowered es := by
  have ⟨es, s, h, hp⟩ := Lts.exists_run_of_replay iteration (init 0 true)
    (Input.parked ++ [.powered 4100 1]) (fun r => decide (NonDecreasing 0 r.1) && r.1.any fun e =>
      decide (e.dst.stage = .accActive) && !e.dst.pins .pwrenSoc)
    (by decide +kernel)
  simp only [Bool.and_eq_true, decide_eq_true_eq, List.any_eq_true, Bool.not_eq_true'] at hp
  have ⟨ho, e, he, hs, hd⟩ := hp
  refine ⟨es, s, h, ho, fun ha => ?_⟩
  have hup := ha e he (.inl hs)
  exact absurd (hup.left.symm.trans hd) (by decide)

end Svc.Power
