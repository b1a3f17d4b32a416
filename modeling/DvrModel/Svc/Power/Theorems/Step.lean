import DvrModel.Svc.Power.Basic
import Mathlib.Tactic.Common

open App App.Config

namespace Svc.Power

theorem ticksToMs_zero (now : UInt32) : ticksToMs 0 now = 0 := rfl

theorem ticksToMs_eq_sub {start : UInt32} (h : start ≠ 0) (now : UInt32) :
    ticksToMs start now = now - start := by
  simp only [ticksToMs, h, ↓reduceIte, tickPerSecond]
  generalize now - start = d
  have hd := d.toNat_lt
  -- The product does not overflow in 64 bits.
  have hm : d.toNat * 1000 < 2 ^ 64 := by omega
  apply UInt32.toNat_inj.mp
  rw [UInt64.toNat_toUInt32, UInt64.toNat_div, UInt64.toNat_mul, UInt32.toNat_toUInt64]
  show d.toNat * 1000 % 2 ^ 64 / 1000 % 2 ^ 32 = d.toNat
  rw [Nat.mod_eq_of_lt hm, Nat.mul_div_cancel _ (by decide), Nat.mod_eq_of_lt hd]

-- Without a wrap of the tick counter the elapsed time only grows.
theorem ticksToMs_mono {start t₁ t₂ : UInt32} (h₀ : start ≤ t₁) (h : t₁ ≤ t₂) :
    ticksToMs start t₁ ≤ ticksToMs start t₂ := by
  by_cases hs : start = 0
  case pos => simp [hs, ticksToMs_zero]
  case neg =>
    rw [ticksToMs_eq_sub hs, ticksToMs_eq_sub hs, UInt32.le_iff_toNat_le]
    rw [UInt32.toNat_sub_of_le _ _ h₀, UInt32.toNat_sub_of_le _ _ (UInt32.le_trans h₀ h)]
    have := UInt32.le_iff_toNat_le.mp h
    omega

namespace State

variable {s s' : State} {i : Input} {stage : Stage}

-- Main power is present after debouncing, once the sample of this iteration is counted.
def MainPresent (s : State) (i : Input) : Prop :=
  (s.sample i.adc).mainPresent = true

instance : Decidable (s.MainPresent i) :=
  inferInstanceAs <| Decidable (_ = _)

def MainFallingEdge (s : State) (i : Input) : Prop :=
  (s.sample i.adc).mainFallingEdge = true

-- Neither ACC nor ON is switched on.
def Ignitionless (i : Input) : Prop :=
  i.vehicle.wkOn = 0 ∧ i.vehicle.wkAcc = 0

instance : Decidable (Ignitionless i) :=
  inferInstanceAs <| Decidable (_ ∧ _)

theorem evalNormalStage_eq_shutdownPending_iff :
    evalNormalStage i.vehicle = .shutdownPending ↔ Ignitionless i := by
  unfold evalNormalStage Ignitionless
  split <;> (try split) <;> simp_all

theorem evalNormalStage_cases : evalNormalStage i.vehicle = .onActive ∨
    evalNormalStage i.vehicle = .accActive ∨ evalNormalStage i.vehicle = .shutdownPending := by
  unfold evalNormalStage
  split <;> (try split) <;> simp

-- The shutdown timer has run for `APP_PWR_SHUTDOWN_IN_PROGRESS_MS` when the stage is evaluated.
def TimerExpired (s : State) (i : Input) : Prop :=
  s.getShutdownPendingElapsedMs i.ticks.eval ≥ pwrShutdownInProgressMs

instance : Decidable (s.TimerExpired i) :=
  inferInstanceAs <| Decidable (_ ≥ _)

-- The states that the two halves of `svc_power_eval_stage` leave behind, before a loss is latched.
def present (s : State) (i : Input) : State :=
  { s.sample i.adc with powerLossLatched := false, prevMainPresent := true }

def absent (s : State) (i : Input) : State :=
  { s.sample i.adc with prevMainPresent := s.prevMainPresent && !(s.sample i.adc).mainLoss }

-- The decisions that `svc_power_eval_stage` can make, with the state it leaves behind. There is no
-- constructor for the CPU reset, after which there is no decision.
inductive Eval (s : State) (i : Input) : State → Stage → Prop
  | normal (main : s.MainPresent i)
      (steady : s.prevMainPresent = true ∨ isShutdownFlowStage s.stage = false)
      (early : Ignitionless i → s.stage = .shutdownPending → ¬s.TimerExpired i) :
      Eval s i (s.present i) (evalNormalStage i.vehicle)
  | timeout (main : s.MainPresent i) (steady : s.prevMainPresent = true)
      (idle : Ignitionless i) (pending : s.stage = .shutdownPending) (expired : s.TimerExpired i) :
      Eval s i (s.present i) .shutdownInProgress
  | loss (main : ¬s.MainPresent i) (edge : s.MainFallingEdge i)
      (fresh : s.powerLossLatched = false) :
      Eval s i { s.absent i with powerLossLatched := true } .shutdownPending
  | expired (main : ¬s.MainPresent i) (latch : s.powerLossLatched = true)
      (flow : s.stage = .shutdownPending ∨ s.stage = .shutdownInProgress)
      (expired : s.TimerExpired i) : Eval s i (s.absent i) .shutdownInProgress
  | waiting (main : ¬s.MainPresent i) (latch : s.powerLossLatched = true)
      (early : s.stage = .shutdownPending ∨ s.stage = .shutdownInProgress → ¬s.TimerExpired i) :
      Eval s i (s.absent i) .shutdownPending
  | off (main : ¬s.MainPresent i) (edge : ¬s.MainFallingEdge i)
      (fresh : s.powerLossLatched = false) : Eval s i (s.absent i) .mainOff

theorem evalMainPresent_eq : (s.sample i.adc).evalMainPresent i.vehicle i.ticks.eval =
    if (s.sample i.adc).mainRisingEdge && isShutdownFlowStage s.stage then
      none
    else if evalNormalStage i.vehicle = .shutdownPending ∧ s.stage = .shutdownPending ∧
        s.TimerExpired i then
      some (s.present i, .shutdownInProgress)
    else
      some (s.present i, evalNormalStage i.vehicle) :=
  rfl

theorem mainRisingEdge_eq (main : s.MainPresent i) :
    (s.sample i.adc).mainRisingEdge = !s.prevMainPresent := by
  show (!s.prevMainPresent && _) = _
  rw [main, Bool.and_true]

theorem eval_of_present (main : s.MainPresent i)
    (h : (s.sample i.adc).evalMainPresent i.vehicle i.ticks.eval = some (s', stage)) :
    s.Eval i s' stage := by
  rw [evalMainPresent_eq, mainRisingEdge_eq main] at h
  split at h
  case isTrue => contradiction
  case isFalse hs =>
    replace hs : s.prevMainPresent = true ∨ isShutdownFlowStage s.stage = false := by
      simpa [or_iff_not_imp_left] using hs
    split at h <;> cases h
    case isTrue he =>
      have ⟨hi, hp, ht⟩ := he
      replace hs := hs.resolve_right <| by simp [hp, isShutdownFlowStage]
      exact .timeout main hs (evalNormalStage_eq_shutdownPending_iff.mp hi) hp ht
    case isFalse he =>
      refine .normal main hs fun hi hp ht => he ⟨?_, hp, ht⟩
      exact evalNormalStage_eq_shutdownPending_iff.mpr hi

-- With the supercap management compiled out, a latched loss can only lead through the shutdown stages.
theorem evalLatched_absent_eq : (s.absent i).evalLatched i.ticks.eval =
    if (s.stage = .shutdownPending ∨ s.stage = .shutdownInProgress) ∧ s.TimerExpired i then
      .shutdownInProgress
    else
      .shutdownPending := by
  show (if s.stage = .shutdownPending ∨ s.stage = .shutdownInProgress then
      if s.TimerExpired i then Stage.shutdownInProgress else .shutdownPending
    else if _ then .shutdownPending else .shutdownPending) = _
  split <;> simp_all

theorem evalMainAbsent_eq : (s.sample i.adc).evalMainAbsent i.adc i.ticks.eval =
    if (s.sample i.adc).mainFallingEdge && !s.powerLossLatched then
      ({ s.absent i with powerLossLatched := true }, .shutdownPending)
    else if s.powerLossLatched then
      (s.absent i, (s.absent i).evalLatched i.ticks.eval)
    else
      (s.absent i, .mainOff) := by
  have ha : (if (s.sample i.adc).mainLoss then { s.sample i.adc with prevMainPresent := false }
      else s.sample i.adc) = s.absent i := by
    cases hl : (s.sample i.adc).mainLoss <;> simp [absent, hl]
    rfl
  unfold evalMainAbsent
  rw [ha]
  rfl

theorem eval_of_absent (main : ¬s.MainPresent i)
    (h : (s.sample i.adc).evalMainAbsent i.adc i.ticks.eval = (s', stage)) : s.Eval i s' stage := by
  rw [evalMainAbsent_eq, evalLatched_absent_eq] at h
  split at h
  case isTrue he =>
    cases h
    simp only [Bool.and_eq_true, Bool.not_eq_true'] at he
    exact .loss main he.left he.right
  case isFalse he =>
    split at h
    case isTrue hl =>
      split at h <;> cases h
      case isTrue ht  => exact .expired main hl ht.left ht.right
      case isFalse ht => exact .waiting main hl fun hf hx => ht ⟨hf, hx⟩
    case isFalse hl =>
      cases h
      simp only [Bool.not_eq_true] at hl
      exact .off main (by simpa [hl, MainFallingEdge] using he) hl

theorem evalStage_eval (h : evalStage s i.adc i.vehicle i.ticks.eval = some (s', stage)) :
    s.Eval i s' stage := by
  simp only [evalStage] at h
  split at h
  case isTrue hm => exact eval_of_present hm h
  case isFalse hm => exact eval_of_absent hm (Option.some.inj h)

-- The evaluation of the stage only touches the debouncing state and the latch.
structure Frame (s s' : State) : Prop where
  stage       : s'.stage = s.stage
  holdTick    : s'.supercapHoldEnterTick = s.supercapHoldEnterTick
  pendingTick : s'.shutdownPendingEnterTick = s.shutdownPendingEnterTick
  prepareDone : s'.shutdownPrepareDone = s.shutdownPrepareDone
  socCutDone  : s'.finalSocCutDone = s.finalSocCutDone
  holdCutDone : s'.finalHoldCutDone = s.finalHoldCutDone
  pins        : s'.pins = s.pins
  backlight   : s'.backlight = s.backlight

theorem Eval.frame (h : s.Eval i s' stage) : Frame s s' := by
  cases h <;> constructor <;> rfl

-- The condition under which the shutdown proceeds to the final power cut: it is pending, its timer has
-- expired and the inputs still demand it.
structure ShutdownTimeout (s : State) (i : Input) : Prop where
  pending : s.stage = .shutdownPending
  expired : s.TimerExpired i
  demand  : (s.MainPresent i ∧ Ignitionless i) ∨ (¬s.MainPresent i ∧ s.powerLossLatched = true)

namespace Eval

theorem inProgress_of_timeout (h : s.Eval i s' stage) (ht : s.ShutdownTimeout i) :
    stage = .shutdownInProgress := by
  have hd := ht.demand
  cases h
  case timeout | expired => rfl
  case normal main _ early =>
    simp only [main, true_and, not_true_eq_false, false_and, or_false] at hd
    exact absurd ht.expired (early hd ht.pending)
  case waiting early => exact absurd ht.expired (early <| .inl ht.pending)
  all_goals simp_all

theorem timeout_of_inProgress (h : s.Eval i s' .shutdownInProgress) :
    s.ShutdownTimeout i ∨ s.stage = .shutdownInProgress := by
  generalize hs : Stage.shutdownInProgress = stage at h
  cases h
  case timeout main _ idle pending expired => exact .inl ⟨pending, expired, .inl ⟨main, idle⟩⟩
  case expired main latch flow expired =>
    cases flow
    case inl h => exact .inl ⟨h, expired, .inr ⟨main, latch⟩⟩
    case inr h => exact .inr h
  case normal => rcases evalNormalStage_cases (i := i) with h | h | h <;> simp [h] at hs
  all_goals contradiction

-- The active stages are entered only with debounced main power and the ignition on.
theorem active_iff (h : s.Eval i s' stage) : (stage = .accActive ∨ stage = .onActive) ↔
    (s.MainPresent i ∧ ¬Ignitionless i) := by
  cases h
  case normal main _ _ =>
    rw [←evalNormalStage_eq_shutdownPending_iff]
    rcases evalNormalStage_cases (i := i) with h | h | h <;> simp [h, main]
  case timeout main _ idle _ _ => simp [main, idle]
  all_goals simp [*]

end Eval

end State

-- The stage transition as a whole: the stage moves and the flags of the final cut are either kept or
-- cleared together.
namespace handleStageTransition

variable {s : State} {stage : Stage} {ticks : Readings}

theorem stage_eq : (handleStageTransition s stage ticks).stage = stage := by
  unfold handleStageTransition
  split <;> simp [*]

theorem pins_eq : (handleStageTransition s stage ticks).pins = s.pins := by
  unfold handleStageTransition
  repeat' split
  all_goals rfl

theorem flags_cases (s : State) (stage : Stage) (ticks : Readings) :
    ((handleStageTransition s stage ticks).finalSocCutDone = s.finalSocCutDone ∧
      (handleStageTransition s stage ticks).finalHoldCutDone = s.finalHoldCutDone) ∨
    ((handleStageTransition s stage ticks).finalSocCutDone = false ∧
      (handleStageTransition s stage ticks).finalHoldCutDone = false) := by
  unfold handleStageTransition
  repeat' split
  all_goals simp

theorem pendingTick_cases (s : State) (stage : Stage) (ticks : Readings) :
    (handleStageTransition s stage ticks).shutdownPendingEnterTick = s.shutdownPendingEnterTick ∨
    (handleStageTransition s stage ticks).shutdownPendingEnterTick = 0 ∨
    (handleStageTransition s stage ticks).shutdownPendingEnterTick = ticks.pending := by
  unfold handleStageTransition
  repeat' split
  all_goals simp

theorem inProgress_eq :
    handleStageTransition s .shutdownInProgress ticks = { s with stage := .shutdownInProgress } := by
  unfold handleStageTransition
  split
  case isTrue h => simp [h]
  case isFalse => simp

end handleStageTransition

namespace handleFinalPowerCut

variable {s : State} {now : UInt32}

theorem frame (s : State) (now : UInt32) : ∃ a b,
    (handleFinalPowerCut s now).1 = { s with finalSocCutDone := a, finalHoldCutDone := b } := by
  simp only [handleFinalPowerCut]
  repeat' split
  all_goals exact ⟨_, _, rfl⟩

theorem of_ne (h : s.stage ≠ .shutdownInProgress) : handleFinalPowerCut s now = (s, []) := by
  simp [handleFinalPowerCut, h]

theorem of_done (hs : s.finalSocCutDone = true) (hh : s.finalHoldCutDone = true) :
    handleFinalPowerCut s now = (s, []) := by
  simp [handleFinalPowerCut, hs, hh]

-- Both delays of the final cut count from the moment the shutdown became pending. The stage is entered
-- only after the longer timer `APP_PWR_SHUTDOWN_IN_PROGRESS_MS`, so both steps are due at once.
theorem of_expired (hs : s.stage = .shutdownInProgress) (hsd : s.finalSocCutDone = false)
    (hhd : s.finalHoldCutDone = false)
    (he : s.getShutdownPendingElapsedMs now ≥ pwrShutdownInProgressMs) :
    handleFinalPowerCut s now =
      ({ s with finalSocCutDone := true, finalHoldCutDone := true },
        cutSocOutputs ++ releaseMcuHold) := by
  have h₁ : s.getShutdownPendingElapsedMs now ≥ pwrFinalSocCutDelayMs := UInt32.le_trans (by decide) he
  have h₂ : s.getShutdownPendingElapsedMs now ≥ pwrFinalHoldCutDelayMs := UInt32.le_trans (by decide) he
  simp [handleFinalPowerCut, hs, hsd, hhd, h₁, h₂]

end handleFinalPowerCut

-- Enabling the camera supply leaves everything else alone.
theorem handleCam12vEnable_spec (s : State) (now : UInt32) : ∃ b,
    (handleCam12vEnable s now).1 = { s with cam12vEnabled := b } ∧
    ∀ w ∈ (handleCam12vEnable s now).2, w = ⟨.cam12vEn, true⟩ := by
  unfold handleCam12vEnable
  split
  case isTrue h => exact ⟨_, rfl, by simp⟩
  case isFalse =>
    split
    · exact ⟨_, rfl, by simp⟩
    · exact ⟨_, rfl, by simp⟩

-- A pin that is not written keeps its level.
theorem foldl_gpioWritePin_of_not_mem {ws : List GpioWrite} {pins : Pin → Bool} {p : Pin}
    (h : ∀ w ∈ ws, w.pin ≠ p) : ws.foldl gpioWritePin pins p = pins p := by
  induction ws generalizing pins
  case nil => rfl
  case cons w ws hi =>
    simp only [List.foldl_cons]
    rw [hi fun w' hw => h w' <| List.mem_cons_of_mem _ hw]
    simp [gpioWritePin, (h w List.mem_cons_self).symm]

-- The anatomy of an iteration that does not end in a CPU reset.
structure Step (s : State) (i : Input) (s' : State) (ws : List GpioWrite) where
  evaluated : State
  stage     : Stage
  camWrites : List GpioWrite
  camDone   : Bool
  eval      : s.Eval i evaluated stage
  cam       : ∀ w ∈ camWrites, w = ⟨.cam12vEn, true⟩
  writes_eq : ws =
    (handleFinalPowerCut (handleStageTransition evaluated stage i.ticks) i.ticks.cut).2 ++ camWrites
  dst_eq    : s' =
    { (handleFinalPowerCut (handleStageTransition evaluated stage i.ticks) i.ticks.cut).1 with
      cam12vEnabled := camDone, pins := ws.foldl gpioWritePin evaluated.pins }

namespace Step

variable {s s' : State} {i : Input} {ws : List GpioWrite}

theorem of_iteration (h : iteration s i = some (s', ws)) : Nonempty (Step s i s' ws) := by
  unfold iteration loopBody at h
  split at h
  case h_1 => contradiction
  case h_2 s₁ stage he =>
    let cut := handleFinalPowerCut (handleStageTransition s₁ stage i.ticks) i.ticks.cut
    have ⟨b, hs, hw⟩ := handleCam12vEnable_spec cut.1 i.ticks.cam
    have ⟨hs', hws⟩ := Prod.mk.inj <| Option.some.inj h
    have hp : cut.1.pins = s₁.pins := by
      have ⟨_, _, hf⟩ := handleFinalPowerCut.frame (handleStageTransition s₁ stage i.ticks)
        i.ticks.cut
      show (handleFinalPowerCut _ _).1.pins = _
      rw [hf]
      exact handleStageTransition.pins_eq
    refine ⟨s₁, stage, _, b, State.evalStage_eval he, hw, hws.symm, ?_⟩
    rw [←hs', ←hws, hs, ←hp]

-- The states that the stage transition and the final cut leave behind.
def moved (e : Step s i s' ws) : State :=
  handleStageTransition e.evaluated e.stage i.ticks

def cut (e : Step s i s' ws) : State × List GpioWrite :=
  handleFinalPowerCut e.moved i.ticks.cut

-- After the stage transition only the flags of the final cut, the camera and the pins change.
theorem dst_eq_moved (e : Step s i s' ws) : ∃ a b c p, s' = { e.moved with
    finalSocCutDone := a, finalHoldCutDone := b, cam12vEnabled := c, pins := p } := by
  have ⟨a, b, hf⟩ := handleFinalPowerCut.frame e.moved i.ticks.cut
  refine ⟨a, b, e.camDone, ws.foldl gpioWritePin e.evaluated.pins, e.dst_eq.trans ?_⟩
  rw [←moved, hf]

theorem socCutDone_eq (e : Step s i s' ws) :
    s'.finalSocCutDone = e.cut.1.finalSocCutDone :=
  (congrArg State.finalSocCutDone e.dst_eq :)

theorem holdCutDone_eq (e : Step s i s' ws) :
    s'.finalHoldCutDone = e.cut.1.finalHoldCutDone :=
  (congrArg State.finalHoldCutDone e.dst_eq :)

theorem stage_eq_cut (e : Step s i s' ws) :
    s'.stage = e.cut.1.stage :=
  (congrArg State.stage e.dst_eq :)

theorem pendingTick_eq_cut (e : Step s i s' ws) :
    s'.shutdownPendingEnterTick = e.cut.1.shutdownPendingEnterTick :=
  (congrArg State.shutdownPendingEnterTick e.dst_eq :)

theorem pins_eq_foldl (e : Step s i s' ws) :
    s'.pins = ws.foldl gpioWritePin e.evaluated.pins :=
  (congrArg State.pins e.dst_eq :)

theorem stage_eq (e : Step s i s' ws) : s'.stage = e.stage := by
  have ⟨_, _, hf⟩ := handleFinalPowerCut.frame e.moved i.ticks.cut
  rw [e.stage_eq_cut, cut, hf]
  exact handleStageTransition.stage_eq

theorem pendingTick_eq (e : Step s i s' ws) :
    s'.shutdownPendingEnterTick = e.moved.shutdownPendingEnterTick := by
  have ⟨_, _, hf⟩ := handleFinalPowerCut.frame e.moved i.ticks.cut
  rw [e.pendingTick_eq_cut, cut, hf]

theorem writes_eq_cut (e : Step s i s' ws) : ws = e.cut.2 ++ e.camWrites :=
  e.writes_eq

theorem pins_eq (e : Step s i s' ws) {p : Pin} (hp : p ≠ .cam12vEn) :
    s'.pins p = e.cut.2.foldl gpioWritePin s.pins p := by
  have hw : ws.foldl gpioWritePin s.pins =
      e.camWrites.foldl gpioWritePin (e.cut.2.foldl gpioWritePin s.pins) := by
    rw [←List.foldl_append, ←e.writes_eq_cut]
  rw [e.pins_eq_foldl, e.eval.frame.pins, hw]
  apply foldl_gpioWritePin_of_not_mem
  intro w hm
  rw [e.cam w hm]
  exact hp.symm

end Step

end Svc.Power
