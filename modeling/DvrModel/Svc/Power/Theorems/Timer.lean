import DvrModel.Svc.Power.Clock
import DvrModel.Svc.Power.Theorems.Demand
import Mathlib.Algebra.Group.Nat.Defs

open App App.Config

namespace Svc.Power

-- Why a shutdown goes on: the vehicle is parked, or the loss of main power has been latched.
inductive Cause
  | parked
  | latched
  deriving DecidableEq

-- What the evaluation of the stage sees of it.
def Cause.Seen : Cause → State → Sample → Prop
  | parked,  s, i => (s.sample i.adc).mainPresent = true ∧ i.vehicle.wkOn = 0 ∧ i.vehicle.wkAcc = 0
  | latched, s, i => (s.sample i.adc).mainPresent = false ∧ s.powerLossLatched = true

-- The iterations of a thread that keeps seeing the same cause.
def Clocked.Continues (c : Cause) (m : Clocked) (i : Sample) (m' : Clocked) : Prop :=
  c.Seen m.state i ∧ ∃ ws, m.next i = some (m', ws)

abbrev Evaluation := Lts.Edge Clocked Sample

-- The ticks that have passed since the shutdown became pending.
def Evaluation.elapsed (e : Evaluation) (tick : Nat) : Nat :=
  e.label.moments.eval - tick

-- What is expected of an evaluation that comes after those in `l`.
structure Timely (tick : Nat) (l : List Evaluation) (e : Evaluation) : Prop where
  early   : e.elapsed tick < 3000 → e.dst.state.stage = .shutdownPending
  expired : (∀ x ∈ l, x.elapsed tick < 3000) → 3000 ≤ e.elapsed tick → e.elapsed tick < 2 ^ 32 →
    e.dst.state.stage = .shutdownInProgress
  ms      : ticksToMs e.src.state.shutdownPendingEnterTick (.ofNat e.label.moments.eval) =
    .ofNat (e.elapsed tick)

-- The shutdown becomes pending in an iteration.
def Enters (s : State) (i : Sample) : Prop :=
  s.stage ≠ .shutdownPending ∧
  ∃ s', evalStage s i.adc i.vehicle (.ofNat i.moments.eval) = some (s', .shutdownPending)

-- However the iteration and those after it proceed, the timer runs from the moment at which the shutdown
-- became pending.
def TimerWorks (s : State) (i : Sample) : Prop :=
  ∀ t : Moments,
    t.eval = i.moments.eval → t.hold = i.moments.hold → t.pending = i.moments.pending →
  ∀ s' ws, loopBody s i.adc i.vehicle t.readings = some (s', ws) →
  ∀ c l e m, Lts.Run (Clocked.Continues c) ⟨s', t.cam⟩ (l ++ [e]) m → Timely t.pending l e

theorem Clocked.next_eq_some_iff {m m' : Clocked} {i : Sample} {ws : List GpioWrite} :
    m.next i = some (m', ws) ↔ m.clock ≤ i.moments.eval ∧ m'.clock = i.moments.cam ∧
    loopBody m.state i.adc i.vehicle i.moments.readings = some (m'.state, ws) := by
  rw [next]
  split
  case isFalse hle => simp [hle]
  case isTrue hle =>
    rw [Option.map_eq_some_iff, and_iff_right hle]
    constructor
    case mp =>
      rintro ⟨⟨s', ws'⟩, hb, he⟩
      cases he
      exact ⟨rfl, hb⟩
    case mpr =>
      rintro ⟨hc, hb⟩
      exact ⟨_, hb, by rw [←hc]⟩

theorem ticksToMs_ofNat {tick now : Nat} (h₀ : UInt32.ofNat tick ≠ 0) (h : tick ≤ now) :
    ticksToMs (.ofNat tick) (.ofNat now) = .ofNat (now - tick) := by
  obtain ⟨d, rfl⟩ := Nat.exists_eq_add_of_le h
  rw [ticksToMs_eq_sub h₀, UInt32.ofNat_add, UInt32.add_comm, UInt32.add_sub_cancel,
    Nat.add_sub_cancel_left]

theorem eq_of_ticksToMs_succ {start : UInt32} {tick : Nat}
    (h : ticksToMs start (.ofNat (tick + 1)) = .ofNat 1) : UInt32.ofNat tick ≠ 0 ∧ start = .ofNat tick := by
  have h₀ : start ≠ 0 := by
    rintro rfl
    rw [ticksToMs_zero] at h
    exact absurd h (by decide)
  have ht : start = .ofNat tick := by
    rw [ticksToMs_eq_sub h₀, UInt32.ofNat_add] at h
    have h := congrArg (· + start) h
    simp only [UInt32.sub_add_cancel] at h
    rw [UInt32.add_comm, UInt32.add_right_inj] at h
    exact h.symm
  exact ⟨ht ▸ h₀, ht⟩

theorem inProgressMs_le_iff {n : Nat} (h : n < 2 ^ 32) : pwrShutdownInProgressMs ≤ .ofNat n ↔ 3000 ≤ n := by
  rw [UInt32.le_iff_toNat_le, UInt32.toNat_ofNat_of_lt' h]
  rfl

-- What the evaluation of the stage depends on, apart from the state.
def Sample.input (i : Sample) : Input where
  adc     := i.adc
  vehicle := i.vehicle
  ticks   := (Moments.single i.moments.eval).readings

namespace State.Eval

variable {s s' : State} {i : Sample} {stage : Stage} {c : Cause}

theorem down_of_seen (e : s.Eval i.input s' stage) (h : c.Seen s i) : stage.Down := by
  rw [e.down_iff]
  cases c
  case parked  => exact .inl h
  case latched => exact .inr ⟨by simp [MainPresent, h.left, Sample.input], .inr h.right⟩

theorem stage_of_seen (e : s.Eval i.input s' stage) (h : c.Seen s i) (hs : s.stage = .shutdownPending) :
    stage = if s.TimerExpired i.input then .shutdownInProgress else .shutdownPending := by
  have hd : (s.MainPresent i.input ∧ Ignitionless i.input) ∨
      (¬s.MainPresent i.input ∧ s.powerLossLatched = true) := by
    cases c
    case parked  => exact .inl h
    case latched => exact .inr ⟨by simp [MainPresent, h.left, Sample.input], h.right⟩
  split
  case isTrue ht  => exact e.inProgress_of_timeout ⟨hs, ht, hd⟩
  case isFalse ht =>
    refine (e.down_of_seen h).resolve_right fun hp => ?_
    rcases (hp ▸ e).timeout_of_inProgress with ht' | hp'
    · exact ht ht'.expired
    · simp [hs] at hp'

end State.Eval

section LoopBody

variable {s s' s₁ : State} {adc : AdcSnapshot} {vehicle : VehicleIoState} {ticks : Readings}
  {stage : Stage} {ws : List GpioWrite}

-- After the stage transition only the flags of the final cut, the camera and the pins change.
theorem loopBody_of_evalStage (h : evalStage s adc vehicle ticks.eval = some (s₁, stage)) :
    ∃ a b c p ws, loopBody s adc vehicle ticks = some ({ handleStageTransition s₁ stage ticks with
      finalSocCutDone := a, finalHoldCutDone := b, cam12vEnabled := c, pins := p }, ws) := by
  have ⟨a, b, hf⟩ := handleFinalPowerCut.frame (handleStageTransition s₁ stage ticks) ticks.cut
  have ⟨c, hc, _⟩ := handleCam12vEnable_spec
    (handleFinalPowerCut (handleStageTransition s₁ stage ticks) ticks.cut).1 ticks.cam
  rw [hf] at hc
  rw [loopBody, h]
  simp only [hf, hc]
  exact ⟨a, b, c, _, _, rfl⟩

theorem evalStage_of_loopBody (h : loopBody s adc vehicle ticks = some (s', ws)) :
    ∃ s₁ stage, evalStage s adc vehicle ticks.eval = some (s₁, stage) := by
  cases he : evalStage s adc vehicle ticks.eval
  case none   => simp [loopBody, he] at h
  case some r => exact ⟨r.1, r.2, rfl⟩

end LoopBody

-- The timer of a shutdown that became pending at `tick`.
structure Armed (tick : UInt32) (s : State) : Prop where
  down : s.stage.Down
  tick : s.shutdownPendingEnterTick = tick
  done : s.shutdownPrepareDone = true

-- As long as the cause is seen, the timer is left alone.
theorem Armed.continues {tick : UInt32} {c : Cause} {m m' : Clocked} {i : Sample}
    (h : Armed tick m.state) (hc : m.Continues c i m') : Armed tick m'.state ∧
    m.clock ≤ i.moments.eval ∧ m'.clock = i.moments.cam ∧
    (m.state.stage = .shutdownPending → m'.state.stage =
      if m.state.TimerExpired i.input then .shutdownInProgress else .shutdownPending) := by
  have ⟨hs, ws, hn⟩ := hc
  have ⟨hle, hcam, hb⟩ := Clocked.next_eq_some_iff.mp hn
  have ⟨s₁, stage, he⟩ := evalStage_of_loopBody hb
  have ⟨a, b, d, p, ws', hb'⟩ := loopBody_of_evalStage he
  have hev := State.evalStage_eval (i := i.input) he
  have hd := hev.down_of_seen hs
  have hf := hev.frame
  rw [hb, handleStageTransition.of_stay _ hd (hf.prepareDone.trans h.done)] at hb'
  obtain ⟨hm, -⟩ := Prod.mk.inj <| Option.some.inj hb'
  rw [hm]
  exact ⟨⟨hd, hf.pendingTick.trans h.tick, hf.prepareDone.trans h.done⟩, hle, hcam, hev.stage_of_seen hs⟩

theorem Armed.expired_iff {tick : Nat} {s : State} {i : Sample} (h : Armed (.ofNat tick) s)
    (h₀ : UInt32.ofNat tick ≠ 0) (ht : tick ≤ i.moments.eval) (he : i.moments.eval - tick < 2 ^ 32) :
    s.TimerExpired i.input ↔ 3000 ≤ i.moments.eval - tick := by
  have hm : s.getShutdownPendingElapsedMs i.input.ticks.eval = .ofNat (i.moments.eval - tick) := by
    rw [State.getShutdownPendingElapsedMs, h.tick]
    exact ticksToMs_ofNat h₀ ht
  rw [State.TimerExpired, hm, ge_iff_le, inProgressMs_le_iff he]

-- What holds after some evaluations, if the timer has been armed with a tick that is not zero.
structure Waits (tick : Nat) (es : List Evaluation) (m : Clocked) : Prop where
  armed : Armed (.ofNat tick) m.state
  clock : tick ≤ m.clock
  past  : ∀ e ∈ es, e.label.moments.eval ≤ m.clock
  early : (∀ e ∈ es, e.elapsed tick < 3000) → m.state.stage = .shutdownPending

theorem Waits.timely {tick : Nat} {c : Cause} {es : List Evaluation} {m m' : Clocked} {i : Sample}
    (h : Waits tick es m) (h₀ : UInt32.ofNat tick ≠ 0) (hc : m.Continues c i m') :
    Timely tick es ⟨m, i, m'⟩ := by
  have ⟨_, hle, _, hs⟩ := h.armed.continues hc
  have hclock := h.clock
  have ht : tick ≤ i.moments.eval := Nat.le_trans h.clock hle
  refine ⟨fun he => ?early, fun hl h₁ h₂ => ?expired, ?ms⟩
  case early =>
    have he : i.moments.eval - tick < 3000 := he
    have hp : m.state.stage = .shutdownPending := by
      refine h.early fun e hm => ?_
      have hpast := h.past e hm
      show e.label.moments.eval - tick < 3000
      omega
    have hx := h.armed.expired_iff h₀ ht (Nat.lt_trans he (by decide))
    exact (hs hp).trans (if_neg (mt hx.mp (Nat.not_le.mpr he)))
  case expired =>
    exact (hs (h.early hl)).trans (if_pos (h.armed.expired_iff h₀ ht h₂ |>.mpr h₁))
  case ms =>
    show ticksToMs m.state.shutdownPendingEnterTick _ = _
    rw [h.armed.tick]
    exact ticksToMs_ofNat h₀ ht

theorem Waits.continues {tick : Nat} {c : Cause} {es : List Evaluation} {m m' : Clocked} {i : Sample}
    (h : Waits tick es m) (h₀ : UInt32.ofNat tick ≠ 0) (hc : m.Continues c i m') :
    Waits tick (es ++ [⟨m, i, m'⟩]) m' := by
  have ⟨ha, hle, hcam, _⟩ := h.armed.continues hc
  have hclock := h.clock
  have h₁ := i.moments.eval_le_hold
  have h₂ := i.moments.hold_le_pending
  have h₃ := i.moments.pending_le_cut
  have h₄ := i.moments.cut_le_cam
  refine ⟨ha, by omega, fun e he => ?past, fun hs => ?early⟩
  case past =>
    rcases List.mem_append.mp he with he | he
    · have := h.past e he
      omega
    · rw [List.mem_singleton.mp he]
      show i.moments.eval ≤ _
      omega
  case early => exact (h.timely h₀ hc).early (hs _ (by simp))

theorem Waits.run {tick : Nat} {c : Cause} {es : List Evaluation} {m₀ m : Clocked}
    (h : Waits tick [] m₀) (h₀ : UInt32.ofNat tick ≠ 0)
    (hr : Lts.Run (Clocked.Continues c) m₀ es m) : Waits tick es m := by
  induction hr
  case refl => exact h
  case step hc hi => exact hi.continues h₀ hc

-- Main power has been seen by the latest evaluation, or its loss has been latched.
structure MainSteady (s : State) : Prop where
  prev  : s.prevMainPresent = true
  count : confirmCount ≤ s.mainPresentConfirmCount.toNat

theorem State.Eval.steady_or_latched {s s' : State} {i : Input} (e : s.Eval i s' .shutdownPending) :
    MainSteady s' ∨ s'.powerLossLatched = true := by
  generalize hs : Stage.shutdownPending = stage at e
  cases e
  case normal main _ _ =>
    have hc := UInt8.le_iff_toNat_le.mp <| decide_eq_true_eq.mp main
    rw [msToConfirmCount_mainPresent] at hc
    exact .inl ⟨rfl, hc⟩
  case loss => exact .inr rfl
  case waiting latch _ => exact .inr latch
  all_goals contradiction

-- The tick that the timer counts from after the shutdown has become pending.
def enterTick (s : State) (tick : Nat) : UInt32 :=
  if s.shutdownPrepareDone then s.shutdownPendingEnterTick else .ofNat tick

theorem Enters.arms {s s' : State} {i : Sample} {t : Moments} {ws : List GpioWrite} (h : Enters s i)
    (ht : t.eval = i.moments.eval) (hb : loopBody s i.adc i.vehicle t.readings = some (s', ws)) :
    s'.stage = .shutdownPending ∧ Armed (enterTick s t.pending) s' ∧
    (MainSteady s' ∨ s'.powerLossLatched = true) := by
  have ⟨hs, s₁, he⟩ := h
  have hev := State.evalStage_eval (i := i.input) he
  have hf := hev.frame
  have he' : evalStage s i.adc i.vehicle t.readings.eval = some (s₁, .shutdownPending) := by
    rw [Moments.readings, ht]
    exact he
  have ⟨a, b, c, p, ws', hb'⟩ := loopBody_of_evalStage he'
  have hsup := handleStageTransition.sameSupply s₁ .shutdownPending t.readings
  rw [hb] at hb'
  cases hb'
  have hst : (handleStageTransition s₁ .shutdownPending t.readings).stage = .shutdownPending :=
    handleStageTransition.stage_eq
  refine ⟨hst, ⟨.inl hst, ?tick, ?done⟩, ?supply⟩
  case supply =>
    refine hev.steady_or_latched.imp (fun hp => ⟨hsup.prev.trans hp.prev, ?_⟩) hsup.latched.trans
    show confirmCount ≤ (handleStageTransition ..).mainPresentConfirmCount.toNat
    rw [hsup.presentCount]
    exact hp.count
  all_goals
    rcases hd : s.shutdownPrepareDone
  case tick.false =>
    have he := handleStageTransition.of_enter t.readings (hf.stage ▸ hs) (hf.prepareDone.trans hd)
    rw [enterTick, hd, if_neg Bool.false_ne_true]
    exact he.left
  case tick.true =>
    have he := handleStageTransition.of_stay t.readings (.inl rfl) (hf.prepareDone.trans hd)
    rw [enterTick, hd, if_pos rfl, he]
    exact hf.pendingTick
  case done.false =>
    have he := handleStageTransition.of_enter t.readings (hf.stage ▸ hs) (hf.prepareDone.trans hd)
    exact he.right.left
  case done.true =>
    have he := handleStageTransition.of_stay t.readings (.inl rfl) (hf.prepareDone.trans hd)
    rw [he]
    exact hf.prepareDone.trans hd

theorem Enters.exists_loopBody {s : State} {i : Sample} {t : Moments} (h : Enters s i)
    (ht : t.eval = i.moments.eval) : ∃ s' ws, loopBody s i.adc i.vehicle t.readings = some (s', ws) := by
  have ⟨_, s₁, he⟩ := h
  have he' : evalStage s i.adc i.vehicle t.readings.eval = some (s₁, .shutdownPending) := by
    rw [Moments.readings, ht]
    exact he
  have ⟨_, _, _, _, ws, hb⟩ := loopBody_of_evalStage he'
  exact ⟨_, ws, hb⟩

-- The rest of an iteration may take place within a tick.
theorem Moments.exists_prompt (t : Moments) : ∃ t' : Moments,
    t'.eval = t.eval ∧ t'.hold = t.hold ∧ t'.pending = t.pending ∧ t'.cam = t.pending :=
  ⟨⟨t.eval, t.hold, t.pending, t.pending, t.pending, t.eval_le_hold, t.hold_le_pending, Nat.le_refl _,
    Nat.le_refl _⟩, rfl, rfl, rfl, rfl⟩

-- There is always a way for the thread to see the cause once more.
theorem exists_continues {s : State} {clock now : Nat} (h : MainSteady s ∨ s.powerLossLatched = true)
    (hn : clock ≤ now) : ∃ c i m, i.moments = .single now ∧ Clocked.Continues c ⟨s, clock⟩ i m := by
  suffices hs : ∃ c i, i.moments = .single now ∧ Cause.Seen c s i ∧ iteration s i.input ≠ none by
    have ⟨c, i, hi, hs, hne⟩ := hs
    have ⟨⟨s', ws⟩, hb⟩ := Option.ne_none_iff_exists'.mp hne
    have hb' : loopBody s i.adc i.vehicle i.moments.readings = some (s', ws) := by
      rw [hi]
      simpa [iteration, Sample.input, hi, Moments.single] using hb
    have hle : clock ≤ i.moments.eval := by rw [hi]; exact hn
    exact ⟨c, i, ⟨s', i.moments.cam⟩, hi, hs, ws, Clocked.next_eq_some_iff.mpr ⟨hle, rfl, hb'⟩⟩
  cases h
  case inl h =>
    refine ⟨.parked, ⟨⟨24000, 0⟩, ⟨0, 0⟩, .single now⟩, rfl, ⟨?_, rfl, rfl⟩, ?_⟩
    case refine_1 =>
      have hc : (updateConfirmCounter true s.mainPresentConfirmCount).toNat = _ := updateConfirmCounter_toNat
      have := h.count
      show decide (updateConfirmCounter true s.mainPresentConfirmCount ≥ _) = true
      rw [decide_eq_true_eq, ge_iff_le, UInt8.le_iff_toNat_le, msToConfirmCount_mainPresent, hc,
        if_pos rfl, confirmCount]
      rw [confirmCount] at this
      omega
    case refine_2 =>
      rw [ne_eq, iteration_eq_none_iff, h.prev]
      simp
  case inr h =>
    have hm : (s.sample ⟨0, 0⟩).mainPresent = false := rfl
    refine ⟨.latched, ⟨⟨0, 0⟩, ⟨0, 0⟩, .single now⟩, rfl, ⟨hm, h⟩, ?_⟩
    rw [ne_eq, iteration_eq_none_iff, State.MainPresent]
    simp [Sample.input, hm]

-- The timer works exactly if it is started when the shutdown becomes pending, and at a tick that is not
-- taken for a timer that has not been started.
theorem timerWorks_iff {s : State} {i : Sample} (h : Enters s i) : TimerWorks s i ↔
    UInt32.ofNat i.moments.pending ≠ 0 ∧
    (s.shutdownPrepareDone = false ∨ s.shutdownPendingEnterTick = .ofNat i.moments.pending) := by
  have hc : (s.shutdownPrepareDone = false ∨ s.shutdownPendingEnterTick = .ofNat i.moments.pending) ↔
      enterTick s i.moments.pending = .ofNat i.moments.pending := by
    cases hd : s.shutdownPrepareDone <;> simp [enterTick, hd]
  rw [hc]
  constructor
  case mpr =>
    intro ⟨h₀, htick⟩ t he _ hp s' ws hb c l e m hr
    have ⟨hs, ha, _⟩ := h.arms he hb
    rw [hp, htick] at ha
    have hle := Nat.le_trans t.pending_le_cut t.cut_le_cam
    have hw : Waits i.moments.pending [] ⟨s', t.cam⟩ := ⟨ha, hp ▸ hle, by simp, fun _ => hs⟩
    have ⟨hl, hcont, _⟩ := hr.split
    rw [hp]
    exact (hw.run h₀ hl).timely h₀ hcont
  case mp =>
    intro hw
    have ⟨t, he, hh, hp, hcam⟩ := i.moments.exists_prompt
    have ⟨s', ws, hb⟩ := h.exists_loopBody he
    have ⟨_, ha, hs⟩ := h.arms he hb
    have ⟨c, j, m, hj, hcont⟩ := exists_continues hs (Nat.le_add_right t.cam 1)
    have hms := (hw t he hh hp s' ws hb c [] ⟨⟨s', t.cam⟩, j, m⟩ m (.single hcont)).ms
    -- The timer shows the only tick that has passed.
    have hone : ticksToMs (enterTick s t.pending) (.ofNat (t.pending + 1)) = .ofNat 1 := by
      have hx : j.moments.eval = t.pending + 1 := by rw [hj, Moments.single, hcam, hp]
      have hms : ticksToMs s'.shutdownPendingEnterTick (.ofNat j.moments.eval) =
        .ofNat (j.moments.eval - t.pending) := hms
      rw [ha.tick, hx, Nat.add_sub_cancel_left] at hms
      exact hms
    rw [hp] at hone
    exact eq_of_ticksToMs_succ hone

-- An iteration within a single tick, with 24 V on the main supply.
def Sample.powered (tick : Nat) (acc : UInt8) : Sample where
  adc     := { estBat24Mv := 24000, estSuperCMv := 0 }
  vehicle := { wkAcc := acc, wkOn := 0 }
  moments := .single tick

theorem timerWorks_iff_parked : ∃ es m, Clocked.Runs 0 true es m ∧ es.length = 9 ∧
    TimerWorks m.state (.powered 1000 0) := by
  have ⟨es, m, h, hp⟩ := Lts.exists_run_of_replay Clocked.next (.init 0 true)
    ((List.range 9).map fun n => .powered (100 * (n + 1)) 0)
    (fun r => r.1.length == 9 && r.2.state.stage != .shutdownPending && !r.2.state.shutdownPrepareDone &&
      (evalStage r.2.state ⟨24000, 0⟩ ⟨0, 0⟩ (.ofNat 1000)).any (·.2 == .shutdownPending))
    (by decide +kernel)
  simp only [Bool.and_eq_true, beq_iff_eq, bne_iff_ne, Bool.not_eq_true', Option.any_eq_true] at hp
  obtain ⟨⟨⟨hl, hs⟩, hd⟩, ⟨s', stage⟩, he, rfl⟩ := hp
  have h₀ : UInt32.ofNat (Sample.powered 1000 0).moments.pending ≠ 0 := by decide
  have hent : Enters m.state (.powered 1000 0) := ⟨hs, s', he⟩
  exact ⟨es, m, h, hl, (timerWorks_iff hent).mpr ⟨h₀, .inl hd⟩⟩

-- If the stage is still the same when the timer should have expired, the timer does not work.
theorem not_timerWorks_of_late {s s' s'' : State} {i j : Sample} {ws ws' : List GpioWrite} {c : Cause}
    (hi : loopBody s i.adc i.vehicle i.moments.readings = some (s', ws)) (hc : c.Seen s' j)
    (hj : loopBody s' j.adc j.vehicle j.moments.readings = some (s'', ws'))
    (hle : i.moments.cam ≤ j.moments.eval) (he : j.moments.eval = i.moments.pending + 3000)
    (hs : s''.stage = .shutdownPending) : ¬TimerWorks s i := by
  intro hw
  have hn : Clocked.next ⟨s', i.moments.cam⟩ j = some (⟨s'', j.moments.cam⟩, ws') :=
    Clocked.next_eq_some_iff.mpr ⟨hle, rfl, hj⟩
  have ht := hw i.moments rfl rfl rfl s' ws hi c [] ⟨_, j, _⟩ _ (.single ⟨hc, ws', hn⟩)
  have hx : j.moments.eval - i.moments.pending = 3000 := by rw [he, Nat.add_sub_cancel_left]
  have hst : s''.stage = .shutdownInProgress :=
    ht.expired (by simp) (Nat.le_of_eq hx.symm) (Nat.lt_of_le_of_lt (Nat.le_of_eq hx) (by decide))
  simp [hs] at hst

-- A vehicle that has been on the road until the tick counter wraps is parked in that very tick.
theorem not_timerWorks_wrapped : ∃ es m, Clocked.Runs 0 true es m ∧ m.clock ≤ 2 ^ 32 ∧
    Enters m.state (.powered (2 ^ 32) 0) ∧ ¬TimerWorks m.state (.powered (2 ^ 32) 0) := by
  have ⟨es, m, h, hp⟩ := Lts.exists_run_of_replay Clocked.next (.init 0 true)
    ((List.range 10).map fun n => .powered (100 * (n + 1)) 1)
    (fun r => decide (r.2.clock ≤ 2 ^ 32) && r.2.state.stage != .shutdownPending &&
      (evalStage r.2.state ⟨24000, 0⟩ ⟨0, 0⟩ (.ofNat (2 ^ 32))).any (·.2 == .shutdownPending) &&
      (loopBody r.2.state ⟨24000, 0⟩ ⟨0, 0⟩ (Moments.single (2 ^ 32)).readings).any fun x =>
        (x.1.sample ⟨24000, 0⟩).mainPresent &&
        (loopBody x.1 ⟨24000, 0⟩ ⟨0, 0⟩ (Moments.single (2 ^ 32 + 3000)).readings).any
          (·.1.stage == .shutdownPending))
    (by decide +kernel)
  simp only [Bool.and_eq_true, beq_iff_eq, bne_iff_ne, decide_eq_true_eq, Option.any_eq_true] at hp
  obtain ⟨⟨⟨hc, hs⟩, ⟨s', stage⟩, he, rfl⟩, x, hx, hm, y, hy, hy'⟩ := hp
  refine ⟨es, m, h, hc, ⟨hs, s', he⟩, ?_⟩
  exact not_timerWorks_of_late (j := .powered (2 ^ 32 + 3000) 0) (c := .parked) hx ⟨hm, rfl, rfl⟩ hy
    (by decide) (by decide) hy'

end Svc.Power
