import DvrModel.Lib.Debounce
import DvrModel.Svc.Power.Theorems.Shutdown

open App App.Config Debounce

namespace Svc.Power

-- The stages through which the machine is shut down.
def Stage.Down (stage : Stage) : Prop :=
  stage = .shutdownPending ∨ stage = .shutdownInProgress

instance : DecidablePred Stage.Down :=
  fun _ => inferInstanceAs (Decidable <| _ ∨ _)

-- Both directions are confirmed by the same number of samples.
def confirmCount : Nat := 10

theorem msToConfirmCount_mainPresent :
    (msToConfirmCount pwrMainPresentConfirmMs).toNat = confirmCount := by
  decide

theorem msToConfirmCount_mainLoss : (msToConfirmCount pwrMainLossConfirmMs).toNat = confirmCount := by
  decide

theorem updateConfirmCounter_toNat {condition : Bool} {counter : UInt8} :
    (updateConfirmCounter condition counter).toNat =
      if condition then min 255 (counter.toNat + 1) else 0 := by
  have hc := counter.toNat_lt
  unfold updateConfirmCounter
  split
  case isTrue =>
    split
    case isTrue h =>
      have h' : counter.toNat < 255 := UInt8.lt_iff_toNat_lt.mp h
      rw [UInt8.toNat_add, Nat.mod_eq_of_lt (by simp; omega)]
      simp
      omega
    case isFalse h =>
      have h' : ¬counter.toNat < 255 := fun hl => h <| UInt8.lt_iff_toNat_lt.mpr hl
      omega
  case isFalse => rfl

-- The sample of the main supply that an iteration reads.
def Input.raw (i : Input) : Bool :=
  isMainPresentRaw i.adc

namespace State

variable {s s' : State} {i : Input} {stage : Stage} {h : List Bool}

-- A counter of consecutive samples does not wrap around.
theorem updateConfirmCounter_streak {b : Bool} {counter : UInt8}
    (hc : counter.toNat = min 255 (streak b h)) :
    (updateConfirmCounter (x == b) counter).toNat = min 255 (streak b (x :: h)) := by
  rw [updateConfirmCounter_toNat, hc, streak_cons]
  by_cases hx : x = b
  case pos =>
    simp [hx]
    omega
  case neg => simp [hx]

-- The part of the state that the supervision of the main supply works on.
structure Supply (s : State) (h : List Bool) : Prop where
  presentCount : s.mainPresentConfirmCount.toNat = min 255 (streak true h)
  lossCount    : s.mainLossConfirmCount.toNat = min 255 (streak false h)
  prev         : s.prevMainPresent = filter confirmCount h
  latched      : s.powerLossLatched = true ↔ Fallen confirmCount h
  irreversible : s.powerLossLatched = true → s.prevMainPresent = false ∧ s.stage.Down

namespace Supply

theorem sample_presentCount (hs : s.Supply h) (i : Input) :
    (s.sample i.adc).mainPresentConfirmCount.toNat = min 255 (streak true (i.raw :: h)) := by
  have := updateConfirmCounter_streak (x := i.raw) hs.presentCount
  rw [beq_true] at this
  exact this

theorem sample_lossCount (hs : s.Supply h) (i : Input) :
    (s.sample i.adc).mainLossConfirmCount.toNat = min 255 (streak false (i.raw :: h)) := by
  have := updateConfirmCounter_streak (x := i.raw) hs.lossCount
  rw [show (i.raw == false) = !i.raw by cases i.raw <;> rfl] at this
  exact this

theorem mainPresent_iff (hs : s.Supply h) :
    s.MainPresent i ↔ confirmCount ≤ streak true (i.raw :: h) := by
  have hc := hs.sample_presentCount i
  rw [MainPresent, State.mainPresent, decide_eq_true_eq, ge_iff_le, UInt8.le_iff_toNat_le,
    msToConfirmCount_mainPresent, hc, confirmCount]
  omega

theorem mainLoss_iff (hs : s.Supply h) :
    (s.sample i.adc).mainLoss = true ↔ confirmCount ≤ streak false (i.raw :: h) := by
  have hc := hs.sample_lossCount i
  rw [State.mainLoss, decide_eq_true_eq, ge_iff_le, UInt8.le_iff_toNat_le,
    msToConfirmCount_mainLoss, hc, confirmCount]
  omega

theorem present (hs : s.Supply h) (main : s.MainPresent i)
    (steady : s.prevMainPresent = true ∨ isShutdownFlowStage s.stage = false) :
    ({ s.present i with stage } : State).Supply (i.raw :: h) := by
  have hf := filter_of_streak_true (hs.mainPresent_iff.mp main)
  have hn : ¬Fallen confirmCount h := fun hl => by
    obtain ⟨hp, hd⟩ := hs.irreversible (hs.latched.mpr hl)
    rcases hd with hd | hd <;> simp [hp, hd, isShutdownFlowStage] at steady
  refine ⟨hs.sample_presentCount i, hs.sample_lossCount i, hf.symm, iff_of_false Bool.false_ne_true ?_,
    (absurd · Bool.false_ne_true)⟩
  rintro (hl | hl)
  · simp [hf] at hl
  · exact hn hl

theorem absent_prev (hs : s.Supply h) (main : ¬s.MainPresent i) :
    (s.absent i).prevMainPresent = filter confirmCount (i.raw :: h) := by
  rw [filter_of_not_streak_true (mt hs.mainPresent_iff.mpr main), ←hs.prev]
  simp [absent, ←hs.mainLoss_iff]

-- As long as main power is not debounced, the latch is set at the falling edge and kept.
theorem absent {latched : Bool} (hs : s.Supply h) (main : ¬s.MainPresent i)
    (hl : latched = true ↔ s.MainFallingEdge i ∨ s.powerLossLatched = true)
    (hd : latched = true → stage.Down) :
    ({ s.absent i with stage, powerLossLatched := latched } : State).Supply (i.raw :: h) := by
  have hp := hs.absent_prev main
  have he : s.MainFallingEdge i ↔ s.prevMainPresent = true ∧ (s.sample i.adc).mainLoss = true :=
    Bool.and_eq_true_iff
  have ha : (s.absent i).prevMainPresent = (s.prevMainPresent && !(s.sample i.adc).mainLoss) := rfl
  refine ⟨hs.sample_presentCount i, hs.sample_lossCount i, hp, ?_, fun hl' => ⟨?_, hd hl'⟩⟩
  case refine_1 =>
    show latched = true ↔ _
    rw [hl, Fallen, ←hs.latched, ←hs.prev, ←hp, ha, he]
    cases s.prevMainPresent <;> simp
  case refine_2 =>
    show (s.absent i).prevMainPresent = false
    rw [ha]
    cases hl.mp hl'
    case inl h => simp [(he.mp h).right]
    case inr h => simp [(hs.irreversible h).left]

-- Whatever is decided, the supervision of the supply goes on with the new sample.
theorem eval (hs : s.Supply h) (e : s.Eval i s' stage) :
    ({ s' with stage } : State).Supply (i.raw :: h) := by
  cases e
  case normal main steady _ => exact hs.present main steady
  case timeout main steady _ _ _ => exact hs.present main (.inl steady)
  case loss main edge _ => exact hs.absent main (by simp [edge]) fun _ => .inl rfl
  case expired main latch _ _ => exact hs.absent main (iff_of_true latch <| .inr latch) fun _ => .inr rfl
  case waiting main latch _ => exact hs.absent main (iff_of_true latch <| .inr latch) fun _ => .inl rfl
  case off main edge fresh =>
    exact hs.absent main (or_iff_right edge).symm fun hl => absurd (fresh.symm.trans hl) Bool.false_ne_true

end Supply

-- The stage transition and the final cut do not interfere.
structure SameSupply (s s' : State) : Prop where
  presentCount : s'.mainPresentConfirmCount = s.mainPresentConfirmCount
  lossCount    : s'.mainLossConfirmCount = s.mainLossConfirmCount
  prev         : s'.prevMainPresent = s.prevMainPresent
  latched      : s'.powerLossLatched = s.powerLossLatched

theorem Supply.of_same (hs : s.Supply h) (hf : SameSupply s s') (he : s'.stage = s.stage) :
    s'.Supply h where
  presentCount := hf.presentCount ▸ hs.presentCount
  lossCount    := hf.lossCount ▸ hs.lossCount
  prev         := hf.prev ▸ hs.prev
  latched      := hf.latched ▸ hs.latched
  irreversible := by
    rw [hf.latched, hf.prev, he]
    exact hs.irreversible

end State

theorem handleStageTransition.sameSupply (s : State) (stage : Stage) (ticks : Readings) :
    s.SameSupply (handleStageTransition s stage ticks) := by
  unfold handleStageTransition
  repeat' split
  all_goals exact ⟨rfl, rfl, rfl, rfl⟩

theorem Step.sameSupply {s s' : State} {i : Input} {ws : List GpioWrite} (e : Step s i s' ws) :
    e.evaluated.SameSupply s' := by
  have hs := handleStageTransition.sameSupply e.evaluated e.stage i.ticks
  have ⟨_, _, _, _, hd⟩ := e.dst_eq_moved
  exact ⟨(congrArg State.mainPresentConfirmCount hd).trans hs.presentCount,
    (congrArg State.mainLossConfirmCount hd).trans hs.lossCount,
    (congrArg State.prevMainPresent hd).trans hs.prev,
    (congrArg State.powerLossLatched hd).trans hs.latched⟩

theorem State.Supply.iteration {s s' : State} {i : Input} {ws : List GpioWrite} {h : List Bool}
    (hs : s.Supply h) (hi : Power.iteration s i = some (s', ws)) : s'.Supply (i.raw :: h) := by
  have ⟨e⟩ := Step.of_iteration hi
  have hf := e.sameSupply
  exact (hs.eval e.eval).of_same ⟨hf.presentCount, hf.lossCount, hf.prev, hf.latched⟩ e.stage_eq

-- The samples of the main supply in a run, the latest one first.
def samples (es : List Iteration) : List Bool :=
  (es.map (·.label.1.raw)).reverse

@[simp]
theorem samples_concat {es : List Iteration} {e : Iteration} :
    samples (es ++ [e]) = e.label.1.raw :: samples es := by
  simp [samples]

theorem Runs.supply {now : UInt32} {backlight : Bool} {es : List Iteration} {s : State}
    (h : Runs now backlight es s) : s.Supply (samples es) := by
  induction h
  case refl => exact ⟨rfl, rfl, rfl, iff_of_false nofun id, nofun⟩
  case step hn hi => exact samples_concat ▸ hi.iteration hn

-- An iteration that does not return has found main power back in the course of a shutdown.
theorem iteration_eq_none_iff {s : State} {i : Input} : iteration s i = none ↔
    s.MainPresent i ∧ s.prevMainPresent = false ∧ isShutdownFlowStage s.stage = true := by
  have hi : iteration s i = none ↔ evalStage s i.adc i.vehicle i.ticks.eval = none := by
    unfold iteration loopBody
    split <;> simp [*]
  rw [hi, evalStage]
  by_cases main : s.MainPresent i
  case pos =>
    have hm : (s.sample i.adc).mainPresent = true := main
    rw [if_pos hm, State.evalMainPresent_eq, State.mainRisingEdge_eq main]
    split
    case isTrue h => simpa [main] using h
    case isFalse h =>
      simp only [main, true_and]
      split <;> simpa using h
  case neg =>
    have hm : ¬(s.sample i.adc).mainPresent = true := main
    rw [if_neg hm]
    simp [main]

-- The same as `Input.powered`, but with the main supply disconnected.
def Input.unpowered (tick : UInt32) (acc : UInt8) : Input :=
  { Input.powered tick acc with adc := { estBat24Mv := 0, estSuperCMv := 0 } }

-- A running vehicle: main power is confirmed within a second.
def Input.running : List Input :=
  (List.range 10).map fun n => .powered (100 * (n.toUInt32 + 1)) 1

-- The main supply of a running vehicle is disconnected at the very moment at which the tick counter wraps.
def Input.unplugged : List Input :=
  (List.range 10).map (fun n => .powered (100 * n.toUInt32 - 1000) 1) ++
    (List.range 10).map fun n => .unpowered (100 * n.toUInt32) 1

-- The loss of main power is latched at the falling edge of the filtered supply. From then on the machine
-- is being shut down, and the next rising edge resets the CPU.
theorem powerLossLatched_iff {now : UInt32} {backlight : Bool} {es : List Iteration} {s : State}
    (h : Runs now backlight es s) :
    s.prevMainPresent = filter confirmCount (samples es) ∧
    (s.powerLossLatched = true ↔ Fallen confirmCount (samples es)) ∧
    (Fallen confirmCount (samples es) →
      s.stage.Down ∧
      ∀ i, iteration s i = none ↔ filter confirmCount (i.raw :: samples es) = true) := by
  have hs := h.supply
  refine ⟨hs.prev, hs.latched, fun hf => ?_⟩
  have ⟨hp, hd⟩ := hs.irreversible (hs.latched.mpr hf)
  refine ⟨hd, fun i => ?_⟩
  have hfl : isShutdownFlowStage s.stage = true := by
    rcases hd with hd | hd <;> rw [hd] <;> rfl
  rw [iteration_eq_none_iff, hs.mainPresent_iff]
  simp only [hp, hfl, and_true]
  refine ⟨filter_of_streak_true, fun ht => ?_⟩
  by_contra hn
  rw [filter_of_not_streak_true hn, ←hs.prev, hp] at ht
  contradiction

theorem powerLossLatched_iff_unplugged : ∃ es s, Runs (0 - 1100) true es s ∧
    s.powerLossLatched = true ∧
    s.prevMainPresent = filter confirmCount (samples es) ∧
    (s.powerLossLatched = true ↔ Fallen confirmCount (samples es)) ∧
    (Fallen confirmCount (samples es) →
      s.stage.Down ∧
      ∀ i, iteration s i = none ↔ filter confirmCount (i.raw :: samples es) = true) := by
  have ⟨es, s, h, hl⟩ := Lts.exists_run_of_replay iteration (init (0 - 1100) true) Input.unplugged
    (·.2.powerLossLatched) (by decide +kernel)
  exact ⟨es, s, h, hl, powerLossLatched_iff h⟩

-- Main power has been confirmed, and no loss of it has been confirmed since.
def Supplied (n : Nat) (h : List Bool) : Prop :=
  ∃ recent older, h = recent ++ List.replicate n true ++ older ∧ ¬List.replicate n false <:+: recent

-- As long as no dip of the supply is long enough to be confirmed, the ignition decides on the stage.
def DipsFiltered (es : List Iteration) : Prop :=
  ∀ (l : List Iteration) (e : Iteration) (r : List Iteration), es = l ++ e :: r →
    Supplied confirmCount (samples (l ++ [e])) →
    ¬State.Ignitionless e.label.1 → e.dst.stage = evalNormalStage e.label.1.vehicle

theorem State.Eval.stage_eq_normal_iff {s s' : State} {i : Input} {stage : Stage}
    (e : s.Eval i s' stage) (hi : ¬Ignitionless i) :
    stage = evalNormalStage i.vehicle ↔ s.MainPresent i := by
  have hn := mt evalNormalStage_eq_shutdownPending_iff.mp hi
  have hc := evalNormalStage_cases (i := i)
  cases e
  case normal main _ _ => simp [main]
  case timeout idle _ _ => contradiction
  case loss main _ _ => simp [main, Ne.symm hn]
  case waiting main _ _ => simp [main, Ne.symm hn]
  case expired main _ _ _ => rcases hc with h | h | h <;> simp [main, h]
  case off main _ _ => rcases hc with h | h | h <;> simp [main, h]

-- The confirmation of the loss protects the latch only: with the ignition on, the stage is the expected
-- one exactly as long as not a single one of the last ten samples was low.
theorem dipsFiltered_iff {now : UInt32} {backlight : Bool} {es : List Iteration} {s : State}
    (h : Runs now backlight es s) :
    DipsFiltered es ↔
    ∀ l e r, es = l ++ e :: r → Supplied confirmCount (samples (l ++ [e])) →
      ¬State.Ignitionless e.label.1 → List.replicate confirmCount true <+: samples (l ++ [e]) := by
  refine forall_congr' fun l => forall_congr' fun e => forall_congr' fun r => forall_congr' fun hes =>
    imp_congr_right fun _ => imp_congr_right fun hi => ?_
  subst hes
  have ⟨hl, hn, _⟩ := h.split
  have ⟨x⟩ := Step.of_iteration hn
  rw [x.stage_eq, x.eval.stage_eq_normal_iff hi, (Runs.supply hl).mainPresent_iff, le_streak_iff,
    samples_concat]

theorem dipsFiltered_iff_running : ∃ es s, Runs 0 true es s ∧ es.length = 10 ∧
    (DipsFiltered es ↔
    ∀ l e r, es = l ++ e :: r → Supplied confirmCount (samples (l ++ [e])) →
      ¬State.Ignitionless e.label.1 →
      List.replicate confirmCount true <+: samples (l ++ [e])) := by
  have ⟨es, s, h, hl⟩ := Lts.exists_run_of_replay iteration (init 0 true) Input.running
    (fun r => r.1.length == 10) (by decide +kernel)
  exact ⟨es, s, h, by simpa using hl, dipsFiltered_iff h⟩

-- A single low sample takes a running vehicle to `MAIN_OFF`.
theorem not_dipsFiltered_dip : ∃ es s, Runs 0 true es s ∧ ¬DipsFiltered es := by
  have ⟨es, s, h, hp⟩ := Lts.exists_run_of_replay iteration (init 0 true)
    (Input.running ++ [.unpowered 1100 1])
    (fun r => decide (samples r.1 = false :: .replicate 10 true) && r.1.getLast?.any fun e : Iteration =>
      decide (e.dst.stage = .mainOff) &&
        decide (evalNormalStage e.label.1.vehicle = .accActive))
    (by decide +kernel)
  simp only [Bool.and_eq_true, decide_eq_true_eq] at hp
  have ⟨hs, hl⟩ := hp
  have ⟨e, he, hd⟩ := Option.any_eq_true _ _ |>.mp hl
  simp only [Bool.and_eq_true, decide_eq_true_eq] at hd
  have ⟨l, hes⟩ := List.getLast?_eq_some_iff.mp he
  refine ⟨es, s, h, fun hf => ?_⟩
  have hst := hf l e [] hes ?supplied ?ignition
  case supplied => exact ⟨[false], [], hes ▸ hs, by decide⟩
  case ignition => simp [←State.evalNormalStage_eq_shutdownPending_iff, hd.right]
  simp [hd.left, hd.right] at hst

end Svc.Power
