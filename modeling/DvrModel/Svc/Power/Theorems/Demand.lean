import DvrModel.Svc.Power.Theorems.Supply

open App App.Config

namespace Svc.Power

namespace State

variable {s s' : State} {i : Input} {stage : Stage}

-- The inputs demand a shutdown: main power is there but nothing is switched on, or its loss has been
-- latched, at the latest by this very evaluation.
def Demand (s : State) (i : Input) : Prop :=
  (s.MainPresent i ∧ Ignitionless i) ∨
  (¬s.MainPresent i ∧ (s.MainFallingEdge i ∨ s.powerLossLatched = true))

namespace Eval

theorem down_iff (e : s.Eval i s' stage) : stage.Down ↔ s.Demand i := by
  cases e
  case normal main _ _ =>
    rw [Demand, ←evalNormalStage_eq_shutdownPending_iff]
    rcases evalNormalStage_cases (i := i) with h | h | h <;> simp [Stage.Down, h, main]
  all_goals simp [Stage.Down, Demand, *]

theorem latched_iff (e : s.Eval i s' stage) : s'.powerLossLatched = true ↔
    ¬s.MainPresent i ∧ (s.MainFallingEdge i ∨ s.powerLossLatched = true) := by
  cases e
  case normal main _ _        => simp [State.present, main]
  case timeout main _ _ _ _   => simp [State.present, main]
  case loss main edge _       => exact iff_of_true rfl ⟨main, .inl edge⟩
  case expired main latch _ _ => exact iff_of_true latch ⟨main, .inr latch⟩
  case waiting main latch _   => exact iff_of_true latch ⟨main, .inr latch⟩
  case off edge fresh =>
    have hn : ¬s.powerLossLatched = true := by simp [fresh]
    exact iff_of_false hn fun ⟨_, h⟩ => h.elim edge hn

-- The shutdown does not start in the middle.
theorem pending_of_enter (e : s.Eval i s' stage) (hd : stage.Down) (hu : ¬s.stage.Down) :
    stage = .shutdownPending := by
  refine hd.resolve_right fun hs => ?_
  cases (hs ▸ e).timeout_of_inProgress
  case inl ht => exact hu (.inl ht.pending)
  case inr hp => exact hu (.inr hp)

-- Outside of the shutdown there are only stages that the transition knows how to restore.
theorem restored_of_up (e : s.Eval i s' stage) (hu : ¬stage.Down) :
    stage = .accActive ∨ stage = .onActive ∨ stage = .mainOff := by
  cases e
  case normal =>
    rcases evalNormalStage_cases (i := i) with h | h | h
    · exact .inr (.inl h)
    · exact .inl h
    · exact absurd (.inl h) hu
  case off => simp
  all_goals simp [Stage.Down] at hu

end Eval

-- What the preparation of the shutdown keeps track of.
structure Prepared (s : State) : Prop where
  done_iff : s.shutdownPrepareDone = true ↔ s.stage.Down
  dark     : s.stage.Down → s.backlight = false

-- The ways in which an iteration affects the preparation of the shutdown.
inductive Move (s : State) (i : Input) (s' : State) : Prop
  | enter (up : ¬s.stage.Down) (demand : s.Demand i) (down : s'.stage.Down)
      (tick : s'.shutdownPendingEnterTick = i.ticks.pending)
      (done : s'.shutdownPrepareDone = true) (dark : s'.backlight = false)
  | stay (flow : s.stage.Down) (demand : s.Demand i) (down : s'.stage.Down)
      (tick : s'.shutdownPendingEnterTick = s.shutdownPendingEnterTick)
      (done : s'.shutdownPrepareDone = true) (light : s'.backlight = s.backlight)
  | leave (calm : ¬s.Demand i) (up : ¬s'.stage.Down)
      (done : s'.shutdownPrepareDone = false) (light : s'.backlight = s.backlight)

theorem Move.prepared (hp : s.Prepared) (h : s.Move i s') : s'.Prepared := by
  cases h
  case enter down _ done dark => exact ⟨by simp [done, down], fun _ => dark⟩
  case stay flow _ down _ done light => exact ⟨by simp [done, down], fun _ => light ▸ hp.dark flow⟩
  case leave up done _ => exact ⟨by simp [done, up], fun hd => absurd hd up⟩

theorem Move.down_iff (h : s.Move i s') : s'.stage.Down ↔ s.Demand i := by
  cases h
  case leave calm up _ _ => exact iff_of_false up calm
  all_goals exact iff_of_true ‹_› ‹_›

end State

namespace handleStageTransition

variable {s : State} {stage : Stage} (ticks : Readings)

theorem of_enter (hs : s.stage ≠ .shutdownPending) (hd : s.shutdownPrepareDone = false) :
    (handleStageTransition s .shutdownPending ticks).shutdownPendingEnterTick = ticks.pending ∧
    (handleStageTransition s .shutdownPending ticks).shutdownPrepareDone = true ∧
    (handleStageTransition s .shutdownPending ticks).backlight = false := by
  simp [handleStageTransition, hs.symm, hd]

theorem of_stay (hs : stage.Down) (hd : s.shutdownPrepareDone = true) :
    handleStageTransition s stage ticks = { s with stage } := by
  unfold handleStageTransition
  split
  case isTrue h => simp [h]
  case isFalse => rcases hs with rfl | rfl <;> simp [hd]

theorem of_leave (hs : stage = .accActive ∨ stage = .onActive ∨ stage = .mainOff)
    (hd : s.stage = stage → s.shutdownPrepareDone = false) :
    (handleStageTransition s stage ticks).shutdownPrepareDone = false ∧
    (handleStageTransition s stage ticks).backlight = s.backlight := by
  unfold handleStageTransition
  split
  case isTrue h => exact ⟨hd h.symm, rfl⟩
  case isFalse => rcases hs with rfl | rfl | rfl <;> simp

end handleStageTransition

theorem Step.move {s s' : State} {i : Input} {ws : List GpioWrite} (e : Step s i s' ws)
    (hp : s.Prepared) : s.Move i s' := by
  have hf := e.eval.frame
  have ⟨_, _, _, _, hd⟩ := e.dst_eq_moved
  have ht := e.pendingTick_eq
  have hx : s'.shutdownPrepareDone = e.moved.shutdownPrepareDone :=
    (congrArg State.shutdownPrepareDone hd :)
  have hb : s'.backlight = e.moved.backlight := (congrArg State.backlight hd :)
  have hdone : e.evaluated.shutdownPrepareDone = true ↔ e.evaluated.stage.Down :=
    hf.prepareDone ▸ hf.stage ▸ hp.done_iff
  by_cases hn : e.stage.Down
  case pos =>
    have hc := e.eval.down_iff.mp hn
    by_cases hs : s.stage.Down
    case pos =>
      have hm := handleStageTransition.of_stay i.ticks hn (hdone.mpr (hf.stage ▸ hs))
      rw [Step.moved, hm] at ht hx hb
      refine .stay hs hc (e.stage_eq ▸ hn) (ht.trans hf.pendingTick) ?_ (hb.trans hf.backlight)
      exact hx.trans <| hdone.mpr (hf.stage ▸ hs)
    case neg =>
      have hu : ¬e.evaluated.stage.Down := hf.stage ▸ hs
      have hm := handleStageTransition.of_enter i.ticks
        (fun h => hu (.inl h)) (by simpa [hu] using hdone)
      rw [←e.eval.pending_of_enter hn hs] at hm
      exact .enter hs hc (e.stage_eq ▸ hn) (ht.trans hm.left) (hx.trans hm.right.left)
        (hb.trans hm.right.right)
  case neg =>
    have hm := handleStageTransition.of_leave i.ticks (s := e.evaluated)
      (e.eval.restored_of_up hn) fun h => by simpa [h, hn] using hdone
    exact .leave (mt e.eval.down_iff.mpr hn) (e.stage_eq ▸ hn) (hx.trans hm.left)
      (hb.trans <| hm.right.trans hf.backlight)

theorem State.Prepared.move {s s' : State} {i : Input} {ws : List GpioWrite}
    (hp : s.Prepared) (h : iteration s i = some (s', ws)) : s.Move i s' := by
  have ⟨e⟩ := Step.of_iteration h
  exact e.move hp

namespace Iteration

def Demands (e : Iteration) : Prop :=
  e.src.Demand e.label.1

-- Main power is present after debouncing, and neither ACC nor ON is switched on.
def Parked (e : Iteration) : Prop :=
  e.src.MainPresent e.label.1 ∧ State.Ignitionless e.label.1

instance : DecidablePred Parked :=
  fun _ => inferInstanceAs (Decidable <| _ ∧ _)

end Iteration

namespace Runs

open Iteration

variable {now : UInt32} {backlight : Bool} {es l r : List Iteration} {e : Iteration} {s : State}

theorem prepared (h : Runs now backlight es s) : s.Prepared := by
  refine h.invariant (P := State.Prepared) ⟨?_, ?_⟩ fun hn hp => (hp.move hn).prepared hp
  · simp [Power.init, Stage.Down]
  · simp [Power.init, Stage.Down]

theorem move_of_split (h : Runs now backlight (l ++ e :: r) s) :
    e.src.Move e.label.1 e.dst := by
  have ⟨hl, hn, _⟩ := h.split
  exact (prepared hl).move hn

-- Once the shutdown is entered, its timer counts from the iteration that has entered it, and every
-- iteration since then has demanded the shutdown.
theorem entered (h : Runs now backlight es s) (hd : s.stage.Down) :
    ∃ l e₀ r, es = l ++ e₀ :: r ∧ s.shutdownPendingEnterTick = e₀.ticks.pending ∧
      ∀ x ∈ e₀ :: r, x.Demands := by
  induction h
  case refl => simp [Power.init, Stage.Down] at hd
  case step es s l s' h hn hi =>
    cases (prepared h).move hn
    case enter demand _ tick _ _ =>
      exact ⟨es, ⟨s, l, s'⟩, [], rfl, tick, by simpa [Demands] using demand⟩
    case stay flow demand _ tick _ _ =>
      have ⟨l₁, e₀, r, hes, ht, hx⟩ := hi flow
      refine ⟨l₁, e₀, r ++ [⟨s, l, s'⟩], by simp [hes], tick.trans ht, fun x hm => ?_⟩
      rcases List.mem_append.mp (List.cons_append ▸ hm) with hm | hm
      · exact hx x hm
      · exact List.mem_singleton.mp hm ▸ demand
    case leave up _ _ => contradiction

-- The backlight goes out at the first demand for good.
theorem backlight_iff (h : Runs now true es s) :
    s.backlight = true ↔ ∀ e ∈ es, ¬e.Demands := by
  induction h
  case refl => simp [Power.init]
  case step es s l s' h hn hi =>
    have hs : (∀ e ∈ es ++ [⟨s, l, s'⟩], ¬Demands e) ↔
        (∀ e ∈ es, ¬Demands e) ∧ ¬s.Demand l.1 := by
      simp [or_imp, forall_and, Demands]
    rw [hs]
    cases (prepared h).move hn
    case enter demand _ _ _ dark => simp [dark, demand]
    case stay flow demand _ _ _ light => simp [light, (prepared h).dark flow, demand]
    case leave calm _ _ light => simp [light, hi, calm]

theorem demands_iff (h : Runs now backlight es s) (he : e ∈ es) :
    e.Demands ↔ e.dst.powerLossLatched = true ∨ e.Parked := by
  have ⟨x⟩ := Step.of_iteration (iteration_of_mem h he)
  rw [x.sameSupply.latched, x.eval.latched_iff, or_comm]
  exact .rfl

theorem not_mainPresent_of_low (h : Runs now backlight (l ++ e :: r) s)
    (hr : e.label.1.raw = false) : ¬e.src.MainPresent e.label.1 := by
  rw [(supply h.split.left).mainPresent_iff, hr, Debounce.streak_cons_of_ne (by decide)]
  decide

end Runs

namespace Iteration

-- At the iteration `e` after those in `l`, the shutdown has been demanded without interruption for three
-- seconds.
def Settled (l : List Iteration) (e : Iteration) : Prop :=
  ∃ (l₁ : List Iteration) (e₀ : Iteration) (l₂ : List Iteration), l = l₁ ++ e₀ :: l₂ ∧
    e₀.ticks.pending.toNat + 3000 ≤ e.ticks.eval.toNat ∧
    ∀ x ∈ e₀ :: l₂ ++ [e],
      x.dst.stage.Down ∧ (x.dst.powerLossLatched = true ∨ x.Parked)

-- The ignition is on while main power is present, or the sample of main power is low but no loss is
-- latched.
def Interrupts (e : Iteration) : Prop :=
  e.Reactivates ∨ (e.label.1.raw = false ∧ e.dst.powerLossLatched = false)

-- What interrupts the demand is not part of the three seconds.
theorem Settled.after {l₁ l₂ : List Iteration} {e x : Iteration} (h : Settled (l₁ ++ x :: l₂) e)
    (hx : ¬(x.dst.powerLossLatched = true ∨ x.Parked)) : Settled l₂ e := by
  have ⟨l₃, e₀, l₄, hl, ht, hd⟩ := h
  have hn : x ∉ e₀ :: l₄ := fun hm => hx (hd x <| List.mem_append_left _ hm).right
  rcases List.append_eq_append_iff.mp hl with ⟨a, _, ha⟩ | ⟨a, _, ha⟩
  case inl =>
    cases a
    case nil => exact absurd (by simp [(List.cons.inj ha).left]) hn
    case cons => exact ⟨_, e₀, l₄, (List.cons.inj ha).right, ht, hd⟩
  case inr => exact absurd (by simp [ha]) hn

end Iteration

theorem State.TimerExpired.toNat_le {s : State} {i : Input} (he : s.TimerExpired i)
    (ht : s.shutdownPendingEnterTick ≤ i.ticks.eval) :
    s.shutdownPendingEnterTick.toNat + 3000 ≤ i.ticks.eval.toNat := by
  have hz : s.shutdownPendingEnterTick ≠ 0 := by
    intro hz
    rw [TimerExpired, getShutdownPendingElapsedMs, hz, ticksToMs_zero] at he
    exact absurd he (by decide)
  rw [TimerExpired, getShutdownPendingElapsedMs, ticksToMs_eq_sub hz, ge_iff_le,
    UInt32.le_iff_toNat_le, UInt32.toNat_sub_of_le _ _ ht] at he
  have hm : pwrShutdownInProgressMs.toNat = 3000 := rfl
  have ht' := UInt32.le_iff_toNat_le.mp ht
  omega

namespace Runs

open Iteration

variable {now : UInt32} {backlight : Bool} {es l r : List Iteration} {e : Iteration} {s : State}

theorem settled_of_timeout (h : Runs now backlight (l ++ e :: r) s)
    (ho : NonDecreasing now (l ++ e :: r)) (ht : e.ShutdownTimeout) : Settled l e := by
  have ⟨clock, hinv, ha⟩ := at_split h ho
  have ⟨l₁, e₀, l₂, hl', htick, hx⟩ := entered h.split.left (.inl ht.pending)
  refine ⟨l₁, e₀, l₂, hl', ?_, fun x hm => ?_⟩
  case refine_1 =>
    rw [←htick]
    exact ht.expired.toNat_le (UInt32.le_trans hinv.tick_le ha.clock_le_eval)
  case refine_2 =>
    have hx' : x.Demands := by
      rcases List.mem_append.mp hm with hm | hm
      · exact hx x hm
      · obtain rfl := List.mem_singleton.mp hm
        exact ht.demand.imp_right fun hd => ⟨hd.left, .inr hd.right⟩
    have hmem : x ∈ l ++ e :: r := by
      rw [hl']
      simp only [List.mem_append, List.mem_cons] at hm ⊢
      tauto
    have ⟨a, b, hab⟩ := List.append_of_mem hmem
    exact ⟨(move_of_split (hab ▸ h)).down_iff.mpr hx', (demands_iff h hmem).mp hx'⟩

theorem not_demanded_of_interrupts (h : Runs now backlight (l ++ e :: r) s) (hi : e.Interrupts) :
    ¬(e.dst.powerLossLatched = true ∨ e.Parked) := by
  intro hd
  rcases hi with ⟨hmain, hign⟩ | ⟨hlow, hfresh⟩
  case inl =>
    rcases (demands_iff h (by simp)).mpr hd with hd | hd
    · exact hign hd.right
    · exact hd.left hmain
  case inr =>
    rcases hd with hd | hd
    · simp [hfresh] at hd
    · exact not_mainPresent_of_low h hlow hd.left

end Runs

open Iteration in
-- The rails are cut only after the shutdown has been demanded for three seconds, and whatever interrupts
-- the demand makes these three seconds start again.
theorem drivesLow_settled {now : UInt32} {backlight : Bool} {es l r : List Iteration} {e : Iteration}
    {s : State} {p : Pin} (h : Runs now backlight es s) (ho : NonDecreasing now es)
    (hes : es = l ++ e :: r) (hp : p = .pwrenSoc ∨ p = .pwren24v ∨ p = .pwrHold)
    (hd : e.DrivesLow p) :
    Settled l e ∧ ∀ l₁ x l₂, l = l₁ ++ x :: l₂ → x.Interrupts → Settled l₂ e := by
  subst hes
  have hc : State.Cut e.src e.label.1 e.dst e.label.2 := by
    refine (Runs.quiet_or_cut h ho).resolve_left fun hq => ?_
    have := hq.writes _ hd
    rcases hp with rfl | rfl | rfl <;> simp at this
  have hs := Runs.settled_of_timeout h ho hc.timeout
  refine ⟨hs, fun l₁ x l₂ hl₁ hi => Settled.after (hl₁ ▸ hs) ?_⟩
  rw [hl₁, List.append_assoc, List.cons_append] at h
  exact Runs.not_demanded_of_interrupts h hi

open Iteration in
theorem drivesLow_settled_parked : ∃ es s l e r, Runs 0 true es s ∧ NonDecreasing 0 es ∧
    es = l ++ e :: r ∧ e.DrivesLow .pwrHold ∧
    Settled l e ∧ ∀ l₁ x l₂, l = l₁ ++ x :: l₂ → x.Interrupts → Settled l₂ e := by
  have ⟨es, s, h, hp⟩ := Lts.exists_run_of_replay iteration (init 0 true) Input.parked
    (fun r => decide (NonDecreasing 0 r.1) &&
      r.1.any fun e => decide (⟨.pwrHold, false⟩ ∈ e.label.2)) (by decide +kernel)
  simp only [Bool.and_eq_true, decide_eq_true_eq, List.any_eq_true] at hp
  have ⟨ho, e, he, hd⟩ := hp
  have ⟨l, r, hes⟩ := List.append_of_mem he
  exact ⟨es, s, l, e, r, h, ho, hes, hd, drivesLow_settled h ho hes (by simp) hd⟩

-- As long as main power stays and nothing is switched on, a shutdown in progress stays in progress.
def ShutdownMonotone (es : List Iteration) : Prop :=
  ∀ (l : List Iteration) (e : Iteration) (r t : List Iteration), es = l ++ e :: r ++ t →
    e.dst.stage = .shutdownInProgress →
    (∀ x ∈ r, x.Parked) → ∀ x ∈ r, x.dst.stage = .shutdownInProgress

-- The main-present branch only knows how to promote `SHUTDOWN_PENDING`.
theorem State.Eval.pending_of_inProgress {s s' : State} {i : Input} {stage : Stage}
    (e : s.Eval i s' stage) (hs : s.stage = .shutdownInProgress) (main : s.MainPresent i)
    (idle : Ignitionless i) : stage = .shutdownPending := by
  cases e
  case normal => exact evalNormalStage_eq_shutdownPending_iff.mpr idle
  case timeout pending _ => simp [hs] at pending
  all_goals contradiction

theorem Runs.pending_of_inProgress {now : UInt32} {backlight : Bool} {es : List Iteration}
    {e : Iteration} {s : State} (h : Runs now backlight es s) (he : e ∈ es)
    (hs : e.src.stage = .shutdownInProgress) (hp : e.Parked) :
    e.dst.stage = .shutdownPending := by
  have ⟨x⟩ := Step.of_iteration (iteration_of_mem h he)
  rw [x.stage_eq]
  exact x.eval.pending_of_inProgress hs hp.left hp.right

theorem not_shutdownMonotone_of_mem {now : UInt32} {backlight : Bool} {es : List Iteration}
    {e : Iteration} {s : State} (h : Runs now backlight es s) (he : e ∈ es)
    (hs : e.src.stage = .shutdownInProgress) (hp : e.Parked) : ¬ShutdownMonotone es := by
  intro hm
  have ⟨l, r, hes⟩ := List.append_of_mem he
  have ⟨hl, _, _⟩ := (hes ▸ h).split
  rcases hl.last with ⟨_, hi⟩ | ⟨l', e₁, rfl, hd⟩
  case inl => simp [hi, Power.init] at hs
  case inr =>
    have hst := hm l' e₁ [e] r (by simp [hes]) (hd ▸ hs) (by simpa using hp) e (by simp)
    simp [Runs.pending_of_inProgress h he hs hp] at hst

-- With main power present a shutdown in progress falls back at the very next iteration, so it stays in
-- progress only where there is no next iteration.
theorem shutdownMonotone_iff {now : UInt32} {backlight : Bool} {es : List Iteration} {s : State}
    (h : Runs now backlight es s) :
    ShutdownMonotone es ↔ ¬∃ e ∈ es, e.src.stage = .shutdownInProgress ∧ e.Parked := by
  constructor
  case mp =>
    rintro hm ⟨e, he, hs, hp⟩
    exact not_shutdownMonotone_of_mem h he hs hp hm
  case mpr =>
    intro hn l e r t hes hs hr x hx
    cases r
    case nil => contradiction
    case cons x₀ r =>
      rw [hes, List.append_assoc, List.cons_append] at h
      have ⟨_, _, ht⟩ := h.split
      have hx₀ : x₀.src = e.dst := ht.src_of_cons
      exact absurd ⟨x₀, by simp [hes], hx₀ ▸ hs, hr x₀ (by simp)⟩ hn

theorem shutdownMonotone_iff_parked : ∃ es s, Runs 0 true es s ∧ es.length = 12 ∧
    (ShutdownMonotone es ↔
    ¬∃ e ∈ es, e.src.stage = .shutdownInProgress ∧ e.Parked) := by
  have ⟨es, s, h, hl⟩ := Lts.exists_run_of_replay iteration (init 0 true)
    (Input.parked ++ [.powered 4100 0]) (fun r => r.1.length == 12) (by decide +kernel)
  exact ⟨es, s, h, by simpa using hl, shutdownMonotone_iff h⟩

-- A vehicle that stays parked for a moment longer.
theorem not_shutdownMonotone_parked : ∃ es s, Runs 0 true es s ∧ ¬ShutdownMonotone es := by
  have ⟨es, s, h, hp⟩ := Lts.exists_run_of_replay iteration (init 0 true)
    (Input.parked ++ [.powered 4100 0]) (fun r => r.1.any fun e : Iteration =>
      decide (e.src.stage = .shutdownInProgress) && decide e.Parked) (by decide +kernel)
  have ⟨e, he, hd⟩ := List.any_eq_true.mp hp
  simp only [Bool.and_eq_true, decide_eq_true_eq] at hd
  exact ⟨es, s, h, not_shutdownMonotone_of_mem h he hd.left hd.right⟩

-- The active stages are those in which the display has to be lit.
def ActiveLit (es : List Iteration) : Prop :=
  ∀ e ∈ es, e.dst.stage = .accActive ∨ e.dst.stage = .onActive →
    e.dst.backlight = true

-- Nothing switches the backlight on again, so an active stage is lit exactly as long as the ignition
-- does not come back after a demand for a shutdown.
theorem activeLit_iff {now : UInt32} {es : List Iteration} {s : State} (h : Runs now true es s) :
    ActiveLit es ↔
    ¬∃ l e₁ e₂ r, es = l ++ e₂ :: r ∧ e₁ ∈ l ∧ e₁.Demands ∧ e₂.Reactivates := by
  constructor
  case mp =>
    rintro ha ⟨l, e₁, e₂, r, rfl, he₁, hd, hr⟩
    have ⟨hl, hn, _⟩ := h.split
    have hrun : Runs now true (l ++ [e₂]) e₂.dst := hl.step hn
    have hlit := ha e₂ (by simp) ((State.active_iff hn).mpr hr)
    exact (Runs.backlight_iff hrun).mp hlit e₁ (by simp [he₁]) hd
  case mpr =>
    intro hn e he ha
    have ⟨l, r, hes⟩ := List.append_of_mem he
    subst hes
    have ⟨hl, hs, _⟩ := h.split
    have hrun : Runs now true (l ++ [e]) e.dst := hl.step hs
    have hr := (State.active_iff hs).mp ha
    refine (Runs.backlight_iff hrun).mpr fun x hx hd => ?_
    rcases List.mem_append.mp hx with hx | hx
    · exact hn ⟨l, x, e, r, rfl, hx, hd, hr⟩
    · obtain rfl := List.mem_singleton.mp hx
      rcases hd with hd | hd
      · exact hr.right hd.right
      · exact hd.left hr.left

theorem activeLit_iff_parked : ∃ es s, Runs 0 true es s ∧ es.length = 12 ∧
    (ActiveLit es ↔
    ¬∃ l e₁ e₂ r, es = l ++ e₂ :: r ∧ e₁ ∈ l ∧ e₁.Demands ∧ e₂.Reactivates) := by
  have ⟨es, s, h, hl⟩ := Lts.exists_run_of_replay iteration (init 0 true)
    (Input.parked ++ [.powered 4100 1]) (fun r => r.1.length == 12) (by decide +kernel)
  exact ⟨es, s, h, by simpa using hl, activeLit_iff h⟩

-- The driver of a parked vehicle is back before anything is cut, but the display stays dark.
theorem not_activeLit_blink : ∃ es s, Runs 0 true es s ∧ ¬ActiveLit es := by
  have ⟨es, s, h, hp⟩ := Lts.exists_run_of_replay iteration (init 0 true)
    ((List.range 10).map (fun n => .powered (100 * (n.toUInt32 + 1)) 0) ++ [.powered 1100 1])
    (fun r => r.1.any fun e =>
      decide (e.dst.stage = .accActive) && !e.dst.backlight) (by decide +kernel)
  have ⟨e, he, hd⟩ := List.any_eq_true.mp hp
  simp only [Bool.and_eq_true, decide_eq_true_eq, Bool.not_eq_true'] at hd
  refine ⟨es, s, h, fun ha => ?_⟩
  have hlit := ha e he (.inl hd.left)
  simp [hd.right] at hlit

end Svc.Power
