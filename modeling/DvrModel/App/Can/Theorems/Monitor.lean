import DvrModel.App.Can.Basic
import Mathlib.Tactic.Ring

namespace App.Can

open Lts State

abbrev Edge := Lts.Edge State Action

-- The time at which node `j` receives a life frame with this step.
def Edge.heard (j : Fin nodeAll) (e : Edge) : Option Nat :=
  match e.label with
  | .rx nodeIndex msg => if nodeIndex.toNat = j ∧ msg.isLife then some e.src.time else none
  | _                 => none

-- The time at which the monitor reads the clock with this step.
def Edge.read (e : Edge) : Option Nat :=
  match e.label, e.src.monitor with
  | .monitor, .delay => some e.src.time
  | _,        _      => none

-- With this step the monitor looks at node `j`.
def Edge.Checks (j : Fin nodeAll) (e : Edge) : Prop :=
  ∃ now, e.label = .monitor ∧ e.src.monitor = .check now j

-- With this step node `j` is declared offline.
def Edge.Drops (j : Fin nodeAll) (e : Edge) : Prop :=
  (e.src.nodes j).online = true ∧ (e.dst.nodes j).online = false

-- A node is only declared offline if it has been silent for as long as the timeout.
def DropsSilent (es : List Edge) : Prop :=
  ∀ (l : List Edge) (e : Edge) (r : List Edge), es = l ++ e :: r → ∀ j, e.Drops j →
    ∀ e' ∈ l, ∀ t, e'.heard j = some t → t + lifeTimeoutMs.toNat ≤ e.src.time

-- The latest life frame of node `j` is recent, but came after the monitor had read the clock. The clock
-- differs from the reading by then, and not by so much that the difference wraps around to a short time.
def Overtaken (j : Fin nodeAll) (es : List Edge) (time : Nat) : Prop :=
  ∃ n t, latest Edge.read es = some n ∧ latest (Edge.heard j) es = some t ∧ n < t ∧
    time < t + lifeTimeoutMs.toNat ∧ 0 < (t - n) % 2 ^ 32 ∧
    (t - n) % 2 ^ 32 ≤ 2 ^ 32 - lifeTimeoutMs.toNat

-- What the variables of the nodes and of the monitor say about the steps taken so far.
structure Reflects (es : List Edge) (s : State) : Prop where
  offline : ∀ j, latest (Edge.heard j) es = none → (s.nodes j).online = false
  lastRx  : ∀ j t, latest (Edge.heard j) es = some t →
    t ≤ s.time ∧ (s.nodes j).lastRxMs = UInt32.ofNat t
  latest  : ∀ j, ∀ e ∈ es, ∀ t, e.heard j = some t →
    ∃ t', latest (Edge.heard j) es = some t' ∧ t ≤ t'
  now     : ∀ now i, s.monitor = .check now i →
    ∃ n, Lts.latest Edge.read es = some n ∧ n ≤ s.time ∧ now = UInt32.ofNat n ∧
      ∀ j, i ≤ j → ∀ t, Lts.latest (Edge.heard j) es = some t → n < t → (s.nodes j).online = true

theorem Reflects.init (time : Nat) : Reflects [] (.init time) where
  offline _ _    := rfl
  lastRx _ _ h   := by simp at h
  latest _ _ h   := by simp at h
  now _ _ h      := by simp [State.init] at h

@[simp]
theorem checkNode_time (s : State) (now : UInt32) (i : Fin nodeAll) :
    (s.checkNode now i).time = s.time := by
  rw [checkNode]
  split <;> rfl

@[simp]
theorem checkNode_lastRxMs (s : State) (now : UInt32) (i j : Fin nodeAll) :
    ((s.checkNode now i).nodes j).lastRxMs = (s.nodes j).lastRxMs := by
  rw [checkNode]
  split <;> simp only [setNode]
  split <;> simp_all

theorem checkNode_online (s : State) (now : UInt32) (i j : Fin nodeAll) :
    ((s.checkNode now i).nodes j).online = true ↔ (s.nodes j).online = true ∧
      ¬(j = i ∧ now - (s.nodes j).lastRxMs ≥ lifeTimeoutMs) := by
  rw [checkNode]
  by_cases hj : j = i
  case pos => split <;> simp_all [setNode]
  case neg => split <;> simp [setNode, hj]

namespace Reflects

variable {es : List Edge} {s s' : State} {a : Action} {e e' : Edge} {j k : Fin nodeAll} {t : Nat}

-- A step in which nothing is heard from a node leaves its latest life frame as it is.
theorem latest_silent (hh : e.heard j = none) :
    Lts.latest (Edge.heard j) (es ++ [e]) = Lts.latest (Edge.heard j) es := by
  simp [hh]

theorem latest_of_silent (h : Reflects es s) (hh : e.heard j = none) (he : e' ∈ es ++ [e])
    (ht : e'.heard j = some t) : ∃ t', Lts.latest (Edge.heard j) (es ++ [e]) = some t' ∧ t ≤ t' := by
  have he : e' ∈ es := by
    rcases List.mem_append.mp he with he | he
    · exact he
    · simp_all
  rw [latest_silent hh]
  exact h.latest j e' he t ht

-- Steps that neither receive a life frame nor belong to the monitor.
theorem quiet (h : Reflects es s) (hh : ∀ j, e.heard j = none) (hr : e.read = none)
    (ht : s.time ≤ s'.time) (hn : s'.nodes = s.nodes) (hm : s'.monitor = s.monitor) :
    Reflects (es ++ [e]) s' where
  offline j hl := by
    rw [hn]
    exact h.offline j (latest_silent (hh j) ▸ hl)
  lastRx j t hl := by
    have ⟨h₁, h₂⟩ := h.lastRx j t (latest_silent (hh j) ▸ hl)
    exact ⟨by omega, hn ▸ h₂⟩
  latest j e' he t hj := h.latest_of_silent (hh j) he hj
  now now i hi := by
    have ⟨n, h₁, h₂, h₃, h₄⟩ := h.now now i (hm ▸ hi)
    refine ⟨n, by simpa [hr] using h₁, by omega, h₃, fun j hj t hl => ?_⟩
    rw [hn]
    exact h₄ j hj t (latest_silent (hh j) ▸ hl)

-- A life frame of node `k`.
theorem life (h : Reflects es s) (hh : ∀ j, e.heard j = if j = k then some s.time else none)
    (hr : e.read = none) (life : UInt8) :
    Reflects (es ++ [e]) (s.setNode k { lastRxMs := s.clock, life, online := true }) := by
  have hk : Lts.latest (Edge.heard k) (es ++ [e]) = some s.time := by simp [hh]
  have hj (j : Fin nodeAll) (hjk : j ≠ k) : e.heard j = none := by rw [hh, if_neg hjk]
  refine ⟨fun j hl => ?offline, fun j t hl => ?lastRx, fun j e' he t ht => ?latest, fun now i hm => ?now⟩
  case offline =>
    by_cases hjk : j = k
    case pos => simp [hjk, hk] at hl
    case neg => simpa [setNode, hjk] using h.offline j (latest_silent (hj j hjk) ▸ hl)
  case lastRx =>
    by_cases hjk : j = k
    case pos =>
      obtain rfl : s.time = t := by simpa [hjk, hk] using hl
      exact ⟨le_rfl, by simp [setNode, hjk, clock]⟩
    case neg => simpa [setNode, hjk] using h.lastRx j t (latest_silent (hj j hjk) ▸ hl)
  case latest =>
    by_cases hjk : j = k
    case pos =>
      refine ⟨s.time, hjk ▸ hk, ?_⟩
      rcases List.mem_append.mp he with he | he
      · have ⟨t', h₁, h₂⟩ := h.latest j e' he t ht
        exact Nat.le_trans h₂ (h.lastRx j t' h₁).left
      · simp_all
    case neg => exact h.latest_of_silent (hj j hjk) he ht
  case now =>
    have ⟨n, h₁, h₂, h₃, h₄⟩ := h.now now i hm
    refine ⟨n, by simpa [hr] using h₁, h₂, h₃, fun j hi t hl hn => ?_⟩
    by_cases hjk : j = k
    case pos => simp [setNode, hjk]
    case neg => simpa [setNode, hjk] using h₄ j hi t (latest_silent (hj j hjk) ▸ hl) hn

theorem rx (h : Reflects es s) {nodeIndex : UInt8} {msg : Msg} :
    Reflects (es ++ [⟨s, .rx nodeIndex msg, s.handleRx nodeIndex msg⟩])
      (s.handleRx nodeIndex msg) := by
  have hh (s' : State) (j : Fin nodeAll) : Edge.heard j ⟨s, .rx nodeIndex msg, s'⟩ =
      if nodeIndex.toNat = j ∧ msg.isLife then some s.time else none := rfl
  rw [State.handleRx]
  split
  case isFalse hi =>
    refine h.quiet (fun j => ?_) rfl le_rfl rfl rfl
    have := j.isLt
    rw [hh, if_neg fun hc => hi (by omega)]
  case isTrue hi =>
    split
    case isFalse hl =>
      refine h.quiet (fun j => ?_) rfl le_rfl rfl rfl
      rw [hh, if_neg fun hc => hl hc.right]
    case isTrue hl =>
      refine h.life (fun j => ?_) rfl (msg.data 0)
      rw [hh]
      simp [hl, Fin.ext_iff, eq_comm]

-- The monitor reads the clock.
theorem delay (h : Reflects es s) (hh : ∀ j, e.heard j = none) (hr : e.read = some s.time) :
    Reflects (es ++ [e]) { s with monitor := .check s.clock 0 } := by
  refine ⟨fun j hl => ?offline, fun j t hl => ?lastRx, fun j e' he t => h.latest_of_silent (hh j) he, ?now⟩
  case offline => exact h.offline j (latest_silent (hh j) ▸ hl)
  case lastRx  => exact h.lastRx j t (latest_silent (hh j) ▸ hl)
  case now =>
    rintro now i ⟨rfl, rfl⟩
    refine ⟨s.time, by simp [hr], le_rfl, rfl, fun j _ t hl hlt => ?_⟩
    have ⟨ht, _⟩ := h.lastRx j t (latest_silent (hh j) ▸ hl)
    exact absurd hlt ht.not_gt

-- The monitor looks at a node and goes on with the next one.
theorem check {now : UInt32} {i : Fin nodeAll} (h : Reflects es s) (hm : s.monitor = .check now i)
    (hh : ∀ j, e.heard j = none) (hr : e.read = none) :
    Reflects (es ++ [e]) { s.checkNode now i with
      monitor := if h : i.val + 1 < nodeAll then .check now ⟨i.val + 1, h⟩ else .delay } := by
  refine ⟨fun j hl => ?offline, fun j t hl => ?lastRx, fun j e' he t => h.latest_of_silent (hh j) he,
    fun now' i' hi => ?now⟩
  case offline =>
    have := h.offline j (latest_silent (hh j) ▸ hl)
    simp [←Bool.not_eq_true, checkNode_online, this]
  case lastRx => simpa using h.lastRx j t (latest_silent (hh j) ▸ hl)
  case now =>
    have ⟨n, h₁, h₂, h₃, h₄⟩ := h.now now i hm
    dsimp only at hi
    split at hi
    case isFalse => cases hi
    case isTrue =>
      obtain ⟨rfl, rfl⟩ := Monitor.check.inj hi
      refine ⟨n, by simpa [hr] using h₁, by simpa using h₂, h₃, fun j hj t hl hlt => ?_⟩
      have hij : i.val + 1 ≤ j.val := hj
      rw [checkNode_online]
      refine ⟨h₄ j (Fin.le_def.mpr <| by omega) t (latest_silent (hh j) ▸ hl) hlt, fun hc => ?_⟩
      exact absurd hc.left <| Fin.ne_of_val_ne <| by omega

theorem monitor (h : Reflects es s) :
    Reflects (es ++ [⟨s, .monitor, s.monitorThread⟩]) s.monitorThread := by
  cases hm : s.monitor
  case delay =>
    have hs : s.monitorThread = { s with monitor := .check s.clock 0 } := by simp [monitorThread, hm]
    rw [hs]
    exact h.delay (fun _ => rfl) (by simp [Edge.read, hm])
  case check now i =>
    have hs : s.monitorThread = { s.checkNode now i with
        monitor := if h : i.val + 1 < nodeAll then .check now ⟨i.val + 1, h⟩ else .delay } := by
      simp [monitorThread, hm]
    rw [hs]
    exact h.check hm (fun _ => rfl) (by simp [Edge.read, hm])

theorem act (h : Reflects es s) : Reflects (es ++ [⟨s, a, s.act a⟩]) (s.act a) := by
  cases a
  case tick    => exact h.quiet (fun _ => rfl) rfl (Nat.le_succ _) rfl rfl
  case rx      => exact h.rx
  case monitor => exact h.monitor

theorem of_run {time : Nat} (h : Run (State.act · · = ·) (.init time) es s) : Reflects es s := by
  induction h
  case refl => exact .init time
  case step ht hi => exact ht ▸ hi.act

end Reflects

-- The unsigned difference of two readings, the second one not being the later one.
theorem toNat_ofNat_sub_of_le {n t : Nat} (h : t ≤ n) :
    (UInt32.ofNat n - UInt32.ofNat t).toNat = (n - t) % 2 ^ 32 := by
  rw [UInt32.toNat_sub, UInt32.toNat_ofNat', UInt32.toNat_ofNat']
  omega

theorem toNat_ofNat_sub_of_lt {n t : Nat} (h : n < t) :
    (UInt32.ofNat n - UInt32.ofNat t).toNat = (2 ^ 32 - (t - n) % 2 ^ 32) % 2 ^ 32 := by
  rw [UInt32.toNat_sub, UInt32.toNat_ofNat', UInt32.toNat_ofNat']
  omega

-- Only the monitor takes a node offline, and only after the timeout has passed by its reading.
theorem drops_iff {e : Edge} (he : e.src.act e.label = e.dst) (j : Fin nodeAll) :
    e.Drops j ↔ ∃ now, e.label = .monitor ∧ e.src.monitor = .check now j ∧
      (e.src.nodes j).online = true ∧ now - (e.src.nodes j).lastRxMs ≥ lifeTimeoutMs := by
  rw [Edge.Drops, ← he]
  cases hl : e.label
  case tick => simp +contextual [State.act]
  case rx k msg =>
    have hn : (e.src.nodes j).online = true → ((e.src.handleRx k msg).nodes j).online = true := by
      intro h
      rw [State.handleRx]
      split <;> try split
      all_goals grind [setNode]
    simp +contextual [State.act, hn]
  case monitor =>
    cases hm : e.src.monitor
    case delay => simp +contextual [State.act, monitorThread, hm]
    case check now i =>
      have hc := checkNode_online e.src now i j
      rw [← Bool.not_eq_true]
      simp only [State.act, monitorThread, hm, hc]
      grind

variable {es l r : List Edge} {e : Edge} {s : State} {time : Nat}

theorem heard_of_overtaken {j : Fin nodeAll} (ho : Overtaken j l time) :
    ∃ e' ∈ l, ∃ t, e'.heard j = some t ∧ time < t + lifeTimeoutMs.toNat := by
  have ⟨n, t, _, ht, _, hlt, _⟩ := ho
  have ⟨e', he', hj⟩ := mem_of_latest ht
  exact ⟨e', he', t, hj, hlt⟩

theorem drops_of_overtaken (h : Reflects l e.src) (he : e.src.act e.label = e.dst) {j : Fin nodeAll}
    (hc : e.Checks j) (ho : Overtaken j l e.src.time) : e.Drops j := by
  have ⟨now, hl, hm⟩ := hc
  have ⟨n, t, hn, ht, hlt, _, h₁, h₂⟩ := ho
  have ⟨n', hn', _, hnow, hon⟩ := h.now now j hm
  obtain rfl : n = n' := by simpa [hn] using hn'
  refine (drops_iff he j).mpr ⟨now, hl, hm, hon j (Fin.le_refl j) t ht hlt, ?_⟩
  rw [ge_iff_le, UInt32.le_iff_toNat_le, hnow, (h.lastRx j t ht).right, toNat_ofNat_sub_of_lt hlt]
  have : lifeTimeoutMs.toNat = 5000 := rfl
  omega

theorem silent_of_drops (h : Reflects l e.src) (he : e.src.act e.label = e.dst) {j : Fin nodeAll}
    (hd : e.Drops j) (ho : ¬Overtaken j l e.src.time) {e' : Edge} (hm : e' ∈ l) {t : Nat}
    (ht : e'.heard j = some t) : t + lifeTimeoutMs.toNat ≤ e.src.time := by
  have ⟨now, hl, hm', _, hge⟩ := (drops_iff he j).mp hd
  have ⟨n, hn, hle, hnow, _⟩ := h.now now j hm'
  have ⟨t', ht', htt⟩ := h.latest j e' hm t ht
  rw [ge_iff_le, UInt32.le_iff_toNat_le, hnow, (h.lastRx j t' ht').right] at hge
  have h5000 : lifeTimeoutMs.toNat = 5000 := rfl
  by_contra hlt
  by_cases hnt : n < t'
  case pos =>
    rw [toNat_ofNat_sub_of_lt hnt] at hge
    exact ho ⟨n, t', hn, ht', hnt, by omega, by omega, by omega⟩
  case neg =>
    rw [toNat_ofNat_sub_of_le (by omega)] at hge
    omega

-- A node that is alive is declared offline exactly when its life frame overtakes the monitor.
theorem dropsSilent_iff (time : Nat) (as : List Action) :
    DropsSilent (record State.act (.init time) as) ↔
    ∀ (l : List Edge) (e : Edge) (r : List Edge), record State.act (.init time) as = l ++ e :: r →
      ∀ j, e.Checks j → ¬Overtaken j l e.src.time := by
  have hr := record_run State.act (.init time) as
  generalize record State.act (.init time) as = es at hr
  constructor
  · intro h l e r hes j hc ho
    have ⟨hl, he, _⟩ := (hes ▸ hr).split
    have ⟨e', he', t, ht, hlt⟩ := heard_of_overtaken ho
    have := h l e r hes j (drops_of_overtaken (.of_run hl) he hc ho) e' he' t ht
    omega
  · intro h l e r hes j hd e' he' t ht
    have ⟨hl, he, _⟩ := (hes ▸ hr).split
    have ⟨now, hm, hc, _⟩ := (drops_iff he j).mp hd
    exact silent_of_drops (.of_run hl) he hd (h l e r hes j ⟨now, hm, hc⟩) he' ht

def lifeMsg : Msg where
  id     := stdLifeId
  data _ := 1

-- The monitor reads the clock, the clock ticks, a life frame arrives, and the monitor declares the node
-- offline.
theorem not_dropsSilent :
    ¬DropsSilent (record State.act (.init 0) [.monitor, .tick, .rx 0 lifeMsg, .monitor]) := by
  intro h
  have := h [_, _, _] _ [] rfl 0 ⟨rfl, rfl⟩ _ (.tail _ <| .tail _ <| .head _) 1 rfl
  revert this
  decide

end App.Can
