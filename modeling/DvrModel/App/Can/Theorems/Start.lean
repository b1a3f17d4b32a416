import DvrModel.App.Can.Start
import DvrModel.Lib.Run
import Mathlib.Data.List.Induction

namespace App.Can.Startup

variable {s s' : Startup} {i : Fin nodeAll} {c : Call} {pc : Pc} {ok : Bool}

-- The receive threads by the nodes they serve.
def served (s : Startup) : List (Fin nodeAll) :=
  s.rxThreads.map (·.node)

-- What the start of the CAN system promises, however often it is tried.
structure Sound (s : Startup) : Prop where
  rx      : ∀ i, s.served.count i ≤ 1
  monitor : s.monitors ≤ 1
  sem     : ∀ t ∈ s.rxThreads, ∀ x, t.waits = some x → s.rxIndicate t.node = some x

-- What the threads rely on.
structure Threads (s : Startup) : Prop where
  sem     : ∀ t ∈ s.rxThreads, ∀ x, t.waits = some x → s.rxIndicate t.node = some x
  given   : ∀ t ∈ s.rxThreads, ∃ x, s.rxIndicate t.node = some x
  fresh   : ∀ i x, s.rxIndicate i = some x → x < s.sems
  nodup   : s.served.Nodup
  first   : s.rxThreads ≠ [] → 0 ∈ s.served
  monitor : s.monitors = if s.started then 1 else 0

-- The calls that are made with the new semaphore of a node.
def Call.Ready (c : Call) : Prop :=
  c ≠ .deviceFind ∧ c ≠ .semCreate

-- What holds when `app_can_start` has got to some place.
structure Reaches (s : Startup) (pc : Pc) : Prop where
  busy   : pc ≠ .idle → s.started = false
  ahead  : ∀ i c, pc = .node i c → i ≠ 0 ∨ Call.Ready c → ∀ j ∈ s.served, j < i
  behind : ∀ i c, pc = .node i c → i ≠ 0 → 0 ∈ s.served
  ready  : ∀ i c, pc = .node i c → Call.Ready c → ∃ x, s.rxIndicate i = some x

structure Inv (s : Startup) : Prop where
  threads : s.Threads
  reaches : s.Reaches s.pc

theorem Threads.sound (h : s.Threads) : s.Sound where
  rx i    := List.nodup_iff_count_le_one.mp h.nodup i
  monitor := by rw [h.monitor]; split <;> decide
  sem     := h.sem

-- No node is being set up.
theorem Reaches.of_ne_node (hn : ∀ i c, pc ≠ .node i c) (hb : pc ≠ .idle → s.started = false) :
    s.Reaches pc where
  busy         := hb
  ahead i c h  := absurd h (hn i c)
  behind i c h := absurd h (hn i c)
  ready i c h  := absurd h (hn i c)

theorem Reaches.idle : s.Reaches .idle :=
  .of_ne_node (by simp) (by simp)

theorem Inv.init : Inv .init where
  threads := ⟨by simp [Startup.init], by simp [Startup.init], by simp [rxIndicate, Startup.init],
    by simp [served, Startup.init], by simp [Startup.init], rfl⟩
  reaches := .idle

theorem loop_zero : loop 0 = .node 0 .deviceFind := by decide

theorem loop_succ (i : Fin nodeAll) : loop (i + 1) = .monitorCreate ∨
    ∃ j, i < j ∧ loop (i + 1) = .node j .deviceFind := by
  revert i
  decide

-- The condition under which a step keeps the promise: no new semaphore for the first node while there is
-- a thread that waits on the old one.
def Guarded (s : Startup) : Step → Prop
  | .call  => True
  | .ret _ => s.pc = .node node1 .semCreate → node1 ∉ s.served

theorem rxIndicate_setNode (node : Handles) : (s.setNode i node).rxIndicate =
    Function.update s.rxIndicate i node.rxSem := by
  funext j
  by_cases h : j = i
  case pos => subst h; simp [rxIndicate, setNode]
  case neg => simp [rxIndicate, setNode, h]

-- A call that leaves the semaphores alone.
theorem rxIndicate_assign (h : c ≠ .semCreate) : (s.assign i ok c).rxIndicate = s.rxIndicate := by
  have hu (node : Handles) (hn : node.rxSem = (s.nodes i).rxSem) :
      (s.setNode i node).rxIndicate = s.rxIndicate := by
    rw [rxIndicate_setNode, hn]
    exact Function.update_eq_self i s.rxIndicate
  cases c
  case semCreate  => contradiction
  case deviceFind => exact hu _ rfl
  case threadCreate =>
    cases ok
    case false => exact hu _ rfl
    case true  => exact hu _ rfl
  all_goals rfl

-- Nothing changes for the threads if they and the semaphores stay the same.
theorem Threads.of_same (h : s.Threads) (hi : s'.rxIndicate = s.rxIndicate)
    (ht : s'.rxThreads = s.rxThreads) (hs : s'.sems = s.sems)
    (hm : s'.monitors = if s'.started then 1 else 0) : s'.Threads where
  sem     := by rw [hi, ht]; exact h.sem
  given   := by rw [hi, ht]; exact h.given
  fresh   := by rw [hi, hs]; exact h.fresh
  nodup   := by rw [served, ht]; exact h.nodup
  first   := by rw [served, ht]; exact h.first
  monitor := hm

-- A node without a thread may get another semaphore.
theorem Threads.update {x : Option Nat} (h : s.Threads)
    (hi : s'.rxIndicate = Function.update s.rxIndicate i x) (hn : i ∉ s.served)
    (ht : s'.rxThreads = s.rxThreads) (hs : s.sems ≤ s'.sems)
    (hx : ∀ y, x = some y → y < s'.sems) (hm : s'.monitors = s.monitors) (hst : s'.started = s.started) :
    s'.Threads := by
  have hu : ∀ t ∈ s.rxThreads, s'.rxIndicate t.node = s.rxIndicate t.node := by
    intro t hm
    rw [hi, Function.update_of_ne]
    rintro rfl
    exact hn <| List.mem_map_of_mem hm
  refine ⟨?sem, ?given, ?fresh, ?nodup, ?first, ?monitor⟩
  case sem     => rw [ht]; exact fun t hm x hw => (hu t hm).trans (h.sem t hm x hw)
  case given   => rw [ht]; exact fun t hm => (h.given t hm).imp fun x hx => (hu t hm).trans hx
  case nodup   => rw [served, ht]; exact h.nodup
  case first   => rw [served, ht]; exact h.first
  case monitor => rw [hm, hst]; exact h.monitor
  case fresh =>
    intro j y hy
    rw [hi] at hy
    by_cases hj : j = i
    case pos => rw [hj, Function.update_self] at hy; exact hx y hy
    case neg => rw [Function.update_of_ne hj] at hy; exact Nat.lt_of_lt_of_le (h.fresh j y hy) hs

-- The semaphore of a node is only replaced if there is no thread for it.
theorem Reaches.not_served (h : s.Reaches (.node i .semCreate)) (hg : i = 0 → 0 ∉ s.served) :
    i ∉ s.served := by
  by_cases hi : i = 0
  case pos => exact hi ▸ hg hi
  case neg => exact fun hm => Nat.lt_irrefl _ <| h.ahead i _ rfl (.inl hi) i hm

theorem served_threadCreate : (s.assign i true .threadCreate).served = s.served ++ [i] := by
  simp [served, assign, setNode]

-- The first node is the first one that gets a thread.
theorem Reaches.first (hr : s.Reaches (.node i c)) : 0 ∈ s.served ++ [i] := by
  by_cases hz : i = 0
  case pos => simp [hz]
  case neg => exact List.mem_append_left _ <| hr.behind i c rfl hz

-- A node that has got a semaphore may get a thread, if it does not have one.
theorem Threads.create (h : s.Threads) (hr : s.Reaches (.node i .threadCreate)) :
    (s.assign i true .threadCreate).Threads := by
  have hi : (s.assign i true .threadCreate).rxIndicate = s.rxIndicate := rxIndicate_assign (by simp)
  have ht : (s.assign i true .threadCreate).rxThreads = s.rxThreads ++ [⟨i, none⟩] := rfl
  have hc : Call.Ready .threadCreate := ⟨by simp, by simp⟩
  refine ⟨?sem, ?given, ?fresh, ?nodup, ?first, h.monitor⟩
  case sem =>
    rw [hi, ht, List.forall_mem_append]
    exact ⟨h.sem, by simp⟩
  case given =>
    rw [hi, ht, List.forall_mem_append]
    exact ⟨h.given, by simpa using hr.ready i _ rfl hc⟩
  case fresh => rw [hi]; exact h.fresh
  case nodup =>
    rw [served_threadCreate]
    refine List.nodup_append.mpr ⟨h.nodup, List.nodup_singleton _, fun j hj k hk => ?_⟩
    exact List.mem_singleton.mp hk ▸ Fin.ne_of_lt (hr.ahead i _ rfl (.inr hc) j hj)
  case first => rw [served_threadCreate]; exact fun _ => hr.first

theorem Threads.assign (h : s.Threads) (hr : s.Reaches (.node i c))
    (hg : c = .semCreate → i = 0 → 0 ∉ s.served) : (s.assign i ok c).Threads := by
  cases c
  case semCreate =>
    have hn := hr.not_served (hg rfl)
    cases ok
    case true =>
      exact h.update (x := some s.sems) (rxIndicate_setNode _) hn rfl (Nat.le_succ _)
        (fun y hy => Option.some.inj hy ▸ Nat.lt_succ_self _) rfl rfl
    case false => exact h.update (rxIndicate_setNode _) hn rfl (Nat.le_refl _) nofun rfl rfl
  case threadCreate =>
    cases ok
    case true  => exact h.create hr
    case false => exact h.of_same (rxIndicate_assign (by simp)) rfl rfl h.monitor
  all_goals exact h.of_same (rxIndicate_assign (by simp)) rfl rfl h.monitor

theorem Reaches.node (hb : s.started = false) (ha : i ≠ 0 ∨ Call.Ready c → ∀ j ∈ s.served, j < i)
    (h₀ : i ≠ 0 → 0 ∈ s.served) (hr : Call.Ready c → ∃ x, s.rxIndicate i = some x) :
    s.Reaches (.node i c) := by
  refine ⟨fun _ => hb, ?_, ?_, ?_⟩
  all_goals
    intro j c' hc
    obtain ⟨rfl, rfl⟩ := Pc.node.inj hc
    assumption

theorem Reaches.monitorCreate (hb : s.started = false) : s.Reaches .monitorCreate :=
  .of_ne_node (by simp) fun _ => hb

-- Between the creation of the semaphore and that of the thread, a node keeps what it has got.
theorem Reaches.mid (hr : s.Reaches (.node i c)) (hc : Call.Ready c) {c' : Call} : s.Reaches (.node i c') :=
  .node (hr.busy (by simp)) (fun _ => hr.ahead i c rfl (.inr hc)) (hr.behind i c rfl)
    fun _ => hr.ready i c rfl hc

theorem started_assign : (s.assign i ok c).started = s.started := by
  cases c
  case semCreate | threadCreate => cases ok <;> rfl
  all_goals rfl

theorem Reaches.next (h : s.Threads) (hr : s.Reaches (.node i c))
    (hg : c = .semCreate → i = 0 → 0 ∉ s.served) : (s.assign i true c).Reaches (next i c) := by
  have hb : (s.assign i true c).started = false := started_assign.trans (hr.busy (by simp))
  cases c
  case deviceFind =>
    refine .node hb (fun ha => hr.ahead i _ rfl ?_) (hr.behind i _ rfl) fun hc => absurd rfl hc.right
    exact .inl <| ha.resolve_right fun hc => hc.right rfl
  case semCreate =>
    have hi : (s.assign i true .semCreate).rxIndicate i = some s.sems := by
      show (s.setNode i _).rxIndicate i = _
      rw [rxIndicate_setNode, Function.update_self]
    refine .node hb (fun _ j hj => ?_) (hr.behind i _ rfl) fun _ => ⟨_, hi⟩
    by_cases hz : i = 0
    case pos =>
      have hne : s.rxThreads ≠ [] := by
        rintro he
        simp [served, he, assign, setNode] at hj
      exact absurd (h.first hne) (hg rfl hz)
    case neg => exact hr.ahead i _ rfl (.inl hz) j hj
  case threadCreate =>
    have hlt := hr.ahead i _ rfl (.inr ⟨by simp, by simp⟩)
    rcases loop_succ i with hl | ⟨j, hj, hl⟩
    case inl => rw [Startup.next, hl]; exact .monitorCreate hb
    case inr =>
      rw [Startup.next, hl]
      refine .node hb (fun _ => ?_) (fun _ => served_threadCreate ▸ hr.first) fun hc => absurd rfl hc.left
      rw [served_threadCreate, List.forall_mem_append]
      exact ⟨fun k hk => Nat.lt_trans (hlt k hk) hj, by simpa using hj⟩
  all_goals exact hr.mid ⟨by simp, by simp⟩

theorem Inv.step {a : Step} (h : s.Inv) (hg : s.Guarded a) : (s.step a).Inv := by
  have ⟨ht, hr⟩ := h
  cases a
  case call =>
    rw [Startup.step]
    split
    case isFalse => exact h
    case isTrue hs =>
      refine ⟨ht.of_same rfl rfl rfl ht.monitor, ?_⟩
      show Reaches _ (loop 0)
      rw [loop_zero]
      refine .node hs.right (fun hc => ?_) (absurd rfl) fun hc => absurd rfl hc.left
      exact absurd rfl (hc.resolve_left (absurd rfl)).left
  case ret ok =>
    cases hp : s.pc
    case idle =>
      simp only [Startup.step, hp]
      exact h
    case node i c =>
      rw [hp] at hr
      have hn : c = .semCreate → i = 0 → 0 ∉ s.served := by
        rintro rfl rfl
        exact hg hp
      simp only [Startup.step, hp]
      refine ⟨(ht.assign hr hn).of_same rfl rfl rfl (ht.assign hr hn).monitor, ?_⟩
      cases ok
      case false => exact .idle
      case true =>
        have hn := Reaches.next ht hr hn
        exact ⟨hn.busy, hn.ahead, hn.behind, hn.ready⟩
    case monitorCreate =>
      have hs : s.started = false := hr.busy (by simp [hp])
      have hm : s.monitors = 0 := by simp [ht.monitor, hs]
      simp only [Startup.step, hp]
      cases ok
      case false => exact ⟨ht.of_same rfl rfl rfl ht.monitor, .idle⟩
      case true  => exact ⟨ht.of_same rfl rfl rfl (by simp [hm]), .idle⟩

-- The threads do not change which nodes they serve.
theorem map_modify {l : List RxThread} {n : Nat} {f : RxThread → RxThread}
    (hf : ∀ t, (f t).node = t.node) : (l.modify n f).map (·.node) = l.map (·.node) := by
  induction l generalizing n
  case nil => simp
  case cons t l hi =>
    cases n
    case zero   => simp [hf]
    case succ n => simp [hi]

theorem mem_modify {l : List RxThread} {n : Nat} {f : RxThread → RxThread} {t : RxThread}
    (h : t ∈ l.modify n f) : ∃ t' ∈ l, t = t' ∨ t = f t' := by
  induction l generalizing n
  case nil => simp at h
  case cons t' l hi =>
    cases n
    case zero =>
      rcases List.mem_cons.mp h with h | h
      · exact ⟨t', List.mem_cons_self, .inr h⟩
      · exact ⟨t, List.mem_cons_of_mem _ h, .inl rfl⟩
    case succ n =>
      rcases List.mem_cons.mp h with h | h
      · exact ⟨t', List.mem_cons_self, .inl h⟩
      · have ⟨t'', hm, he⟩ := hi h
        exact ⟨t'', List.mem_cons_of_mem _ hm, he⟩

-- A thread may stop waiting, or wait on the semaphore of its node.
theorem Inv.modify {n : Nat} {f : RxThread → RxThread} (h : s.Inv) (hf : ∀ t, (f t).node = t.node)
    (hw : ∀ t x, (f t).waits = some x → t.waits = some x ∨ s.rxIndicate t.node = some x) :
    Inv { s with rxThreads := s.rxThreads.modify n f } := by
  have ⟨ht, hr⟩ := h
  have hs : ({ s with rxThreads := s.rxThreads.modify n f } : Startup).served = s.served := map_modify hf
  have hm : ∀ t ∈ s.rxThreads.modify n f, ∃ t' ∈ s.rxThreads, t.node = t'.node ∧
      ∀ x, t.waits = some x → t'.waits = some x ∨ s.rxIndicate t'.node = some x := by
    intro t ht
    have ⟨t', hm, he⟩ := mem_modify ht
    rcases he with rfl | rfl
    · exact ⟨t, hm, rfl, fun _ => .inl⟩
    · exact ⟨t', hm, hf t', hw t'⟩
  refine ⟨⟨?sem, ?given, ht.fresh, ?nodup, ?first, ht.monitor⟩, ⟨hr.busy, ?ahead, ?behind, hr.ready⟩⟩
  case sem =>
    intro t hmem x hx
    have ⟨t', hm', hn, hx'⟩ := hm t hmem
    show s.rxIndicate t.node = _
    rw [hn]
    exact (hx' x hx).elim (ht.sem t' hm' x) id
  case given =>
    intro t hmem
    have ⟨t', hm', hn, _⟩ := hm t hmem
    show ∃ x, s.rxIndicate t.node = _
    rw [hn]
    exact ht.given t' hm'
  case nodup  => rw [hs]; exact ht.nodup
  case first  => rw [hs]; exact fun hne => ht.first fun he => hne (by simp [he])
  case ahead  => rw [hs]; exact hr.ahead
  case behind => rw [hs]; exact hr.behind

theorem node_take (t : RxThread) : (s.take t).node = t.node := by
  unfold take
  split <;> rfl

-- What the threads do is not restricted.
def Action.Guarded (s : Startup) : Action → Prop
  | .start a => s.Guarded a
  | _        => True

theorem Inv.act {a : Action} (h : s.Inv) (hg : a.Guarded s) : (s.act a).Inv := by
  cases a
  case start => exact h.step hg
  case wake  => exact h.modify (fun _ => rfl) (fun _ _ hx => absurd hx nofun)
  case take =>
    refine h.modify node_take fun t x hx => ?_
    unfold take at hx
    split at hx
    case isTrue  => exact .inr hx
    case isFalse => exact .inl hx

-- The part of a run that `app_can_start` takes.
def starts (as : List Action) : List Step :=
  as.filterMap fun
    | .start a => some a
    | _        => none

theorem starts_concat (as : List Action) (a : Action) : starts (as ++ [a]) = starts as ++ starts [a] :=
  List.filterMap_append ..

-- The state without what the threads are doing.
def erase (s : Startup) : Startup :=
  { s with rxThreads := s.served.map (⟨·, none⟩) }

@[simp]
theorem served_erase : s.erase.served = s.served := by
  simp [served, erase]

theorem erase_modify {n : Nat} {f : RxThread → RxThread} (hf : ∀ t, (f t).node = t.node) :
    erase { s with rxThreads := s.rxThreads.modify n f } = s.erase := by
  simp only [erase, served, map_modify hf]

theorem erase_step (a : Step) : (s.step a).erase = s.erase.step a := by
  cases a
  case call =>
    by_cases hc : s.pc = .idle ∧ s.started = false
    case pos =>
      have he : s.erase.step .call = { s.erase with pc := loop 0 } := if_pos hc
      rw [he, step, if_pos hc]
      rfl
    case neg =>
      have he : s.erase.step .call = s.erase := if_neg hc
      rw [he, step, if_neg hc]
  case ret ok =>
    cases hp : s.pc
    case idle => simp only [step, erase, hp]
    case monitorCreate =>
      simp only [step, erase, hp]
      cases ok <;> rfl
    case node i c =>
      simp only [step, erase, hp]
      cases c
      case semCreate    => cases ok <;> rfl
      case threadCreate => cases ok <;> simp [assign, setNode, served]
      all_goals rfl

theorem erase_act (a : Action) : (s.act a).erase = (starts [a]).foldl step s.erase := by
  cases a
  case start a => exact erase_step a
  case wake    => exact erase_modify fun _ => rfl
  case take    => exact erase_modify node_take

-- The threads have no influence on how `app_can_start` proceeds.
theorem erase_run (as : List Action) : (as.foldl act .init).erase = (starts as).foldl step .init := by
  induction as using List.reverseRecOn
  case nil => rfl
  case append_singleton as a hi =>
    rw [List.foldl_concat, erase_act, hi, starts_concat, List.foldl_append]

-- Whenever the semaphore of the first node is created, the node does not have a receive thread yet: it
-- has not been started by an earlier call that failed afterwards.
def Orderly (os : List Step) : Prop :=
  ∀ l ok r, os = l ++ .ret ok :: r →
    (l.foldl step .init).pc = .node node1 .semCreate → node1 ∉ (l.foldl step .init).served

theorem Orderly.guarded {os : List Step} {as : List Action} {a : Action} (h : Orderly os)
    (hp : starts (as ++ [a]) <+: os) : a.Guarded (as.foldl act .init) := by
  cases a
  case take | wake => trivial
  case start a =>
    cases a
    case call => trivial
    case ret ok =>
      have ⟨r, hr⟩ := hp
      have he : os = starts as ++ .ret ok :: r := by rw [←hr, starts_concat, List.append_assoc]; rfl
      have hg := h _ ok r he
      rw [←erase_run, served_erase] at hg
      exact hg

theorem Orderly.inv {os : List Step} (h : Orderly os) (as : List Action) (hp : starts as <+: os) :
    Inv (as.foldl act .init) := by
  induction as using List.reverseRecOn
  case nil => exact .init
  case append_singleton as a hi =>
    have hl : starts as <+: os := .trans (starts_concat as a ▸ List.prefix_append ..) hp
    rw [List.foldl_concat]
    exact (hi hl).act (h.guarded hp)

-- A thread that calls `rt_sem_take` waits on a semaphore that has been created.
theorem Threads.waits_take {t : RxThread} (h : s.Threads) (hm : t ∈ s.rxThreads) :
    ∃ x, (s.take t).waits = some x ∧ x < s.sems := by
  cases hw : t.waits
  case none =>
    have ⟨x, hx⟩ := h.given t hm
    exact ⟨x, by simp [take, hw, hx], h.fresh _ x hx⟩
  case some x => exact ⟨x, by simp [take, hw], h.fresh _ x (h.sem t hm x hw)⟩

-- Another semaphore for the first node leaves its thread waiting on one that is not released any more.
theorem not_sound_of_served (h : s.Inv) (hp : s.pc = .node 0 .semCreate) (hs : 0 ∈ s.served)
    (ok : Bool) : ∃ n, ¬Sound ((s.act (.take n)).act (.start (.ret ok))) := by
  have ⟨t, hm, ht⟩ := List.mem_map.mp hs
  have ⟨n, hn⟩ := List.getElem?_of_mem hm
  have ⟨x, hw, hx⟩ := h.threads.waits_take hm
  have hmem : s.take t ∈ s.rxThreads.modify n s.take := List.mem_of_getElem? (i := n) (by simp [hn])
  have hnode : (s.take t).node = 0 := (node_take t).trans ht
  refine ⟨n, fun hs => ?_⟩
  have hi : ((s.act (.take n)).act (.start (.ret ok))).rxIndicate 0 = some x := by
    rw [←hnode]
    refine hs.sem _ ?_ x hw
    cases ok <;> simpa [act, step, hp, assign, setNode] using hmem
  cases ok
  case true =>
    have he : s.sems = x := by simpa [act, step, hp, assign, setNode, rxIndicate] using hi
    exact Nat.lt_irrefl _ <| he ▸ hx
  case false => simp [act, step, hp, assign, setNode, rxIndicate] at hi

theorem starts_map (os : List Step) : starts (os.map .start) = os := by
  simp [starts, List.filterMap_map]

theorem orderly_of_sound {os : List Step} (h : ∀ as, starts as <+: os → Sound (as.foldl act .init)) :
    Orderly os := by
  induction os using List.reverseRecOn
  case nil =>
    intro l ok r he
    simp at he
  case append_singleton os o hi =>
    have ho : Orderly os := hi fun as hp => h as <| hp.trans <| List.prefix_append ..
    intro l ok r he hp hs
    rcases Lts.append_cons_eq_concat he.symm with ⟨rfl, rfl, rfl⟩ | ⟨r', rfl, rfl⟩
    case inr => exact ho l ok r' rfl hp hs
    case inl =>
      have hinv := ho.inv (l.map .start) ⟨[], (List.append_nil _).trans (starts_map l)⟩
      have he := erase_run (l.map .start)
      rw [starts_map] at he
      rw [←he] at hp hs
      rw [served_erase] at hs
      have ⟨n, hn⟩ := not_sound_of_served hinv hp hs ok
      have hl : starts (l.map .start ++ [.take n, .start (.ret ok)]) = l ++ [.ret ok] := by
        simp [starts, List.filterMap_map]
      have hsound := h _ ⟨[], (List.append_nil _).trans hl⟩
      rw [List.foldl_append] at hsound
      exact hn hsound

theorem start_sound_iff (os : List Step) :
    (∀ as, starts as <+: os → Sound (as.foldl act .init)) ↔ Orderly os :=
  ⟨orderly_of_sound, fun h as hp => (h.inv as hp).threads.sound⟩

-- The first call starts the thread of `can0` and does not find `can2`, the second one finds both.
def retried : List Action :=
  .start .call :: List.replicate 8 (.start (.ret true)) ++ [.take 0, .start (.ret false)] ++
  .start .call :: List.replicate 8 (.start (.ret true))

theorem not_sound_retried : ¬Sound (retried.foldl act .init) := by
  intro h
  have hc : (retried.foldl act .init).served.count 0 = 2 := by decide
  have hr := h.rx 0
  rw [hc] at hr
  contradiction

end App.Can.Startup
