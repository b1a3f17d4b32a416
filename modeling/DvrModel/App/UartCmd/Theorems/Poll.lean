import DvrModel.App.UartCmd.Theorems.Jobs
import DvrModel.App.UartCmd.Theorems.Service
import DvrModel.App.UartCmd.Theorems.Stream

open Svc.Lcd (HomeData Ui Update)
open Svc.Eeprom (Device)
open App (VehicleInputs)

namespace App.UartCmd

namespace Dvr

variable {d d' : Dvr} {j : Job} {js new : List Job} {h h' : Service.History} {home : HomeData}
  {as : List Action}


-- What happens to the bytes.
def observe (h : Service.History) (d : Dvr) : Action → Service.History
  | .rx size fifo => h.observe d.service (.rx size fifo)
  | .uart         => if d.jobs.isEmpty then h.observe d.service .thread else h
  | _             => h

def run (d : Dvr) (h : Service.History) : List Action → Option (Dvr × Service.History)
  | []      => some (d, h)
  | a :: as =>
    match d.act a with
    | none    => none
    | some d' => run d' (observe h d a) as

-- The thread of the service takes up a sample while the first one is still being counted.
def overlaps (d : Dvr) : Action → Bool
  | .uart => d.jobs.head?.any Job.IsSample && !d.starting.isEmpty
  | _     => false

-- The two threads are never in `app_uart_cmd_update_total_mileage` at once.
def alone (d : Dvr) : List Action → Bool
  | []      => true
  | a :: as => !d.overlaps a && (d.act a).all fun d' => d'.alone as

-- The home page shows the latest status, but for the calls of the display that are still to come.
structure Inv (home : HomeData) (d : Dvr) (h : Service.History) : Prop where
  home     : d.jobs.foldl Job.onHome d.lcd.ui.home =
    (h.events.filterMap Event.status?).getLast?.elim home SocStatusMsg.home
  starting : ∀ j ∈ d.starting, j.OfOdometer
  counted  : d.service.Counted
  service  : h.forgotten = 0 → Service.Inv d.service h

-- In the same way, the page of the mileage shows what the odometer has counted.
structure Metered (d : Dvr) : Prop where
  total : (d.starting ++ d.jobs).foldl Job.onTotal d.lcd.ui.total = d.session.odometer.counters
  quiet : ∀ j ∈ (d.starting ++ d.jobs).tail, j.Quiet

theorem Inv.init (configCache : ConfigStatus) (tick : UInt32) (inputs : VehicleInputs) (device : Device) :
    Inv (Ui.init configCache).home (.init configCache tick inputs device) .init where
  home     := rfl
  starting := List.forall_mem_singleton.mpr trivial
  counted  := ⟨Nat.zero_le _, fun _ _ hc => by cases hc⟩
  service  := fun _ => .init

theorem Metered.init (configCache : ConfigStatus) (tick : UInt32) (inputs : VehicleInputs) (device : Device) :
    Metered (.init configCache tick inputs device) where
  total := rfl
  quiet := by simp [Dvr.init]

theorem uart_cons (hj : d.jobs = j :: js) (hu : d.uart = some d') :
    ∃ d₁ new, Did d j d₁ new ∧ d' = { d₁ with jobs := new ++ js } := by
  rw [Dvr.uart, hj] at hu
  obtain ⟨⟨d₁, new⟩, hd, he⟩ := Option.map_eq_some_iff.mp hu
  exact ⟨d₁, new, .job hd, he.symm⟩

theorem start_cons (hj : d.starting = j :: js) (hu : d.start = some d') :
    ∃ d₁ new, Did d j d₁ new ∧ d' = { d₁ with starting := new ++ js } := by
  rw [Dvr.start, hj] at hu
  obtain ⟨⟨d₁, new⟩, hd, he⟩ := Option.map_eq_some_iff.mp hu
  exact ⟨d₁, new, .job hd, he.symm⟩

-- The steps that the thread takes with the bytes.
theorem Inv.thread (hi : Inv home d h) (hj : d.jobs = []) :
    Inv home { d with service := d.service.thread.1, jobs := (d.service.thread.2.map .event).toList }
      (h.observe d.service .thread) where
  home     := by
    have hh := hi.home
    rw [hj] at hh
    show List.foldl _ d.lcd.ui.home _ = ((h.events ++ _).filterMap _).getLast?.elim _ _
    rw [List.filterMap_append]
    cases he : d.service.thread.2
    case none => simpa using hh
    case some e =>
      cases hs : e.status?
      case none => simpa [Job.onHome, hs] using hh
      case some msg => simp [Job.onHome, hs]
  starting := hi.starting
  counted  := hi.counted.act .thread
  service  := fun hf => (hi.service hf).thread

theorem Inv.uart (hi : Inv home d h) (hu : d.uart = some d') : Inv home d' (observe h d .uart) := by
  cases hj : d.jobs
  case nil =>
    rw [Dvr.uart, hj] at hu
    cases hu
    rw [observe, hj]
    exact hi.thread hj
  case cons j js =>
    obtain ⟨d₁, new, hd, he⟩ := uart_cons hj hu
    have hh := hi.home
    subst he
    rw [observe, hj]
    rw [hj, List.foldl_cons, ←hd.home, ←List.foldl_append] at hh
    exact ⟨hh, hd.starting ▸ hi.starting, hd.service ▸ hi.counted, hd.service ▸ hi.service⟩

-- The first sample is nothing to the home page.
theorem Inv.start (hi : Inv home d h) (hu : d.start = some d') : Inv home d' h := by
  cases hj : d.starting
  case nil =>
    rw [Dvr.start, hj] at hu
    cases hu
    exact hi
  case cons j js =>
    obtain ⟨d₁, new, hd, he⟩ := start_cons hj hu
    obtain ⟨ho, hs⟩ := List.forall_mem_cons.mp <| hj ▸ hi.starting
    have hn := hd.odometer ho
    have hh : d₁.lcd.ui.home = d.lcd.ui.home := by
      rw [←Job.foldl_odometer hn d₁.lcd.ui.home, hd.home, Job.onHome_odometer ho]
    subst he
    refine ⟨?_, List.forall_mem_append.mpr ⟨hn, hs⟩, hd.service ▸ hi.counted, hd.service ▸ hi.service⟩
    show d₁.jobs.foldl _ d₁.lcd.ui.home = _
    rw [hh, hd.jobs]
    exact hi.home

-- A step of the LCD thread or of its surroundings.
theorem Inv.lcd {a : Svc.Lcd.Action} (hi : Inv home d h) (ha : ∀ b, a ≠ .update b)
    (hl : (d.lcd.step a).map (fun lcd => { d with lcd }) = some d') : Inv home d' h := by
  have ⟨lcd, hs, he⟩ := Option.map_eq_some_iff.mp hl
  have hk := Svc.Lcd.Kept.step ⟨rfl, rfl⟩ hs ha
  subst he
  exact ⟨hk.home ▸ hi.home, hi.starting, hi.counted, hi.service⟩

theorem Inv.rx {size : Nat} {fifo : List UInt8} (hi : Inv home d h) :
    Inv home { d with service := d.service.rxIndicate size fifo } (observe h d (.rx size fifo)) where
  home     := hi.home
  starting := hi.starting
  counted  := hi.counted.act (.rx size fifo)
  service  := by
    intro hf
    have hz : h.forgotten = 0 :=
      Nat.le_zero.mp <| hf ▸ Service.forgotten_le (d.service, h) [.rx size fifo]
    exact (hi.service hz).rx <| (hi.counted.act (.rx size fifo)).held_le hf

theorem Inv.act {a : Action} (hi : Inv home d h) (ha : d.act a = some d') : Inv home d' (observe h d a) := by
  cases a
  case rx size fifo =>
    cases ha
    exact hi.rx
  case uart => exact hi.uart ha
  case start => exact hi.start ha
  case lcd => exact hi.lcd (a := .lcd) (by simp) ha
  case post k => exact hi.lcd (a := .post k) (by simp) ha
  case tick => exact hi.lcd (a := .tick) (by simp) ha
  case inputs io => exact hi.lcd (a := .inputs io) (by simp) ha

theorem Inv.run (hi : Inv home d h) (hr : Dvr.run d h as = some (d', h')) : Inv home d' h' := by
  induction as generalizing d h
  case nil =>
    cases hr
    exact hi
  case cons a as ih =>
    rw [Dvr.run] at hr
    split at hr
    case h_1 => contradiction
    case h_2 ha => exact ih (hi.act ha) hr

-- The job at the head of all that is to be done is the only one that may change the page of the mileage.
theorem Did.metered (hd : Did d j d' new) (hq : ∀ k ∈ js, k.Quiet)
    (ht : (j :: js).foldl Job.onTotal d.lcd.ui.total = d.session.odometer.counters) :
    (new ++ js).foldl Job.onTotal d'.lcd.ui.total = d'.session.odometer.counters ∧
    ∀ k ∈ (new ++ js).tail, k.Quiet := by
  rw [List.foldl_cons, Job.foldl_quiet hq] at ht
  rw [List.foldl_append, Job.foldl_quiet hq]
  exact ⟨hd.total ht, Job.quiet_tail_append hd.quiet hq⟩

theorem Metered.thread (hm : Metered d) (hj : d.jobs = []) {s : Service} {e : Option Event} :
    Metered { d with service := s, jobs := (e.map .event).toList } := by
  have ⟨ht, hq⟩ := hm
  have he : ∀ j ∈ (e.map Job.event).toList, j.Quiet := by
    intro j hj
    cases e
    case none => simp at hj
    case some e =>
      obtain rfl : j = .event e := by simpa using hj
      exact fun _ => rfl
  rw [hj, List.append_nil] at ht hq
  refine ⟨?_, Job.quiet_tail_append hq he⟩
  rw [List.foldl_append, Job.foldl_quiet he]
  exact ht

theorem Metered.uart (hm : Metered d) (ho : d.overlaps .uart = false) (hu : d.uart = some d') :
    Metered d' := by
  cases hj : d.jobs
  case nil =>
    rw [Dvr.uart, hj] at hu
    cases hu
    exact hm.thread hj
  case cons j js =>
    obtain ⟨d₁, new, hd, he⟩ := uart_cons hj hu
    have ⟨ht, hq⟩ := hm
    subst he
    rw [hj] at ht hq
    cases hs : d.starting
    case nil =>
      rw [hs, List.nil_append] at ht hq
      have hjs : ∀ k ∈ js, k.Quiet := hq
      have ⟨ht, hq⟩ := hd.metered hjs ht
      have he : d₁.starting ++ (new ++ js) = new ++ js := by rw [hd.starting, hs, List.nil_append]
      rw [←he] at ht hq
      exact ⟨ht, hq⟩
    case cons k ks =>
      -- The thread is somewhere else, and what it does there does not concern the odometer.
      have hn : j.IsSample = false := by simpa [overlaps, hj, hs] using ho
      rw [hs, List.cons_append, List.tail_cons] at hq
      obtain ⟨hks, hjs⟩ := List.forall_mem_append.mp hq
      obtain ⟨hqj, hjs⟩ := List.forall_mem_cons.mp hjs
      obtain ⟨ht', hc', hnew⟩ := hd.still hqj hn
      have hr : ∀ k ∈ ks ++ (new ++ js), k.Quiet :=
        List.forall_mem_append.mpr ⟨hks, List.forall_mem_append.mpr ⟨hnew, hjs⟩⟩
      rw [hs, List.cons_append, List.foldl_cons, Job.foldl_quiet hq] at ht
      refine ⟨?_, ?_⟩
      case refine_1 =>
        show (d₁.starting ++ (new ++ js)).foldl _ d₁.lcd.ui.total = d₁.session.odometer.counters
        rw [hd.starting, hs, List.cons_append, List.foldl_cons, Job.foldl_quiet hr, ht', hc', ht]
      case refine_2 =>
        show ∀ k ∈ (d₁.starting ++ (new ++ js)).tail, k.Quiet
        rw [hd.starting, hs, List.cons_append, List.tail_cons]
        exact hr

theorem Metered.start (hm : Metered d) (hu : d.start = some d') : Metered d' := by
  cases hj : d.starting
  case nil =>
    rw [Dvr.start, hj] at hu
    cases hu
    exact hm
  case cons j js =>
    obtain ⟨d₁, new, hd, he⟩ := start_cons hj hu
    have ⟨ht, hq⟩ := hm
    subst he
    rw [hj, List.cons_append] at ht hq
    have hjs : ∀ k ∈ js ++ d.jobs, k.Quiet := hq
    have ⟨ht, hq⟩ := hd.metered hjs ht
    have he : new ++ js ++ d₁.jobs = new ++ (js ++ d.jobs) := by rw [hd.jobs, List.append_assoc]
    exact ⟨he ▸ ht, he ▸ hq⟩

theorem Metered.lcd {a : Svc.Lcd.Action} (hm : Metered d) (ha : ∀ b, a ≠ .update b)
    (hl : (d.lcd.step a).map (fun lcd => { d with lcd }) = some d') : Metered d' := by
  have ⟨lcd, hs, he⟩ := Option.map_eq_some_iff.mp hl
  have hk := Svc.Lcd.Kept.step ⟨rfl, rfl⟩ hs ha
  subst he
  exact ⟨hk.total ▸ hm.total, hm.quiet⟩

theorem Metered.act {a : Action} (hm : Metered d) (ho : d.overlaps a = false) (ha : d.act a = some d') :
    Metered d' := by
  cases a
  case rx =>
    cases ha
    exact ⟨hm.total, hm.quiet⟩
  case uart => exact hm.uart ho ha
  case start => exact hm.start ha
  case lcd => exact hm.lcd (a := .lcd) (by simp) ha
  case post k => exact hm.lcd (a := .post k) (by simp) ha
  case tick => exact hm.lcd (a := .tick) (by simp) ha
  case inputs io => exact hm.lcd (a := .inputs io) (by simp) ha

theorem alone_cons {a : Action} (ha : d.act a = some d') (hl : d.alone (a :: as)) :
    d.overlaps a = false ∧ d'.alone as := by
  simpa [alone, ha] using hl

theorem Metered.run (hm : Metered d) (hl : d.alone as) (hr : Dvr.run d h as = some (d', h')) :
    Metered d' := by
  induction as generalizing d h
  case nil =>
    cases hr
    exact hm
  case cons a as ih =>
    rw [Dvr.run] at hr
    split at hr
    case h_1 => contradiction
    case h_2 ha =>
      have ⟨ho, hl⟩ := alone_cons ha hl
      exact ih (hm.act ho ha) hl hr

-- When the first sample has been counted, the thread of the service is alone from then on.
theorem Metered.run_uart {n : Nat} (hm : Metered d) (hs : d.starting = [])
    (hr : Dvr.run d h (List.replicate n .uart) = some (d', h')) : Metered d' ∧ d'.starting = [] := by
  induction n generalizing d h
  case zero =>
    cases hr
    exact ⟨hm, hs⟩
  case succ n ih =>
    rw [List.replicate_succ, Dvr.run, Dvr.act] at hr
    split at hr
    case h_1 => contradiction
    case h_2 d₁ hu =>
      have ho : d.overlaps .uart = false := by simp [overlaps, hs]
      refine ih (hm.uart ho hu) ?_ hr
      cases hj : d.jobs
      case nil =>
        rw [Dvr.uart, hj] at hu
        cases hu
        exact hs
      case cons j js =>
        obtain ⟨d₂, new, hd, he⟩ := uart_cons hj hu
        subst he
        exact hd.starting.trans hs

def work (d : Dvr) : Nat :=
  20 * d.service.work + (d.jobs.map Job.weight).sum + d.unloaded

def AtRest (d : Dvr) : Prop :=
  d.service.AtRest ∧ d.jobs = []

-- Left alone, the thread makes progress until it is at rest.
theorem work_uart (hi : Inv home d h) (hf : h.forgotten = 0) (hr : ¬d.AtRest) (hu : d.uart = some d') :
    d'.work < d.work := by
  cases hj : d.jobs
  case nil =>
    rw [Dvr.uart, hj] at hu
    cases hu
    have hl := Service.work_thread (hi.service hf) fun ha => hr ⟨ha, hj⟩
    have hw : ((d.service.thread.2.map Job.event).toList.map Job.weight).sum ≤ 10 := by
      cases d.service.thread.2 <;> simp [Job.weight]
    simp only [work, unloaded, hj, List.map_nil, List.sum_nil]
    omega
  case cons j js =>
    obtain ⟨d₁, new, hd, he⟩ := uart_cons hj hu
    have hl := hd.less
    subst he
    show 20 * d₁.service.work + ((new ++ js).map Job.weight).sum + d₁.unloaded < _
    rw [work, hj, hd.service, List.map_append, List.sum_append, List.map_cons, List.sum_cons]
    omega

theorem Inv.rests (hi : Inv home d h) (hf : h.forgotten = 0) :
    ∃ n, ∀ d' h', Dvr.run d h (List.replicate n .uart) = some (d', h') →
      d'.AtRest ∧ Inv home d' h' ∧ h'.forgotten = 0 ∧ h'.accepted = h.accepted := by
  induction hw : d.work using Nat.strongRecOn generalizing d h
  case ind w ih =>
    by_cases hr : d.AtRest
    case pos =>
      refine ⟨0, fun d' h' he => ?_⟩
      cases he
      exact ⟨hr, hi, hf, rfl⟩
    case neg =>
      cases hu : d.uart
      case none =>
        refine ⟨1, fun d' h' he => ?_⟩
        simp [Dvr.run, Dvr.act, hu] at he
      case some d₁ =>
        have ho : (observe h d .uart).forgotten = h.forgotten ∧ (observe h d .uart).accepted = h.accepted := by
          rw [observe]
          split <;> exact ⟨rfl, rfl⟩
        have hl := work_uart hi hf hr hu
        have ⟨n, hn⟩ := ih _ (hw ▸ hl) (hi.uart hu) (ho.left.trans hf) rfl
        refine ⟨n + 1, fun d' h' he => ?_⟩
        rw [List.replicate_succ, Dvr.run, Dvr.act, hu] at he
        have ⟨ha, hi', hf', hc⟩ := hn d' h' he
        exact ⟨ha, hi', hf', hc.trans ho.right⟩

section Starting

variable {x : Svc.Eeprom.Io Odometer} {device : Device} {speed : UInt16} {timestamp : UInt32} {n : Nat}

-- What a computation of the odometer leaves behind, unless the power is lost.
def outcome (x : Svc.Eeprom.Io Odometer) (device : Device) : Option (Odometer × Device) :=
  (x.run device).1.map fun o => (o, (x.run device).2)

def mileage (d : Dvr) : Odometer × Device :=
  (d.session.odometer, d.lcd.device)

theorem map_access : (d.access x).map mileage = outcome x d.lcd.device := by
  rw [access, outcome]
  split
  case h_1 hx => simp [hx]
  case h_2 hx => simp [hx, mileage, setOdometer]

theorem run_start : run d h (List.replicate (n + 1) .start) =
    d.start.bind fun d' => run d' h (List.replicate n .start) := by
  rw [List.replicate_succ, run, act]
  cases d.start <;> rfl

theorem run_started (hs : d.starting = []) : run d h (List.replicate n .start) = some (d, h) := by
  induction n
  case zero => rfl
  case succ n hi =>
    rw [run_start, start, hs]
    exact hi

theorem start_lcd {a : Update} (hs : d.starting = .lcd a :: js) :
    d.start = some { d with starting := js, lcd := { d.lcd with ui := d.lcd.ui.update a } } := by
  rw [start, hs]
  rfl

theorem run_save (hs : d.starting = [.save]) :
    (run d h (List.replicate (n + 1) .start)).map (·.1.mileage) =
      outcome d.session.odometer.saveStorage d.lcd.device := by
  rw [run_start, start, hs, ←map_access]
  simp only [Dvr.job, Option.map_map]
  cases d.access d.session.odometer.saveStorage
  case none => rfl
  case some d' => exact congrArg _ <| run_started rfl

theorem run_count (hs : d.starting = [.sample speed timestamp])
    (hl : d.session.odometer.storageLoaded = true) :
    (run d h (List.replicate (n + 3) .start)).map (·.1.mileage) =
      outcome (d.session.odometer.sample speed timestamp) d.lcd.device := by
  rw [run_start, start, hs, Odometer.sample_eq_count]
  simp only [Dvr.job, if_pos hl]
  rcases (d.session.odometer.count_cases speed timestamp).right with ⟨_, hj⟩ | hj
  case inl =>
    rw [hj]
    exact congrArg _ <| run_started rfl
  case inr =>
    rw [hj, Option.map_some, Option.bind_some, run_start (n := n + 1), start_lcd rfl]
    exact run_save rfl

-- The starting thread does step by step what `app_uart_cmd_update_total_mileage` does as a whole.
theorem run_sample (hs : d.starting = [.sample speed timestamp]) :
    (run d h (List.replicate (n + 5) .start)).map (·.1.mileage) =
      outcome (updateTotalMileage d.session.odometer speed timestamp) d.lcd.device := by
  rw [Odometer.updateTotalMileage_eq]
  by_cases hl : d.session.odometer.storageLoaded = true
  case pos =>
    rw [if_pos hl]
    exact run_count (n := n + 2) hs hl
  case neg =>
    rw [if_neg hl, run_start, start, hs]
    simp only [Dvr.job, if_neg hl]
    rcases hx : d.session.odometer.loadStorage.run d.lcd.device with ⟨_ | o, device⟩
    case none =>
      have ha : d.access d.session.odometer.loadStorage = none := by rw [access, hx]
      rw [ha, outcome, Crash.run_bind_none hx]
      rfl
    case some =>
      have ha : d.access d.session.odometer.loadStorage =
          some { d.setOdometer o with lcd := { d.lcd with device } } := by rw [access, hx]
      have ho : o.storageLoaded = true := Odometer.returns_loadStorage _ _ (by rw [hx])
      rw [ha, outcome, Crash.run_bind_some hx]
      simp only [Option.map_some, Option.bind_some]
      rw [run_start (n := n + 3), start_lcd rfl]
      exact run_count rfl ho

end Starting

-- When the thread is at rest, the frames are those of the messages.
theorem events_eq {s : Service} {ms : List Message} (hi : Service.Inv s h) (hr : s.AtRest)
    (hf : h.forgotten = 0) (hm : h.accepted = Message.encode ms) :
    h.events = ms.map (.frame ·.frame) := by
  have ⟨stuck, ha, hl, hp⟩ := hi.at_rest hr
  rw [List.eq_nil_of_length_eq_zero <| hl.trans hf, List.append_nil, hm] at ha
  have hc := (Parser.Rep.idle (p := .init) rfl).feed h.popped
  rw [hp, ←ha, Message.feed_encode] at hc
  exact hc.left

-- From the bytes on the wire to the pages: whatever the interrupts, the keys, the LCD thread and the memory
-- do, when the thread of the service has come to rest, the home page has the data of the latest status that
-- has been sent. Texts in between do not matter. If the first sample has been counted before the thread took
-- up one of its own, the page of the mileage has what the odometer has counted.
theorem shows_latest_status {configCache : ConfigStatus} {tick : UInt32} {inputs : VehicleInputs}
    {device : Device} {as : List Action} {ms : List Message} {d : Dvr} {h : Service.History}
    (hr : run (.init configCache tick inputs device) .init as = some (d, h)) (hf : h.forgotten = 0)
    (hm : h.accepted = Message.encode ms) :
    ∃ n, ∀ d' h', run d h (List.replicate n .uart) = some (d', h') → d'.AtRest ∧
      d'.lcd.ui.home = (ms.filterMap (parseSocStatus ·.frame)).getLast?.elim (Ui.init configCache).home
        SocStatusMsg.home ∧
      ((init configCache tick inputs device).alone as → d.starting = [] →
        d'.lcd.ui.total = d'.session.odometer.counters) := by
  have hi := (Inv.init configCache tick inputs device).run hr
  have ⟨n, hn⟩ := hi.rests hf
  refine ⟨n, fun d' h' hr' => ?_⟩
  have ⟨ha, hi', hf', hc⟩ := hn d' h' hr'
  have hh := hi'.home
  rw [ha.right, events_eq (hi'.service hf') ha.left hf' (hc.trans hm), List.filterMap_map] at hh
  refine ⟨ha, hh, fun hl hs => ?_⟩
  have ⟨⟨ht, _⟩, hs'⟩ := ((Metered.init configCache tick inputs device).run hl hr).run_uart hs hr'
  rwa [hs', ha.right] at ht

-- The state of the cameras, the number of the driver and so on, up to the longitude.
def atDepot : List UInt8 := [
  0xA5, 0x40, 0x11, 0x01, 0x05, 0x19, 0x90, 0x03, 0x07, 0x21, 0x4A, 0x00, 0x10, 0x00, 0x00,
  0x00, 0x08, 0x00, 0x00, 0x55, 0x0E, 0x00, 0x00, 0x1F, 0x01, 0x03, 0x08, 0x00, 0x01, 0x03,
  0x08, 0x00, 0x00, 0x01, 0x0C, 0x12, 0x34, 0x01, 0x02, 0x56, 0x78, 0x03, 0x04]

def statusBytes (timestamp : UInt32) (speed : UInt16) : List UInt8 :=
  atDepot ++ [timestamp.toUInt8, (timestamp >>> 8).toUInt8, (timestamp >>> 16).toUInt8,
    (timestamp >>> 24).toUInt8, speed.toUInt8, (speed >>> 8).toUInt8] ++ List.replicate 38 0x54

theorem length_statusBytes {timestamp : UInt32} {speed : UInt16} :
    (statusBytes timestamp speed).length ≤ 249 := by
  simp [statusBytes, atDepot]

def driving (timestamp : UInt32) (speed : UInt16) : Message where
  type      := typeSocStatus
  payload   := statusBytes timestamp speed
  known     := isKnownType_status
  length_le := length_statusBytes

def greeting : List UInt8 := [1, 0x0A, 1, 0xC4, 0xE3, 0xBA, 0xC3]

theorem length_greeting : greeting.length ≤ 249 := by
  decide

def greet : Message where
  type      := textFrameType
  payload   := greeting
  known     := isKnownType_text
  length_le := length_greeting

def sent : List Message :=
  [driving 1700000000 300, greet, driving 1700000004 36000]

def parked : Dvr :=
  .init .init 0 ⟨⟨0, 0⟩, fun _ => 0⟩ Svc.Storage.blank

-- The first status comes while the first sample is being counted. It is shown, the page is turned by a key
-- and the ignition comes on before the rest of the messages arrives, which the thread has only begun with.
def journey : List Action :=
  List.flatten [
    [.rx 93 <| Message.encode [driving 1700000000 300], .start, .post .s3],
    List.replicate 5 .lcd,
    [.start, .start, .tick],
    List.replicate 383 .uart,
    [.inputs ⟨⟨1, 0⟩, fun _ => 1⟩],
    List.replicate 6 .lcd,
    [.rx 106 <| Message.encode [greet, driving 1700000004 36000]],
    List.replicate 60 .uart,
    List.replicate 8 .lcd]

def arrived (r : Dvr × Service.History) : Bool :=
  r.1.starting.isEmpty && r.2.forgotten == 0 && r.2.accepted == Message.encode sent

theorem any_arrived : (run parked .init journey).any arrived = true := by
  decide +kernel

theorem alone_journey : parked.alone journey = true := by
  decide +kernel

theorem shows_latest_status_journey : ∃ d h, run parked .init journey = some (d, h) ∧
    ∃ n, ∀ d' h', run d h (List.replicate n .uart) = some (d', h') → d'.AtRest ∧
      d'.lcd.ui.home = (sent.filterMap (parseSocStatus ·.frame)).getLast?.elim (Ui.init .init).home
        SocStatusMsg.home ∧
      d'.lcd.ui.total = d'.session.odometer.counters := by
  have ⟨⟨d, h⟩, hr, ha⟩ := (Option.any_eq_true _ _).mp any_arrived
  obtain ⟨⟨hs, hf⟩, hm⟩ : (d.starting = [] ∧ h.forgotten = 0) ∧ h.accepted = Message.encode sent := by
    simpa [arrived] using ha
  have ⟨n, hn⟩ := shows_latest_status hr hf hm
  refine ⟨d, h, hr, n, fun d' h' hr' => ?_⟩
  have ⟨hrest, hhome, htotal⟩ := hn d' h' hr'
  exact ⟨hrest, hhome, htotal alone_journey hs⟩

end Dvr

end App.UartCmd
