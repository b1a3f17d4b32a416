import DvrModel.App.UartCmd.Poll
import DvrModel.Svc.Lcd.Theorems.Home

open Svc.Lcd (HomeData Ui Update)
open Crash (Returns)

namespace App.UartCmd

theorem length_bcdToStr18 (raw : Octets 9) : (bcdToStr18 raw).length = 18 := by
  simp [bcdToStr18, Bytes.ofArray]

namespace SocStatusMsg

-- What the home page shows of a status message. The number of the driver fits as a whole.
def home (msg : SocStatusMsg) : HomeData where
  speedKmhX10    := msg.driverSpeed
  time           := msg.time
  driveTime      := msg.driveTime
  topStatusValue := msg.usedSatellite
  location       := msg.location
  cardId         := ⟨bcdToStr18 msg.driverNumber, by simp [length_bcdToStr18]⟩

theorem onHome_updates (msg : SocStatusMsg) (home : HomeData) :
    msg.updates.foldl Update.onHome home = msg.home := by
  have hc : Svc.Lcd.CardId.ofString (bcdToStr18 msg.driverNumber) = msg.home.cardId :=
    Subtype.ext <| List.take_of_length_le <| by simp [length_bcdToStr18]
  simp only [updates, List.foldl_cons, List.foldl_nil, Update.onHome, hc]
  rfl

theorem onTotal_of_mem {msg : SocStatusMsg} {a : Update} (h : a ∈ msg.updates) (total : UInt32 × UInt16) :
    a.onTotal total = total := by
  simp only [updates, List.mem_cons, List.not_mem_nil, or_false] at h
  rcases h with rfl | rfl | rfl | rfl | rfl | rfl <;> rfl

end SocStatusMsg

namespace Odometer

variable {o : Odometer} {speed : UInt16} {timestamp : UInt32}

def counters (o : Odometer) : UInt32 × UInt16 :=
  (o.odoKm, o.odoRemM)

-- One sample in steps is what it is as a whole.
theorem sample_eq_count : o.sample speed timestamp =
    if (o.count speed timestamp).2.isEmpty
    then pure (o.count speed timestamp).1
    else (o.count speed timestamp).1.saveStorage := by
  simp only [sample, count]
  split
  case isTrue => rfl
  case isFalse =>
    split
    case isTrue => rfl
    case isFalse => split <;> rfl

theorem updateTotalMileage_eq : updateTotalMileage o speed timestamp =
    (if o.storageLoaded then pure o else o.loadStorage) >>= (·.sample speed timestamp) := by
  rw [updateTotalMileage]
  split <;> rfl

theorem count_cases (o : Odometer) (speed : UInt16) (timestamp : UInt32) :
    (o.count speed timestamp).1.storageLoaded = o.storageLoaded ∧
    ((o.count speed timestamp).1.counters = o.counters ∧ (o.count speed timestamp).2 = [] ∨
      (o.count speed timestamp).2 = [.lcd (o.count speed timestamp).1.shown, .save]) := by
  simp only [count]
  split
  case isTrue => exact ⟨rfl, .inl ⟨rfl, rfl⟩⟩
  case isFalse =>
    split
    case isTrue => exact ⟨rfl, .inl ⟨rfl, rfl⟩⟩
    case isFalse =>
      split
      case isTrue => exact ⟨rfl, .inl ⟨rfl, rfl⟩⟩
      case isFalse => exact ⟨rfl, .inr rfl⟩

theorem returns_loadStorage : Returns (·.storageLoaded = true) o.loadStorage :=
  .bind_any fun _ => .ite (fun _ => .pure rfl) fun _ => .pure rfl

theorem returns_saveStorage :
    Returns (fun o' => o'.storageLoaded = o.storageLoaded ∧ o'.counters = o.counters) o.saveStorage := by
  refine .ite (fun _ => .bind_any fun _ => .ite (fun _ => ?_) fun _ => ?_) fun _ => ?_
  all_goals exact .pure ⟨rfl, rfl⟩

end Odometer

def Event.status? : Event → Option SocStatusMsg
  | frame f     => parseSocStatus f
  | forceFinish => none

namespace Job

-- What the rest of the work on a frame will leave on the home page, and on the page of the mileage.
def onHome (home : HomeData) : Job → HomeData
  | event e => e.status?.elim home SocStatusMsg.home
  | lcd a   => a.onHome home
  | _       => home

def onTotal (total : UInt32 × UInt16) : Job → UInt32 × UInt16
  | lcd a => a.onTotal total
  | _     => total

-- How much there is to do, at most.
def weight : Job → Nat
  | event _    => 10
  | sample _ _ => 3
  | save       => 1
  | lcd _      => 1

def Quiet (j : Job) : Prop :=
  ∀ total, j.onTotal total = total

def IsSample : Job → Bool
  | sample _ _ => true
  | _          => false

-- The jobs of `app_uart_cmd_update_total_mileage`.
def OfOdometer : Job → Prop
  | event _               => False
  | sample _ _            => True
  | save                  => True
  | lcd (.totalMileage ..) => True
  | lcd _                 => False

theorem onHome_odometer {j : Job} (h : j.OfOdometer) (home : HomeData) : j.onHome home = home := by
  cases j
  case event => exact absurd h id
  case lcd a =>
    cases a
    case totalMileage => rfl
    all_goals exact absurd h id
  all_goals rfl

theorem foldl_odometer {js : List Job} (h : ∀ j ∈ js, j.OfOdometer) (home : HomeData) :
    js.foldl onHome home = home := by
  induction js
  case nil => rfl
  case cons j js ih =>
    have ⟨hj, hjs⟩ := List.forall_mem_cons.mp h
    rw [List.foldl_cons, onHome_odometer hj, ih hjs]

theorem foldl_quiet {js : List Job} (h : ∀ j ∈ js, j.Quiet) (total : UInt32 × UInt16) :
    js.foldl onTotal total = total := by
  induction js
  case nil => rfl
  case cons j js ih =>
    have ⟨hj, hjs⟩ := List.forall_mem_cons.mp h
    rw [List.foldl_cons, hj, ih hjs]

theorem quiet_tail_append {js js' : List Job} (h : ∀ j ∈ js.tail, j.Quiet) (h' : ∀ j ∈ js', j.Quiet) :
    ∀ j ∈ (js ++ js').tail, j.Quiet := by
  cases js
  case nil => exact fun j hj => h' j <| List.mem_of_mem_tail hj
  case cons => exact List.forall_mem_append.mpr ⟨h, h'⟩

end Job

namespace Session

variable {s : Session} {e : Event} {f : Frame}

theorem text_cases (s : Session) (r : Assembly × Option LcdCall) : (s.text r).1.odometer = s.odometer ∧
    ((s.text r).2 = [] ∨ ∃ flag textType text len,
      (s.text r).2 = [.lcd <| .textMessage flag textType text len]) := by
  rw [text]
  split
  case isTrue => exact ⟨rfl, .inr ⟨_, _, _, _, rfl⟩⟩
  case isFalse => exact ⟨rfl, .inl rfl⟩

theorem status?_text (h : f.data.getD 2 0 = textFrameType) : parseSocStatus f = none := by
  have ht : Bytes.byteAt f.data 2 ≠ typeSocStatus := by
    rw [Bytes.byteAt, h]
    decide
  simp [parseSocStatus, ht]

-- A frame is either a text or a status, or it is of no concern.
theorem handle_cases (s : Session) (e : Event) : (s.handle e).1.odometer = s.odometer ∧
    (e.status? = none ∧ ((s.handle e).2 = [] ∨ ∃ flag textType text len,
      (s.handle e).2 = [.lcd <| .textMessage flag textType text len]) ∨
    ∃ msg, e.status? = some msg ∧
      (s.handle e).2 = .sample msg.driverSpeed msg.timestamp :: msg.updates.map .lcd) := by
  cases e
  case forceFinish =>
    have ⟨ho, ht⟩ := s.text_cases s.assembly.forceFinishTextFrame
    exact ⟨ho, .inl ⟨rfl, ht⟩⟩
  case frame f =>
    rw [handle, Event.status?]
    split
    case isTrue h =>
      have ⟨ho, ht⟩ := s.text_cases (s.assembly.parseTextFrame f)
      exact ⟨ho, .inl ⟨status?_text h, ht⟩⟩
    case isFalse =>
      split
      case h_1 hp => exact ⟨rfl, .inl ⟨hp, .inl rfl⟩⟩
      case h_2 msg hp => exact ⟨rfl, .inr ⟨msg, hp, rfl⟩⟩

theorem quiet_handle (s : Session) (e : Event) : ∀ j ∈ (s.handle e).2, j.Quiet := by
  intro j hj total
  rcases (s.handle_cases e).right with ⟨_, hn | ⟨_, _, _, _, ht⟩⟩ | ⟨msg, _, hs⟩
  case inl.inl =>
    rw [hn] at hj
    contradiction
  case inl.inr =>
    rw [ht, List.mem_singleton] at hj
    subst hj
    rfl
  case inr =>
    rw [hs] at hj
    rcases List.mem_cons.mp hj with rfl | hj
    case inl => rfl
    case inr =>
      have ⟨a, ha, he⟩ := List.mem_map.mp hj
      subst he
      exact SocStatusMsg.onTotal_of_mem ha total

theorem onHome_handle (s : Session) (e : Event) (home : HomeData) :
    (s.handle e).2.foldl Job.onHome home = Job.onHome home (.event e) := by
  rcases (s.handle_cases e).right with ⟨he, hn | ⟨_, _, _, _, ht⟩⟩ | ⟨msg, he, hs⟩
  case inl.inl =>
    rw [hn, Job.onHome, he]
    rfl
  case inl.inr =>
    rw [ht, Job.onHome, he]
    rfl
  case inr =>
    rw [hs, List.foldl_cons, List.foldl_map, Job.onHome, he]
    exact msg.onHome_updates home

theorem weight_handle (s : Session) (e : Event) :
    ((s.handle e).2.map Job.weight).sum < Job.weight (.event e) := by
  rcases (s.handle_cases e).right with ⟨_, hn | ⟨_, _, _, _, ht⟩⟩ | ⟨msg, _, hs⟩
  case inl.inl => simp [hn, Job.weight]
  case inl.inr => simp [ht, Job.weight]
  case inr => simp [hs, SocStatusMsg.updates, Job.weight]

end Session

namespace Dvr

variable {d d' : Dvr} {j : Job} {js new : List Job}

theorem of_access {x : Svc.Eeprom.Io Odometer} (h : d.access x = some d') : ∃ o device,
    (x.run d.lcd.device).1 = some o ∧ d' = { d.setOdometer o with lcd := { d.lcd with device } } := by
  rw [access] at h
  split at h
  case h_1 => contradiction
  case h_2 o device hr =>
    cases h
    exact ⟨o, device, by rw [hr], rfl⟩

-- The first sample waits for the counters to be loaded.
def unloaded (d : Dvr) : Nat :=
  if d.session.odometer.storageLoaded then 0 else 2

-- One of the jobs has been done. What the pages will show does not depend on how far the work is.
structure Did (d : Dvr) (j : Job) (d' : Dvr) (new : List Job) : Prop where
  service  : d'.service = d.service
  jobs     : d'.jobs = d.jobs
  starting : d'.starting = d.starting
  home     : new.foldl Job.onHome d'.lcd.ui.home = j.onHome d.lcd.ui.home
  total    : j.onTotal d.lcd.ui.total = d.session.odometer.counters →
    new.foldl Job.onTotal d'.lcd.ui.total = d'.session.odometer.counters
  quiet    : ∀ k ∈ new.tail, k.Quiet
  still    : j.Quiet → j.IsSample = false → d'.lcd.ui.total = d.lcd.ui.total ∧
    d'.session.odometer.counters = d.session.odometer.counters ∧ ∀ k ∈ new, k.Quiet
  odometer : j.OfOdometer → ∀ k ∈ new, k.OfOdometer
  less     : (new.map Job.weight).sum + d'.unloaded < j.weight + d.unloaded

theorem Did.event {e : Event} (h : d.job (.event e) = some (d', new)) : Did d (.event e) d' new := by
  cases h
  have ho := (d.session.handle_cases e).left
  have hq := d.session.quiet_handle e
  have hc : ((d.session.handle e).1.odometer).counters = d.session.odometer.counters := congrArg _ ho
  refine ⟨rfl, rfl, rfl, d.session.onHome_handle e _, fun ht => ?_,
    fun k hk => hq k <| List.mem_of_mem_tail hk, fun _ _ => ⟨rfl, hc, hq⟩, fun hn => absurd hn id, ?_⟩
  case refine_1 =>
    rw [Job.foldl_quiet hq, hc]
    exact ht
  case refine_2 =>
    have hl := d.session.weight_handle e
    have hu : ({ d with session := (d.session.handle e).1 } : Dvr).unloaded = d.unloaded := by
      rw [unloaded, unloaded, ho]
    rw [hu]
    exact Nat.add_lt_add_right hl _

theorem Did.lcd {a : Update} (h : d.job (.lcd a) = some (d', new)) : Did d (.lcd a) d' new := by
  cases h
  refine ⟨rfl, rfl, rfl, Ui.home_update, fun ht => ?_, ?_, fun hq _ => ?_, fun _ => ?_, ?_⟩
  case refine_1 => exact Ui.total_update.trans ht
  case refine_2 => simp
  case refine_3 => exact ⟨Ui.total_update.trans <| hq _, rfl, by simp⟩
  case refine_4 => simp
  case refine_5 => exact Nat.add_lt_add_right Nat.zero_lt_one _

theorem Did.save (h : d.job .save = some (d', new)) : Did d .save d' new := by
  obtain ⟨d₁, ha, he⟩ := Option.map_eq_some_iff.mp h
  cases he
  obtain ⟨o, device, hr, he⟩ := of_access ha
  obtain ⟨hl, hc⟩ := Odometer.returns_saveStorage _ _ hr
  subst he
  refine ⟨rfl, rfl, rfl, rfl, fun ht => ?_, ?_, fun _ _ => ?_, fun _ => ?_, ?_⟩
  case refine_1 => exact ht.trans hc.symm
  case refine_2 => simp
  case refine_3 => exact ⟨rfl, hc, by simp⟩
  case refine_4 => simp
  case refine_5 =>
    simp only [unloaded, setOdometer, hl, Job.weight, List.map_nil, List.sum_nil]
    omega

section Sample

variable {speed : UInt16} {timestamp : UInt32}

-- A sample is counted. If the page has to show something else, its update is the next job.
theorem Did.count (hs : d.session.odometer.storageLoaded = true)
    (h : d.job (.sample speed timestamp) = some (d', new)) : Did d (.sample speed timestamp) d' new := by
  rw [Dvr.job, if_pos hs] at h
  obtain ⟨hl, hc⟩ := d.session.odometer.count_cases speed timestamp
  generalize d.session.odometer.count speed timestamp = r at h hl hc
  obtain ⟨o, js⟩ := r
  simp only [Option.some.injEq, Prod.mk.injEq] at h hl hc
  obtain ⟨rfl, rfl⟩ := h
  have hu : (d.setOdometer o).unloaded = d.unloaded := by
    rw [unloaded, unloaded]
    exact congrArg (fun b : Bool => if b then 0 else 2) hl
  rcases hc with ⟨hc, hj⟩ | hj
  case inl =>
    cases hj
    refine ⟨rfl, rfl, rfl, rfl, fun ht => ht.trans hc.symm, ?_, fun _ => nofun,
      ?_, ?_⟩
    case refine_1 => simp
    case refine_2 => simp
    case refine_3 =>
      rw [hu]
      exact Nat.add_lt_add_right (by simp [Job.weight]) _
  case inr =>
    cases hj
    refine ⟨rfl, rfl, rfl, rfl, fun _ => rfl, ?_, fun _ => nofun, ?_, ?_⟩
    case refine_1 => exact List.forall_mem_singleton.mpr fun _ => rfl
    case refine_2 => simp [Job.OfOdometer, Odometer.shown]
    case refine_3 =>
      rw [hu]
      exact Nat.add_lt_add_right (by simp [Job.weight]) _

theorem Did.load (hs : ¬d.session.odometer.storageLoaded = true)
    (h : d.job (.sample speed timestamp) = some (d', new)) : Did d (.sample speed timestamp) d' new := by
  rw [Dvr.job, if_neg hs] at h
  obtain ⟨d₁, ha, he⟩ := Option.map_eq_some_iff.mp h
  cases he
  obtain ⟨o, device, hr, he⟩ := of_access ha
  have hl := Odometer.returns_loadStorage _ _ hr
  subst he
  refine ⟨rfl, rfl, rfl, rfl, fun _ => rfl, ?_, fun _ => nofun, fun _ => ?_, ?_⟩
  case refine_1 => exact List.forall_mem_singleton.mpr fun _ => rfl
  case refine_2 => simp [Job.OfOdometer, Odometer.shown]
  case refine_3 =>
    simp only [unloaded, setOdometer, hl, hs, Bool.false_eq_true, Job.weight, List.map_cons, List.sum_cons,
      List.map_nil, List.sum_nil, if_true, if_false]
    omega

end Sample

theorem Did.job (h : d.job j = some (d', new)) : Did d j d' new := by
  cases j
  case event => exact Did.event h
  case lcd   => exact Did.lcd h
  case save  => exact Did.save h
  case sample =>
    by_cases hs : d.session.odometer.storageLoaded = true
    case pos => exact Did.count hs h
    case neg => exact Did.load hs h

end Dvr

end App.UartCmd
