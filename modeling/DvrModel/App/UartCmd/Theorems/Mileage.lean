import DvrModel.Lib.Run
import DvrModel.App.UartCmd.Mileage
import DvrModel.Svc.Storage.Theorems.Save

open Crash (wp)
open Svc.Storage Svc.Eeprom

-- The distance in meters.
def Svc.Storage.Mileage.total (m : Mileage) : Nat :=
  1000 * m.odoKm.toNat + m.odoRemM.toNat

namespace App.UartCmd

-- The stored mileage does not get lost and does not decrease.
def Grows (d d' : Device) : Prop :=
  ∀ m, mileage.stored d = some m → ∃ m', mileage.stored d' = some m' ∧ m.total ≤ m'.total

namespace Grows

variable {d d₁ d₂ : Device}

theorem of_stored_eq (h : mileage.stored d₁ = mileage.stored d) : Grows d d₁ :=
  fun m hm => ⟨m, h.trans hm, Nat.le_refl _⟩

theorem of_mem_eq (h : d₁.mem = d.mem) : Grows d d₁ :=
  of_stored_eq <| Layout.stored_congr h

theorem trans (h₁ : Grows d d₁) (h₂ : Grows d₁ d₂) : Grows d d₂ := by
  intro m hm
  have ⟨m₁, hm₁, hle₁⟩ := h₁ m hm
  have ⟨m₂, hm₂, hle₂⟩ := h₂ m₁ hm₁
  exact ⟨m₂, hm₂, Nat.le_trans hle₁ hle₂⟩

end Grows

namespace Odometer

variable {o o' : Odometer} {d d' : Device} {speed : UInt16} {timestamp deltaSec : UInt32}

def total (o : Odometer) : Nat :=
  1000 * o.odoKm.toNat + o.odoRemM.toNat

-- `odo_km` does not wrap.
def NoWrap (o : Odometer) (speed : UInt16) (deltaSec : UInt32) : Prop :=
  o.odoKm.toNat + (o.totalM speed deltaSec).toNat / 1000 < 2 ^ 32

theorem totalM_toNat (o : Odometer) (speed : UInt16) (deltaSec : UInt32) :
    (o.totalM speed deltaSec).toNat =
    o.odoRemM.toNat + (o.meterNum speed deltaSec).toNat / 36 := by
  have h₁ := o.odoRemM.toNat_lt
  have h₂ := (o.meterNum speed deltaSec).toNat_lt
  simp [totalM]
  omega

-- Without a wrap no meter is lost, even if the loaded `odo_rem_m` is a kilometer or more.
theorem total_travel (h : o.NoWrap speed deltaSec) :
    (o.travel speed deltaSec).total = o.total + (o.meterNum speed deltaSec).toNat / 36 := by
  have ht := o.totalM_toNat speed deltaSec
  simp only [NoWrap] at h
  simp [total, travel]
  omega

-- What holds between two samples: the odometer has counted at least what the memory holds. Without the
-- bus it has not seen the memory, but then it does not write to it either.
structure Covers (o : Odometer) (d : Device) : Prop where
  loaded   : o.hasLastSample = true → o.storageLoaded = true
  total_le : o.storageLoaded = true → d.bus = true →
    ∀ m, mileage.stored d = some m → m.total ≤ o.total

theorem Covers.init : Covers .init d :=
  ⟨nofun, nofun⟩

-- The load of this sample fails although there is something to load.
structure Blind (o : Odometer) (d : Device) : Prop where
  notLoaded : o.storageLoaded = false
  bus       : d.bus = true
  read      : d.readReply = .nack
  stored    : ∃ m, mileage.stored d = some m ∧ 0 < m.total

-- The result of `loadStorage` for a load that delivers `m`.
def loadedFrom (o : Odometer) (m : Mileage) : Odometer :=
  { o with
    odoKm          := m.odoKm
    odoRemM        := m.odoRemM
    lastSavedOdoKm := m.odoKm
    storageLoaded  := true }

-- The load of the mileage always reports success.
theorem ofRead_mileage : (mileage.ofRead bs).1 = true := by
  cases bs
  case none => rfl
  case some bs => cases h : mileage.recordIsValid bs <;> simp [Layout.ofRead, h]; rfl

theorem loadStorage_run_some {r : Bool × Mileage} (hl : loadMileage.run d = (some r, d'))
    (h : r.1 = true) : o.loadStorage.run d = (some (o.loadedFrom r.2), d') := by
  rw [loadStorage, Crash.run_bind_some hl]
  simp [h, loadedFrom]

theorem loadStorage_run_none (hl : loadMileage.run d = (none, d')) :
    o.loadStorage.run d = (none, d') :=
  Crash.run_bind_none hl

-- Whatever it finds, `load` delivers something that `ofRead` has made.
theorem exists_ofRead {L : Layout α} {r : Bool × α} (h : L.Loaded d (some r) d') :
    ∃ bs, r = L.ofRead bs := by
  cases hb : d.bus
  case false => exact ⟨_, Option.some.inj <| h.of_no_bus hb⟩
  case true =>
    cases hr : d.readReply
    case ack       => exact ⟨_, Option.some.inj <| h.of_ack hb hr⟩
    case nack      => exact ⟨_, Option.some.inj <| h.of_nack hr⟩
    case powerLoss => exact absurd (h.of_powerLoss hb hr) nofun

theorem loadStorage_spec (hn : o.hasLastSample = false) (hl : o.storageLoaded = false)
    (hb : ¬Blind o d) :
    wp o.loadStorage (fun r d' => d'.mem = d.mem ∧
      ∀ o', r = some o' → Covers o' d' ∧ o'.storageLoaded = true ∧ o'.hasLastSample = false) d := by
  have hs := mileage.load_spec (d := d)
  rcases h : loadMileage.run d with ⟨_ | r, d'⟩ <;> rw [wp, ←loadMileage, h] at hs
  case none =>
    rw [wp, loadStorage_run_none h]
    exact ⟨hs.mem, by simp⟩
  case some =>
    obtain ⟨bs, hbs⟩ := exists_ofRead hs
    rw [wp, loadStorage_run_some h (hbs ▸ ofRead_mileage)]
    refine ⟨hs.mem, fun o' ho => ?_⟩
    cases ho
    refine ⟨⟨fun _ => rfl, fun _ hb' m hm => ?_⟩, rfl, hn⟩
    have hbus : d.bus = true := hs.bus.symm.trans hb'
    rw [Layout.stored_congr hs.mem] at hm
    cases hr : d.readReply
    case ack =>
      have hm' : r = (true, m) := (Option.some.inj <| hs.of_ack hbus hr).trans <| by
        rw [Layout.ofRead_area, hm]
        rfl
      rw [hm']
      exact Nat.le_refl _
    case nack =>
      by_contra hlt
      exact hb ⟨hl, hbus, hr, m, hm, by omega⟩
    case powerLoss => exact absurd (hs.of_powerLoss hbus hr) (by simp)

theorem saveStorage_spec (hl : o.storageLoaded = true) (hc : Covers o d) :
    wp o.saveStorage (fun r d' => Grows d d' ∧ ∀ o', r = some o' → Covers o' d') d := by
  refine Crash.wp_ite (fun _ => ?_) (fun _ => ?_)
  case refine_2 => exact ⟨.of_mem_eq rfl, fun o' ho => Option.some.inj ho ▸ hc⟩
  -- The record that is written holds the total of the odometer.
  rcases h : (saveMileage { odoKm := o.odoKm, odoRemM := o.odoRemM, reserved := 0 }).run d with ⟨r, d'⟩
  have hs : d'.bus = d.bus ∧ (mileage.stored d' = mileage.stored d ∨
      d.bus = true ∧ mileage.stored d' = some ⟨o.odoKm, o.odoRemM, 0⟩) := by
    cases hb : d.bus
    case false =>
      rw [saveMileage, Layout.save_run_of_no_bus hb] at h
      cases h
      exact ⟨hb, .inl rfl⟩
    case true =>
      have hb' := (Layout.save_spec (L := mileage) (v := ⟨o.odoKm, o.odoRemM, 0⟩) rfl hb).bus
      have hst := Layout.stored_save_one_page (L := mileage) (v := ⟨o.odoKm, o.odoRemM, 0⟩)
        (by decide) rfl hb
      rw [←saveMileage, h] at hb' hst
      exact ⟨hb'.trans hb, hst.imp id (⟨rfl, ·⟩)⟩
  have hg : Grows d d' := by
    cases hs.right
    case inl he => exact .of_stored_eq he
    case inr he => exact fun m hm => ⟨_, he.right, hc.total_le hl he.left m hm⟩
  have hc' : Covers o d' := by
    refine ⟨hc.loaded, fun _ hb' m hm => ?_⟩
    cases hs.right
    case inl he => exact hc.total_le hl (hs.left ▸ hb') m (he ▸ hm)
    case inr he =>
      cases he.right.symm.trans hm
      exact Nat.le_refl _
  cases r
  case none =>
    rw [wp, Crash.run_bind_none h]
    exact ⟨hg, by simp⟩
  case some ok =>
    rw [wp, Crash.run_bind_some h]
    cases ok
    all_goals
      refine ⟨hg, fun o' ho => ?_⟩
      cases ho
      exact ⟨hc'.loaded, hc'.total_le⟩

-- The samples that move the odometer.
def Travels (o : Odometer) (timestamp : UInt32) : Prop :=
  o.hasLastSample = true ∧ o.lastTimestamp < timestamp ∧ timestamp - o.lastTimestamp ≤ 5

theorem sample_spec (hl : o.storageLoaded = true) (hc : Covers o d)
    (hw : o.Travels timestamp → o.NoWrap speed (timestamp - o.lastTimestamp)) :
    wp (o.sample speed timestamp) (fun r d' => Grows d d' ∧ ∀ o', r = some o' → Covers o' d') d := by
  refine Crash.wp_ite (fun _ => ?_) fun h₁ => Crash.wp_ite (fun _ => ?_) fun h₂ =>
    Crash.wp_ite (fun _ => ?_) fun h₃ => ?_
  case refine_4 =>
    have ht : o.Travels timestamp := by simpa [Travels] using And.intro h₁ (And.intro h₂ h₃)
    have hle := total_travel (hw ht)
    refine saveStorage_spec hl ⟨fun _ => hl, fun _ hb m hm => ?_⟩
    exact Nat.le_trans (hc.total_le hl hb m hm) (hle ▸ Nat.le_add_right ..)
  all_goals
    refine ⟨.of_mem_eq rfl, fun o' ho => ?_⟩
    cases ho
    exact ⟨fun _ => hl, hc.total_le⟩

end Odometer

theorem updateTotalMileage_spec {o : Odometer} {d : Device} {speed : UInt16} {timestamp : UInt32}
    (hc : o.Covers d) (hb : ¬o.Blind d)
    (hw : o.Travels timestamp → o.NoWrap speed (timestamp - o.lastTimestamp)) :
    wp (updateTotalMileage o speed timestamp)
      (fun r d' => Grows d d' ∧ ∀ o', r = some o' → o'.Covers d') d := by
  refine Crash.wp_ite (fun hl => Odometer.sample_spec hl hc hw) fun hl => ?_
  rw [Bool.not_eq_true] at hl
  have hn : o.hasLastSample = false := by
    by_contra hn
    simp [hc.loaded (by simpa using hn)] at hl
  rw [Crash.wp_bind]
  refine Crash.wp_mono (Odometer.loadStorage_spec hn hl hb) ?_
  intro r d' ⟨hm, ho⟩
  cases r
  case none => exact ⟨.of_mem_eq hm, nofun⟩
  case some o' =>
    have ⟨hc', hl', hn'⟩ := ho o' rfl
    -- The first sample of a boot does not move the odometer.
    have ht : ¬o'.Travels timestamp := fun ht => by simp [Odometer.Travels, hn'] at ht
    have hs : wp (o'.sample speed timestamp) _ d' := Odometer.sample_spec hl' hc' (absurd · ht)
    exact ⟨Grows.trans (.of_mem_eq hm) hs.left, hs.right⟩

namespace Recorder

variable {r r' r₀ r₁ r₂ : Recorder} {e : Event} {m : Mileage}

abbrev Step := Lts.Edge Recorder Event

abbrev Runs (r : Recorder) (es : List Step) (r' : Recorder) : Prop :=
  Lts.Run (fun r e r' => next r e = some r') r es r'

-- A sample whose load fails although a mileage is stored.
def BlindLoad (s : Step) : Prop :=
  ∃ o speed timestamp, s.src.odometer = some o ∧ s.label = .sample speed timestamp ∧ o.Blind s.src.device

-- A sample that makes `odo_km` wrap.
def Wraps (s : Step) : Prop :=
  ∃ o speed timestamp, s.src.odometer = some o ∧ s.label = .sample speed timestamp ∧
    o.Travels timestamp ∧ ¬o.NoWrap speed (timestamp - o.lastTimestamp)

instance : DecidablePred BlindLoad
  | ⟨⟨_, none⟩, _, _⟩          => isFalse fun ⟨_, _, _, h, _⟩ => nomatch h
  | ⟨⟨_, some _⟩, .boot _, _⟩  => isFalse fun ⟨_, _, _, _, h, _⟩ => nomatch h
  | ⟨⟨d, some o⟩, .sample .., _⟩ =>
    decidable_of_iff (o.storageLoaded = false ∧ d.bus = true ∧ d.readReply = .nack ∧
        (mileage.stored d).any (0 < ·.total) = true)
      ⟨fun ⟨hl, hb, hr, hs⟩ => ⟨o, _, _, rfl, rfl, hl, hb, hr, by simpa [Option.any_eq_true] using hs⟩,
        fun ⟨_, _, _, ho, _, hl, hb, hr, hs⟩ => by
          cases ho; exact ⟨hl, hb, hr, by simpa [Option.any_eq_true] using hs⟩⟩

instance : DecidablePred Wraps
  | ⟨⟨_, none⟩, _, _⟩         => isFalse fun ⟨_, _, _, h, _⟩ => nomatch h
  | ⟨⟨_, some _⟩, .boot _, _⟩ => isFalse fun ⟨_, _, _, _, h, _⟩ => nomatch h
  | ⟨⟨_, some o⟩, .sample speed timestamp, _⟩ =>
    decidable_of_iff ((o.hasLastSample = true ∧ o.lastTimestamp < timestamp ∧
        timestamp - o.lastTimestamp ≤ 5) ∧
        ¬o.odoKm.toNat + (o.totalM speed (timestamp - o.lastTimestamp)).toNat / 1000 < 2 ^ 32)
      ⟨fun ⟨ht, hw⟩ => ⟨o, _, _, rfl, rfl, ht, hw⟩,
        fun ⟨_, _, _, ho, hl, ht, hw⟩ => by cases ho; cases hl; exact ⟨ht, hw⟩⟩

def Covered (r : Recorder) : Prop :=
  ∀ o, r.odometer = some o → o.Covers r.device

-- What steps and runs of the recorder preserve.
structure Safe (r r' : Recorder) : Prop where
  grows   : Grows r.device r'.device
  covered : r'.Covered

theorem Safe.trans (h₁ : Safe r r₁) (h₂ : Safe r₁ r₂) : Safe r r₂ :=
  ⟨h₁.grows.trans h₂.grows, h₂.covered⟩

theorem next_safe (h : next r e = some r') (hb : ¬BlindLoad ⟨r, e, r'⟩) (hw : ¬Wraps ⟨r, e, r'⟩)
    (hc : r.Covered) : Safe r r' := by
  cases e
  case boot bus =>
    cases h
    refine ⟨.of_mem_eq rfl, fun o ho => ?_⟩
    cases ho
    exact .init
  case sample speed timestamp =>
    have ⟨o, ho, hr⟩ := Option.map_eq_some_iff.mp h
    have hb' : ¬o.Blind r.device := fun h => hb ⟨o, _, _, ho, rfl, h⟩
    have hw' : o.Travels timestamp → o.NoWrap speed (timestamp - o.lastTimestamp) :=
      fun ht => Classical.not_not.mp fun hn => hw ⟨o, _, _, ho, rfl, ht, hn⟩
    have ⟨hg, hc'⟩ := updateTotalMileage_spec (hc o ho) hb' hw'
    cases hr
    exact ⟨hg, hc'⟩

theorem runs_safe (h : r.Runs es r') (hc : r.Covered) (hb : ∀ s ∈ es, ¬BlindLoad s)
    (hw : ∀ s ∈ es, ¬Wraps s) : Safe r r' := by
  refine h.invariant_of (P := Safe r) (C := fun s => ¬BlindLoad s ∧ ¬Wraps s) ⟨.of_mem_eq rfl, hc⟩ ?_
    fun s hs => ⟨hb s hs, hw s hs⟩
  intro r₁ e r₂ hn hs hi
  exact hi.trans <| next_safe hn hs.left hs.right hi.covered

-- From any moment of a run that starts with the recorder being off to any later one.
theorem stored_mileage_grows (hoff : r₀.odometer = none) (h₁ : r₀.Runs es₁ r₁) (h₂ : r₁.Runs es₂ r₂)
    (hw : ∀ s ∈ es₁ ++ es₂, ¬Wraps s) (hb : ∀ s ∈ es₁ ++ es₂, ¬BlindLoad s)
    (hm : mileage.stored r₁.device = some m) :
    ∃ m', mileage.stored r₂.device = some m' ∧ m.total ≤ m'.total := by
  have ⟨hw₁, hw₂⟩ := List.forall_mem_append.mp hw
  have ⟨hb₁, hb₂⟩ := List.forall_mem_append.mp hb
  have hc₀ : r₀.Covered := fun o ho => by simp [hoff] at ho
  have hc₁ := (runs_safe h₁ hc₀ hb₁ hw₁).covered
  exact (runs_safe h₂ hc₁ hb₂ hw₂).grows m hm

-- The recorder is off and the memory holds 100 km.
def parked (reads : Nat → Reply) : Recorder where
  device   := mileage.holding ⟨100, 0, 0⟩ (fun _ => ⟨.ack, true⟩) reads
  odometer := none

theorem stored_parked : mileage.stored (parked reads).device = some ⟨100, 0, 0⟩ :=
  Layout.stored_holding rfl

def drive : List Event :=
  [.boot true, .sample 0 100, .sample 65535 105]

theorem stored_mileage_grows_drive :
    ∃ es r, (parked fun _ => .ack).Runs es r ∧
      ∃ m, mileage.stored r.device = some m ∧ 100000 ≤ m.total := by
  have ⟨es, r, h, hp⟩ := Lts.exists_run_of_trace next (parked fun _ => .ack) drive
    (fun t => t.1.all fun s => !decide (Wraps s) && !decide (BlindLoad s)) (by decide +kernel)
  have hs : ∀ s ∈ es, ¬Wraps s ∧ ¬BlindLoad s := by simpa using hp
  exact ⟨es, r, h, stored_mileage_grows rfl .refl h (fun s h => (hs s h).left)
    (fun s h => (hs s h).right) stored_parked⟩

-- The first read fails, so that the odometer starts at zero. The kilometers that are driven next take
-- the place of the 100 km.
theorem not_stored_mileage_grows_drive :
    ∃ (r₀ r : Recorder) (es : List Step), r₀.odometer = none ∧ r₀.Runs es r ∧ (∀ s ∈ es, ¬Wraps s) ∧
      mileage.stored r₀.device = some ⟨100, 0, 0⟩ ∧ mileage.stored r.device = some ⟨9, 102, 0⟩ ∧
      Mileage.total ⟨9, 102, 0⟩ < Mileage.total ⟨100, 0, 0⟩ := by
  have ⟨es, r, h, hp⟩ := Lts.exists_run_of_trace next
    (parked fun n => if n = 0 then .nack else .ack) drive
    (fun t => t.1.all (fun s => !decide (Wraps s)) &&
      mileage.stored t.2.device == some ⟨9, 102, 0⟩) (by decide +kernel)
  have ⟨hs, hm⟩ : (∀ s ∈ es, ¬Wraps s) ∧ mileage.stored r.device = some ⟨9, 102, 0⟩ := by
    simpa using hp
  exact ⟨_, r, es, rfl, h, hs, stored_parked, hm, by decide⟩

end Recorder

end App.UartCmd
