import DvrModel.App.UartCmd.Theorems.Mileage
import Mathlib.Data.Nat.ModEq

open Svc.Storage Svc.Eeprom

namespace App.UartCmd

-- What the samples `ss` add up to, in units of 1/36 meter. A step back in time and a gap of more than
-- five seconds do not count.
def gain (lastTimestamp : UInt32) (speed : UInt16) (timestamp : UInt32) : Nat :=
  if lastTimestamp.toNat < timestamp.toNat ∧ timestamp.toNat - lastTimestamp.toNat ≤ 5 then
    speed.toNat * (timestamp.toNat - lastTimestamp.toNat)
  else
    0

def distance : List (UInt16 × UInt32) → Nat
  | (_, t₁) :: (speed, t₂) :: ss => gain t₁ speed t₂ + distance ((speed, t₂) :: ss)
  | _                            => 0

theorem distance_concat {ss : List (UInt16 × UInt32)} {s₁ s₂ : UInt16 × UInt32} :
    distance (ss ++ [s₁] ++ [s₂]) = distance (ss ++ [s₁]) + gain s₁.2 s₂.1 s₂.2 := by
  induction ss
  case nil => simp [distance]
  case cons s ss hi =>
    cases ss
    case nil => simp [distance]
    case cons => simpa [distance, Nat.add_assoc] using hi

namespace Odometer

variable {o o' : Odometer} {d d' : Device} {speed : UInt16} {timestamp : UInt32}

-- Everything that has been counted, in units of 1/36 meter.
def units (o : Odometer) : Nat :=
  36 * o.total + o.meterNumAcc.toNat

-- The units that a wrap of `odo_km` takes away.
def wrapUnits : Nat :=
  36 * 1000 * 2 ^ 32

instance : Decidable (o.Travels timestamp) :=
  inferInstanceAs (Decidable <| _ ∧ _ ∧ _)

theorem travels_iff : o.Travels timestamp ↔ o.hasLastSample = true ∧
    o.lastTimestamp.toNat < timestamp.toNat ∧ timestamp.toNat - o.lastTimestamp.toNat ≤ 5 := by
  refine and_congr_right fun _ => and_congr_right fun h => ?_
  rw [UInt32.le_iff_toNat_le, UInt32.toNat_sub_of_le _ _ (UInt32.le_of_lt h)]
  rfl

theorem gain_eq (h : o.hasLastSample = true) : gain o.lastTimestamp speed timestamp =
    if o.Travels timestamp then speed.toNat * (timestamp - o.lastTimestamp).toNat else 0 := by
  simp only [gain, travels_iff, h, true_and]
  split
  case isTrue ht =>
    have hle : o.lastTimestamp ≤ timestamp := UInt32.le_iff_toNat_le.mpr (Nat.le_of_lt ht.left)
    rw [UInt32.toNat_sub_of_le _ _ hle]
  case isFalse => rfl

-- What a sample makes of a loaded odometer, apart from the record of the last save.
def advance (o : Odometer) (speed : UInt16) (timestamp : UInt32) : Odometer :=
  if o.Travels timestamp then
    { o with lastTimestamp := timestamp }.travel speed (timestamp - o.lastTimestamp)
  else
    { o with hasLastSample := true, lastTimestamp := timestamp }

theorem sample_eq : o.sample speed timestamp =
    if o.Travels timestamp then (o.advance speed timestamp).saveStorage
    else pure (o.advance speed timestamp) := by
  by_cases ht : o.Travels timestamp
  case pos =>
    have ⟨h₁, h₂, h₃⟩ := ht
    have h₂' : ¬timestamp ≤ o.lastTimestamp := UInt32.not_le.mpr h₂
    have h₃' : ¬timestamp - o.lastTimestamp > 5 := UInt32.not_lt.mpr h₃
    simp [sample, advance, h₁, h₂', h₃', ht]
  case neg =>
    rw [if_neg ht, advance, if_neg ht, sample]
    by_cases h₁ : o.hasLastSample = true
    case pos =>
      rw [if_neg (by simp [h₁])]
      split
      case isTrue => rw [h₁]
      case isFalse h₂ =>
        have h₃ : timestamp - o.lastTimestamp > 5 :=
          UInt32.not_le.mp fun h₃ => ht ⟨h₁, UInt32.not_le.mp h₂, h₃⟩
        rw [if_pos h₃, h₁]
    case neg => rw [if_pos (by simp [h₁])]

-- The remainder below one meter is small enough for the sum not to overflow.
theorem meterNum_lt (speed : UInt16) (ha : o.meterNumAcc.toNat < 36) (ht : o.Travels timestamp) :
    o.meterNumAcc.toNat + speed.toNat * (timestamp - o.lastTimestamp).toNat < 2 ^ 32 - 2 ^ 16 := by
  have hs : speed.toNat ≤ 65535 := Nat.le_of_lt_succ speed.toNat_lt
  have hd : (timestamp - o.lastTimestamp).toNat ≤ 5 := UInt32.le_iff_toNat_le.mp ht.right.right
  have := Nat.mul_le_mul hs hd
  omega

theorem meterNum_toNat (speed : UInt16) (ha : o.meterNumAcc.toNat < 36) (ht : o.Travels timestamp) :
    (o.meterNum speed (timestamp - o.lastTimestamp)).toNat =
      o.meterNumAcc.toNat + speed.toNat * (timestamp - o.lastTimestamp).toNat := by
  have := meterNum_lt speed ha ht
  rw [meterNum, UInt32.toNat_add, UInt32.toNat_mul, UInt16.toNat_toUInt32]
  rw [Nat.add_mod_mod, Nat.mod_eq_of_lt (by omega)]

-- A carry into the kilometers does not lose anything but whole wraps.
theorem units_travel (o : Odometer) (speed : UInt16) (deltaSec : UInt32) :
    (o.travel speed deltaSec).units + o.meterNumAcc.toNat ≡
      o.units + (o.meterNum speed deltaSec).toNat [MOD wrapUnits] := by
  have ht := o.totalM_toNat speed deltaSec
  have hk := o.odoKm.toNat_lt
  simp [units, total, travel, wrapUnits, Nat.ModEq]
  omega

theorem units_advance (ha : o.meterNumAcc.toNat < 36) (hs : o.hasLastSample = true) :
    (o.advance speed timestamp).units ≡
      o.units + gain o.lastTimestamp speed timestamp [MOD wrapUnits] := by
  rw [gain_eq hs]
  by_cases ht : o.Travels timestamp
  case pos =>
    have hu := units_travel { o with lastTimestamp := timestamp } speed (timestamp - o.lastTimestamp)
    have hm := meterNum_toNat speed ha ht
    rw [if_pos ht, advance, if_pos ht]
    refine Nat.ModEq.add_right_cancel' o.meterNumAcc.toNat (hu.trans ?_)
    show o.units + (o.meterNum speed (timestamp - o.lastTimestamp)).toNat ≡ _ [MOD _]
    rw [hm, ←Nat.add_assoc, Nat.add_right_comm]
  case neg =>
    rw [if_neg ht, advance, if_neg ht]
    rfl

-- What one sample does to the counters.
structure Exact (o : Odometer) (speed : UInt16) (timestamp : UInt32) (o' : Odometer) : Prop where
  acc_lt      : o.Travels timestamp → o'.meterNumAcc.toNat < 36
  rem_lt      : o.Travels timestamp → o'.odoRemM.toNat < 1000
  meterNum_lt : o.Travels timestamp →
    o.meterNumAcc.toNat + speed.toNat * (timestamp - o.lastTimestamp).toNat < 2 ^ 32
  totalM_lt   : o.Travels timestamp →
    o.odoRemM.toNat +
      (o.meterNumAcc.toNat + speed.toNat * (timestamp - o.lastTimestamp).toNat) / 36 < 2 ^ 32
  grows       : (o.Travels timestamp → o.NoWrap speed (timestamp - o.lastTimestamp)) →
    o.units ≤ o'.units

theorem rem_travel_lt {deltaSec : UInt32} : (o.travel speed deltaSec).odoRemM.toNat < 1000 := by
  simp [travel]
  omega

theorem acc_travel_lt {deltaSec : UInt32} : (o.travel speed deltaSec).meterNumAcc.toNat < 36 := by
  simp [travel]
  omega

theorem units_travel_le {deltaSec : UInt32} (h : o.NoWrap speed deltaSec)
    (hm : o.meterNumAcc ≤ o.meterNum speed deltaSec) :
    o.units ≤ (o.travel speed deltaSec).units := by
  have ht := total_travel h
  have hm' := UInt32.le_iff_toNat_le.mp hm
  have ha : (o.travel speed deltaSec).meterNumAcc.toNat = (o.meterNum speed deltaSec).toNat % 36 := by
    simp [travel]
  simp only [units, ht, ha]
  omega

theorem exact_advance (ha : o.meterNumAcc.toNat < 36) :
    o.Exact speed timestamp (o.advance speed timestamp) := by
  by_cases ht : o.Travels timestamp
  case pos =>
    have hlt := meterNum_lt speed ha ht
    have hr := o.odoRemM.toNat_lt
    rw [advance, if_pos ht]
    refine ⟨fun _ => acc_travel_lt, fun _ => rem_travel_lt, fun _ => by omega, fun _ => by omega, ?_⟩
    intro hw
    refine units_travel_le (hw ht) (UInt32.le_iff_toNat_le.mpr ?_)
    show o.meterNumAcc.toNat ≤ (o.meterNum speed (timestamp - o.lastTimestamp)).toNat
    rw [meterNum_toNat speed ha ht]
    exact Nat.le_add_right ..
  case neg =>
    rw [advance, if_neg ht]
    exact ⟨(absurd · ht), (absurd · ht), (absurd · ht), (absurd · ht), fun _ => Nat.le_refl _⟩

-- The save changes nothing but the record of the last save.
theorem saveStorage_some (h : (o.saveStorage.run d).1 = some o') :
    ∃ k, o' = { o with lastSavedOdoKm := k } := by
  unfold saveStorage at h
  split at h
  case isFalse => exact ⟨_, (Option.some.inj h).symm⟩
  case isTrue =>
    rcases hs : (saveMileage { odoKm := o.odoKm, odoRemM := o.odoRemM, reserved := 0 }).run d with
      ⟨_ | ok, d'⟩
    case none => simp [Crash.run_bind_none hs] at h
    case some =>
      rw [Crash.run_bind_some hs] at h
      cases ok
      all_goals exact ⟨_, (Option.some.inj h).symm⟩

theorem sample_some (h : ((o.sample speed timestamp).run d).1 = some o') :
    ∃ k, o' = { o.advance speed timestamp with lastSavedOdoKm := k } := by
  rw [sample_eq] at h
  split at h
  case isTrue => exact saveStorage_some h
  case isFalse => exact ⟨_, (Option.some.inj h).symm⟩

-- The first sample of a boot takes over what is loaded.
theorem update_init_run {m : Mileage} (hl : loadMileage.run d = (some (true, m), d')) :
    (updateTotalMileage .init speed timestamp).run d =
      (some ((init.loadedFrom m).advance speed timestamp), d') := by
  have hu : updateTotalMileage .init speed timestamp =
      init.loadStorage >>= fun o => o.sample speed timestamp := rfl
  have ht : ¬(init.loadedFrom m).Travels timestamp := nofun
  rw [hu, Crash.run_bind_some (loadStorage_run_some hl rfl), sample_eq, if_neg ht, Crash.run_pure]

theorem update_init (h : ((updateTotalMileage .init speed timestamp).run d).1 = some o') :
    ∃ m, (loadMileage.run d).1 = some (true, m) ∧ o' = (init.loadedFrom m).advance speed timestamp ∧
      ((updateTotalMileage .init speed timestamp).run d).2 = (loadMileage.run d).2 := by
  have hs := mileage.load_spec (d := d)
  rcases hl : loadMileage.run d with ⟨_ | r, d'⟩
  case none =>
    have hu : (updateTotalMileage .init speed timestamp).run d = (none, d') :=
      Crash.run_bind_none (loadStorage_run_none hl)
    simp [hu] at h
  case some =>
    rw [Crash.wp, ←loadMileage, hl] at hs
    obtain ⟨bs, hbs⟩ := exists_ofRead hs
    have hr : r = (true, r.2) := Prod.ext (hbs ▸ ofRead_mileage) rfl
    rw [update_init_run (hl.trans <| by rw [hr])] at h ⊢
    exact ⟨r.2, congrArg some hr, (Option.some.inj h).symm, rfl⟩

theorem update_loaded (hl : o.storageLoaded = true) :
    updateTotalMileage o speed timestamp = o.sample speed timestamp := by
  simp [updateTotalMileage, hl]

-- What the odometer knows after the samples `ss` of a boot that has loaded the mileage `m`.
structure Counted (o : Odometer) (m : Mileage) (ss : List (UInt16 × UInt32)) : Prop where
  loaded  : o.storageLoaded = true
  sampled : o.hasLastSample = true
  last    : ∃ ss' speed, ss = ss' ++ [(speed, o.lastTimestamp)]
  acc_lt  : o.meterNumAcc.toNat < 36
  units   : o.units ≡ 36 * m.total + distance ss [MOD wrapUnits]

theorem Counted.samples_ne_nil {m : Mileage} {ss : List (UInt16 × UInt32)} (h : o.Counted m ss) :
    ss ≠ [] := by
  have ⟨_, _, hs⟩ := h.last
  simp [hs]

theorem advance_acc_lt (ha : o.meterNumAcc.toNat < 36) :
    (o.advance speed timestamp).meterNumAcc.toNat < 36 := by
  unfold advance
  split
  case isTrue => exact acc_travel_lt
  case isFalse => exact ha

theorem advance_storageLoaded : (o.advance speed timestamp).storageLoaded = o.storageLoaded := by
  unfold advance
  split <;> rfl

theorem advance_hasLastSample : (o.advance speed timestamp).hasLastSample = true := by
  unfold advance
  split
  case isTrue ht => exact ht.left
  case isFalse => rfl

theorem advance_lastTimestamp : (o.advance speed timestamp).lastTimestamp = timestamp := by
  unfold advance
  split <;> rfl

theorem Counted.first (m : Mileage) :
    ((init.loadedFrom m).advance speed timestamp).Counted m [(speed, timestamp)] := by
  have ht : ¬(init.loadedFrom m).Travels timestamp := nofun
  have ha : (init.loadedFrom m).advance speed timestamp =
      { init.loadedFrom m with hasLastSample := true, lastTimestamp := timestamp } := if_neg ht
  rw [ha]
  exact ⟨rfl, rfl, ⟨[], speed, rfl⟩, (by decide : (0 : UInt32).toNat < 36), rfl⟩

theorem Counted.advance {m : Mileage} {ss : List (UInt16 × UInt32)} (h : o.Counted m ss) (k : UInt32) :
    { o.advance speed timestamp with lastSavedOdoKm := k }.Counted m (ss ++ [(speed, timestamp)]) where
  loaded  := advance_storageLoaded.trans h.loaded
  sampled := advance_hasLastSample
  last    := ⟨ss, speed, by rw [show _ = timestamp from advance_lastTimestamp]⟩
  acc_lt  := advance_acc_lt h.acc_lt
  units   := by
    have ⟨ss', speed', hss⟩ := h.last
    have hu : (o.advance speed timestamp).units ≡ _ [MOD _] := units_advance h.acc_lt h.sampled
    rw [hss, distance_concat, ←hss, ←Nat.add_assoc]
    exact hu.trans (h.units.add_right _)

end Odometer

namespace Recorder

variable {r r' : Recorder} {d : Device} {es : List Step}

def Event.sample? : Event → Option (UInt16 × UInt32)
  | .boot _                  => none
  | .sample speed timestamp => (speed, timestamp)

def samples (es : List Step) : List (UInt16 × UInt32) :=
  es.filterMap (·.label.sample?)

-- The recorder right after a boot.
def booted (d : Device) : Recorder where
  device   := d
  odometer := some .init

-- The steps of a single boot.
def OneBoot (es : List Step) : Prop :=
  ∀ s ∈ es, s.label.sample?.isSome

theorem OneBoot.split {s : Step} {t : List Step} (h : OneBoot (es ++ s :: t)) :
    OneBoot es ∧ ∃ speed timestamp, s.label = .sample speed timestamp := by
  refine ⟨fun x hx => h x (List.mem_append_left _ hx), ?_⟩
  have hs := h s (by simp)
  cases hl : s.label
  case boot => simp [hl, Event.sample?] at hs
  case sample => exact ⟨_, _, rfl⟩

theorem next_sample {speed : UInt16} {timestamp : UInt32}
    (h : next r (.sample speed timestamp) = some r') :
    ∃ o, r.odometer = some o ∧
      r'.odometer = ((updateTotalMileage o speed timestamp).run r.device).1 ∧
      r'.device = ((updateTotalMileage o speed timestamp).run r.device).2 := by
  have ⟨o, ho, hr⟩ := Option.map_eq_some_iff.mp h
  exact ⟨o, ho, hr ▸ rfl, hr ▸ rfl⟩

-- During a boot the odometer is fresh or it has counted all samples.
theorem counted (h : (booted d).Runs es r) (hb : OneBoot es) :
    ∀ o, r.odometer = some o → (es = [] ∧ r.device = d ∧ o = .init) ∨
      ∃ m, (loadMileage.run d).1 = some (true, m) ∧ o.Counted m (samples es) := by
  induction h
  case refl => exact fun o ho => .inl ⟨rfl, rfl, (Option.some.inj ho).symm⟩
  case step es r e r' h hn hi =>
    intro o' ho'
    have ⟨hb', speed, timestamp, hl⟩ := hb.split
    obtain rfl : e = .sample speed timestamp := hl
    have ⟨o, ho, hr, _⟩ := next_sample hn
    have hss : samples (es ++ [⟨r, .sample speed timestamp, r'⟩]) =
        samples es ++ [(speed, timestamp)] := by
      simp [samples, Event.sample?]
    rw [ho'] at hr
    rw [hss]
    refine .inr ?_
    rcases hi hb' o ho with ⟨rfl, rfl, rfl⟩ | ⟨m, hm, hc⟩
    case inl =>
      have ⟨m, hm, ho', _⟩ := Odometer.update_init hr.symm
      exact ⟨m, hm, ho' ▸ .first m⟩
    case inr =>
      rw [Odometer.update_loaded hc.loaded] at hr
      have ⟨k, hk⟩ := Odometer.sample_some hr.symm
      exact ⟨m, hm, hk ▸ hc.advance k⟩

theorem exact_of_mem (h : (booted d).Runs es r) (hb : OneBoot es) {s : Step} (hs : s ∈ es)
    {o o' : Odometer} {speed : UInt16} {timestamp : UInt32} (ho : s.src.odometer = some o)
    (hl : s.label = .sample speed timestamp) (ho' : s.dst.odometer = some o') :
    o.Exact speed timestamp o' := by
  have ⟨l, t, hes⟩ := List.append_of_mem hs
  have ⟨hrun, hn, _⟩ := (hes ▸ h).split
  have ⟨hb', _⟩ := (hes ▸ hb).split
  have ⟨o₁, ho₁, hr, _⟩ := next_sample (hl ▸ hn)
  obtain rfl : o = o₁ := Option.some.inj (ho.symm.trans ho₁)
  rw [ho'] at hr
  rcases counted hrun hb' o ho with ⟨_, _, rfl⟩ | ⟨m, _, hc⟩
  case inl =>
    have ht : ¬Odometer.init.Travels timestamp := nofun
    refine ⟨(absurd · ht), (absurd · ht), (absurd · ht), (absurd · ht), fun _ => Nat.zero_le _⟩
  case inr =>
    rw [Odometer.update_loaded hc.loaded] at hr
    have ⟨k, hk⟩ := Odometer.sample_some hr.symm
    have hx : o.Exact speed timestamp _ := Odometer.exact_advance hc.acc_lt
    exact hk ▸ ⟨hx.acc_lt, hx.rem_lt, hx.meterNum_lt, hx.totalM_lt, hx.grows⟩

-- Over a whole boot the odometer counts exactly the distance of the samples, up to wraps of `odo_km`,
-- whatever becomes of the saves.
theorem odometer_conserved (h : (booted d).Runs es r) (hb : OneBoot es) :
    (∀ o, r.odometer = some o → es ≠ [] →
      ∃ m, (loadMileage.run d).1 = some (true, m) ∧
        o.units ≡ 36 * m.total + distance (samples es) [MOD Odometer.wrapUnits]) ∧
    ∀ s ∈ es, ∀ o speed timestamp o', s.src.odometer = some o → s.label = .sample speed timestamp →
      s.dst.odometer = some o' → o.Exact speed timestamp o' := by
  refine ⟨fun o ho hne => ?_, fun s hs o speed timestamp o' ho hl ho' => ?_⟩
  case refine_1 =>
    rcases counted h hb o ho with ⟨hes, _⟩ | ⟨m, hm, hc⟩
    · contradiction
    · exact ⟨m, hm, hc.units⟩
  case refine_2 => exact exact_of_mem h hb hs ho hl ho'

theorem odometer_conserved_drive : ∃ es r, (booted (parked fun _ => .ack).device).Runs es r ∧
    OneBoot es ∧ es.length = 2 ∧
    (∀ o, r.odometer = some o → es ≠ [] →
      ∃ m, (loadMileage.run (parked fun _ => .ack).device).1 = some (true, m) ∧
        o.units ≡ 36 * m.total + distance (samples es) [MOD Odometer.wrapUnits]) ∧
    ∀ s ∈ es, ∀ o speed timestamp o', s.src.odometer = some o → s.label = .sample speed timestamp →
      s.dst.odometer = some o' → o.Exact speed timestamp o' := by
  have ⟨es, r, h, hp⟩ := Lts.exists_run_of_trace next (booted (parked fun _ => .ack).device)
    drive.tail (fun t => t.1.all (·.label.sample?.isSome) && t.1.length == 2) (by decide +kernel)
  have ⟨hb, hl⟩ : OneBoot es ∧ es.length = 2 := by simpa [OneBoot] using hp
  exact ⟨es, r, h, hb, hl, odometer_conserved h hb⟩

end Recorder

-- A page write that is acknowledged takes effect.
def Honest (w : Fate) : Prop :=
  w.reply = .ack → w.effective = true

-- What a load finds, if its read succeeds.
def foundMileage (d : Device) : Mileage :=
  (mileage.stored d).getD ⟨0, 0, 0⟩

theorem loadMileage_run {F : Fate → Prop} {d : Device} (hd : d.Sound F) :
    (loadMileage.run d).1 = some (true, foundMileage d) := by
  have h : (loadMileage.run d).1 = some (mileage.ofRead <| mileage.area d) :=
    Layout.load_spec.of_ack hd.bus hd.readReply
  rw [h, Layout.ofRead_area, foundMileage]
  cases mileage.stored d <;> rfl

theorem foundMileage_load {d : Device} : foundMileage (loadMileage.run d).2 = foundMileage d := by
  have hm : (loadMileage.run d).2.mem = d.mem := Layout.load_spec.mem
  rw [foundMileage, Layout.stored_congr hm, foundMileage]

-- A save puts its argument into the place of what has been there, or it does not. If it reports success
-- it does.
theorem foundMileage_save {d : Device} (v : Mileage) (hd : d.Sound Honest) :
    (foundMileage ((saveMileage v).run d).2 = foundMileage d ∨
      foundMileage ((saveMileage v).run d).2 = v) ∧
    (((saveMileage v).run d).1 = some true → foundMileage ((saveMileage v).run d).2 = v) := by
  have hs := Layout.save_spec (L := mileage) (v := v) rfl hd.bus
  have h₁ := Layout.stored_save_one_page (L := mileage) (v := v) (by decide) rfl hd.bus
  simp only [foundMileage]
  refine ⟨h₁.imp (fun h => by rw [saveMileage, h]) (fun h => by rw [saveMileage, h]; rfl), fun hok => ?_⟩
  have hw := (hs.success.mp hok).left
  have harea : mileage.area ((mileage.save v).run d).2 = mileage.record v := by
    rw [hs.area, Layout.left, hd.writes 0 hw.left,
      blend_of_length_le (by simp; decide) (by simp; decide)]
    rfl
  rw [saveMileage, Layout.stored_of_area rfl harea]
  rfl

namespace Odometer

variable {o o' : Odometer} {d d' : Device} {speed : UInt16} {timestamp : UInt32}

-- The condition under which a save is attempted, and what is saved.
def due (o : Odometer) : Prop :=
  o.odoKm - o.lastSavedOdoKm ≥ 1

instance : Decidable o.due :=
  inferInstanceAs <| Decidable (_ ≥ _)

def toMileage (o : Odometer) : Mileage where
  odoKm    := o.odoKm
  odoRemM  := o.odoRemM
  reserved := 0

theorem saveStorage_eq : o.saveStorage = if o.due then (do
    if ← saveMileage o.toMileage then
      return { o with lastSavedOdoKm := o.odoKm }
    else
      return o) else pure o :=
  if_congr .rfl rfl rfl

-- The result of the save that a sample attempts, if it attempts one and if it is not cut off.
def saveResult (o : Odometer) (d : Device) (speed : UInt16) (timestamp : UInt32) : Option Bool :=
  if o.Travels timestamp ∧ (o.advance speed timestamp).due then
    ((saveMileage (o.advance speed timestamp).toMileage).run d).1
  else
    none

-- The memory is never ahead of the odometer. Unless the latest save has failed it is on the same
-- kilometer.
structure Bounded (o : Odometer) (d : Device) (last : Option Bool) : Prop where
  total_le : (foundMileage d).total ≤ o.total
  same_km  : last ≠ some false → (foundMileage d).odoKm = o.odoKm ∧ o.lastSavedOdoKm = o.odoKm ∧
    o.odoRemM.toNat < 1000

theorem Bounded.total_lt {last : Option Bool} (h : o.Bounded d last) (hl : last ≠ some false) :
    o.total < (foundMileage d).total + 1000 := by
  have ⟨hk, _, hr⟩ := h.same_km hl
  rw [total, Mileage.total, hk]
  omega

theorem due_false_iff : ¬o.due ↔ o.lastSavedOdoKm = o.odoKm := by
  rw [due, ge_iff_le, UInt32.not_le, eq_comm]
  constructor
  case mp =>
    intro h
    have hk := o.odoKm.toNat_lt
    have hl := o.lastSavedOdoKm.toNat_lt
    have h₁ : (o.odoKm - o.lastSavedOdoKm).toNat < 1 := UInt32.lt_iff_toNat_lt.mp h
    rw [UInt32.toNat_sub] at h₁
    exact UInt32.toNat_inj.mp (by omega)
  case mpr =>
    intro h
    rw [h, UInt32.sub_self]
    decide

theorem advance_lastSavedOdoKm (o : Odometer) (speed : UInt16) (timestamp : UInt32) :
    (o.advance speed timestamp).lastSavedOdoKm = o.lastSavedOdoKm := by
  unfold advance
  split <;> rfl

theorem total_advance_le (hw : o.Travels timestamp → o.NoWrap speed (timestamp - o.lastTimestamp)) :
    o.total ≤ (o.advance speed timestamp).total := by
  unfold advance
  split
  case isTrue ht =>
    have h := total_travel (o := { o with lastTimestamp := timestamp }) (hw ht)
    exact h ▸ Nat.le_add_right ..
  case isFalse => exact Nat.le_refl _

theorem advance_rem_lt (h : o.odoRemM.toNat < 1000) :
    (o.advance speed timestamp).odoRemM.toNat < 1000 := by
  unfold advance
  split
  case isTrue => exact rem_travel_lt
  case isFalse => exact h

-- A save that has reported its success has not been cut off.
theorem sample_isSome (h : o.saveResult d speed timestamp = some true) :
    ∃ o', ((o.sample speed timestamp).run d).1 = some o' := by
  by_cases hk : o.Travels timestamp ∧ (o.advance speed timestamp).due
  case pos =>
    rw [saveResult, if_pos hk] at h
    have hs : (saveMileage (o.advance speed timestamp).toMileage).run d =
        (some true, ((saveMileage (o.advance speed timestamp).toMileage).run d).2) :=
      Prod.ext h rfl
    rw [sample_eq, if_pos hk.left, saveStorage_eq, if_pos hk.right, Crash.run_bind_some hs]
    exact ⟨_, rfl⟩
  case neg =>
    rw [saveResult, if_neg hk] at h
    contradiction

theorem Bounded.first {last : Option Bool} (hr : (foundMileage d).odoRemM.toNat < 1000) :
    ((init.loadedFrom (foundMileage d)).advance speed timestamp).Bounded d last := by
  have ht : ¬(init.loadedFrom (foundMileage d)).Travels timestamp := nofun
  rw [advance, if_neg ht]
  constructor
  all_goals generalize foundMileage d = m at hr
  case total_le => exact Nat.le_refl m.total
  case same_km  => exact fun _ => ⟨rfl, rfl, hr⟩

-- A sample that does not attempt a save.
theorem Bounded.quiet {last : Option Bool} (hb : o.Bounded d last)
    (hw : o.Travels timestamp → o.NoWrap speed (timestamp - o.lastTimestamp))
    (hk : ¬(o.Travels timestamp ∧ (o.advance speed timestamp).due)) :
    (o.advance speed timestamp).Bounded d last := by
  refine ⟨Nat.le_trans hb.total_le (total_advance_le hw), fun hl => ?_⟩
  have ⟨h₁, h₂, h₃⟩ := hb.same_km hl
  have hs := o.advance_lastSavedOdoKm speed timestamp
  have hkm : (o.advance speed timestamp).lastSavedOdoKm = (o.advance speed timestamp).odoKm := by
    by_cases ht : o.Travels timestamp
    case pos => exact due_false_iff.mp fun hd => hk ⟨ht, hd⟩
    case neg =>
      rw [advance, if_neg ht]
      exact h₂
  exact ⟨h₁.trans (h₂.symm.trans (hs.symm.trans hkm)), hkm, advance_rem_lt h₃⟩

-- A sample that attempts a save. Whether the save succeeds or not, the record that it writes holds the
-- total of the odometer.
theorem Bounded.save {last : Option Bool} (hb : o.Bounded d last) (hd : d.Sound Honest)
    (hw : o.Travels timestamp → o.NoWrap speed (timestamp - o.lastTimestamp))
    (hk : o.Travels timestamp ∧ (o.advance speed timestamp).due)
    (h : (o.advance speed timestamp).saveStorage.run d = (some o', d')) :
    ∃ ok, o.saveResult d speed timestamp = some ok ∧ o'.Bounded d' (some ok) ∧
      (ok = true → (foundMileage d').total = o'.total) := by
  have ⟨hor, hok⟩ := foundMileage_save (o.advance speed timestamp).toMileage hd
  have hr : (o.advance speed timestamp).odoRemM.toNat < 1000 := by
    rw [advance, if_pos hk.left]
    exact rem_travel_lt
  rw [saveResult, if_pos hk]
  rw [saveStorage_eq, if_pos hk.right] at h
  rcases hs : (saveMileage (o.advance speed timestamp).toMileage).run d with ⟨_ | ok, d₁⟩
  all_goals rw [hs] at hor hok
  case none => simp [Crash.run_bind_none hs] at h
  case some =>
    rw [Crash.run_bind_some hs] at h
    refine ⟨ok, rfl, ?_⟩
    cases ok
    case true =>
      cases h
      have hf := hok rfl
      refine ⟨⟨?_, fun _ => ⟨?_, rfl, hr⟩⟩, fun _ => ?_⟩ <;> rw [hf] <;> rfl
    case false =>
      cases h
      refine ⟨⟨?_, fun hl => absurd rfl hl⟩, nofun⟩
      rcases hor with hf | hf
      all_goals rw [hf]
      case inl => exact Nat.le_trans hb.total_le (total_advance_le hw)
      case inr => exact Nat.le_refl _

theorem Bounded.sample {last : Option Bool} (hb : o.Bounded d last) (hd : d.Sound Honest)
    (hw : o.Travels timestamp → o.NoWrap speed (timestamp - o.lastTimestamp))
    (h : (o.sample speed timestamp).run d = (some o', d')) :
    o'.Bounded d' ((o.saveResult d speed timestamp).or last) ∧
    (o.saveResult d speed timestamp = some true → (foundMileage d').total = o'.total) := by
  rw [sample_eq] at h
  by_cases hk : o.Travels timestamp ∧ (o.advance speed timestamp).due
  case pos =>
    rw [if_pos hk.left] at h
    have ⟨ok, hr, hb', ht⟩ := hb.save hd hw hk h
    rw [hr, Option.some_or]
    exact ⟨hb', fun ho => ht (Option.some.inj ho)⟩
  case neg =>
    have hr : o.saveResult d speed timestamp = none := if_neg hk
    have hp : (some (o.advance speed timestamp), d) = (some o', d') := by
      split at h
      case isFalse => exact h
      case isTrue ht =>
        rwa [saveStorage_eq, if_neg fun hd => hk ⟨ht, hd⟩] at h
    cases hp
    rw [hr, Option.none_or]
    exact ⟨hb.quiet hw hk, nofun⟩

end Odometer

section Keeps

open Crash (Keeps)

variable {F : Fate → Prop} {o : Odometer} {speed : UInt16} {timestamp : UInt32}

theorem Odometer.sample_sound : Keeps (Device.Sound F) (o.sample speed timestamp) := by
  rw [sample_eq]
  refine .ite ?_ .pure
  rw [saveStorage_eq]
  exact .ite (.bind Layout.save_sound fun _ => .ite .pure .pure) .pure

theorem updateTotalMileage_sound : Keeps (Device.Sound F) (updateTotalMileage o speed timestamp) := by
  have hl : Keeps (Device.Sound F) o.loadStorage := .bind Layout.load_sound fun _ => .ite .pure .pure
  exact .ite Odometer.sample_sound <| .bind hl fun _ => Odometer.sample_sound

end Keeps

namespace Recorder

variable {r r' : Recorder} {d : Device} {es : List Step} {s : Step}

-- The result of the save that a step attempts, if any.
def saveResult (s : Step) : Option Bool := do
  let o ← s.src.odometer
  let (speed, timestamp) ← s.label.sample?
  o.saveResult s.src.device speed timestamp

-- The result of the latest save, if there has been any.
def lastResult (es : List Step) : Option Bool :=
  (es.filterMap saveResult).getLast?

theorem lastResult_concat : lastResult (es ++ [s]) = (saveResult s).or (lastResult es) := by
  rw [lastResult, List.filterMap_append, List.getLast?_append]
  cases h : saveResult s <;> simp [h, lastResult]

theorem sound {F : Fate → Prop} (h : (booted d).Runs es r) (hb : OneBoot es) (hd : d.Sound F) :
    r.device.Sound F := by
  induction h
  case refl => exact hd
  case step e _ h hn hi =>
    have ⟨hb', speed, timestamp, hl⟩ := hb.split
    obtain rfl : e = .sample speed timestamp := hl
    have ⟨o, _, _, hd'⟩ := next_sample hn
    exact hd' ▸ updateTotalMileage_sound _ (hi hb')

-- A sample that does not wrap `odo_km` keeps the memory close to the odometer.
theorem next_bounded {o o' : Odometer} {speed : UInt16} {timestamp : UInt32} {last : Option Bool}
    (hn : next r (.sample speed timestamp) = some r') (ho : r.odometer = some o)
    (ho' : r'.odometer = some o') (hl : o.storageLoaded = true) (hd : r.device.Sound Honest)
    (hw : ¬Wraps ⟨r, .sample speed timestamp, r'⟩) (hb : o.Bounded r.device last) :
    o'.Bounded r'.device ((saveResult ⟨r, .sample speed timestamp, r'⟩).or last) ∧
    (saveResult ⟨r, .sample speed timestamp, r'⟩ = some true →
      (foundMileage r'.device).total = o'.total) := by
  have ⟨o₁, ho₁, hr, hd'⟩ := next_sample hn
  obtain rfl : o = o₁ := Option.some.inj (ho.symm.trans ho₁)
  have hs : saveResult ⟨r, .sample speed timestamp, r'⟩ = o.saveResult r.device speed timestamp := by
    simp [saveResult, ho, Event.sample?]
  have hw' : o.Travels timestamp → o.NoWrap speed (timestamp - o.lastTimestamp) :=
    fun ht => Classical.not_not.mp fun hn => hw ⟨o, _, _, ho, rfl, ht, hn⟩
  rw [ho', Odometer.update_loaded hl] at hr
  rw [Odometer.update_loaded hl] at hd'
  rw [hs]
  exact hb.sample hd hw' (Prod.ext hr.symm hd'.symm)

theorem bounded (h : (booted d).Runs es r) (hb : OneBoot es) (hd : d.Sound Honest)
    (hr : (foundMileage d).odoRemM.toNat < 1000) (hw : ∀ s ∈ es, ¬Wraps s) :
    ∀ o, r.odometer = some o → es ≠ [] → o.Bounded r.device (lastResult es) := by
  induction h
  case refl => exact fun _ _ hne => absurd rfl hne
  case step es r e r' h hn hi =>
    intro o' ho' _
    have ⟨hb', speed, timestamp, hl⟩ := hb.split
    obtain rfl : e = .sample speed timestamp := hl
    have ⟨o, ho, hu, hu'⟩ := next_sample hn
    have hw' : ∀ s ∈ es, ¬Wraps s := fun s hs => hw s (List.mem_append_left _ hs)
    rw [lastResult_concat]
    rcases counted h hb' o ho with ⟨rfl, rfl, rfl⟩ | ⟨m, _, hc⟩
    case inl =>
      have ⟨m, hm, ho₁, hd₁⟩ := Odometer.update_init (hu.symm.trans ho')
      have hf : foundMileage r'.device = foundMileage r.device := by rw [hu', hd₁, foundMileage_load]
      rw [loadMileage_run hd] at hm
      obtain rfl : foundMileage r.device = m := by simpa using hm
      rw [←hf] at hr ho₁
      exact ho₁ ▸ .first hr
    case inr =>
      have hne : es ≠ [] := fun he => hc.samples_ne_nil (by rw [he]; rfl)
      exact (next_bounded hn ho ho' hc.loaded (sound h hb' hd) (hw _ (by simp)) <|
        hi hb' hw' o ho hne).left

theorem saved_of_mem (h : (booted d).Runs es r) (hb : OneBoot es) (hd : d.Sound Honest)
    (hr : (foundMileage d).odoRemM.toNat < 1000) (hw : ∀ s ∈ es, ¬Wraps s) (hs : s ∈ es)
    (hok : saveResult s = some true) :
    ∃ o m, s.dst.odometer = some o ∧ (loadMileage.run s.dst.device).1 = some (true, m) ∧
      m.total = o.total := by
  have ⟨l, t, hes⟩ := List.append_of_mem hs
  have ⟨hrun, hn, _⟩ := (hes ▸ h).split
  have ⟨hb', speed, timestamp, hl⟩ := (hes ▸ hb).split
  have hw' : ∀ x ∈ l, ¬Wraps x := fun x hx => hw x (by simp [hes, hx])
  obtain ⟨src, label, dst⟩ := s
  obtain rfl : label = .sample speed timestamp := hl
  have ⟨o, ho, hu, hu'⟩ := next_sample hn
  have hds : dst.device.Sound Honest := hu' ▸ updateTotalMileage_sound _ (sound hrun hb' hd)
  have hok' : o.saveResult src.device speed timestamp = some true := by
    simpa [saveResult, show src.odometer = some o from ho, Event.sample?] using hok
  rcases counted hrun hb' o ho with ⟨_, _, rfl⟩ | ⟨m, _, hc⟩
  case inl => exact absurd hok' nofun
  case inr =>
    have hne : l ≠ [] := fun he => hc.samples_ne_nil (by rw [he]; rfl)
    have ⟨o', ho'⟩ := Odometer.sample_isSome hok'
    rw [←Odometer.update_loaded hc.loaded] at ho'
    have hbd := bounded hrun hb' hd hr hw' o ho hne
    exact ⟨o', _, hu.trans ho', loadMileage_run hds, (next_bounded hn ho (hu.trans ho') hc.loaded
      (sound hrun hb' hd) (hw _ hs) hbd).right hok⟩

-- A reboot continues with what is stored.
theorem reboot {F : Fate → Prop} (hd : r.device.Sound F) (speed : UInt16) (timestamp : UInt32) :
    ∃ r₁ r₂ o, next r (.boot true) = some r₁ ∧ next r₁ (.sample speed timestamp) = some r₂ ∧
      r₂.odometer = some o ∧ o.total = (foundMileage r.device).total := by
  have hd' : { r.device with bus := true }.Sound F := ⟨rfl, hd.reads, hd.writes⟩
  have hl : loadMileage.run { r.device with bus := true } =
      (some (true, foundMileage r.device), (loadMileage.run { r.device with bus := true }).2) :=
    Prod.ext (loadMileage_run hd') rfl
  refine ⟨_, _, _, rfl, rfl, congrArg Prod.fst (Odometer.update_init_run hl), ?_⟩
  have ht : ¬(Odometer.init.loadedFrom (foundMileage r.device)).Travels timestamp := nofun
  rw [Odometer.advance, if_neg ht]
  generalize foundMileage r.device = m
  rfl

-- What is lost when the power fails: less than a kilometer, as long as the saves succeed. The memory
-- never runs ahead of the odometer, a save that succeeds makes up for all that have failed before, and
-- a reboot continues with what is stored.
theorem mileage_loss_bounded (h : (booted d).Runs es r) (hb : OneBoot es) (hd : d.Sound Honest)
    (hr : ∀ ok m, (loadMileage.run d).1 = some (ok, m) → m.odoRemM < 1000) (hw : ∀ s ∈ es, ¬Wraps s) :
    (∀ o, r.odometer = some o → es ≠ [] →
      ∃ m, (loadMileage.run r.device).1 = some (true, m) ∧ m.total ≤ o.total ∧
        (lastResult es ≠ some false → o.total < m.total + 1000)) ∧
    (∀ s ∈ es, saveResult s = some true →
      ∃ o m, s.dst.odometer = some o ∧ (loadMileage.run s.dst.device).1 = some (true, m) ∧
        m.total = o.total) ∧
    ∃ m, (loadMileage.run r.device).1 = some (true, m) ∧
      ∀ speed timestamp, ∃ r₁ r₂ o, next r (.boot true) = some r₁ ∧
        next r₁ (.sample speed timestamp) = some r₂ ∧ r₂.odometer = some o ∧ o.total = m.total := by
  have hr' : (foundMileage d).odoRemM.toNat < 1000 :=
    UInt16.lt_iff_toNat_lt.mp <| hr _ _ (loadMileage_run hd)
  have hd' := sound h hb hd
  refine ⟨fun o ho hne => ?_, fun s hs hok => saved_of_mem h hb hd hr' hw hs hok, _,
    loadMileage_run hd', reboot hd'⟩
  have hbd := bounded h hb hd hr' hw o ho hne
  exact ⟨_, loadMileage_run hd', hbd.total_le, hbd.total_lt⟩

-- The first write fails, the next one succeeds.
def flaky : Device :=
  mileage.holding ⟨100, 0, 0⟩ (fun n => if n = 0 then ⟨.nack, false⟩ else ⟨.ack, true⟩) fun _ => .ack

theorem mileage_loss_bounded_flaky : ∃ es r, (booted flaky).Runs es r ∧
    lastResult es = some true ∧
    ∀ o, r.odometer = some o → es ≠ [] →
      ∃ m, (loadMileage.run r.device).1 = some (true, m) ∧ m.total ≤ o.total ∧
        (lastResult es ≠ some false → o.total < m.total + 1000) := by
  have ⟨es, r, h, hp⟩ := Lts.exists_run_of_trace next (booted flaky)
    (drive.tail ++ [.sample 65535 110]) (fun t => t.1.all (·.label.sample?.isSome) &&
      t.1.all (fun s => !decide (Wraps s)) && decide (lastResult t.1 = some true)) (by decide +kernel)
  have ⟨⟨hb, hw⟩, hl⟩ : (OneBoot es ∧ ∀ s ∈ es, ¬Wraps s) ∧ lastResult es = some true := by
    simpa [OneBoot] using hp
  have hd : flaky.Sound Honest := by
    refine ⟨rfl, fun _ => rfl, fun n => ?_⟩
    by_cases hn : n = 0 <;> simp [Honest, flaky, Layout.holding, hn]
  have hr : ∀ ok m, (loadMileage.run flaky).1 = some (ok, m) → m.odoRemM < 1000 := by
    intro ok m hm
    have hf : foundMileage flaky = ⟨100, 0, 0⟩ := by
      rw [foundMileage, flaky, Layout.stored_holding rfl]
      rfl
    rw [loadMileage_run hd, hf] at hm
    cases hm
    decide
  exact ⟨es, r, h, hl, (mileage_loss_bounded h hb hd hr hw).left⟩

end Recorder

end App.UartCmd
