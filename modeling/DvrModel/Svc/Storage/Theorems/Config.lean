import DvrModel.Svc.Storage.Theorems.Save

open Crash (wp)

namespace Svc.Storage

open Eeprom

-- The four fields of the configuration that can be saved on their own.
inductive Field
  | localPhone
  | plateClass
  | plateColor
  | plateNumber
  deriving DecidableEq

namespace Field

def Value : Field → Type
  | localPhone  => Chars 12
  | plateClass  => UInt8
  | plateColor  => UInt8
  | plateNumber => PlateNumber

def get : (f : Field) → Config → f.Value
  | localPhone  => Config.localPhone
  | plateClass  => Config.plateClass
  | plateColor  => Config.plateColor
  | plateNumber => Config.plateNumber

def set : (f : Field) → Config → f.Value → Config
  | localPhone  => ({ · with localPhone := · })
  | plateClass  => ({ · with plateClass := · })
  | plateColor  => ({ · with plateColor := · })
  | plateNumber => ({ · with plateNumber := · })

def valid : (f : Field) → f.Value → Bool
  | localPhone  => phoneDigitsValid
  | plateClass  => plateClassValid
  | plateColor  => plateColorValid
  | plateNumber => plateNumberValid

def save : (f : Field) → f.Value → Io Bool
  | localPhone  => saveLocalPhone
  | plateClass  => savePlateClass
  | plateColor  => savePlateColor
  | plateNumber => savePlateNumber

theorem save_eq (f : Field) : f.save = saveField f.valid f.set := by
  cases f <;> rfl

variable {f g : Field} {v : f.Value} {c c' : Config} {d d' : Device}

theorem get_set_of_ne (h : g ≠ f) : g.get (f.set c v) = g.get c := by
  cases f <;> cases g <;> first | contradiction | rfl

theorem valid_set (hc : configValid c = true) (hv : f.valid v = true) :
    configValid (f.set c v) = true := by
  simp only [configValid, Bool.and_eq_true] at hc ⊢
  cases f <;> simp_all [set, valid]

theorem valid_get (f : Field) (hc : configValid c = true) : f.valid (f.get c) = true := by
  simp only [configValid, Bool.and_eq_true] at hc
  cases f <;> simp_all [get, valid]

theorem configValid_defaultConfig : configValid defaultConfig = true := by
  decide

-- The fields other than `f` are the same.
def Agree (f : Field) (c c' : Config) : Prop :=
  ∀ g, g ≠ f → g.get c' = g.get c

-- A later load finds all fields other than `f` as they are in `c`.
def Preserved (f : Field) (c : Config) (d : Device) : Prop :=
  ∃ r, (loadConfig.run d.faultFree).1 = some r ∧ Agree f c r.2

theorem Agree.refl : Agree f c c :=
  fun _ _ => rfl

theorem agree_set : Agree f c' (f.set c v) ↔ Agree f c' c := by
  refine forall₂_congr fun g h => ?_
  rw [get_set_of_ne h]

theorem preserved_iff_of_stored (h : config.stored d = some c') : Preserved f c d ↔ Agree f c c' := by
  simp [Preserved, loadConfig, Layout.load_of_stored h]

-- The load of a single-field save falls back to the factory defaults, and at least one of the other
-- fields has been set to something else.
structure Lost (f : Field) (c : Config) (d : Device) : Prop where
  bus      : d.bus = true
  read     : d.readReply = .nack
  disagree : ¬Agree f c defaultConfig

theorem save_run_some (hv : f.valid v = true) (h : loadConfig.run d = (some r, d')) :
    (f.save v).run d = (saveConfig <| f.set r.2 v).run d' := by
  simp only [save_eq, saveField, hv, Bool.not_true, Bool.false_eq_true, if_false]
  exact Crash.run_bind_some h

theorem save_run_none (hv : f.valid v = true) (h : loadConfig.run d = (none, d')) :
    (f.save v).run d = (none, d') := by
  simp only [save_eq, saveField, hv, Bool.not_true, Bool.false_eq_true, if_false]
  exact Crash.run_bind_none h

-- Once the load has delivered `c'`, the save decides about the other fields by what they are in `c'`.
theorem preserved_save_of_load (hv : f.valid v = true) (hc : configValid c' = true)
    (hl : loadConfig.run d = (some (ok, c'), d')) (hb : d'.bus = true)
    (hw : ∀ n, d'.writes n = ⟨.ack, true⟩) :
    Preserved f c ((f.save v).run d).2 ↔ Agree f c c' := by
  have hs : config.stored ((saveConfig <| f.set c' v).run d').2 = some (f.set c' v) :=
    Layout.stored_save (valid_set hc hv) hb hw
  rw [save_run_some hv hl, preserved_iff_of_stored hs, agree_set]

theorem preserved_save_iff (hv : f.valid v = true) (hc : config.stored d = some c)
    (hw : ∀ n, d.writes n = ⟨.ack, true⟩) : Preserved f c ((f.save v).run d).2 ↔ ¬Lost f c d := by
  have hl := config.load_spec (d := d)
  rcases h : loadConfig.run d with ⟨r, d'⟩
  rw [wp, ←loadConfig, h] at hl
  have hc' : config.stored d' = some c := (Layout.stored_congr hl.mem).trans hc
  have hp : Preserved f c d' := preserved_iff_of_stored hc' |>.mpr .refl
  cases hb : d.bus
  case false =>
    have hr : r = some (config.ofRead none) := hl.of_no_bus hb
    have hs : (f.save v).run d = (some false, d') :=
      (save_run_some hv (hr ▸ h)).trans <| Layout.save_run_of_no_bus <| hl.bus.trans hb
    refine iff_of_true (by rwa [hs]) fun hlost => ?_
    simp [hlost.bus] at hb
  case true =>
    have hb' : d'.bus = true := hl.bus.trans hb
    have hw' : ∀ n, d'.writes n = ⟨.ack, true⟩ := hl.writes ▸ hw
    cases hr : d.readReply
    case ack =>
      have hr' : r = some (true, c) :=
        (hl.of_ack hb hr).trans <| by rw [Layout.ofRead_area, hc]; rfl
      rw [preserved_save_of_load hv (Layout.accepts_of_stored hc) (hr' ▸ h) hb' hw']
      refine iff_of_true .refl fun hlost => ?_
      simp [hlost.read] at hr
    case nack =>
      have hr' : r = some (false, defaultConfig) := hl.of_nack hr
      rw [preserved_save_of_load hv configValid_defaultConfig (hr' ▸ h) hb' hw']
      exact ⟨fun ha hlost => hlost.disagree ha, fun hn => by_contra fun ha => hn ⟨hb, hr, ha⟩⟩
    case powerLoss =>
      have hr' : r = none := hl.of_powerLoss hb hr
      rw [save_run_none hv (hr' ▸ h)]
      refine iff_of_true hp fun hlost => ?_
      simp [hlost.read] at hr

-- The configuration that is to be saved passes the check, whatever has been loaded before.
theorem set_storable (hv : f.valid v = true) :
    Crash.Returns (fun r => configValid (f.set r.2 v) = true) loadConfig :=
  (config.load_storable configValid_defaultConfig).mono fun _ hc => valid_set hc hv

theorem saveFails_of_false (hv : f.valid v = true) (h : ((f.save v).run d).1 = some false) :
    d.bus = false ∨ ∃ r d', loadConfig.run d = (some r, d') ∧ config.SaveFails (f.set r.2 v) d' := by
  have hl := config.load_spec (d := d)
  rcases hr : loadConfig.run d with ⟨_ | r, d'⟩
  case none =>
    rw [save_run_none hv hr] at h
    contradiction
  case some =>
    rw [wp, ←loadConfig, hr] at hl
    rw [save_run_some hv hr] at h
    have hc : configValid (f.set r.2 v) = true := set_storable hv d r (by rw [hr])
    have := config.saveFails_of_false hc h
    rw [hl.bus] at this
    exact this.imp_right fun hs => ⟨r, d', rfl, hs⟩

end Field

-- Whatever the memory holds and whichever transfers fail, the loads only deliver what the saves accept.
-- So a save of a valid field is not rejected, and it fails only if the bus is missing, or if a transfer or
-- the check of what is read back fails.
theorem loads_storable :
    (Crash.Returns (fun r => configValid r.2 = true) loadConfig ∧
      Crash.Returns (fun r => vinValid r.2 = true) loadVin ∧
      Crash.Returns (fun r => provinceIdValid r.2 = true) loadProvinceId ∧
      Crash.Returns (fun r => cityIdValid r.2 = true) loadCityId) ∧
    (∀ (f : Field) (v : f.Value), f.valid v = true →
      Crash.Returns (fun r => configValid (f.set r.2 v) = true) loadConfig ∧
      ∀ d, ((f.save v).run d).1 = some false → d.bus = false ∨
        ∃ r d', loadConfig.run d = (some r, d') ∧ config.SaveFails (f.set r.2 v) d') ∧
    ∀ (k : Kind) (v : k.Value), k.layout.accepts v = true →
      ∀ d, ((k.save v).run d).1 = some false → d.bus = false ∨ k.layout.SaveFails v d := by
  refine ⟨⟨?_, ?_, ?_, ?_⟩, fun f v hv => ⟨?_, fun d => ?_⟩, fun k v hv d h => ?_⟩
  · exact config.load_storable Field.configValid_defaultConfig
  · exact vin.load_storable (by decide)
  · exact provinceId.load_storable (by decide)
  · exact cityId.load_storable (by decide)
  · exact Field.set_storable hv
  · exact Field.saveFails_of_false hv
  · rw [Kind.save_eq] at h
    exact Layout.saveFails_of_false hv h

def fleetConfig : Config where
  localPhone  := ![49, 51, 56, 48, 48, 49, 51, 56, 48, 48, 48, 0]
  plateClass  := 2
  plateColor  := 2
  plateNumber := { valid := 1, provinceIndex := 2, letter := 65, digits := ![56, 56, 56, 56, 56, 0] }

-- The read of the load fails once, all other transfers succeed.
def failedRead : Device :=
  config.holding fleetConfig (fun _ => ⟨.ack, true⟩) fun n => if n = 0 then .nack else .ack

theorem preserved_save_iff_failedRead :
    Field.Preserved .plateColor fleetConfig ((savePlateColor 3).run failedRead).2 ↔
      ¬Field.Lost .plateColor fleetConfig failedRead :=
  Field.preserved_save_iff (f := .plateColor) (by decide) (Layout.stored_holding <| by decide)
    fun _ => rfl

-- Saving the color of the plate resets the phone number, the class and the number of the plate.
theorem not_preserved_failedRead :
    config.stored failedRead = some fleetConfig ∧ plateColorValid 3 = true ∧
    ¬Field.Preserved .plateColor fleetConfig ((savePlateColor 3).run failedRead).2 := by
  refine ⟨Layout.stored_holding <| by decide, by decide, fun ⟨r, hr, ha⟩ => ?_⟩
  have hl : (loadConfig.run ((savePlateColor 3).run failedRead).2.faultFree).1.map
      (·.2.localPhone 0) = some 48 := by
    decide +kernel
  have hp : r.2.localPhone = fleetConfig.localPhone := ha .localPhone (by decide)
  rw [hr, Option.map_some, hp] at hl
  exact absurd hl (by decide)

namespace Layout

variable {L : Layout α} {c n : α} {d : Device}

-- A save ends after its first page has been written and before the second one has.
structure Torn (d : Device) : Prop where
  bus : d.bus = true
  fst : (d.writes 0).effective = true
  snd : ¬((d.writes 0).reply = .ack ∧ (d.writes 1).effective = true)

variable (L) in
-- The first page of a record of `n`, followed by the rest of the old record.
def tornRecord (n : α) (d : Device) : List UInt8 :=
  blend (pageRemain L.addr) true false (L.record n) (L.area d)

theorem decode_tornRecord : L.decode (L.tornRecord n d) = n := by
  rw [tornRecord, decode_blend (by simp) (by simp)]
  exact decode_record

theorem load_save_of_not_torn (hc : L.stored d = some c) (ha : L.accepts n = true)
    (hw : ∀ i, (d.writes i).reply = .ack → (d.writes i).effective = true) (ht : ¬Torn d) :
    L.stored ((L.save n).run d).2 = some c ∨ L.stored ((L.save n).run d).2 = some n := by
  cases hb : d.bus
  case false => exact .inl <| by rwa [save_run_of_no_bus hb]
  case true =>
    have hs := save_spec ha hb
    cases he : (d.writes 0).effective
    case false =>
      have hr : (d.writes 0).reply ≠ .ack := fun hr => by simp [hw 0 hr] at he
      have harea : L.area ((L.save n).run d).2 = L.area d := by
        rw [hs.area, left]
        simp [he, hr]
      exact .inl <| by rwa [stored, harea]
    case true =>
      have hr : (d.writes 0).reply = .ack ∧ (d.writes 1).effective = true :=
        by_contra fun hn => ht ⟨hb, he, hn⟩
      refine .inr <| stored_of_area ha ?_
      rw [hs.area, left]
      simp [he, hr]

theorem load_save_of_torn (ha : L.accepts n = true) (ht : Torn d) :
    (L.load.run ((L.save n).run d).2.faultFree).1 = some (L.ofRead <| L.tornRecord n d) := by
  have hs : (decide ((d.writes 0).reply = .ack) && (d.writes 1).effective) = false := by
    simpa using ht.snd
  rw [load_faultFree, (save_spec ha ht.bus).area, left, ht.fst, hs]
  rfl

end Layout

theorem saveConfig_interrupted {c n : Config} {d : Device} (hc : config.stored d = some c)
    (hn : configValid n = true)
    (hw : ∀ i, (d.writes i).reply = .ack → (d.writes i).effective = true) :
    (¬Layout.Torn d →
      (loadConfig.run ((saveConfig n).run d).2.faultFree).1 = some (true, c) ∨
      (loadConfig.run ((saveConfig n).run d).2.faultFree).1 = some (true, n)) ∧
    (Layout.Torn d →
      (loadConfig.run ((saveConfig n).run d).2.faultFree).1 =
        if config.recordIsValid (config.tornRecord n d) then some (true, n)
        else some (false, defaultConfig)) := by
  refine ⟨fun ht => ?_, fun ht => ?_⟩
  · exact (Layout.load_save_of_not_torn hc hn hw ht).imp Layout.load_of_stored Layout.load_of_stored
  · have hl := Layout.load_save_of_torn (L := config) hn ht
    rw [loadConfig, saveConfig, hl]
    cases hv : config.recordIsValid (config.tornRecord n d)
    case false => simp only [Layout.ofRead, hv, Bool.false_eq_true, if_false]; rfl
    case true  => simp [Layout.ofRead, hv, Layout.decode_tornRecord]

-- The second page is neither acknowledged nor written.
def interruptedWrite : Device :=
  config.holding fleetConfig (fun n => if n = 0 then ⟨.ack, true⟩ else ⟨.nack, false⟩) fun _ => .ack

def otherConfig : Config :=
  { fleetConfig with plateClass := 3 }

theorem saveConfig_interrupted_interruptedWrite :
    Layout.Torn interruptedWrite ∧
    (loadConfig.run ((saveConfig otherConfig).run interruptedWrite).2.faultFree).1 =
      if config.recordIsValid (config.tornRecord otherConfig interruptedWrite)
      then some (true, otherConfig) else some (false, defaultConfig) := by
  have ht : Layout.Torn interruptedWrite := ⟨rfl, rfl, by decide⟩
  have hw i : (interruptedWrite.writes i).reply = .ack →
      (interruptedWrite.writes i).effective = true := by
    by_cases h : i = 0 <;> simp [interruptedWrite, Layout.holding, h]
  have hc : config.stored interruptedWrite = some fleetConfig := Layout.stored_holding (by decide)
  exact ⟨ht, (saveConfig_interrupted hc (by decide) hw).right ht⟩

-- The checksum on the second page does not fit to the new class of the plate on the first one, so that
-- the next load takes the factory defaults.
theorem not_atomic_interruptedWrite :
    config.stored interruptedWrite = some fleetConfig ∧ configValid otherConfig = true ∧
    ¬((loadConfig.run ((saveConfig otherConfig).run interruptedWrite).2.faultFree).1 =
        some (true, fleetConfig) ∨
      (loadConfig.run ((saveConfig otherConfig).run interruptedWrite).2.faultFree).1 =
        some (true, otherConfig)) := by
  refine ⟨Layout.stored_holding (by decide), by decide, fun h => ?_⟩
  have hf : (loadConfig.run ((saveConfig otherConfig).run interruptedWrite).2.faultFree).1.map (·.1) =
      some false := by
    decide +kernel
  cases h
  all_goals
    rename_i h
    simp [h] at hf

end Svc.Storage
