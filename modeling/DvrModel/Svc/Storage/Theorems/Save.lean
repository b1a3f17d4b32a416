import DvrModel.Svc.Storage.Basic
import DvrModel.Svc.Storage.Theorems.Record

open Crash (wp)

namespace Svc.Eeprom

-- The same memory behind a bus that is found and on which every transfer succeeds.
def Device.faultFree (d : Device) : Device :=
  { d with bus := true, writes := fun _ => ⟨.ack, true⟩, reads := fun _ => .ack }

end Svc.Eeprom

namespace Svc.Storage

open Eeprom

namespace Layout

variable {L : Layout α} {v v' : α} {d d' : Device}

theorem load_faultFree : (L.load.run d.faultFree).1 = some (L.ofRead <| L.area d) :=
  load_spec.of_ack rfl rfl

theorem ofRead_eq_true {bs : List UInt8} (h : L.recordIsValid bs = true) :
    L.ofRead bs = (true, L.decode bs) := by
  simp [ofRead, h]

theorem decode_left :
    L.decode (L.left v d) = if (d.writes 0).effective then v else L.decode (L.area d) := by
  rw [left, decode_blend (by simp) (by simp)]
  cases (d.writes 0).effective <;> simp [decode_record]

theorem left_of_ignored (hw : L.WritesAcked d) (he : (d.writes 0).effective = false) :
    L.left v d =
      blend (pageRemain L.addr) false (d.writes 1).effective (L.record v) (L.area d) := by
  simp [left, hw.left, he]

-- What is stored is what a fault-free load delivers.
theorem load_of_stored (h : L.stored d = some v) : (L.load.run d.faultFree).1 = some (true, v) := by
  rw [load_faultFree, ofRead_area, h]
  rfl

theorem accepts_of_stored (h : L.stored d = some v) : L.accepts v = true := by
  unfold stored at h
  split at h
  case isTrue hv => exact Option.some.inj h ▸ accepts_decode hv
  case isFalse => contradiction

theorem stored_of_area (ha : L.accepts v = true) (h : L.area d = L.record v) : L.stored d = some v := by
  simp [stored, h, recordIsValid_record ha, decode_record]

theorem stored_congr (h : d'.mem = d.mem) : L.stored d' = L.stored d := by
  rw [stored, stored, area_congr h]

-- If the page writes take effect the save stores the value, whatever it returns.
theorem stored_save (ha : L.accepts v = true) (hb : d.bus = true)
    (hw : ∀ n, d.writes n = ⟨.ack, true⟩) : L.stored ((L.save v).run d).2 = some v := by
  refine stored_of_area ha ?_
  rw [(save_spec ha hb).area, left]
  simp [hw]

-- A save of a record that lies on one page stores the value, or it leaves what has been stored.
theorem stored_save_one_page (hp : L.size ≤ pageRemain L.addr) (ha : L.accepts v = true)
    (hb : d.bus = true) :
    L.stored ((L.save v).run d).2 = L.stored d ∨ L.stored ((L.save v).run d).2 = some v := by
  have harea : L.area ((L.save v).run d).2 =
      if (d.writes 0).effective then L.record v else L.area d := by
    rw [(save_spec ha hb).area, left, blend_of_length_le (by simpa using hp) (by simpa using hp)]
  cases he : (d.writes 0).effective <;> rw [he] at harea
  case false => exact .inl <| by rw [stored, harea]; rfl
  case true  => exact .inr <| stored_of_area ha harea

-- A device that holds a record of `v`.
def holding (L : Layout α) (v : α) (writes : Nat → Fate) (reads : Nat → Reply) : Device where
  bus    := true
  mem    := Store.write (fun _ => 0xFF) L.addr (L.record v)
  ptr    := 0
  writes := writes
  reads  := reads

theorem stored_holding (ha : L.accepts v = true) : L.stored (L.holding v ws rs) = some v :=
  stored_of_area ha <| Store.read_write length_record

end Layout

namespace Kind

variable {k : Kind} {v : k.Value} {d : Device}

-- A save that reports success has stored the value: it is found by a later load.
def VerifiedSave (k : Kind) (v : k.Value) (d : Device) : Prop :=
  ((k.save v).run d).1 = some true →
    (k.load.run ((k.save v).run d).2.faultFree).1 = some (true, v)

-- The circumstances under which the verification is taken in. All transfers are acknowledged, but the
-- page with the fields is not programmed, and what has been there before makes a valid record, with
-- other fields. If there is a second page it counts as it is left, new or old.
structure Stale (k : Kind) (v : k.Value) (d : Device) : Prop where
  accepted : k.layout.accepts v = true
  bus      : d.bus = true
  acked    : k.layout.WritesAcked d
  read     : d.readReply = .ack
  ignored  : (d.writes 0).effective = false
  valid    : k.layout.recordIsValid <|
    blend (pageRemain k.layout.addr) false (d.writes 1).effective (k.layout.record v) (k.layout.area d)
  differs  : k.layout.decode (k.layout.area d) ≠ v

theorem verifiedSave_iff : VerifiedSave k v d ↔ ¬Stale k v d := by
  rw [VerifiedSave, save_eq, load_eq, Layout.load_faultFree]
  constructor
  case mp =>
    intro h hs
    have hsv := Layout.save_spec hs.accepted hs.bus
    have hv := Layout.left_of_ignored hs.acked hs.ignored ▸ hs.valid
    have hl := h <| hsv.success.mpr ⟨hs.acked, hs.read, hv⟩
    rw [hsv.area, Layout.ofRead_eq_true hv, Layout.decode_left, hs.ignored] at hl
    exact hs.differs <| by simpa using hl
  case mpr =>
    intro hs h
    have ha : k.layout.accepts v = true := by
      by_contra ha
      simp [Layout.save_run_of_not_accepts (by simpa using ha)] at h
    have hb : d.bus = true := by
      by_contra hb
      simp [Layout.save_run_of_no_bus (by simpa using hb)] at h
    have hsv := Layout.save_spec ha hb
    have ⟨hw, hr, hv⟩ := hsv.success.mp h
    rw [hsv.area, Layout.ofRead_eq_true hv, Layout.decode_left]
    cases he : (d.writes 0).effective
    case true => rfl
    case false =>
      by_contra hne
      exact hs ⟨ha, hb, hw, hr, he, Layout.left_of_ignored hw he ▸ hv, by simpa using hne⟩

end Kind

-- The odometer record says 100 km. A write of 101 km is acknowledged and has no effect.
def ignoredWrite : Device :=
  mileage.holding ⟨100, 0, 0⟩ (fun _ => ⟨.ack, false⟩) fun _ => .ack

-- The old record passes the verification, and the next load finds 100 km.
theorem not_verifiedSave_ignoredWrite :
    ¬Kind.VerifiedSave .mileage (⟨101, 0, 0⟩ : Mileage) ignoredWrite := by
  intro h
  have hs : (saveMileage ⟨101, 0, 0⟩ |>.run ignoredWrite).1 = some true := by decide +kernel
  have hl : (loadMileage.run (saveMileage ⟨101, 0, 0⟩ |>.run ignoredWrite).2.faultFree).1 =
      some (true, ⟨100, 0, 0⟩) := by
    decide +kernel
  have he : some (true, (⟨100, 0, 0⟩ : Mileage)) = some (true, ⟨101, 0, 0⟩) := hl.symm.trans (h hs)
  exact absurd he (by decide)

end Svc.Storage
