import DvrModel.Svc.Storage.Record
import DvrModel.Svc.Storage.Theorems.Eeprom

open Crash (wp)

namespace Svc.Storage

open Eeprom

namespace Layout

variable {L : Layout α} {v : α} {d d' : Device} {bs old : List UInt8}

theorem size_pos : 12 ≤ L.size :=
  L.length_encode L.fallback ▸ Nat.le_add_left ..

theorem length_header : L.header.length = 8 := by
  simp [header]

theorem length_body : (L.body v).length = L.size - 4 := by
  have := L.length_encode v
  simp [body, length_header]
  omega

@[simp]
theorem length_record : (L.record v).length = L.size := by
  have := L.size_pos
  simp [record, length_body]
  omega

theorem record_ne_nil : L.record v ≠ [] := by
  have := L.size_pos
  exact List.ne_nil_of_length_pos (by simp; omega)

theorem decode_record : L.decode (L.record v) = v :=
  L.decode_encode _ _ _ length_header

theorem slice_record (h : o + n ≤ 8) : Bytes.slice (L.record v) o n = Bytes.slice L.header o n := by
  rw [record, body, List.append_assoc, Bytes.slice_append_left (by rw [length_header]; exact h)]

-- What is saved passes the check that the loads make.
theorem recordIsValid_record (h : L.accepts v = true) : L.recordIsValid (L.record v) = true := by
  have hs := L.size_lt
  have hl : (L.record v).take (L.size - 4) = L.body v := List.take_left' length_body
  have hc : Bytes.slice (L.record v) (L.size - 4) 4 = Bytes.ofUInt32 (checksum <| L.body v) := by
    rw [record, Bytes.slice_append_right (by rw [length_body]), length_body, Nat.sub_self,
      Bytes.slice_self (by simp)]
  simp [recordIsValid, slice_record, hl, hc, decode_record, h, header, Bytes.slice_append_right,
    Bytes.slice_zero, Bytes.slice_self, hs]

-- The fields are found on the first page, so that the fate of that page decides about the value.
theorem decode_blend (hb : bs.length = L.size) (ho : old.length = L.size) {e₀ e₁ : Bool} :
    L.decode (blend (pageRemain L.addr) e₀ e₁ bs old) = L.decode (if e₀ then bs else old) := by
  rw [←L.decode_take, ←L.decode_take (if e₀ then bs else old)]
  congr 1
  show (blend (pageRemain L.addr) e₀ e₁ bs old).take (pageRemain L.addr) = _
  by_cases h : L.size ≤ pageRemain L.addr
  case pos => rw [blend_of_length_le (hb ▸ h) (ho ▸ h)]; rfl
  case neg => exact List.take_left' (by cases e₀ <;> simp [hb, ho] <;> omega)

variable (L) in
-- The bytes in the place of the record.
def area (d : Device) : List UInt8 :=
  Store.read d.mem L.addr L.size

variable (L) in
-- The value that the memory holds, as far as the record check can tell.
def stored (d : Device) : Option α :=
  if L.recordIsValid (L.area d) then some (L.decode <| L.area d) else none

@[simp]
theorem length_area : (L.area d).length = L.size :=
  Store.length_read

theorem ofRead_area : L.ofRead (L.area d) = (L.stored d).elim (L.ofRead none) (true, ·) := by
  cases h : L.recordIsValid (L.area d) <;> simp [ofRead, stored, h]

-- The effect of a load. It leaves the memory alone, and it delivers what is stored as soon as the read
-- succeeds. Otherwise it falls back, or it is cut off.
structure Loaded (L : Layout α) (d : Device) (r : Option (Bool × α)) (d' : Device) : Prop where
  bus          : d'.bus = d.bus
  mem          : d'.mem = d.mem
  writes       : d'.writes = d.writes
  of_no_bus    : d.bus = false → r = some (L.ofRead none)
  of_ack       : d.bus = true → d.readReply = .ack → r = some (L.ofRead <| L.area d)
  of_nack      : d.readReply = .nack → r = some (L.ofRead none)
  of_powerLoss : d.bus = true → d.readReply = .powerLoss → r = none

theorem area_congr (h : d'.mem = d.mem) : L.area d' = L.area d := by
  rw [area, area, h]

theorem read_area_spec (hb : d.bus = true) :
    wp (Eeprom.read L.addr L.size) (Read d L.addr L.size) d :=
  read_spec hb (Nat.ne_of_gt <| Nat.lt_of_lt_of_le (by decide) L.size_pos) L.addr_lt

theorem load_spec : wp L.load (Loaded L d) d := by
  cases hb : d.bus
  case false =>
    have h : L.load.run d = (some (L.ofRead none), d) := by simp [load, hb]
    rw [wp, h]
    constructor
    all_goals simp [hb]
  case true =>
    have hr := read_area_spec (L := L) hb
    simp only [wp, load, Crash.run_get_bind, hb, Bool.not_true, Bool.false_eq_true, if_false] at hr ⊢
    rcases h : (Eeprom.read L.addr L.size).run d with ⟨_ | r, d₁⟩ <;> rw [h] at hr
    case none =>
      rw [Crash.run_bind_none h]
      refine ⟨hr.bus, hr.mem, hr.writes, by simp [hb], fun _ ha => ?_, fun hn => ?_, fun _ _ => rfl⟩
      · simpa using hr.of_ack ha
      · simpa using hr.of_nack hn
    case some =>
      rw [Crash.run_bind_some h]
      refine ⟨hr.bus, hr.mem, hr.writes, by simp [hb], fun _ ha => ?_, fun hn => ?_, fun _ hp => ?_⟩
      · rw [show r = some (L.area d) from Option.some.inj (hr.of_ack ha)]
        rfl
      · rw [show r = none from Option.some.inj (hr.of_nack hn)]
        rfl
      · simpa using hr.of_powerLoss hp

theorem accepts_decode (h : L.recordIsValid bs = true) : L.accepts (L.decode bs) = true := by
  simp only [recordIsValid, Bool.and_eq_true] at h
  exact h.left.right

-- What a load leaves in its output is the fallback or something acceptable, whatever the memory holds.
theorem ofRead_cases (bs : Option (List UInt8)) :
    L.ofRead bs = (L.fallbackResult, L.fallback) ∨ L.accepts (L.ofRead bs).2 = true := by
  cases bs
  case none => exact .inl rfl
  case some bs =>
    rw [ofRead]
    split
    case isTrue hv => exact .inr <| accepts_decode hv
    case isFalse   => exact .inl rfl

theorem load_returns {P : Bool × α → Prop} (h : ∀ bs, P (L.ofRead bs)) : Crash.Returns P L.load :=
  .bind_any fun _ => .ite (fun _ => .pure (h _)) fun _ => .bind_any fun _ => .pure (h _)

-- Where a load without a record fails, a load that succeeds delivers something acceptable.
theorem load_accepted (hf : L.fallbackResult = false) :
    Crash.Returns (fun r => r.1 = true → L.accepts r.2 = true) L.load := by
  refine load_returns fun bs hr => (ofRead_cases bs).resolve_left fun he => ?_
  rw [he, hf] at hr
  contradiction

theorem load_storable (hf : L.accepts L.fallback = true) :
    Crash.Returns (fun r => L.accepts r.2 = true) L.load := by
  refine load_returns fun bs => ?_
  cases ofRead_cases (L := L) bs
  case inl h => rw [h, hf]
  case inr h => exact h

variable (L) in
-- Every page write of a save is acknowledged.
def WritesAcked (d : Device) : Prop :=
  (d.writes 0).reply = .ack ∧ (pageRemain L.addr < L.size → (d.writes 1).reply = .ack)

variable (L) in
-- The bytes that a save of `v` leaves in the place of the record.
def left (v : α) (d : Device) : List UInt8 :=
  blend (pageRemain L.addr) (d.writes 0).effective
    ((d.writes 0).reply = .ack && (d.writes 1).effective) (L.record v) (L.area d)

-- The effect of a save, whether it succeeds, fails or is cut off.
structure Saved (L : Layout α) (v : α) (d : Device) (r : Option Bool) (d' : Device) : Prop where
  bus     : d'.bus = d.bus
  area    : L.area d' = L.left v d
  success : r = some true ↔
    L.WritesAcked d ∧ d.readReply = .ack ∧ L.recordIsValid (L.left v d) = true

theorem save_run_of_no_bus (hb : d.bus = false) : (L.save v).run d = (some false, d) := by
  cases h : L.accepts v <;> simp [save, h, hb]

theorem save_run_of_not_accepts (h : L.accepts v = false) : (L.save v).run d = (some false, d) := by
  simp [save, h]

theorem write_record_spec (hb : d.bus = true) :
    wp (Eeprom.write L.addr (L.record v))
      (fun r d' => Wrote d L.addr (L.record v) d' ∧ (r = some true ↔ L.WritesAcked d)) d := by
  have hp : (L.record v).length ≤ pageRemain L.addr + pageSize := by
    have h₁ := L.two_pages
    have h₂ := mod_pageSize_add_pageRemain (a := L.addr)
    rw [length_record]
    omega
  have h := write_spec hb (record_ne_nil (L := L) (v := v)) (by simpa using L.addr_lt) hp
  rwa [length_record] at h

theorem save_spec (ha : L.accepts v = true) (hb : d.bus = true) :
    wp (L.save v) (Saved L v d) d := by
  have ⟨hw, hok⟩ := write_record_spec (L := L) (v := v) hb
  simp only [wp, save, Crash.run_get_bind, ha, hb, Bool.not_true, Bool.false_eq_true, if_false]
  rcases h : (Eeprom.write L.addr (L.record v)).run d with ⟨_ | _ | _, d₁⟩ <;> rw [h] at hw hok
  all_goals have harea : L.area d₁ = L.left v d := by simpa [area, left] using hw.area
  case none =>
    rw [Crash.run_bind_none h]
    exact ⟨hw.bus, harea, by simp [show ¬L.WritesAcked d by simpa using hok]⟩
  case some.false =>
    rw [Crash.run_bind_some h]
    exact ⟨hw.bus, harea, by simp [show ¬L.WritesAcked d by simpa using hok]⟩
  case some.true =>
    have hr := read_area_spec (L := L) (d := d₁) (hw.bus.trans hb)
    have hrd : d₁.readReply = d.readReply := by rw [Device.readReply, hw.reads, Device.readReply]
    rw [Crash.run_bind_some h]
    simp only [Bool.not_true, Bool.false_eq_true, if_false]
    rcases h' : (Eeprom.read L.addr L.size).run d₁ with ⟨_ | r, d₂⟩
    all_goals
      rw [wp, h'] at hr
      have harea' : L.area d₂ = L.left v d := (area_congr hr.mem).trans harea
    case none =>
      have hn : ¬d.readReply = .ack := fun ha => by simpa using hr.of_ack (hrd.trans ha)
      rw [Crash.run_bind_none h']
      exact ⟨hr.bus.trans hw.bus, harea', by simp [hn]⟩
    case some =>
      rw [Crash.run_bind_some h']
      refine ⟨hr.bus.trans hw.bus, harea', ?_⟩
      cases ha : d.readReply
      case ack =>
        have hd : r = some (L.area d₁) := Option.some.inj <| hr.of_ack <| hrd.trans ha
        simp [hd, harea, show L.WritesAcked d by simpa using hok]
      case nack =>
        have hd : r = none := Option.some.inj <| hr.of_nack <| hrd.trans ha
        simp [hd]
      case powerLoss =>
        have hd := hr.of_powerLoss <| hrd.trans ha
        contradiction

variable (L) in
-- One of the transfers of a save fails, or what is read back is not a valid record.
def SaveFails (v : α) (d : Device) : Prop :=
  ¬L.WritesAcked d ∨ d.readReply ≠ .ack ∨ L.recordIsValid (L.area ((L.save v).run d).2) = false

theorem saveFails_of_false (ha : L.accepts v = true) (h : ((L.save v).run d).1 = some false) :
    d.bus = false ∨ L.SaveFails v d := by
  cases hb : d.bus
  case false => exact .inl rfl
  case true =>
    have hs := save_spec ha hb
    refine .inr <| by_contra fun hn => ?_
    simp only [SaveFails, not_or, not_not, Bool.not_eq_false, hs.area] at hn
    rw [hs.success.mpr hn] at h
    contradiction

section Keeps

open Crash (Keeps)

variable {F : Fate → Prop} {c : UInt8} {x : Nat}

theorem load_sound : Keeps (Device.Sound F) L.load :=
  .bind .get fun _ => .ite .pure <| .bind read_sound fun _ => .pure

theorem save_sound : Keeps (Device.Sound F) (L.save v) :=
  .ite .pure <| .bind .get fun _ => .ite .pure <| .bind write_sound fun _ => .ite .pure <|
    .bind read_sound fun _ => .pure

theorem read_frame : Keeps (·.mem x = c) (Eeprom.read L.addr L.size) := by
  intro d h
  cases hb : d.bus
  case false => simpa [Eeprom.read, hb] using h
  case true => exact (congrFun (read_area_spec hb).mem x).trans h

-- A save leaves everything outside of its record alone.
theorem save_frame (hx : x < L.addr ∨ L.addr + L.size ≤ x) : Keeps (·.mem x = c) (L.save v) := by
  have hw : Keeps (·.mem x = c) (Eeprom.write L.addr (L.record v)) :=
    write_frame (by simpa using L.addr_lt) (by simpa using hx)
  exact .ite .pure <| .bind .get fun _ => .ite .pure <| .bind hw fun _ => .ite .pure <|
    .bind read_frame fun _ => .pure

end Keeps

end Layout

end Svc.Storage
