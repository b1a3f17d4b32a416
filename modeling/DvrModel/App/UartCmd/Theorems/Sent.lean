import DvrModel.App.UartCmd.Sent
import DvrModel.App.UartCmd.Theorems.Status

open Svc.Storage

namespace App.UartCmd

theorem ConfigStatus.flags_inj {l l' : List Bool} (hl : l.length = l'.length) (h : l.length ≤ 8)
    (he : flags l = flags l') : l = l' := by
  refine List.ext_getElem hl fun i hi hi' => ?_
  have hb := getLsbD_flags h i
  rw [he, getLsbD_flags (hl ▸ h)] at hb
  simpa [hi, hi'] using hb.symm

-- Each field has a place of its own in the packed structure.
theorem ConfigStatus.encode_inj {c c' : ConfigStatus} (h : c.encode = c'.encode) : c = c' := by
  injection h with hf h
  have ⟨h, hc⟩ := List.append_inj' h <| by simp
  have ⟨h, hp⟩ := List.append_inj' h <| by simp
  have ⟨h, hv⟩ := List.append_inj' h <| by simp
  have ⟨h, ht⟩ := List.append_inj' h <| by simp
  have ⟨h, hl⟩ := List.append_inj' h rfl
  have ⟨h, hu⟩ := List.append_inj' h <| by simp
  have ⟨hn, hb⟩ := List.append_inj' h rfl
  cases c
  cases c'
  simp only [Bytes.ofArray_inj, List.cons.injEq, and_true] at *
  simp [*]

section Status

variable {cache cache' : ConfigStatus} {io io' : VehicleInputs} {key key' : Bool}

-- The key shares its byte with the last four inputs.
theorem mcuStatus_inj (h : mcuStatus cache io key = mcuStatus cache' io' key') :
    cache = cache' ∧ io.bits = io'.bits ∧ key = key' := by
  have hl : ∀ io : VehicleInputs, io.bits.length = 12 := fun _ => by simp [VehicleInputs.bits]
  have ⟨h, hc⟩ := List.append_inj' h <| by rw [ConfigStatus.length_encode, ConfigStatus.length_encode]
  have hf := List.append_cancel_left (List.append_cancel_right h)
  injection hf with h₁ hf
  injection hf with h₂ _
  have h₁ := ConfigStatus.flags_inj (by simp [hl]) (by simp [hl]) h₁
  have h₂ := ConfigStatus.flags_inj (by simp [hl]) (by simp [hl]) h₂
  have ⟨h₂, hk⟩ := List.append_inj' h₂ rfl
  injection hk with hk _
  refine ⟨ConfigStatus.encode_inj hc, ?_, hk⟩
  rw [←List.take_append_drop 8 io.bits, h₁, h₂, List.take_append_drop]

end Status

namespace Sent

-- What a frame tells.
inductive Report
  | ack (type ret : UInt8)
  | status (cache : ConfigStatus) (inputs : List Bool) (anyKeyPressed : Bool)

def report : Sent → Report
  | ack type ret                      => .ack type ret
  | mcuVersion cache io anyKeyPressed => .status cache io.bits anyKeyPressed

variable {x y : Sent}

def size : Sent → Nat
  | ack ..        => 8
  | mcuVersion .. => 61

theorem length_bytes (x : Sent) : x.bytes.length = x.size := by
  cases x
  case ack        => rfl
  case mcuVersion => exact length_buildMcuVersion <| Nat.le_refl _

theorem isSealed (x : Sent) : Sealed x.bytes := by
  cases x
  case mcuVersion => exact sealed_buildMcuVersion (Nat.le_refl _)
  case ack type ret =>
    have hc : checkCrc (([frameHead, 8, type] ++ [ret, 0] ++ [(crc16 [ret, 0]).toUInt8,
      (crc16 [ret, 0] >>> 8).toUInt8, frameTail]).getD · 0) 8 = true := checkCrc_sealed
    exact ⟨rfl, rfl, rfl, hc⟩

-- The frames of both kinds differ in their lengths.
theorem bytes_inj (h : x.bytes = y.bytes) : x.report = y.report := by
  have hl := congrArg List.length h
  rw [length_bytes, length_bytes] at hl
  cases x <;> cases y
  case ack.ack =>
    injection h with _ h
    injection h with _ h
    injection h with ht h
    injection h with hr _
    rw [report, report, ht, hr]
  case ack.mcuVersion =>
    have hl : 8 = 61 := hl
    contradiction
  case mcuVersion.ack =>
    have hl : 61 = 8 := hl
    contradiction
  case mcuVersion.mcuVersion =>
    rw [bytes, bytes, buildMcuVersion_eq (Nat.le_refl _), buildMcuVersion_eq (Nat.le_refl _)] at h
    obtain ⟨h, _⟩ := List.append_inj' h <| by simp
    obtain ⟨hc, hi, hk⟩ := mcuStatus_inj <| List.append_cancel_left h
    rw [report, report, hc, hi, hk]

theorem bytes_eq_iff : x.bytes = y.bytes ↔ x.report = y.report := by
  refine ⟨bytes_inj, fun h => ?_⟩
  cases x <;> cases y <;> injection h
  case ack.ack ht hr => rw [ht, hr]
  case mcuVersion.mcuVersion hc hi hk =>
    rw [bytes, bytes, buildMcuVersion, buildMcuVersion, mcuStatus, hc, hi, hk, mcuStatus]

theorem two_le_length (x : Sent) : 2 ≤ x.bytes.length := by
  rw [length_bytes]
  cases x
  case ack        => exact Nat.le_of_ble_eq_true rfl
  case mcuVersion => exact Nat.le_of_ble_eq_true rfl

theorem bytes_ne_nil (x : Sent) : x.bytes ≠ [] :=
  List.ne_nil_of_length_pos <| Nat.lt_of_lt_of_le Nat.two_pos x.two_le_length

-- Where a frame ends can be told from its second byte.
theorem bytes_append_inj {bs cs : List UInt8} (h : x.bytes ++ bs = y.bytes ++ cs) :
    x.bytes = y.bytes ∧ bs = cs := by
  have hd : ∀ (z : Sent) (bs : List UInt8), ((z.bytes ++ bs).getD 1 0).toNat = z.bytes.length := by
    intro z bs
    rw [List.getD_append _ _ _ _ z.two_le_length]
    exact z.isSealed.length
  exact List.append_inj h <| by rw [←hd x bs, ←hd y cs, h]

-- Whatever is sent, in whatever order: every frame is one that a receiver accepts, and the bytes on the wire
-- tell exactly which reports have been sent.
theorem wire_faithful (xs ys : List Sent) : (∀ x ∈ xs, Sealed x.bytes) ∧
    (xs.flatMap bytes = ys.flatMap bytes ↔ xs.map report = ys.map report) := by
  refine ⟨fun x _ => x.isSealed, ?_⟩
  induction xs generalizing ys
  case nil =>
    cases ys
    case nil => exact iff_of_true rfl rfl
    case cons y ys =>
      exact iff_of_false (fun h => y.bytes_ne_nil (List.append_eq_nil_iff.mp h.symm).left) <| by simp
  case cons x xs hi =>
    cases ys
    case nil =>
      exact iff_of_false (fun h => x.bytes_ne_nil (List.append_eq_nil_iff.mp h).left) <| by simp
    case cons y ys =>
      rw [List.flatMap_cons, List.flatMap_cons, List.map_cons, List.map_cons, List.cons.injEq, ←bytes_eq_iff,
        ←hi ys]
      exact ⟨bytes_append_inj, fun h => by rw [h.left, h.right]⟩

end Sent

end App.UartCmd
