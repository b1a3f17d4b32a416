import DvrModel.App.UartCmd.SocStatus
import Mathlib.Data.List.Flatten
import Mathlib.Data.List.GetD

namespace App.UartCmd

-- Single bits in a byte, the first one in bit 0.
def packBits (bits : List Bool) : UInt8 :=
  bits.foldr (fun b n => 2 * n + if b then 1 else 0) 0

variable {as bs : List Bool} {i : Nat}

theorem toNat_packBits (h : bs.length ≤ 8) : (packBits bs).toNat = (BitVec.ofBoolListLE bs).toNat := by
  induction bs
  case nil => rfl
  case cons b bs hi =>
    have hl : bs.length ≤ 7 := Nat.le_of_succ_le_succ h
    have hlt : (BitVec.ofBoolListLE bs).toNat < 2 ^ 7 :=
      Nat.lt_of_lt_of_le (BitVec.isLt _) (Nat.pow_le_pow_right (by decide) hl)
    have hc : (packBits (b :: bs)).toNat = (2 * (packBits bs).toNat + b.toNat) % 256 := by
      cases b <;> simp [packBits]
    have hb := b.toNat_lt
    rw [hc, hi (by omega), BitVec.ofBoolListLE, BitVec.toNat_concat]
    omega

-- A bit is found where it has been put.
theorem testBit_packBits (h : bs.length ≤ 8) : (packBits bs).toNat.testBit i = bs.getD i false := by
  rw [toNat_packBits h, BitVec.testBit_toNat, BitVec.getLsbD_ofBoolListLE]

theorem packBits_inj (ha : as.length = 8) (hb : bs.length = 8) (h : packBits as = packBits bs) :
    as = bs := by
  apply List.ext_getElem (ha.trans hb.symm)
  intro i h₁ h₂
  have ht : (packBits as).toNat.testBit i = (packBits bs).toNat.testBit i := by rw [h]
  rwa [testBit_packBits (Nat.le_of_eq ha), testBit_packBits (Nat.le_of_eq hb),
    List.getD_eq_getElem _ _ h₁, List.getD_eq_getElem _ _ h₂] at ht

theorem statusBit_eq {bits : UInt8} (h : i < 8) : statusBit bits (.ofNat i) = bits.toNat.testBit i := by
  have hs : ((bits >>> .ofNat i) &&& 1).toNat = bits.toNat >>> i % 2 := by
    simp [Nat.mod_eq_of_lt (show i < 256 by omega), Nat.mod_eq_of_lt h]
  rw [statusBit, Nat.testBit, Nat.one_and_eq_mod_two, Bool.eq_iff_iff, beq_iff_eq, ←UInt8.toNat_inj, hs]
  simp

theorem packBits_statusBit {bits : UInt8} : packBits [statusBit bits 0, statusBit bits 1,
    statusBit bits 2, statusBit bits 3, statusBit bits 4, statusBit bits 5, statusBit bits 6,
    statusBit bits 7] = bits := by
  have hm : packBits ((List.range 8).map fun i => statusBit bits (.ofNat i)) = bits := by
    apply UInt8.toNat_inj.mp
    apply Nat.eq_of_testBit_eq
    intro i
    rw [testBit_packBits (by simp)]
    by_cases hi : i < 8
    case pos =>
      rw [List.getD_eq_getElem _ _ (by simpa using hi), List.getElem_map, List.getElem_range,
        statusBit_eq hi]
    case neg =>
      have hlt : bits.toNat < 2 ^ i :=
        Nat.lt_of_lt_of_le bits.toNat_lt (Nat.pow_le_pow_right (by decide) (Nat.le_of_not_lt hi))
      rw [List.getD_eq_default _ _ (by simpa using hi), Nat.testBit_lt_two_pow hlt]
  exact hm

namespace SocStatusMsg

variable {m m' : SocStatusMsg} {data : List UInt8}

-- The members of the packed structure one after the other. Bit-fields start at bit 0, and integers are
-- little endian.
def members (m : SocStatusMsg) : List (List UInt8) := [
  [packBits [m.camera1Status, m.camera2Status, m.camera3Status, m.camera4Status, m.recordStatus,
    m.locationStatus, m.icCardStatus, m.udiskStatus]],
  [packBits [m.ip1Connected, m.ip2Connected, m.gsmConnected, m.protectStorage, m.sdcardStatus,
    m.simStatus, m.latitudeDirection, m.longitudeDirection]],
  Bytes.ofArray m.driverNumber,
  Bytes.ofUInt32 m.totalCapacity,
  Bytes.ofUInt32 m.freeCapacity,
  Bytes.ofUInt32 m.driverTime,
  [m.simSignal],
  Bytes.ofArray m.phoneNumber,
  [m.usedSatellite],
  Bytes.ofUInt32 m.latitude,
  Bytes.ofUInt32 m.longitude,
  Bytes.ofUInt32 m.timestamp,
  Bytes.ofUInt16 m.driverSpeed,
  Bytes.ofArray m.terminalId,
  Bytes.ofUInt32 m.ip1,
  Bytes.ofUInt32 m.ip2
]

def encode (m : SocStatusMsg) : List UInt8 :=
  m.members.flatten

def sizes : List Nat :=
  [1, 1, 9, 4, 4, 4, 1, 10, 1, 4, 4, 4, 2, 30, 4, 4]

theorem map_length_members : m.members.map List.length = sizes := by
  simp [members, sizes]

theorem length_encode : m.encode.length = 87 := by
  rw [encode, List.length_flatten, map_length_members]
  rfl

end SocStatusMsg

theorem ofUInt16_readLe16 (h : o + 2 ≤ data.length) :
    Bytes.ofUInt16 (readLe16 data o) = Bytes.slice data o 2 := by
  have hs : (Bytes.slice data o 2).length = 2 := by simp [Bytes.slice]; omega
  have : Bytes.slice data o 2 = [Bytes.byteAt data o, Bytes.byteAt data (o + 1)] := by
    rw [←Bytes.ofArray_arrayAt h]; rfl
  rw [←Bytes.toLe_ofLe hs, Bytes.ofUInt16, readLe16, Bytes.toNat_word, this]
  rfl

theorem ofUInt32_readLe32 (h : o + 4 ≤ data.length) :
    Bytes.ofUInt32 (readLe32 data o) = Bytes.slice data o 4 := by
  have hs : (Bytes.slice data o 4).length = 4 := by simp [Bytes.slice]; omega
  have : Bytes.slice data o 4 = [Bytes.byteAt data o, Bytes.byteAt data (o + 1),
      Bytes.byteAt data (o + 2), Bytes.byteAt data (o + 3)] := by
    rw [←Bytes.ofArray_arrayAt h]; rfl
  rw [←Bytes.toLe_ofLe hs, Bytes.ofUInt32, readLe32, Bytes.toNat_dword, this]
  rfl

namespace SocStatusMsg

variable {m m' : SocStatusMsg} {data : List UInt8}

theorem members_ofData (h : 90 ≤ data.length) : (ofData data).members = Bytes.slices data 3 sizes := by
  simp (disch := omega) only [members, ofData, packBits_statusBit, Bytes.singleton_byteAt,
    Bytes.ofArray_arrayAt, ofUInt32_readLe32, ofUInt16_readLe16]
  rfl

theorem encode_ofData (h : 90 ≤ data.length) : (ofData data).encode = Bytes.slice data 3 87 := by
  rw [encode, members_ofData h, Bytes.flatten_slices]
  rfl

theorem members_inj (h : m.members = m'.members) : m = m' := by
  simp only [members, List.cons.injEq, Bytes.ofArray_inj, Bytes.ofUInt32_inj, Bytes.ofUInt16_inj,
    and_true] at h
  have ⟨h₁, h₂, h⟩ := h
  have h₁ := packBits_inj rfl rfl h₁
  have h₂ := packBits_inj rfl rfl h₂
  simp only [List.cons.injEq, and_true] at h₁ h₂
  cases m
  cases m'
  simp_all only [and_self]

theorem encode_inj (h : m.encode = m'.encode) : m = m' := by
  apply members_inj
  rw [List.eq_iff_flatten_eq]
  exact ⟨h, map_length_members.trans map_length_members.symm⟩

-- The message is made of the bytes 3 to 89 only.
theorem ofData_congr {data' : List UInt8}
    (h : ∀ k, 3 ≤ k → k ≤ 89 → Bytes.byteAt data k = Bytes.byteAt data' k) :
    ofData data = ofData data' := by
  have ha {o n} (h₁ : 3 ≤ o) (h₂ : o + n ≤ 90) : Bytes.arrayAt data o n = Bytes.arrayAt data' o n :=
    funext fun i => h _ (by omega) (by omega)
  simp (disch := omega) only [ofData, readLe32, readLe16, h, ha]

end SocStatusMsg

theorem isSome_parseSocStatus {f : Frame} : (parseSocStatus f).isSome = true ↔
    93 ≤ f.length ∧ Bytes.byteAt f.data 0 = frameHead ∧ Bytes.byteAt f.data 2 = typeSocStatus := by
  unfold parseSocStatus
  grind

theorem parseSocStatus_eq {f : Frame} (h : parseSocStatus f = some m) : m = .ofData f.data := by
  unfold parseSocStatus at h
  grind

-- Exactly the status frames that are long enough are accepted, and the message is the one that is laid
-- out from the fourth byte on: no bit is dropped or read twice, and no other byte plays a role.
theorem parseSocStatus_correct (f : Frame) :
    ((parseSocStatus f).isSome = true ↔ 93 ≤ f.length ∧ Bytes.byteAt f.data 0 = frameHead ∧
      Bytes.byteAt f.data 2 = typeSocStatus) ∧
    ∀ r, parseSocStatus f = some r →
      (∀ m, SocStatusMsg.encode m <+: f.data.drop 3 → r = m) ∧
      (∀ b, b.length = 87 → b <+: f.data.drop 3 → r.encode = b) ∧
      ∀ f', (parseSocStatus f').isSome = true →
        (∀ k, 3 ≤ k → k ≤ 89 → Bytes.byteAt f.data k = Bytes.byteAt f'.data k) →
        parseSocStatus f' = some r := by
  refine ⟨isSome_parseSocStatus, fun r hr => ?_⟩
  have hd := parseSocStatus_eq hr
  have hb (b : List UInt8) (hl : b.length = 87) (hp : b <+: f.data.drop 3) : r.encode = b := by
    have hf : 90 ≤ f.data.length := by
      have := hp.length_le
      rw [List.length_drop] at this
      omega
    rw [hd, SocStatusMsg.encode_ofData hf, Bytes.slice, ←hl]
    exact (List.prefix_iff_eq_take.mp hp).symm
  refine ⟨fun m hm => SocStatusMsg.encode_inj <| hb _ SocStatusMsg.length_encode hm, hb, fun f' hf' hk => ?_⟩
  obtain ⟨r', hr'⟩ := Option.isSome_iff_exists.mp hf'
  rw [hr', parseSocStatus_eq hr', hd, SocStatusMsg.ofData_congr hk]

end App.UartCmd
