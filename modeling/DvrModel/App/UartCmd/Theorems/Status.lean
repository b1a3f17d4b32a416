import DvrModel.App.UartCmd.Status
import DvrModel.App.UartCmd.Theorems.Parser
import Mathlib.Data.Nat.Bitwise

open Svc.Storage

namespace App.UartCmd

-- The characters that number plates begin with.
def plateProvinces : List Char :=
  ['京', '津', '沪', '渝', '冀', '豫', '云', '辽', '黑', '湘', '皖', '鲁', '新', '苏', '浙', '赣', '鄂', '桂',
    '甘', '晋', '蒙', '陕', '吉', '闽', '贵', '粤', '青', '藏', '川', '宁', '琼']

theorem mcuPlateProvinceUtf8_eq : mcuPlateProvinceUtf8 = plateProvinces.map String.utf8EncodeChar := by
  decide +kernel

theorem length_of_mem_mcuPlateProvinceUtf8 : ∀ bs ∈ mcuPlateProvinceUtf8, bs.length = 3 := by
  decide

namespace ConfigStatus

theorem toNat_flags {cs : List Bool} (h : cs.length ≤ 8) :
    (flags cs).toNat = cs.foldr Nat.bit 0 ∧ (flags cs).toNat < 2 ^ cs.length := by
  induction cs
  case nil => exact ⟨rfl, Nat.one_pos⟩
  case cons c cs hi =>
    have ⟨he, hl⟩ := hi (Nat.le_of_succ_le h)
    have hp : 2 ^ cs.length * 2 ≤ 2 ^ 8 :=
      (Nat.pow_succ 2 cs.length).symm.trans_le (Nat.pow_le_pow_right (by decide) h)
    have hf : (flags (c :: cs)).toNat = Nat.bit c (flags cs).toNat := by
      show (2 * flags cs + if c then 1 else 0).toNat = _
      cases c <;> simp [Nat.bit] <;> omega
    refine ⟨by rw [hf, he, List.foldr_cons], ?_⟩
    rw [hf, List.length_cons, Nat.pow_succ, Nat.bit_val]
    cases c <;> simp <;> omega

theorem testBit_foldr_bit (cs : List Bool) (i : Nat) :
    (cs.foldr Nat.bit 0).testBit i = cs.getD i false := by
  induction cs generalizing i
  case nil => simp
  case cons c cs hi =>
    cases i
    case zero => simp
    case succ i => rw [List.foldr_cons, Nat.testBit_bit_succ, hi, List.getD_cons_succ]

-- Every condition has a bit of its own, and the other bits are clear.
theorem getLsbD_flags {l : List Bool} (h : l.length ≤ 8) (i : Nat) :
    (flags l).toBitVec.getLsbD i = l.getD i false := by
  rw [BitVec.getLsbD, UInt8.toNat_toBitVec, (toNat_flags h).left, testBit_foldr_bit]

theorem ofArray_arrayAt {bs : List UInt8} {n : Nat} (h : n ≤ bs.length) :
    Bytes.ofArray (Bytes.arrayAt bs 0 n) = bs.take n := by
  refine List.ext_getElem (by simp [h]) fun i hi _ => ?_
  have hi : i < n := by simpa using hi
  simp [Bytes.ofArray, Bytes.arrayAt, Bytes.byteAt, show i < bs.length by omega]

theorem ofArray_copy {m n : Nat} {cs : Chars m} (h : n ≤ m) :
    Bytes.ofArray (copy n cs) = (Bytes.ofArray cs).take n :=
  ofArray_arrayAt (by simpa using h)

-- The conditions under which the items count as configured, in the order of their flags.
def configured (config : Config) (vin : Vin) (provinceId : ProvinceId) (cityId : CityId) : List Bool := [
  (Bytes.ofArray config.localPhone).take 11 != List.replicate 11 '0'.toUInt8,
  config.plateNumber.valid == 1, vin.valid == 1, provinceId.valid == 1, cityId.valid == 1]

-- The bytes by which stored values are described. The province has to be one that exists.
structure Describes (bs : List UInt8) (config : Config) (vin : Vin) (provinceId : ProvinceId)
    (cityId : CityId) : Prop where
  flags : ∀ i, (Bytes.byteAt bs 0).toBitVec.getLsbD i =
    (configured config vin provinceId cityId).getD i false
  items : ∃ province, plateProvinces[config.plateNumber.provinceIndex.toNat]? = some province ∧
    bs.tail = (Bytes.ofArray config.localPhone).take 11 ++ [config.plateClass, config.plateColor] ++
      String.utf8EncodeChar province ++ [config.plateNumber.letter] ++
      (Bytes.ofArray config.plateNumber.digits).take 5 ++ (Bytes.ofArray vin.vin).take 17 ++
      (Bytes.ofArray provinceId.id).take 2 ++ (Bytes.ofArray cityId.id).take 4

theorem length_encode (c : ConfigStatus) : c.encode.length = 46 := by
  simp [encode]

theorem describes_ofStored {config : Config} {vin : Vin} {provinceId : ProvinceId} {cityId : CityId}
    (h : config.plateNumber.provinceIndex < plateProvinceCount) :
    Describes (ofStored config vin provinceId cityId).encode config vin provinceId cityId where
  flags i := getLsbD_flags (l := configured config vin provinceId cityId) (by simp [configured]) i
  items := by
    have hl : config.plateNumber.provinceIndex.toNat < plateProvinces.length := h
    refine ⟨_, List.getElem?_eq_getElem hl, ?_⟩
    have hp : mcuPlateProvinceUtf8.getD config.plateNumber.provinceIndex.toNat [] =
        String.utf8EncodeChar (plateProvinces.get ⟨_, hl⟩) := by
      simp [mcuPlateProvinceUtf8_eq, hl]
    have hm : String.utf8EncodeChar (plateProvinces.get ⟨_, hl⟩) ∈ mcuPlateProvinceUtf8 := by
      rw [mcuPlateProvinceUtf8_eq]
      exact List.mem_map_of_mem (List.get_mem ..)
    have h₃ := length_of_mem_mcuPlateProvinceUtf8 _ hm
    simp only [encode, ofStored, if_pos h, List.tail_cons, hp]
    rw [ofArray_copy (by decide), ofArray_copy (by decide), ofArray_copy (by decide),
      ofArray_copy (by decide), ofArray_copy (by decide), ofArray_arrayAt (Nat.le_of_eq h₃.symm),
      List.take_of_length_le (Nat.le_of_eq h₃)]
    rfl

end ConfigStatus

-- The frames that a receiver accepts.
structure Sealed (m : List UInt8) : Prop where
  head   : m.head? = some frameHead
  length : (m.getD 1 0).toNat = m.length
  tail   : m.getLast? = some frameTail
  crc    : checkCrc (m.getD · 0) m.length = true

-- A frame whose checksum has been computed passes the check.
theorem checkCrc_sealed {b₀ b₁ b₂ tail : UInt8} {payload : List UInt8} :
    checkCrc (([b₀, b₁, b₂] ++ payload ++
      [(crc16 payload).toUInt8, (crc16 payload >>> 8).toUInt8, tail]).getD · 0)
      (payload.length + 6) = true := by
  generalize hm : [b₀, b₁, b₂] ++ payload ++ [(crc16 payload).toUInt8, _, tail] = m
  have hl : m.length = payload.length + 6 := by simp [← hm]
  rw [Parser.checkCrc_eq (hl ▸ Store.read_getD) (by omega) (Nat.le_refl _)]
  have hp : (m.drop 3).take payload.length = payload := by simp [← hm]
  have h₁ : m.getD (payload.length + 3) 0 = (crc16 payload).toUInt8 := by
    simp [← hm]
  have h₂ : m.getD (payload.length + 4) 0 = (crc16 payload >>> 8).toUInt8 := by
    simp [← hm]
  show (crc16 ((m.drop 3).take payload.length) == (m.getD (payload.length + 3) 0).toUInt16 |||
    ((m.getD (payload.length + 4) 0).toUInt16 <<< 8)) = true
  rw [hp, h₁, h₂, Bytes.toUInt16_bytes, beq_self_eq_true]

section Frame

variable {cache : ConfigStatus} {io : VehicleInputs} {anyKeyPressed : Bool} {bufSize : Nat}

theorem length_mcuStatus : (mcuStatus cache io anyKeyPressed).length = 55 := by
  rw [mcuStatus, List.length_append, ConfigStatus.length_encode]
  rfl

theorem buildMcuVersion_eq (h : mcuStatusFrameSize ≤ bufSize) :
    buildMcuVersion cache io anyKeyPressed bufSize =
      [frameHead, 61, typeMcuVersion] ++ mcuStatus cache io anyKeyPressed ++
      [(crc16 (mcuStatus cache io anyKeyPressed)).toUInt8,
        (crc16 (mcuStatus cache io anyKeyPressed) >>> 8).toUInt8, frameTail] := by
  rw [buildMcuVersion, if_neg (by omega)]
  rfl

theorem length_buildMcuVersion (h : mcuStatusFrameSize ≤ bufSize) :
    (buildMcuVersion cache io anyKeyPressed bufSize).length = 61 := by
  rw [buildMcuVersion_eq h]
  simp [length_mcuStatus]

-- The configuration is behind the version, the inputs and the region.
theorem slice_buildMcuVersion (h : mcuStatusFrameSize ≤ bufSize) :
    Bytes.slice (buildMcuVersion cache io anyKeyPressed bufSize) 12 46 = cache.encode := by
  rw [buildMcuVersion_eq h, Bytes.slice_append_left (by simp [length_mcuStatus]),
    Bytes.slice_append_right (by decide), mcuStatus, Bytes.slice_append_right (Nat.le_refl 9)]
  exact Bytes.slice_self cache.length_encode

theorem sealed_buildMcuVersion (h : mcuStatusFrameSize ≤ bufSize) :
    Sealed (buildMcuVersion cache io anyKeyPressed bufSize) where
  head   := by rw [buildMcuVersion_eq h]; rfl
  length := by rw [length_buildMcuVersion h, buildMcuVersion_eq h]; rfl
  tail   := by rw [buildMcuVersion_eq h, List.getLast?_append]; rfl
  crc    := by
    have hs : (mcuStatus cache io anyKeyPressed).length + 6 = 61 := by rw [length_mcuStatus]
    rw [length_buildMcuVersion h, buildMcuVersion_eq h, ← hs]
    exact checkCrc_sealed

end Frame

end App.UartCmd
