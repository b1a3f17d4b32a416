import DvrModel.Lib.Crc
import DvrModel.App.UartCmd.Theorems.Frames

open Polynomial

namespace App.UartCmd

-- The generator `x^16 + x^12 + x^5 + 1` without its leading coefficient.
def crcGenerator : BitVec 16 := 0x1021

-- The bits of a payload in the order in which they are checked.
def dataBits (data : List UInt8) : List Bool :=
  data.flatMap (Crc.bits 8 ·.toBitVec)

theorem modulus_crcGenerator : Crc.modulus crcGenerator = X ^ 16 + X ^ 12 + X ^ 5 + 1 := by
  have : Crc.bits 16 crcGenerator = [
      false, false, false, true, false, false, false, false, false, false, true, false, false, false,
      false, true
    ] := by decide
  simp [Crc.modulus, this, Crc.poly]
  ring

-- The table holds what the four bits that leave the register feed back.
theorem crc16HalfByte_eq : (x : BitVec 4) →
    (crc16HalfByte.getD x.toNat 0).toBitVec = Crc.run crcGenerator 0 (Crc.bits 4 x) := by
  decide

theorem bits_four {r : BitVec 16} : Crc.bits 4 r = Crc.bits 4 (r.extractLsb' 12 4) := by
  refine List.ext_getElem (by simp) fun i h _ => ?_
  rw [Crc.length_bits] at h
  have hi : 12 + (4 - 1 - i) = 16 - 1 - i := by omega
  simp only [Crc.getElem_bits, BitVec.getMsbD, h, show i < 16 by omega, BitVec.getLsbD_extractLsb', hi,
    show 4 - 1 - i < 4 by omega, decide_true, Bool.true_and]

theorem crc16Nibble_eq {crc : UInt16} {nibble : UInt8} (h : nibble.toNat < 16) :
    (crc16Nibble crc nibble).toBitVec =
      Crc.run crcGenerator crc.toBitVec (Crc.bits 4 <| nibble.toBitVec.setWidth 4) := by
  have hx : (((crc >>> 8) >>> 4).toUInt8 ^^^ nibble).toNat =
      (crc.toBitVec.extractLsb' 12 4 ^^^ nibble.toBitVec.setWidth 4).toNat := by
    have hc := crc.toNat_lt
    have hd : crc.toNat / 4096 < 16 := by omega
    rw [UInt8.toNat_xor, BitVec.toNat_xor]
    congr 1
    case e_a => simp [Nat.shiftRight_eq_div_pow, Nat.div_div_eq_div_mul]; omega
    case e_a => simp; omega
  rw [Crc.run_eq_table Crc.length_bits, bits_four, ←Crc.bits_xor, ←crc16HalfByte_eq, ←hx]
  rfl

theorem bits_nibbles {byte : BitVec 8} : Crc.bits 8 byte =
    Crc.bits 4 ((byte >>> 4).setWidth 4) ++ Crc.bits 4 ((byte &&& 0x0F).setWidth 4) := by
  simp [Crc.bits_eq_map, List.range_succ, BitVec.getMsbD]

theorem crc16Byte_eq {crc : UInt16} {byte : UInt8} :
    (crc16Byte crc byte).toBitVec =
      Crc.run crcGenerator crc.toBitVec (Crc.bits 8 byte.toBitVec) := by
  have hb := byte.toNat_lt
  have h₁ : (byte >>> 4).toNat < 16 := by
    simp [Nat.shiftRight_eq_div_pow]
    omega
  have h₂ : (byte &&& 0x0F).toNat < 16 := by
    simp
    exact Nat.lt_of_le_of_lt Nat.and_le_right (by decide)
  rw [bits_nibbles, Crc.run_append, crc16Byte, crc16Nibble_eq h₂, crc16Nibble_eq h₁]
  rfl

theorem crc16_eq_run {data : List UInt8} :
    (crc16 data).toBitVec = Crc.run crcGenerator 0 (dataBits data) := by
  have h (crc : UInt16) : (data.foldl crc16Byte crc).toBitVec =
      Crc.run crcGenerator crc.toBitVec (dataBits data) := by
    induction data generalizing crc
    case nil => rfl
    case cons byte data hi =>
      rw [List.foldl_cons, hi, crc16Byte_eq, ←Crc.run_append]
      rfl
  exact h 0

-- The bytewise computation by the table is the bitwise one, and both are the division by the generator.
theorem crc16_correct (data : List UInt8) :
    (crc16 data).toBitVec = Crc.run crcGenerator 0 (dataBits data) ∧
    Crc.poly (Crc.bits 16 (crc16 data).toBitVec) =
      (Crc.poly (dataBits data) * X ^ 16) %ₘ (X ^ 16 + X ^ 12 + X ^ 5 + 1) := by
  refine ⟨crc16_eq_run, ?_⟩
  rw [crc16_eq_run, Crc.poly_run_eq, modulus_crcGenerator]

example : crc16 [0x31, 0x32, 0x33, 0x34, 0x35, 0x36, 0x37, 0x38, 0x39] = 0x31C3 := by decide

theorem dataBits_cons : dataBits (b :: bs) = Crc.bits 8 b.toBitVec ++ dataBits bs :=
  List.flatMap_cons

theorem length_dataBits : (dataBits data).length = 8 * data.length := by
  induction data
  case nil => rfl
  case cons hi => rw [dataBits_cons, List.length_append, hi, Crc.length_bits, List.length_cons]; omega

theorem dataBits_inj {a b : List UInt8} (hl : a.length = b.length) (h : dataBits a = dataBits b) :
    a = b := by
  induction a generalizing b
  case nil => exact (List.eq_nil_of_length_eq_zero hl.symm).symm
  case cons x a hi =>
    have ⟨y, b, he⟩ := List.exists_cons_of_length_eq_add_one hl.symm
    subst he
    rw [dataBits_cons, dataBits_cons] at h
    have ⟨h₁, h₂⟩ := List.append_inj h (by simp)
    rw [hi (Nat.add_right_cancel hl) h₂, UInt8.toBitVec_inj.mp <| Crc.bits_inj h₁]

-- Two payloads differ, and all bits in which they do lie close together.
structure Burst (a b : List UInt8) : Prop where
  length_eq : a.length = b.length
  ne        : a ≠ b
  window    : ∃ k, ∀ i, (dataBits a)[i]? ≠ (dataBits b)[i]? → k ≤ i ∧ i < k + 16

theorem Burst.crc16_ne {a b : List UInt8} (h : Burst a b) : crc16 a ≠ crc16 b := by
  have ⟨k, hk⟩ := h.window
  have hl : (dataBits a).length = (dataBits b).length := by
    rw [length_dataBits, length_dataBits, h.length_eq]
  intro hc
  refine Crc.run_ne_of_window (g := crcGenerator) (r := 0) (by decide) hl ?_ hk ?_
  · exact mt (dataBits_inj h.length_eq) h.ne
  · rw [←crc16_eq_run, ←crc16_eq_run, hc]

theorem getElem?_dataBits {j : Nat} :
    (dataBits data)[j]? = data[j / 8]?.map (·.toBitVec.getMsbD (j % 8)) := by
  induction data generalizing j
  case nil => rfl
  case cons b bs hi =>
    rw [dataBits_cons]
    by_cases hj : j < 8
    case pos =>
      have hl : j < (Crc.bits 8 b.toBitVec).length := by simpa using hj
      rw [List.getElem?_append_left hl, List.getElem?_eq_getElem hl, Crc.getElem_bits,
        Nat.div_eq_of_lt hj, Nat.mod_eq_of_lt hj]
      rfl
    case neg =>
      have hd : j / 8 = (j - 8) / 8 + 1 := by omega
      rw [List.getElem?_append_right (by simp; omega), Crc.length_bits, hi, hd,
        show (j - 8) % 8 = j % 8 by omega, List.getElem?_cons_succ]

-- Another value of a single byte is a burst.
theorem Burst.set {a : List UInt8} {i : Nat} {v : UInt8} (h : i < a.length) (hv : v ≠ a[i]) :
    Burst a (a.set i v) where
  length_eq := List.length_set.symm
  ne he     := hv <| by
    have := List.getElem_of_eq he h
    rw [this, List.getElem_set_self]
  window    := by
    refine ⟨8 * i, fun j hj => ?_⟩
    rw [getElem?_dataBits, getElem?_dataBits] at hj
    have hi : i = j / 8 := by
      by_contra hn
      exact hj <| by rw [List.getElem?_set_ne hn]
    omega

def Frame.payload (f : Frame) : List UInt8 :=
  f.data.drop 3 |>.take (f.length - 6)

theorem Frame.WellFormed.length_payload {f : Frame} (h : f.WellFormed) :
    f.payload.length = f.length - 6 := by
  have h₁ := h.length_ge
  simp [Frame.payload, h.data_length]
  omega

-- Another payload in the place of the one of a frame passes if it has the same checksum.
theorem Frame.WellFormed.checkCrc_write {f : Frame} {temp : Nat → UInt8} {p : List UInt8}
    (h : f.WellFormed) (ht : Store.read temp 0 f.length = f.data) (hl : p.length = f.payload.length) :
    checkCrc (Store.write temp 3 p) f.length = (crc16 p == crc16 f.payload) := by
  have hge := h.length_ge
  rw [h.length_payload] at hl
  have hg (k) (hk : k < f.length) : temp k = f.data.getD k 0 := by
    rw [←ht, Store.getD_read hk, Nat.zero_add]
  rw [checkCrc, if_neg (by omega), Store.read_write hl, Store.write_of_ge (by omega),
    Store.write_of_ge (by omega), hg _ (by omega), hg _ (by omega), Frame.payload, h.crc_eq]

-- Bursts in the payload are detected, whatever the length of the payload and the position of the burst.
theorem burst_detected {a b : List UInt8} (h : Burst a b) : crc16 a ≠ crc16 b ∧
    ∀ (f : Frame) (temp : Nat → UInt8), f.WellFormed → Store.read temp 0 f.length = f.data →
      f.payload = a → checkCrc (Store.write temp 3 b) f.length = false := by
  refine ⟨h.crc16_ne, fun f temp hf ht ha => ?_⟩
  rw [hf.checkCrc_write ht (ha ▸ h.length_eq.symm), ha]
  exact beq_false_of_ne h.crc16_ne.symm

-- A frame that is hit in the first and in the last one of sixteen bits.
def zeroFrame : Frame where
  length := 9
  data   := [0xAA, 0x09, 0x01, 0x00, 0x00, 0x00, 0x00, 0x00, 0x55]

theorem burst_detected_zeroFrame : crc16 [0x00, 0x00, 0x00] ≠ crc16 [0x08, 0x00, 0x10] ∧
    checkCrc (Store.write (zeroFrame.data.getD · 0) 3 [0x08, 0x00, 0x10]) 9 = false := by
  have hw : ∃ k, ∀ i, (dataBits [0x00, 0x00, 0x00])[i]? ≠ (dataBits [0x08, 0x00, 0x10])[i]? →
      k ≤ i ∧ i < k + 16 := by
    refine ⟨4, fun i => ?_⟩
    by_cases hi : i < 24
    case pos => revert i; decide
    case neg => simp [length_dataBits, Nat.le_of_not_lt hi]
  have hb : Burst [0x00, 0x00, 0x00] [0x08, 0x00, 0x10] := ⟨rfl, by decide, hw⟩
  have hf : zeroFrame.WellFormed := ⟨rfl, rfl, rfl, by decide, by decide, rfl, by decide⟩
  have ht : Store.read (zeroFrame.data.getD · 0) 0 zeroFrame.length = zeroFrame.data := Store.read_getD
  exact ⟨(burst_detected hb).left, (burst_detected hb).right zeroFrame _ hf ht rfl⟩

end App.UartCmd
