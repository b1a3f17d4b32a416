import DvrModel.Lib.Calendar
import DvrModel.App.UartCmd.SocStatus
import DvrModel.Svc.Lcd.Time

open Calendar

namespace Svc.Lcd

namespace LocalTime

variable {t x : UInt32} {n : Nat}

theorem toNat_yoe (h : x.toNat < 146097) : (yoe x).toNat = Civil.yoe x.toNat ∧
    x / 1460 ≤ x ∧ x / 146096 ≤ x - x / 1460 + x / 36524 := by
  have h₁ : x / 1460 ≤ x := by
    rw [UInt32.le_iff_toNat_le, UInt32.toNat_div]
    exact Nat.div_le_self ..
  have hs : (x - x / 1460 + x / 36524).toNat = x.toNat - x.toNat / 1460 + x.toNat / 36524 := by
    rw [UInt32.toNat_add, UInt32.toNat_sub_of_le _ _ h₁, UInt32.toNat_div, UInt32.toNat_div]
    refine Nat.mod_eq_of_lt ?_
    simp
    omega
  have h₂ : x / 146096 ≤ x - x / 1460 + x / 36524 := by
    rw [UInt32.le_iff_toNat_le, hs, UInt32.toNat_div]
    simp
    omega
  refine ⟨?_, h₁, h₂⟩
  rw [yoe, UInt32.toNat_div, UInt32.toNat_sub_of_le _ _ h₂, hs, UInt32.toNat_div]
  rfl

theorem toNat_doy (h : x.toNat < 146097) : (doy x).toNat = Civil.doy x.toNat ∧
    yoe x / 100 ≤ 365 * yoe x + yoe x / 4 ∧ 365 * yoe x + yoe x / 4 - yoe x / 100 ≤ x := by
  have ⟨c, q, s, r, hs⟩ := Civil.exists_split h
  have hd := hs.days_eq
  have hlt := Civil.yoe_lt h
  have hy := (toNat_yoe h).left
  rw [←hy] at hd hlt
  have hm : (365 * yoe x).toNat = 365 * (yoe x).toNat := by
    rw [UInt32.toNat_mul]
    refine Nat.mod_eq_of_lt ?_
    simp
    omega
  have ha : (365 * yoe x + yoe x / 4).toNat = 365 * (yoe x).toNat + (yoe x).toNat / 4 := by
    rw [UInt32.toNat_add, hm, UInt32.toNat_div]
    refine Nat.mod_eq_of_lt ?_
    simp
    omega
  have h₁ : yoe x / 100 ≤ 365 * yoe x + yoe x / 4 := by
    rw [UInt32.le_iff_toNat_le, ha, UInt32.toNat_div]
    simp
    omega
  have hb : (365 * yoe x + yoe x / 4 - yoe x / 100).toNat =
      365 * (yoe x).toNat + (yoe x).toNat / 4 - (yoe x).toNat / 100 := by
    rw [UInt32.toNat_sub_of_le _ _ h₁, ha, UInt32.toNat_div]
    rfl
  have h₂ : 365 * yoe x + yoe x / 4 - yoe x / 100 ≤ x := by
    rw [UInt32.le_iff_toNat_le, hb]
    omega
  refine ⟨?_, h₁, h₂⟩
  rw [doy, UInt32.toNat_sub_of_le _ _ h₂, hb, Civil.doy, hy]

variable {r : UInt32}

theorem toNat_mp (h : r.toNat ≤ 365) : (mp r).toNat = Civil.mp r.toNat := by
  rw [mp, UInt32.toNat_div, UInt32.toNat_add, UInt32.toNat_mul]
  simp [Civil.mp]
  omega

theorem toNat_d (h : r.toNat ≤ 365) :
    (d r).toNat = r.toNat - (153 * Civil.mp r.toNat + 2) / 5 + 1 ∧ (153 * mp r + 2) / 5 ≤ r := by
  have ⟨hm, hlo, _⟩ := Civil.mp_spec h
  have hq : ((153 * mp r + 2) / 5).toNat = (153 * Civil.mp r.toNat + 2) / 5 := by
    rw [UInt32.toNat_div, UInt32.toNat_add, UInt32.toNat_mul, toNat_mp h]
    simp
    rw [Nat.mod_eq_of_lt (show 153 * Civil.mp r.toNat + 2 < 4294967296 by omega)]
  have hle : (153 * mp r + 2) / 5 ≤ r := by
    rw [UInt32.le_iff_toNat_le, hq]
    exact hlo
  refine ⟨?_, hle⟩
  rw [d, UInt32.toNat_add, UInt32.toNat_sub_of_le _ _ hle, hq]
  refine Nat.mod_eq_of_lt ?_
  simp
  omega

theorem mp_lt_iff (h : r.toNat ≤ 365) : mp r < 10 ↔ Civil.mp r.toNat < 10 := by
  rw [UInt32.lt_iff_toNat_lt, toNat_mp h]
  rfl

theorem toNat_m (h : r.toNat ≤ 365) :
    (m (mp r)).toNat = (if Civil.mp r.toNat < 10 then Civil.mp r.toNat + 3 else Civil.mp r.toNat - 9) ∧
    (¬mp r < 10 → 9 ≤ mp r) := by
  have hlt := mp_lt_iff h
  have hle := (Civil.mp_spec h).left
  have h₉ : ¬mp r < 10 → 9 ≤ mp r := by
    rw [UInt32.lt_iff_toNat_lt, UInt32.le_iff_toNat_le]
    simp
    omega
  refine ⟨?_, h₉⟩
  rw [m]
  by_cases hm : mp r < 10
  case pos =>
    rw [if_pos hm, if_pos (hlt.mp hm), UInt32.toNat_add, toNat_mp h]
    simp
    omega
  case neg =>
    rw [if_neg hm, if_neg (mt hlt.mpr hm), UInt32.toNat_sub_of_le _ _ (h₉ hm), toNat_mp h]
    rfl

variable {i : Int32}

theorem toInt_z (h : t.toNat < 2 ^ 31 - 719468) : (z t).toInt = (t.toNat + 719468 : Nat) := by
  have ht : t.toInt32.toInt = t.toNat := by
    show t.toBitVec.toInt = _
    rw [BitVec.toInt_eq_toNat_of_lt]
    · rfl
    · show 2 * t.toNat < 2 ^ 32
      omega
  rw [z, Int32.toInt_add, ht, Int.bmod_eq_of_le]
  all_goals simp
  all_goals omega

theorem toInt_era (h : i.toInt = n) : (era i).toInt = (n / 146097 : Nat) := by
  have hi : i ≥ 0 := by
    rw [ge_iff_le, Int32.le_iff_toInt_le, h]
    simp
  rw [era, if_pos hi, Int32.toInt_div_of_ne_right _ _ (by decide), h]
  rfl

theorem toNat_toUInt32 (h : i.toInt = n) : i.toUInt32.toNat = n := by
  have hi : 0 ≤ i := by
    rw [Int32.le_iff_toInt_le, h]
    simp
  rw [Int32.toNat_toUInt32_of_le hi, Int32.toNatClampNeg, h, Int.toNat_natCast]

theorem toNat_doe (h : i.toInt = n) (hn : n < 2 ^ 31) :
    (doe i).toNat = n % 146097 ∧ era i * 146097 ≤ i := by
  have hd := Nat.div_add_mod n 146097
  have hm : (era i * 146097).toInt = (n / 146097 * 146097 : Nat) := by
    rw [Int32.toInt_mul, toInt_era h, Int.bmod_eq_of_le]
    all_goals simp
    all_goals omega
  refine ⟨toNat_toUInt32 ?_, ?_⟩
  · rw [Int32.toInt_sub, hm, h, Int.bmod_eq_of_le]
    all_goals simp
    all_goals omega
  · rw [Int32.le_iff_toInt_le, hm, h]
    omega

-- None of the subtractions leaves the range of its type. They are listed in the order of the source.
structure NoUnderflow (i : Int32) : Prop where
  eras      : era i * 146097 ≤ i
  fourYears : doe i / 1460 ≤ doe i
  lastDay   : doe i / 146096 ≤ doe i - doe i / 1460 + doe i / 36524
  centuries : yoe (doe i) / 100 ≤ 365 * yoe (doe i) + yoe (doe i) / 4
  years     : 365 * yoe (doe i) + yoe (doe i) / 4 - yoe (doe i) / 100 ≤ doe i
  months    : (153 * mp (doy (doe i)) + 2) / 5 ≤ doy (doe i)
  january   : ¬mp (doy (doe i)) < 10 → 9 ≤ mp (doy (doe i))

theorem noUnderflow (h : i.toInt = n) (hn : n < 2 ^ 31) : NoUnderflow i := by
  have ⟨hd, h₁⟩ := toNat_doe h hn
  have hlt : (doe i).toNat < 146097 := hd ▸ Nat.mod_lt _ (by decide)
  have ⟨_, h₂, h₃⟩ := toNat_yoe hlt
  have ⟨hdoy, h₄, h₅⟩ := toNat_doy hlt
  have hle : (doy (doe i)).toNat ≤ 365 := hdoy ▸ Civil.doy_le hlt
  exact ⟨h₁, h₂, h₃, h₄, h₅, (toNat_d hle).right, (toNat_m hle).right⟩

theorem toNat_y (h : i.toInt = n) (hn : n < 2 ^ 31) (hr : r.toNat ≤ 365) : (y i (mp r)).toNat =
    Civil.yoe (n % 146097) + n / 146097 * 400 + if Civil.mp r.toNat < 10 then 0 else 1 := by
  have hd := (toNat_doe h hn).left
  have hlt : (doe i).toNat < 146097 := hd ▸ Nat.mod_lt _ (by decide)
  have hy := (toNat_yoe hlt).left
  have hye := Civil.yoe_lt hlt
  have he := toNat_toUInt32 (toInt_era h)
  rw [hd] at hy hye
  have hm : ((era i).toUInt32 * 400).toNat = n / 146097 * 400 := by
    rw [UInt32.toNat_mul, he]
    refine Nat.mod_eq_of_lt ?_
    simp
    omega
  have ha : (yoe (doe i) + (era i).toUInt32 * 400).toNat =
      Civil.yoe (n % 146097) + n / 146097 * 400 := by
    rw [UInt32.toNat_add, hm, hy]
    refine Nat.mod_eq_of_lt ?_
    omega
  have hc : (if mp r < 10 then 0 else 1 : UInt32).toNat = if Civil.mp r.toNat < 10 then 0 else 1 := by
    simp only [mp_lt_iff hr]
    split <;> rfl
  rw [y, UInt32.toNat_add, ha, hc]
  refine Nat.mod_eq_of_lt ?_
  split <;> omega

def date (r : LocalTime) : Date :=
  ⟨r.year.toNat, r.month.toNat, r.day.toNat⟩

theorem toNat_localSeconds (h : t.toNat < 2 ^ 32 - 28800) : (localSeconds t).toNat = t.toNat + 28800 := by
  rw [localSeconds, UInt32.toNat_add]
  exact Nat.mod_eq_of_lt (by simp; omega)

theorem toNat_days (h : t.toNat < 2 ^ 32 - 28800) :
    (days t).toNat = (t.toNat + 28800) / 86400 ∧ (days t).toNat < 49711 := by
  have hd : (days t).toNat = (t.toNat + 28800) / 86400 := by
    rw [days, UInt32.toNat_div, toNat_localSeconds h]
    rfl
  exact ⟨hd, by omega⟩

theorem toNat_secsOfDay (h : t.toNat < 2 ^ 32 - 28800) :
    (secsOfDay t).toNat = (t.toNat + 28800) % 86400 := by
  rw [secsOfDay, UInt32.toNat_mod, toNat_localSeconds h]
  rfl

theorem date_eq (h : t.toNat < 2 ^ 32 - 28800) :
    (timestampToLocalYmdhm t).date = Civil.date ((t.toNat + 28800) / 86400 + 719468) := by
  have ⟨hd, hlt⟩ := toNat_days h
  have hz := toInt_z (t := days t) (by omega)
  rw [hd] at hlt hz
  generalize (t.toNat + 28800) / 86400 = k at hlt hz ⊢
  have hdoe := (toNat_doe hz (by omega)).left
  have hlt' : (doe (z (days t))).toNat < 146097 := hdoe ▸ Nat.mod_lt _ (by decide)
  have hdoy := (toNat_doy hlt').left
  have hle : (doy (doe (z (days t)))).toNat ≤ 365 := hdoy ▸ Civil.doy_le hlt'
  have hy := toNat_y hz (by omega) hle
  have hm := (toNat_m hle).left
  have hdd := (toNat_d hle).left
  have ⟨hmp, hlo, hhi⟩ := Civil.mp_spec hle
  have hyoe := Civil.yoe_lt hlt'
  rw [hdoy, hdoe] at hy hm hdd hmp hlo hhi
  rw [hdoe] at hyoe
  simp only [timestampToLocalYmdhm, date, Civil.date, Date.mk.injEq, UInt32.toNat_toUInt16,
    UInt32.toNat_toUInt8, hy, hm, hdd]
  refine ⟨Nat.mod_eq_of_lt ?_, Nat.mod_eq_of_lt ?_, Nat.mod_eq_of_lt ?_⟩
  · split <;> omega
  · split <;> omega
  · omega

end LocalTime

variable {t : UInt32}

open LocalTime

-- The date is the one with the right number of days since the first of January of 1970, and there is only
-- one such date.
theorem timestampToLocalYmdhm_correct {r : LocalTime} (h : t.toNat < 2 ^ 32 - 28800)
    (hr : timestampToLocalYmdhm t = r) :
    (r.date.Valid ∧ dayNumber r.date = ((t.toNat + 28800) / 86400 : Nat) ∧
      ∀ e : Date, e.Valid → dayNumber e = ((t.toNat + 28800) / 86400 : Nat) → e = r.date) ∧
    (r.hour.toNat = (t.toNat + 28800) % 86400 / 3600 ∧ r.hour.toNat < 24 ∧
      r.minute.toNat = (t.toNat + 28800) % 86400 % 3600 / 60 ∧ r.minute.toNat < 60) ∧
    NoUnderflow (z (days t)) ∧
    (App.UartCmd.timeToHms t).1 = r.hour ∧ (App.UartCmd.timeToHms t).2.1 = r.minute := by
  subst hr
  have ⟨hd, hlt⟩ := toNat_days h
  have hs := toNat_secsOfDay h
  have hdate := date_eq h
  have hv : (timestampToLocalYmdhm t).date.Valid := hdate ▸ Civil.valid_date _
  have hn : dayNumber (timestampToLocalYmdhm t).date = ((t.toNat + 28800) / 86400 : Nat) := by
    rw [hdate, dayNumber, Civil.ordinal_date, ordinal_epoch]
    omega
  have hh : (timestampToLocalYmdhm t).hour.toNat = (t.toNat + 28800) % 86400 / 3600 := by
    simp only [timestampToLocalYmdhm, UInt32.toNat_toUInt8, UInt32.toNat_div, hs]
    exact Nat.mod_eq_of_lt (by simp; omega)
  have hm : (timestampToLocalYmdhm t).minute.toNat = (t.toNat + 28800) % 86400 % 3600 / 60 := by
    simp only [timestampToLocalYmdhm, UInt32.toNat_toUInt8, UInt32.toNat_div, UInt32.toNat_mod, hs]
    exact Nat.mod_eq_of_lt (by simp; omega)
  refine ⟨⟨hv, hn, fun e he hne => ?_⟩, ⟨hh, by omega, hm, by omega⟩, ?_, rfl, rfl⟩
  · apply ordinal_inj he hv
    rw [←hn, dayNumber, dayNumber] at hne
    omega
  · exact noUnderflow (toInt_z (by omega)) (by omega)

-- The last minute of the leap day of the year 2000.
theorem timestampToLocalYmdhm_correct_leapDay :
    (timestampToLocalYmdhm 951839940).date.Valid ∧
    dayNumber (timestampToLocalYmdhm 951839940).date = 11016 ∧
    (timestampToLocalYmdhm 951839940).hour.toNat = 23 ∧
    (timestampToLocalYmdhm 951839940).minute.toNat = 59 := by
  have ⟨⟨h₁, h₂, _⟩, ⟨h₃, _, h₄, _⟩, _⟩ := timestampToLocalYmdhm_correct (t := 951839940) (by decide) rfl
  exact ⟨h₁, h₂, h₃, h₄⟩

example : timestampToLocalYmdhm 951839940 = ⟨2000, 2, 29, 23, 59⟩ := by decide

end Svc.Lcd
