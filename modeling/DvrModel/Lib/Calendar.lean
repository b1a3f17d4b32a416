import Mathlib.Algebra.BigOperators.Group.Finset.Basic
import Mathlib.Algebra.Order.BigOperators.Group.Finset
import Mathlib.Algebra.Order.Group.Nat
import Mathlib.Data.Nat.Init

-- The proleptic Gregorian calendar.
namespace Calendar

def isLeap (year : Nat) : Bool :=
  year % 4 == 0 && (year % 100 != 0 || year % 400 == 0)

def yearDays (year : Nat) : Nat :=
  if isLeap year then 366 else 365

-- Months are counted from one.
def monthDays (year : Nat) : Nat → Nat
  | 1  => 31
  | 2  => if isLeap year then 29 else 28
  | 3  => 31
  | 4  => 30
  | 5  => 31
  | 6  => 30
  | 7  => 31
  | 8  => 31
  | 9  => 30
  | 10 => 31
  | 11 => 30
  | 12 => 31
  | _  => 0

structure Date where
  year  : Nat
  month : Nat
  day   : Nat
  deriving DecidableEq

structure Date.Valid (d : Date) : Prop where
  month_ge : 1 ≤ d.month
  month_le : d.month ≤ 12
  day_ge   : 1 ≤ d.day
  day_le   : d.day ≤ monthDays d.year d.month

def daysBeforeYear (year : Nat) : Nat :=
  ∑ y ∈ Finset.range year, yearDays y

def daysBeforeMonth (year month : Nat) : Nat :=
  ∑ m ∈ Finset.range month, monthDays year m

-- The number of days since the first day of the year zero.
def ordinal (d : Date) : Nat :=
  daysBeforeYear d.year + daysBeforeMonth d.year d.month + (d.day - 1)

-- The number of days since the first day of 1970.
def dayNumber (d : Date) : Int :=
  ordinal d - ordinal ⟨1970, 1, 1⟩

-- Where periods of the given lengths follow one another, a moment lies in one period only.
theorem eq_of_sum_eq {f : Nat → Nat} {i j r s : Nat} (hr : r < f i) (hs : s < f j)
    (h : ∑ k ∈ Finset.range i, f k + r = ∑ k ∈ Finset.range j, f k + s) : i = j ∧ r = s := by
  have hlt {i j r} (hr : r < f i) (hij : i < j) :
      ∑ k ∈ Finset.range i, f k + r < ∑ k ∈ Finset.range j, f k := by
    calc
      ∑ k ∈ Finset.range i, f k + r < ∑ k ∈ Finset.range i, f k + f i := Nat.add_lt_add_left hr _
      _ = ∑ k ∈ Finset.range (i + 1), f k := (Finset.sum_range_succ ..).symm
      _ ≤ _ := Finset.sum_le_sum_of_subset (Finset.range_subset_range.mpr hij)
  rcases Nat.lt_trichotomy i j with hij | hij | hij
  case inl =>
    have := hlt hr hij
    omega
  case inr.inl =>
    subst hij
    exact ⟨rfl, Nat.add_left_cancel h⟩
  case inr.inr =>
    have := hlt hs hij
    omega

theorem daysBeforeMonth_thirteen {year : Nat} : daysBeforeMonth year 13 = yearDays year := by
  simp only [daysBeforeMonth, Finset.sum_range_succ, Finset.sum_range_zero, monthDays, yearDays]
  split <;> rfl

theorem Date.Valid.dayOfYear_lt {d : Date} (h : d.Valid) :
    daysBeforeMonth d.year d.month + (d.day - 1) < yearDays d.year := by
  have h₁ := h.day_ge
  have h₂ := h.day_le
  have h₃ : daysBeforeMonth d.year (d.month + 1) ≤ daysBeforeMonth d.year 13 :=
    Finset.sum_le_sum_of_subset (Finset.range_subset_range.mpr <| Nat.succ_le_succ h.month_le)
  have h₄ : daysBeforeMonth d.year (d.month + 1) = daysBeforeMonth d.year d.month + _ :=
    Finset.sum_range_succ ..
  rw [daysBeforeMonth_thirteen] at h₃
  omega

theorem ordinal_inj {d e : Date} (hd : d.Valid) (he : e.Valid) (h : ordinal d = ordinal e) : d = e := by
  have h₁ := hd.day_ge
  have h₂ := he.day_ge
  have h₃ := hd.day_le
  have h₄ := he.day_le
  simp only [ordinal, Nat.add_assoc] at h
  have ⟨hy, h⟩ := eq_of_sum_eq hd.dayOfYear_lt he.dayOfYear_lt h
  rw [←hy] at h h₄
  have ⟨hm, hn⟩ := eq_of_sum_eq (f := monthDays d.year) (by omega) (by omega) h
  have hn : d.day = e.day := by omega
  cases d
  cases e
  simp_all

theorem succ_add_div {n y : Nat} :
    (y + 1 + n) / (n + 1) = (y + n) / (n + 1) + if y % (n + 1) = 0 then 1 else 0 := by
  have hd : n + 1 ∣ y + n + 1 ↔ y % (n + 1) = 0 := by
    rw [Nat.add_assoc, Nat.dvd_add_left (dvd_refl _), Nat.dvd_iff_mod_eq_zero]
  rw [Nat.add_right_comm, Nat.succ_div]
  simp only [hd]

-- Every fourth year is a leap year, but only one in four of those that end a century.
theorem daysBeforeYear_eq (year : Nat) :
    daysBeforeYear year + (year + 99) / 100 = 365 * year + (year + 3) / 4 + (year + 399) / 400 := by
  induction year
  case zero => rfl
  case succ y hi =>
    have hs : daysBeforeYear (y + 1) = daysBeforeYear y + yearDays y := Finset.sum_range_succ ..
    have hd : y % 400 = 0 → y % 100 = 0 := by omega
    have hd' : y % 100 = 0 → y % 4 = 0 := by omega
    rw [hs, succ_add_div, succ_add_div, succ_add_div]
    simp only [yearDays, isLeap, Bool.and_eq_true, Bool.or_eq_true, beq_iff_eq, bne_iff_ne, ne_eq]
    grind

theorem ordinal_newYear (year : Nat) : ordinal ⟨year, 1, 1⟩ = daysBeforeYear year := rfl

theorem ordinal_epoch : ordinal ⟨1970, 1, 1⟩ = 719528 := by
  have h := daysBeforeYear_eq 1970
  rw [ordinal_newYear]
  omega

-- The days before the first of March, from the first of March of the year zero on.
def daysBeforeMarch (year : Nat) : Nat :=
  365 * year + year / 4 - year / 100 + year / 400

theorem daysBeforeYear_succ (year : Nat) : daysBeforeYear (year + 1) = daysBeforeMarch year + 366 := by
  have h₄ : (year + 1 + 3) / 4 = year / 4 + 1 := by omega
  have h₁₀₀ : (year + 1 + 99) / 100 = year / 100 + 1 := by omega
  have h₄₀₀ : (year + 1 + 399) / 400 = year / 400 + 1 := by omega
  have h := daysBeforeYear_eq (year + 1)
  rw [h₄, h₁₀₀, h₄₀₀] at h
  rw [daysBeforeMarch]
  omega

theorem daysBeforeYear_add_yearDays (year : Nat) :
    daysBeforeYear year + yearDays year = daysBeforeMarch year + 366 := by
  rw [←daysBeforeYear_succ]
  exact (Finset.sum_range_succ ..).symm

-- The conversion of a day number into a date by divisions. Years begin in March here, so that the leap day
-- is the last one of its year. `doe` is the day of an era of 400 years, `yoe` the year of the era, and
-- `doy` the day of the year.
namespace Civil

def yoe (doe : Nat) : Nat :=
  (doe - doe / 1460 + doe / 36524 - doe / 146096) / 365

def doy (doe : Nat) : Nat :=
  doe - (365 * yoe doe + yoe doe / 4 - yoe doe / 100)

def mp (doy : Nat) : Nat :=
  (5 * doy + 2) / 153

def date (z : Nat) : Date :=
  let doe := z % 146097
  let m := mp (doy doe)
  { year  := yoe doe + z / 146097 * 400 + if m < 10 then 0 else 1
    month := if m < 10 then m + 3 else m - 9
    day   := doy doe - (153 * m + 2) / 5 + 1 }

-- A day of an era: centuries, cycles of four years and years that are over, and the day of the year.
structure Split (doe c q s r : Nat) : Prop where
  eq      : doe = 36524 * c + 1461 * q + 365 * s + r
  century : c ≤ 3
  cycle   : q ≤ 24
  year    : s ≤ 3
  day     : r ≤ 365
  leap    : r = 365 → s = 3 ∧ (q = 24 → c = 3)

theorem exists_split (h : doe < 146097) : ∃ c q s r, Split doe c q s r := by
  -- The last day of the last century, or of the last year of a cycle, is one more than the others have.
  let c := min 3 (doe / 36524)
  let x := doe - 36524 * c
  have hc : c ≤ 3 := Nat.min_le_left ..
  have hx : doe = 36524 * c + x ∧ x ≤ 36524 ∧ (x = 36524 → c = 3) := by omega
  let q := x / 1461
  let u := x - 1461 * q
  have hu : x = 1461 * q + u ∧ u ≤ 1460 ∧ q ≤ 24 := by omega
  have hq : q = 24 → u = 1460 → c = 3 := by omega
  let s := min 3 (u / 365)
  have hs : u = 365 * s + (u - 365 * s) ∧ s ≤ 3 ∧ u - 365 * s ≤ 365 := by omega
  exact ⟨c, q, s, u - 365 * s, by omega, hc, by omega, by omega, by omega, by omega⟩

variable {doe c q s r : Nat}

theorem Split.century_eq (h : Split doe c q s r) : doe / 36524 = c + doe / 146096 := by
  have ⟨he, hc, hq, hs, hr, hl⟩ := h
  by_cases hlt : doe < 146096
  case pos =>
    have hb : doe < 36524 * (c + 1) := by omega
    rw [Nat.div_eq_of_lt hlt, Nat.div_eq_iff (by decide)]
    omega
  case neg =>
    have hd : doe = 146096 := by omega
    have hc : c = 3 := by omega
    rw [hd, hc]

-- The estimate counts a cycle too many near its end, but not as early as on the first day of a year.
theorem Split.cycle_eq (h : Split doe c q s r) :
    ∃ e, doe / 1460 = 25 * c + q + e ∧ e ≤ r ∧ r ≤ e + 364 := by
  have ⟨he, hc, hq, hs, hr, hl⟩ := h
  by_cases hlt : 24 * c + q + 365 * s + r < 1460
  case pos =>
    refine ⟨0, ?_, by omega, by omega⟩
    rw [Nat.div_eq_iff (by decide)]
    omega
  case neg =>
    refine ⟨1, ?_, by omega, by omega⟩
    rw [Nat.div_eq_iff (by decide)]
    omega

theorem Split.yoe_eq (h : Split doe c q s r) : yoe doe = 100 * c + 4 * q + s := by
  have ⟨e, hd, h₁, h₂⟩ := h.cycle_eq
  have he := h.eq
  have hn : doe - (25 * c + q + e) + (c + doe / 146096) - doe / 146096 =
      365 * (100 * c + 4 * q + s) + (r - e) := by omega
  rw [yoe, h.century_eq, hd, hn, Nat.mul_add_div (by decide), Nat.div_eq_of_lt (by omega), Nat.add_zero]

theorem Split.days_eq (h : Split doe c q s r) :
    365 * yoe doe + yoe doe / 4 - yoe doe / 100 + r = doe := by
  have ⟨he, hc, hq, hs, hr, hl⟩ := h
  have h₁ : (100 * c + 4 * q + s) / 4 = 25 * c + q := by omega
  have h₂ : (100 * c + 4 * q + s) / 100 = c := by omega
  rw [h.yoe_eq, h₁, h₂]
  omega

theorem Split.doy_eq (h : Split doe c q s r) : doy doe = r := by
  have := h.days_eq
  rw [doy]
  omega

theorem doy_le (h : doe < 146097) : doy doe ≤ 365 := by
  have ⟨c, q, s, r, hs⟩ := exists_split h
  exact hs.doy_eq ▸ hs.day

theorem yoe_lt (h : doe < 146097) : yoe doe < 400 := by
  have ⟨c, q, s, r, hs⟩ := exists_split h
  have ⟨_, hc, hq, hy, _, _⟩ := hs
  rw [hs.yoe_eq]
  omega

-- The months from March on. Their lengths repeat every five months.
theorem mp_spec (h : r ≤ 365) :
    mp r ≤ 11 ∧ (153 * mp r + 2) / 5 ≤ r ∧ r < (153 * (mp r + 1) + 2) / 5 := by
  rw [mp]
  omega

theorem monthDays_eq (year : Nat) {m : Nat} (h : m < 10) :
    (153 * m + 2) / 5 + monthDays year (m + 3) = (153 * (m + 1) + 2) / 5 := by
  have hm : m = 0 ∨ m = 1 ∨ m = 2 ∨ m = 3 ∨ m = 4 ∨ m = 5 ∨ m = 6 ∨ m = 7 ∨ m = 8 ∨ m = 9 := by omega
  rcases hm with rfl | rfl | rfl | rfl | rfl | rfl | rfl | rfl | rfl | rfl
  all_goals rfl

theorem daysBeforeMonth_eq (year : Nat) {m : Nat} (h : m < 10) :
    daysBeforeMonth year (m + 3) + 306 = yearDays year + (153 * m + 2) / 5 := by
  induction m
  case zero =>
    simp only [daysBeforeMonth, Finset.sum_range_succ, Finset.sum_range_zero, monthDays, yearDays]
    split <;> rfl
  case succ m hi =>
    have hs : daysBeforeMonth year (m + 4) = daysBeforeMonth year (m + 3) + monthDays year (m + 3) :=
      Finset.sum_range_succ ..
    have hm := monthDays_eq year (Nat.lt_of_succ_lt h)
    have hi := hi (Nat.lt_of_succ_lt h)
    rw [Nat.add_right_comm, hs]
    omega

-- The date in terms of the year that begins in March.
theorem date_eq (h : Split (z % 146097) c q s r) : date z = {
    year  := 400 * (z / 146097) + 100 * c + 4 * q + s + if mp r < 10 then 0 else 1
    month := if mp r < 10 then mp r + 3 else mp r - 9
    day   := r - (153 * mp r + 2) / 5 + 1 } := by
  simp only [date, h.doy_eq, h.yoe_eq, Date.mk.injEq, and_self, and_true]
  omega

theorem daysBeforeMarch_eq (h : Split (z % 146097) c q s r) :
    daysBeforeMarch (400 * (z / 146097) + 100 * c + 4 * q + s) + r = z := by
  have ⟨he, hc, hq, hs, hr, hl⟩ := h
  have hz := Nat.div_add_mod z 146097
  generalize z / 146097 = e at hz ⊢
  have h₄ : (400 * e + 100 * c + 4 * q + s) / 4 = 100 * e + 25 * c + q := by omega
  have h₁₀₀ : (400 * e + 100 * c + 4 * q + s) / 100 = 4 * e + c := by omega
  have h₄₀₀ : (400 * e + 100 * c + 4 * q + s) / 400 = e := by omega
  rw [daysBeforeMarch, h₄, h₁₀₀, h₄₀₀]
  omega

-- The leap day belongs to a leap year.
theorem isLeap_of_split (h : Split doe c q s r) (hr : r = 365) (e : Nat) :
    isLeap (400 * e + 100 * c + 4 * q + s + 1) = true := by
  have ⟨hs, hq⟩ := h.leap hr
  have h₁ := h.century
  have h₂ := h.cycle
  simp only [isLeap, Bool.and_eq_true, Bool.or_eq_true, beq_iff_eq, bne_iff_ne, ne_eq]
  omega

-- The first of March of the year zero is the sixtieth day after the first of January.
theorem ordinal_date (z : Nat) : ordinal (date z) = z + 60 := by
  have ⟨c, q, s, r, h⟩ := exists_split (Nat.mod_lt z (by decide))
  have ⟨hm, hlo, _⟩ := mp_spec h.day
  have hz := daysBeforeMarch_eq h
  rw [date_eq h, ordinal]
  generalize 400 * (z / 146097) + 100 * c + 4 * q + s = y at hz ⊢
  by_cases hlt : mp r < 10
  case pos =>
    have h₁ := daysBeforeMonth_eq y hlt
    have h₂ := daysBeforeYear_add_yearDays y
    simp only [if_pos hlt, Nat.add_zero]
    omega
  case neg =>
    have hm : mp r = 10 ∨ mp r = 11 := by omega
    have h₁ : daysBeforeMonth (y + 1) (10 - 9) = 0 := rfl
    have h₂ : daysBeforeMonth (y + 1) (11 - 9) = 31 := rfl
    have h₃ := daysBeforeYear_succ y
    simp only [if_neg hlt]
    rcases hm with hm | hm
    all_goals
      rw [hm] at hlo ⊢
      omega

theorem valid_date (z : Nat) : (date z).Valid := by
  have ⟨c, q, s, r, h⟩ := exists_split (Nat.mod_lt z (by decide))
  have ⟨hm, hlo, hhi⟩ := mp_spec h.day
  have hl := (isLeap_of_split h · (z / 146097))
  have hd := h.day
  rw [date_eq h]
  generalize 400 * (z / 146097) + 100 * c + 4 * q + s = y at hl ⊢
  by_cases hlt : mp r < 10
  case pos =>
    have h₁ := monthDays_eq y hlt
    simp only [if_pos hlt, Nat.add_zero]
    constructor
    all_goals
      dsimp only
      omega
  case neg =>
    have hm : mp r = 10 ∨ mp r = 11 := by omega
    simp only [if_neg hlt]
    rcases hm with hm | hm
    case inl =>
      have h₁ : monthDays (y + 1) (10 - 9) = 31 := rfl
      rw [hm] at hlo hhi ⊢
      constructor
      all_goals
        dsimp only
        omega
    case inr =>
      have h₁ : monthDays (y + 1) (11 - 9) = if isLeap (y + 1) then 29 else 28 := rfl
      rw [hm] at hlo hhi ⊢
      constructor
      case day_le =>
        dsimp only
        rw [h₁]
        split
        case isTrue => omega
        case isFalse hn =>
          have hr : r ≠ 365 := fun hr => hn (hl hr)
          omega
      all_goals
        dsimp only
        omega

end Civil

end Calendar
