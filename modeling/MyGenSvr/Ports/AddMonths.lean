import MyGenSvr.Ports.DateTime
import MyGenSvr.Verified.Calendar

/-!
# `AddMonths`

The months since January are added up in unsigned arithmetic, read as an `int`, and
split by division that truncates; for a negative count the quotient and the
remainder are corrected by hand.  The corrections are the floor division of
`Verified.Calendar`, and the day is cut to the length of the month reached.

## Main results

* `IsLeepYear_iff`, `DaysInMonth_eq` — the calendar of the two tables.
* `shiftMonths_index`, `clampDay_day` — the two halves of `AddMonths`.
* `addMonths_correct` — `AddMonths` counts months through.
-/

namespace MyGenSvr.Ports

open MyGenSvr.Verified.Calendar

/-! ## The calendar -/

theorem toInt_mod_ofNat (x : Int32) {n : Nat} (hn : n < 2 ^ 31) :
    (x % Int32.ofNat n).toInt = x.toInt.tmod n := by
  rw [Int32.toInt_mod, Int32.toInt_ofNat_of_lt hn]

theorem mod_eq_zero_iff (x : Int32) {n : Nat} (hn : n < 2 ^ 31) :
    x % Int32.ofNat n = 0 ↔ (n : Int) ∣ x.toInt := by
  rw [← Int32.toInt_inj, toInt_mod_ofNat x hn, Int32.toInt_zero, Int.dvd_iff_tmod_eq_zero]

theorem IsLeepYear_iff (year : Int32) : IsLeepYear year = true ↔ IsLeap year.toInt := by
  have h4 : year % 4 = 0 ↔ 4 ∣ year.toInt := mod_eq_zero_iff year (n := 4) (by decide)
  have h100 : year % 100 = 0 ↔ 100 ∣ year.toInt := mod_eq_zero_iff year (n := 100) (by decide)
  have h400 : year % 400 = 0 ↔ 400 ∣ year.toInt := mod_eq_zero_iff year (n := 400) (by decide)
  unfold IsLeepYear IsLeap
  rw [← h4, ← h100, ← h400]
  by_cases hfour : year % 4 = 0
  · by_cases hcentury : year % 100 = 0
    · simp [hfour, hcentury]
    · simp [hfour, hcentury]
  · simp [hfour]

/-- The differences of the tables are the lengths of the months. -/
theorem DaysInMonth_eq (year : Int32) {m : Nat} (hlow : 1 ≤ m) (hhigh : m ≤ 12) :
    (DaysInMonth year (Int32.ofNat m)).toInt = daysInMonth year.toInt m := by
  have htables : ∀ m < 13, 1 ≤ m → ∀ leap : Bool,
      ((if leap then DaysToMonth366 else DaysToMonth365).getD (Int32.ofNat m).toInt.toNat 0 -
        (if leap then DaysToMonth366 else DaysToMonth365).getD
          (Int32.ofNat m - 1).toInt.toNat 0).toInt =
      if m = 2 then if leap then 29 else 28
      else if m = 4 ∨ m = 6 ∨ m = 9 ∨ m = 11 then 30
      else 31 := by
    decide +kernel
  have hm := htables m (by omega) hlow (IsLeepYear year)
  rw [DaysInMonth, hm]
  simp only [daysInMonth, IsLeepYear_iff]
  split_ifs <;> rfl

/-! ## Between `int` and `unsigned int` -/

theorem toNat_toUInt32 (x : Int32) : (x.toUInt32.toNat : Int) = x.toInt % 2 ^ 32 := by
  have hbits := BitVec.toInt_eq_toNat_cond x.toBitVec
  have hlt := x.toBitVec.isLt
  rw [← Int32.toInt_toBitVec]
  show (x.toBitVec.toNat : Int) = _
  split at hbits <;> omega

theorem toNat_of_nonneg {x : Int32} (h : 0 ≤ x.toInt) : (x.toUInt32.toNat : Int) = x.toInt := by
  have hlt := x.toInt_lt
  rw [toNat_toUInt32]
  omega

/-- An `int` added to an unsigned number, where the sum is one. -/
theorem toNat_add_int {u : UInt32} {x : Int32} (hlow : 0 ≤ (u.toNat : Int) + x.toInt)
    (hhigh : (u.toNat : Int) + x.toInt < 2 ^ 32) :
    ((u + x.toUInt32).toNat : Int) = u.toNat + x.toInt := by
  have hx := toNat_toUInt32 x
  rw [UInt32.toNat_add]
  omega

theorem toInt_toInt32 {u : UInt32} (h : u.toNat < 2 ^ 31) : u.toInt32.toInt = u.toNat := by
  have hofNat : u.toInt32 = Int32.ofNat u.toNat := by
    rw [← UInt32.toInt32_ofNat', UInt32.ofNat_toNat]
  rw [hofNat, Int32.toInt_ofNat_of_lt h]

theorem toInt_add_of_fits {x y : Int32} (hlow : -2 ^ 31 ≤ x.toInt + y.toInt)
    (hhigh : x.toInt + y.toInt < 2 ^ 31) : (x + y).toInt = x.toInt + y.toInt := by
  rw [Int32.toInt_add]
  exact Int.bmod_eq_of_le (by omega) (by omega)

theorem toInt_sub_of_fits {x y : Int32} (hlow : -2 ^ 31 ≤ x.toInt - y.toInt)
    (hhigh : x.toInt - y.toInt < 2 ^ 31) : (x - y).toInt = x.toInt - y.toInt := by
  rw [Int32.toInt_sub]
  exact Int.bmod_eq_of_le (by omega) (by omega)

theorem toInt_div_twelve (x : Int32) : (x / 12).toInt = x.toInt.tdiv 12 :=
  Int32.toInt_div_of_ne_right x 12 (by decide)

theorem toInt_mod_twelve (x : Int32) : (x % 12).toInt = x.toInt.tmod 12 :=
  toInt_mod_ofNat x (n := 12) (by decide)

/-! ## The two halves -/

section Halves

variable {t : DateTime}

/-- A month and a year's share of `n` months, as unsigned fields. -/
theorem fields_of_index {month quot : Int32} {year : UInt32} {n : Int}
    (hmonth : month.toInt = n % 12 + 1) (hquot : quot.toInt = n / 12)
    (hyear : 0 ≤ year.toNat + n / 12) (hyear' : year.toNat + n / 12 < 2 ^ 32) :
    (month.toUInt32.toNat : Int) = n % 12 + 1 ∧
      ((year + quot.toUInt32).toNat : Int) = year.toNat + n / 12 := by
  constructor
  · rw [toNat_of_nonneg (by omega), hmonth]
  · rw [toNat_add_int (by omega) (by omega), hquot]

/-- The month and the year of `n` months after January are the remainder and the
floor of `n / 12`. -/
theorem shiftMonths_index {m : Int32} {n : Int} (hm : m.toInt = n) (hlow : -2 ^ 31 ≤ n - 11)
    (hyear : 0 ≤ t.year.toNat + n / 12) (hyear' : t.year.toNat + n / 12 < 2 ^ 32) :
    ((t.shiftMonths m).month.toNat : Int) = n % 12 + 1 ∧
      ((t.shiftMonths m).year.toNat : Int) = t.year.toNat + n / 12 := by
  have hhigh := m.toInt_lt
  have hone : (1 : Int32).toInt = 1 := by decide
  have htwelve : (12 : Int32).toInt = 12 := by decide
  have heleven : (11 : Int32).toInt = 11 := by decide
  unfold DateTime.shiftMonths
  by_cases hnonneg : m ≥ 0
  · have hn : 0 ≤ n := by
      rwa [ge_iff_le, Int32.le_iff_toInt_le, Int32.toInt_zero, hm] at hnonneg
    have hquot : (m / 12).toInt = n / 12 := by
      rw [toInt_div_twelve, hm, Int.tdiv_eq_ediv_of_nonneg hn]
    have hrem : (m % 12).toInt = n % 12 := by
      rw [toInt_mod_twelve, hm, Int.tmod_eq_emod_of_nonneg hn]
    have hmonth : (m % 12 + 1).toInt = n % 12 + 1 := by
      rw [toInt_add_of_fits (by omega) (by omega), hrem, hone]
    rw [if_pos hnonneg]
    exact fields_of_index hmonth hquot hyear hyear'
  · have hn : n < 0 := by
      rw [ge_iff_le, Int32.le_iff_toInt_le, Int32.toInt_zero, hm] at hnonneg
      omega
    have hdown : (m - 11).toInt = n - (12 - 1) := by
      rw [toInt_sub_of_fits (by omega) (by omega), hm, heleven]
      rfl
    have hquot : ((m - 11) / 12).toInt = n / 12 := by
      rw [toInt_div_twelve, hdown, tdiv_eq_floor (by decide) hn]
    have hup : (m + 1).toInt = n + 1 := by
      rw [toInt_add_of_fits (by omega) (by omega), hm, hone]
    have hrem : ((m + 1) % 12).toInt = n % 12 - (12 - 1) := by
      rw [toInt_mod_twelve, hup, tmod_eq_floor (by decide) hn]
    have hmonth : (12 + (m + 1) % 12).toInt = n % 12 + 1 := by
      rw [toInt_add_of_fits (by omega) (by omega), hrem, htwelve]
      omega
    rw [if_neg hnonneg]
    exact fields_of_index hmonth hquot hyear hyear'

/-- The day is cut to the length of the month. -/
theorem clampDay_day (hyear : t.year.toNat < 2 ^ 31) (hlow : 1 ≤ t.month.toNat)
    (hhigh : t.month.toNat ≤ 12) :
    t.clampDay.day.toNat = min t.day.toNat (daysInMonth t.year.toNat t.month.toNat) := by
  have hlength := DaysInMonth_eq t.year.toInt32 hlow hhigh
  have hmonth : Int32.ofNat t.month.toNat = t.month.toInt32 := by
    rw [← UInt32.toInt32_ofNat', UInt32.ofNat_toNat]
  rw [hmonth, toInt_toInt32 hyear] at hlength
  have hdays : ((DaysInMonth t.year.toInt32 t.month.toInt32).toUInt32.toNat : Int) =
      daysInMonth t.year.toNat t.month.toNat := by
    rw [toNat_of_nonneg (by omega), hlength]
  unfold DateTime.clampDay
  by_cases hcut : t.day > (DaysInMonth t.year.toInt32 t.month.toInt32).toUInt32
  · rw [if_pos hcut]
    rw [gt_iff_lt, UInt32.lt_iff_toNat_lt] at hcut
    simp only
    omega
  · rw [if_neg hcut]
    rw [gt_iff_lt, UInt32.lt_iff_toNat_lt] at hcut
    omega

/-- What `AddMonths` leaves alone. -/
structure SameTime (t r : DateTime) : Prop where
  hour_eq : r.hour = t.hour
  minute_eq : r.minute = t.minute
  second_eq : r.second = t.second
  second_part_eq : r.second_part = t.second_part
  neg_eq : r.neg = t.neg
  reserve_eq : r.reserve = t.reserve

theorem SameTime.trans {t r u : DateTime} (h : SameTime t r) (h' : SameTime r u) :
    SameTime t u where
  hour_eq := h'.hour_eq.trans h.hour_eq
  minute_eq := h'.minute_eq.trans h.minute_eq
  second_eq := h'.second_eq.trans h.second_eq
  second_part_eq := h'.second_part_eq.trans h.second_part_eq
  neg_eq := h'.neg_eq.trans h.neg_eq
  reserve_eq := h'.reserve_eq.trans h.reserve_eq

theorem shiftMonths_same (t : DateTime) (m : Int32) :
    SameTime t (t.shiftMonths m) ∧ (t.shiftMonths m).day = t.day := by
  unfold DateTime.shiftMonths
  split
  · exact ⟨⟨rfl, rfl, rfl, rfl, rfl, rfl⟩, rfl⟩
  · exact ⟨⟨rfl, rfl, rfl, rfl, rfl, rfl⟩, rfl⟩

theorem clampDay_same (t : DateTime) :
    SameTime t t.clampDay ∧ t.clampDay.year = t.year ∧ t.clampDay.month = t.month := by
  unfold DateTime.clampDay
  simp only
  split
  · exact ⟨⟨rfl, rfl, rfl, rfl, rfl, rfl⟩, rfl, rfl⟩
  · exact ⟨⟨rfl, rfl, rfl, rfl, rfl, rfl⟩, rfl, rfl⟩

end Halves

/-! ## `AddMonths` -/

/-- The months after January of the date's own year, that many months later. -/
def monthsFrom (t : DateTime) (months : Int32) : Int := t.month.toNat - 1 + months.toInt

theorem monthsFrom_index (t : DateTime) (months : Int32) :
    (12 * t.year.toNat + monthsFrom t months) / 12 = t.year.toNat + monthsFrom t months / 12 := by
  omega

/-- The unsigned sum of `AddMonths`, read as an `int`. -/
theorem toInt_monthsFrom {t : DateTime} {months : Int32} (hmonth : 1 ≤ t.month.toNat)
    (hmonth' : t.month.toNat ≤ 12) (hlow : -2 ^ 31 ≤ monthsFrom t months)
    (hhigh : monthsFrom t months < 2 ^ 31) :
    (t.month - 1 + months.toUInt32).toInt32.toInt = monthsFrom t months := by
  have hone : (1 : Int32).toInt = 1 := by decide
  have hm : t.month.toInt32.toInt = t.month.toNat := toInt_toInt32 (by omega)
  have hbefore : (t.month.toInt32 - 1).toInt = t.month.toNat - 1 := by
    rw [toInt_sub_of_fits (by omega) (by omega), hm, hone]
  have hsigned : (t.month - 1 + months.toUInt32).toInt32 = t.month.toInt32 - 1 + months := rfl
  unfold monthsFrom at hlow hhigh
  rw [hsigned, toInt_add_of_fits (by omega) (by omega), hbefore]
  rfl

/-- **`AddMonths`.**  The month and the year are those `months` later, the day is cut
to the length of that month, and nothing else changes. -/
theorem addMonths_correct (t : DateTime) (months : Int32) (hmonth : 1 ≤ t.month.toNat)
    (hmonth' : t.month.toNat ≤ 12) (hlow : -2 ^ 31 ≤ monthsFrom t months - 11)
    (hhigh : monthsFrom t months < 2 ^ 31)
    (hyear : 1 ≤ (12 * t.year.toNat + monthsFrom t months) / 12)
    (hyear' : (12 * t.year.toNat + monthsFrom t months) / 12 < 2 ^ 31) :
    let r := t.AddMonths months
    (1 ≤ r.month.toNat ∧ r.month.toNat ≤ 12) ∧
      monthIndex r.year.toNat r.month.toNat = monthIndex t.year.toNat t.month.toNat + months.toInt ∧
      r.day.toNat = min t.day.toNat (daysInMonth r.year.toNat r.month.toNat) ∧
      SameTime t r := by
  intro r
  rw [monthsFrom_index] at hyear hyear'
  have hm := toInt_monthsFrom hmonth hmonth' (by omega) hhigh
  obtain ⟨hmonthIs, hyearIs⟩ := shiftMonths_index (t := t) hm hlow (by omega) (by omega)
  obtain ⟨hsame, hday⟩ := shiftMonths_same t (t.month - 1 + months.toUInt32).toInt32
  obtain ⟨hsame', hyearKept, hmonthKept⟩ :=
    clampDay_same (t.shiftMonths (t.month - 1 + months.toUInt32).toInt32)
  have hrange : 1 ≤ r.month.toNat ∧ r.month.toNat ≤ 12 := by
    show 1 ≤ (DateTime.clampDay _).month.toNat ∧ (DateTime.clampDay _).month.toNat ≤ 12
    rw [hmonthKept]
    omega
  refine ⟨hrange, ?_, ?_, ?_⟩
  · show monthIndex (DateTime.clampDay _).year.toNat (DateTime.clampDay _).month.toNat = _
    rw [hyearKept, hmonthKept, monthIndex_eq_iff (by omega) (by omega), hmonthIs, hyearIs]
    unfold monthIndex monthsFrom
    omega
  · have hclamp := clampDay_day (t := t.shiftMonths (t.month - 1 + months.toUInt32).toInt32)
      (by omega) (by omega) (by omega)
    show (DateTime.clampDay _).day.toNat = min _ (daysInMonth (DateTime.clampDay _).year.toNat
      (DateTime.clampDay _).month.toNat)
    rw [hclamp, hyearKept, hmonthKept, hday]
  · exact hsame.trans hsame'

/-- Thirteen months before 31 March 2017 it is 29 February 2016. -/
theorem addMonths_correct_backwards :
    let t : DateTime := .ofCivil 2017 3 31 12 0 0
    let r := t.AddMonths (-13)
    (1 ≤ r.month.toNat ∧ r.month.toNat ≤ 12) ∧
      monthIndex r.year.toNat r.month.toNat = monthIndex 2017 3 + (-13) ∧
      r.day.toNat = min 31 (daysInMonth r.year.toNat r.month.toNat) ∧ SameTime t r :=
  addMonths_correct (.ofCivil 2017 3 31 12 0 0) (-13) (by decide) (by decide) (by decide)
    (by decide) (by decide) (by decide)

end MyGenSvr.Ports
