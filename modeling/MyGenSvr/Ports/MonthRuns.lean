import MyGenSvr.Ports.AddMonths

/-!
# Adding months again and again

Each `AddMonths` cuts the day to the month it reaches and forgets what it was cut from.
Over a sequence of calls the months add up, and the day is carried over every month on the
way; so a sequence comes to the date of one call only if no month on the way was too short.

## Main results

* `AddMonths_eq` — one call, as a move to a month and a cut of the day.
* `addMonths_at_once_iff` — a sequence of calls against a single one.
* `addYears_leap_day` — what a sequence of `AddYears` does to a date.
-/

namespace MyGenSvr.Ports

open MyGenSvr.Verified.Calendar

/-- `AddYears`. -/
def DateTime.AddYears (t : DateTime) (years : Int32) : DateTime := t.AddMonths (years * 12)

/-! ## One call -/

/-- The month of a date, counted from the start of year 0. -/
def DateTime.index (t : DateTime) : Int := monthIndex t.year.toNat t.month.toNat

/-- The date in the month `k`, on `day`. -/
def DateTime.onMonth (t : DateTime) (k : Int) (day : Nat) : DateTime :=
  { t with
    year := .ofNat (k / 12).toNat
    month := .ofNat (k % 12 + 1).toNat
    day := .ofNat day }

/-- A date whose month is one of the twelve. -/
def DateTime.HasMonth (t : DateTime) : Prop := 1 ≤ t.month.toNat ∧ t.month.toNat ≤ 12

instance (t : DateTime) : Decidable t.HasMonth := by
  unfold DateTime.HasMonth
  infer_instance

/-- A number of months that can be added to any month in an `int`. -/
def MonthStep (months : Int32) : Prop :=
  -2 ^ 31 + 11 ≤ months.toInt ∧ months.toInt < 2 ^ 31 - 11

instance (months : Int32) : Decidable (MonthStep months) := by
  unfold MonthStep
  infer_instance

/-- A month of a year that is an `int`. -/
def InYears (k : Int) : Prop := 0 ≤ k ∧ k < 12 * 2 ^ 31

instance (k : Int) : Decidable (InYears k) := by
  unfold InYears
  infer_instance

theorem ofNat_eq_of_toNat {u : UInt32} {n : Int} (h : (u.toNat : Int) = n) :
    u = .ofNat n.toNat := by
  rw [← h, Int.toNat_natCast, UInt32.ofNat_toNat]

theorem onMonth_index {t : DateTime} {k : Int} (hk : InYears k) (day : Nat) :
    (t.onMonth k day).index = k ∧ (t.onMonth k day).HasMonth := by
  obtain ⟨hlow, hhigh⟩ := hk
  have hyear : ((t.onMonth k day).year.toNat : Int) = k / 12 := by
    show ((UInt32.ofNat (k / 12).toNat).toNat : Int) = k / 12
    rw [UInt32.toNat_ofNat']
    omega
  have hmonth : ((t.onMonth k day).month.toNat : Int) = k % 12 + 1 := by
    show ((UInt32.ofNat (k % 12 + 1).toNat).toNat : Int) = k % 12 + 1
    rw [UInt32.toNat_ofNat']
    omega
  constructor
  · rw [DateTime.index, monthIndex_eq_iff (by omega) (by omega), hyear, hmonth]
    exact ⟨rfl, rfl⟩
  · rw [DateTime.HasMonth]
    omega

theorem onMonth_day {t : DateTime} {k : Int} {day : Nat} (hday : day ≤ t.day.toNat) :
    (t.onMonth k day).day.toNat = day := by
  have hlt := t.day.toNat_lt
  show (UInt32.ofNat day).toNat = day
  rw [UInt32.toNat_ofNat']
  exact Nat.mod_eq_of_lt (by omega)

/-- **One call**: the month is reached and the day is cut to its length. -/
theorem AddMonths_eq {t : DateTime} (ht : t.HasMonth) {months : Int32} (hstep : MonthStep months)
    {k : Int} (hk : k = t.index + months.toInt) (hyears : InYears k) :
    t.AddMonths months = t.onMonth k (min t.day.toNat (monthLengthAt k)) := by
  obtain ⟨hlow, hhigh⟩ := ht
  obtain ⟨hleast, hmost⟩ := hstep
  obtain ⟨hfirst, hlast⟩ := hyears
  have hfrom : monthsFrom t months = t.month.toNat - 1 + months.toInt := rfl
  have hindex : k = 12 * t.year.toNat + monthsFrom t months := by
    rw [hk, hfrom, DateTime.index, monthIndex]
    omega
  have hsum : (t.month - 1 + months.toUInt32).toInt32.toInt = monthsFrom t months :=
    toInt_monthsFrom hlow hhigh (by omega) (by omega)
  have hshift := shiftMonths_index (t := t) hsum (by omega) (by omega) (by omega)
  obtain ⟨u, hu⟩ : ∃ u, u = t.shiftMonths (t.month - 1 + months.toUInt32).toInt32 := ⟨_, rfl⟩
  obtain ⟨hsame, hday⟩ := shiftMonths_same t (t.month - 1 + months.toUInt32).toInt32
  rw [← hu] at hshift hsame hday
  have hmonth : (u.month.toNat : Int) = k % 12 + 1 := by omega
  have hyear : (u.year.toNat : Int) = k / 12 := by omega
  have hclamp := clampDay_day (t := u) (by omega) (by omega) (by omega)
  have hlength : daysInMonth u.year.toNat u.month.toNat = monthLengthAt k := by
    rw [monthLengthAt, ← hyear, ← hmonth, Int.toNat_natCast]
  rw [hlength, hday] at hclamp
  obtain ⟨hkept, hyearKept, hmonthKept⟩ := clampDay_same u
  have hall := hsame.trans hkept
  have hresult : t.AddMonths months = u.clampDay := by rw [hu]; rfl
  rw [hresult]
  obtain ⟨r, hr⟩ : ∃ r, r = u.clampDay := ⟨_, rfl⟩
  rw [← hr] at hclamp hyearKept hmonthKept hall ⊢
  have hyears := ofNat_eq_of_toNat (hyearKept ▸ hyear)
  have hmonths := ofNat_eq_of_toNat (hmonthKept ▸ hmonth)
  have hdays : r.day = .ofNat (min t.day.toNat (monthLengthAt k)) := by
    rw [← hclamp, UInt32.ofNat_toNat]
  obtain ⟨year, month, day, hour, minute, second, second_part, neg, reserve⟩ := r
  obtain ⟨hhour, hminute, hsecond, hpart, hneg, hreserve⟩ := hall
  dsimp only at hyears hmonths hdays hhour hminute hsecond hpart hneg hreserve
  rw [DateTime.onMonth, hyears, hmonths, hdays, hhour, hminute, hsecond, hpart, hneg, hreserve]

/-! ## A sequence of calls -/

/-- The months a sequence passes, from the month `k`. -/
def visited (k : Int) : List Int32 → List Int
  | [] => []
  | months :: steps => (k + months.toInt) :: visited (k + months.toInt) steps

/-- The months a sequence adds. -/
def totalMonths (steps : List Int32) : Int := (steps.map Int32.toInt).sum

/-- The last month it passes. -/
theorem visited_concat (k : Int) (steps : List Int32) (months : Int32) :
    visited k (steps ++ [months]) =
      visited k steps ++ [k + totalMonths (steps ++ [months])] := by
  induction steps generalizing k with
  | nil => simp [visited, totalMonths]
  | cons first steps ih =>
      have hsum : k + first.toInt + totalMonths (steps ++ [months]) =
          k + totalMonths (first :: steps ++ [months]) := by
        rw [totalMonths, totalMonths, List.cons_append, List.map_cons, List.sum_cons]
        exact add_assoc _ _ _
      rw [List.cons_append, visited, ih, hsum]
      rfl

theorem onMonth_onMonth (t : DateTime) (k k' : Int) (day day' : Nat) :
    (t.onMonth k day).onMonth k' day' = t.onMonth k' day' := rfl

/-- **A sequence of calls**: the months add up, and the day is carried over every month
on the way. -/
theorem AddMonths_run {steps : List Int32} (hsteps : ∀ m ∈ steps, MonthStep m) :
    ∀ {t : DateTime}, t.HasMonth → (∀ k ∈ visited t.index steps, InYears k) → steps ≠ [] →
      steps.foldl DateTime.AddMonths t =
        t.onMonth (t.index + totalMonths steps)
          (carry monthLengthAt t.day.toNat (visited t.index steps)) := by
  induction steps with
  | nil => exact fun _ _ hne => absurd rfl hne
  | cons months steps ih =>
      intro t ht hyears _
      obtain ⟨k, hk⟩ : ∃ k, k = t.index + months.toInt := ⟨_, rfl⟩
      obtain ⟨day, hday⟩ : ∃ day, day = min t.day.toNat (monthLengthAt k) := ⟨_, rfl⟩
      have hreached : InYears k := hyears k (by rw [visited, hk]; exact List.mem_cons_self)
      have hone := AddMonths_eq ht (hsteps months List.mem_cons_self) hk hreached
      obtain ⟨hindex, hhas⟩ := onMonth_index (t := t) hreached day
      have hcut : (t.onMonth k day).day.toNat = day :=
        onMonth_day (by rw [hday]; exact Nat.min_le_left _ _)
      rw [List.foldl_cons, hone, ← hday, visited, ← hk]
      have hcarried : carry monthLengthAt t.day.toNat (k :: visited k steps) =
          carry monthLengthAt day (visited k steps) := by
        rw [hday]
        rfl
      have htotal : t.index + totalMonths (months :: steps) = k + totalMonths steps := by
        rw [totalMonths, List.map_cons, List.sum_cons, ← add_assoc, ← hk]
        rfl
      rw [hcarried, htotal]
      by_cases hend : steps = []
      · subst hend
        rw [List.foldl_nil, visited, totalMonths, List.map_nil, List.sum_nil, add_zero]
        rfl
      · have hrest := ih (fun m hm => hsteps m (List.mem_cons_of_mem months hm)) hhas
          (by
            rw [hindex]
            intro k' hk'
            refine hyears k' ?_
            rw [visited, ← hk]
            exact List.mem_cons_of_mem k hk')
          hend
        rw [hrest, hindex, hcut, onMonth_onMonth]

/-- Two days of one month. -/
theorem onMonth_eq_iff {t : DateTime} {k : Int} {day day' : Nat} (hday : day ≤ t.day.toNat)
    (hday' : day' ≤ t.day.toNat) : t.onMonth k day = t.onMonth k day' ↔ day = day' := by
  constructor
  · intro heq
    have hdays := congrArg (fun u : DateTime => u.day.toNat) heq
    rwa [onMonth_day hday, onMonth_day hday'] at hdays
  · intro heq
    rw [heq]

/-- **A sequence against a single call.**  Added one after the other, numbers of months
come to the date their sum comes to exactly when each month on the way has the day, or is
no shorter than the last. -/
theorem addMonths_at_once_iff (t : DateTime) (ht : t.HasMonth) (steps : List Int32)
    (hne : steps ≠ []) (hsteps : ∀ m ∈ steps, MonthStep m)
    (hyears : ∀ k ∈ visited t.index steps, InYears k) (total : Int32)
    (htotal : total.toInt = totalMonths steps) (hstep : MonthStep total) :
    steps.foldl DateTime.AddMonths t = t.AddMonths total ↔
      ∀ k ∈ visited t.index steps, t.day.toNat ≤ monthLengthAt k ∨
        monthLengthAt (t.index + total.toInt) ≤ monthLengthAt k := by
  obtain ⟨before, months, rfl⟩ := (List.eq_nil_or_concat steps).resolve_left hne
  rw [List.concat_eq_append] at hne hsteps hyears htotal ⊢
  have hlast : InYears (t.index + total.toInt) := by
    refine hyears _ ?_
    rw [visited_concat, htotal]
    exact List.mem_append_right _ (List.mem_singleton_self _)
  rw [AddMonths_run hsteps ht hyears hne, AddMonths_eq ht hstep rfl hlast, ← htotal,
    onMonth_eq_iff (carry_le _) (Nat.min_le_left _ _), visited_concat, ← htotal,
    carry_last_eq_iff]
  constructor
  · intro hlong k hk
    rcases List.mem_append.mp hk with hpassed | hend
    · exact hlong k hpassed
    · rw [List.mem_singleton.mp hend]
      exact Or.inr (Nat.le_refl _)
  · exact fun hlong k hk => hlong k (List.mem_append_left _ hk)

/-- From 31 January, one month and one month are not two. -/
theorem addMonths_at_once_iff_february :
    ¬[1, 1].foldl DateTime.AddMonths (.ofCivil 2016 1 31 0 0 0) =
      (DateTime.ofCivil 2016 1 31 0 0 0).AddMonths 2 := by
  have hvisited : visited (DateTime.ofCivil 2016 1 31 0 0 0).index [1, 1] = [24193, 24194] := by
    decide
  have hone : MonthStep 1 := by decide
  have hsteps : ∀ m ∈ ([1, 1] : List Int32), MonthStep m := by
    intro m hm
    rw [List.eq_of_mem_replicate (n := 2) hm]
    exact hone
  have hyears : ∀ k ∈ visited (DateTime.ofCivil 2016 1 31 0 0 0).index [1, 1], InYears k := by
    rw [hvisited]
    exact List.forall_mem_cons.mpr ⟨by decide, List.forall_mem_singleton.mpr (by decide)⟩
  rw [addMonths_at_once_iff (.ofCivil 2016 1 31 0 0 0) (by decide) [1, 1] (by decide) hsteps
    hyears 2 (by decide) (by decide), hvisited]
  intro hlong
  exact absurd (hlong 24193 List.mem_cons_self) (by decide)

/-! ## Years -/

/-- The years a sequence passes, from the year `y`. -/
def visitedYears (y : Int) : List Int32 → List Int
  | [] => []
  | years :: steps => (y + years.toInt) :: visitedYears (y + years.toInt) steps

/-- A number of years whose months can be added to any month in an `int`. -/
def YearStep (years : Int32) : Prop :=
  -2 ^ 31 + 11 ≤ 12 * years.toInt ∧ 12 * years.toInt < 2 ^ 31 - 11

theorem YearStep.toInt_months {years : Int32} (h : YearStep years) :
    (years * 12).toInt = 12 * years.toInt ∧ MonthStep (years * 12) := by
  obtain ⟨hlow, hhigh⟩ := h
  have htwelve : (12 : Int32).toInt = 12 := by decide
  have hmul : (years * 12).toInt = 12 * years.toInt := by
    rw [Int32.toInt_mul, htwelve, Int.mul_comm]
    exact Int.bmod_eq_of_le (by omega) (by omega)
  exact ⟨hmul, by rw [MonthStep, hmul]; exact ⟨hlow, hhigh⟩⟩

/-- The months of a sequence of years. -/
theorem visited_years {y m : Int} {steps : List Int32}
    (hsteps : ∀ n ∈ steps, YearStep n) :
    visited (monthIndex y m) (steps.map (· * 12)) =
        (visitedYears y steps).map (fun y' => monthIndex y' m) ∧
      totalMonths (steps.map (· * 12)) = 12 * totalMonths steps := by
  induction steps generalizing y with
  | nil => exact ⟨rfl, rfl⟩
  | cons years steps ih =>
      have hmul := (hsteps years List.mem_cons_self).toInt_months.1
      have hnext : monthIndex y m + (years * 12).toInt = monthIndex (y + years.toInt) m := by
        rw [hmul, monthIndex, monthIndex]
        omega
      obtain ⟨hrest, hsum⟩ := @ih (y + years.toInt) fun n hn =>
        hsteps n (List.mem_cons_of_mem years hn)
      constructor
      · rw [List.map_cons, visited, hnext, hrest]
        rfl
      · rw [totalMonths] at hsum
        rw [totalMonths, List.map_cons, List.map_cons, List.sum_cons, hsum, hmul, totalMonths,
          totalMonths, List.map_cons, List.sum_cons, Int.mul_add]

/-- A sequence of `AddYears` is one of `AddMonths`. -/
theorem foldl_AddYears (t : DateTime) (steps : List Int32) :
    steps.foldl DateTime.AddYears t = (steps.map (· * 12)).foldl DateTime.AddMonths t := by
  rw [List.foldl_map]
  rfl

/-- 29 February. -/
def DateTime.OnLeapDay (t : DateTime) : Prop := t.month.toNat = 2 ∧ t.day.toNat = 29

instance (t : DateTime) : Decidable t.OnLeapDay := by
  unfold DateTime.OnLeapDay
  infer_instance

/-- A day of a valid date, carried over the same month of other years. -/
theorem carry_years {y m : Int} {d : Nat} (hlow : 1 ≤ m) (hhigh : m ≤ 12)
    (hday : d ≤ daysInMonth y m.toNat) (ys : List Int) :
    carry monthLengthAt d (ys.map fun y' => monthIndex y' m) =
      if (m = 2 ∧ d = 29) ∧ ∃ y' ∈ ys, ¬IsLeap y' then 28 else d := by
  have hlength : ∀ y', monthLengthAt (monthIndex y' m) = daysInMonth y' m.toNat :=
    fun y' => monthLengthAt_index hlow hhigh
  refine Nat.le_antisymm ?_ ((le_carry_iff _).mpr ⟨?_, ?_⟩)
  · split
    · next hcut =>
        obtain ⟨⟨rfl, rfl⟩, y', hy', hleap⟩ := hcut
        have hshort := ((le_carry_iff (ys.map fun y' => monthIndex y' 2)).mp
          (Nat.le_refl (carry monthLengthAt 29 _))).2 _ (List.mem_map_of_mem hy')
        rw [hlength] at hshort
        have hdays : daysInMonth y' 2 = 28 := by
          rw [daysInMonth, if_pos rfl, if_neg hleap]
        exact hshort.trans hdays.le
    · exact carry_le _
  · split
    · next hcut =>
        rw [hcut.1.2]
        decide
    · exact Nat.le_refl d
  · intro k hk
    obtain ⟨y', hy', rfl⟩ := List.mem_map.mp hk
    rw [hlength]
    by_cases htwo : m = 2
    · subst htwo
      have hdays : ∀ z, daysInMonth z (2 : Int).toNat = if IsLeap z then 29 else 28 := by
        intro z
        rw [daysInMonth]
        exact if_pos rfl
      rw [hdays] at hday ⊢
      by_cases hleap : IsLeap y'
      · rw [if_pos hleap]
        split
        · decide
        · split at hday <;> omega
      · rw [if_neg hleap]
        by_cases hlast : d = 29
        · rw [if_pos ⟨⟨rfl, hlast⟩, y', hy', hleap⟩]
        · rw [if_neg fun hcut => hlast hcut.1.2]
          split at hday <;> omega
    · have hsame : daysInMonth y' m.toNat = daysInMonth y m.toNat := by
        have hnot : ¬m.toNat = 2 := by omega
        rw [daysInMonth, daysInMonth, if_neg hnot, if_neg hnot]
      rw [hsame, if_neg fun hcut => htwo hcut.1.1]
      exact hday

/-- **What `AddYears` does to a date.**  A sequence of calls moves a date to the year their
sum comes to and changes nothing else of it, unless the date is 29 February and one of
the years on the way has none: then it is 28 February, whatever the last year is. -/
theorem addYears_leap_day (t : DateTime) (ht : t.HasMonth)
    (hday : t.day.toNat ≤ daysInMonth t.year.toNat t.month.toNat) (steps : List Int32)
    (hsteps : ∀ n ∈ steps, YearStep n)
    (hyears : ∀ y ∈ visitedYears t.year.toNat steps, 0 ≤ y ∧ y < 2 ^ 31) :
    steps.foldl DateTime.AddYears t = { t with
      year := .ofNat (t.year.toNat + totalMonths steps).toNat
      day := if t.OnLeapDay ∧ ∃ y ∈ visitedYears t.year.toNat steps, ¬IsLeap y then 28
        else t.day } := by
  by_cases hne : steps = []
  · subst hne
    have hyear : UInt32.ofNat ((t.year.toNat : Int) + totalMonths []).toNat = t.year := by
      show UInt32.ofNat ((t.year.toNat : Int) + 0).toNat = t.year
      rw [add_zero, Int.toNat_natCast, UInt32.ofNat_toNat]
    rw [List.foldl_nil, hyear, if_neg]
    rintro ⟨-, y, hy, -⟩
    exact absurd hy List.not_mem_nil
  · obtain ⟨hlow, hhigh⟩ := ht
    have hlow' : (1 : Int) ≤ (t.month.toNat : Int) := by omega
    have hhigh' : (t.month.toNat : Int) ≤ 12 := by omega
    obtain ⟨hvisited, htotal⟩ := @visited_years t.year.toNat t.month.toNat _ hsteps
    have hmonths : ∀ n ∈ steps.map (· * 12), MonthStep n := by
      intro n hn
      obtain ⟨years, hmem, rfl⟩ := List.mem_map.mp hn
      exact (hsteps years hmem).toInt_months.2
    have hreached : ∀ k ∈ visited t.index (steps.map (· * 12)), InYears k := by
      rw [DateTime.index, hvisited]
      intro k hk
      obtain ⟨y, hy, rfl⟩ := List.mem_map.mp hk
      obtain ⟨hfirst, hlast⟩ := hyears y hy
      rw [InYears, monthIndex]
      omega
    have hrun := AddMonths_run hmonths ⟨hlow, hhigh⟩ hreached (by simpa using hne)
    have hcarry := carry_years hlow' hhigh' (d := t.day.toNat) (by simpa using hday)
      (visitedYears t.year.toNat steps)
    rw [foldl_AddYears, hrun, htotal, DateTime.index, hvisited, hcarry, DateTime.onMonth]
    have hyear : (monthIndex t.year.toNat t.month.toNat + 12 * totalMonths steps) / 12 =
        t.year.toNat + totalMonths steps := by
      rw [monthIndex]
      omega
    have hmonth : (monthIndex t.year.toNat t.month.toNat + 12 * totalMonths steps) % 12 + 1 =
        t.month.toNat := by
      rw [monthIndex]
      omega
    have hleap : ((t.month.toNat : Int) = 2 ∧ t.day.toNat = 29) ↔ t.OnLeapDay := by
      rw [DateTime.OnLeapDay]
      omega
    rw [hyear, hmonth, Int.toNat_natCast, UInt32.ofNat_toNat]
    simp only [hleap]
    congr 1
    split
    · rfl
    · exact UInt32.ofNat_toNat

/-- Four years after 29 February 2016, by way of 2017. -/
theorem addYears_leap_day_2016 :
    [1, 3].foldl DateTime.AddYears (.ofCivil 2016 2 29 0 0 0) = .ofCivil 2020 2 28 0 0 0 := by
  have hvisited : visitedYears (DateTime.ofCivil 2016 2 29 0 0 0).year.toNat [1, 3] =
      [2017, 2020] := by decide
  have hsteps : ∀ n ∈ ([1, 3] : List Int32), YearStep n :=
    List.forall_mem_cons.mpr ⟨⟨by decide, by decide⟩,
      List.forall_mem_singleton.mpr ⟨by decide, by decide⟩⟩
  have hyears : ∀ y ∈ visitedYears (DateTime.ofCivil 2016 2 29 0 0 0).year.toNat [1, 3],
      0 ≤ y ∧ y < 2 ^ 31 := by
    rw [hvisited]
    exact List.forall_mem_cons.mpr ⟨by decide, List.forall_mem_singleton.mpr (by decide)⟩
  rw [addYears_leap_day (.ofCivil 2016 2 29 0 0 0) (by decide) (by decide) [1, 3] hsteps hyears,
    hvisited, if_pos ⟨by decide, 2017, List.mem_cons_self, by decide⟩]
  decide

end MyGenSvr.Ports
