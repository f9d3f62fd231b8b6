import Mathlib

/-!
# The Gregorian calendar

Leap years, the lengths of the months and the years, and months counted through.
The year is an integer, so that a count of months splits by floor division; the
last two lemmas of that section give the floor where a language has only division
that truncates.

## Main results

* `tdiv_eq_floor`, `tmod_eq_floor` — floor division out of truncating division.
* `daysInMonth_le` — the range of a day.
* `carry_last_eq_iff` — when a day survives a walk over months of different lengths.
-/

namespace MyGenSvr.Verified.Calendar

/-- Leap years of the Gregorian calendar. -/
def IsLeap (y : Int) : Prop := 4 ∣ y ∧ (¬100 ∣ y ∨ 400 ∣ y)

instance decidableIsLeap (y : Int) : Decidable (IsLeap y) :=
  inferInstanceAs (Decidable (_ ∧ _))

/-- Days of the month `m`, from 1 for January, of the year `y`. -/
def daysInMonth (y : Int) (m : Nat) : Nat :=
  if m = 2 then if IsLeap y then 29 else 28
  else if m = 4 ∨ m = 6 ∨ m = 9 ∨ m = 11 then 30
  else 31

theorem daysInMonth_le (y : Int) (m : Nat) : daysInMonth y m ≤ 31 := by
  unfold daysInMonth
  split_ifs <;> decide

/-! ## Counting months -/

/-- The months from the start of year 0 to the start of month `m` of year `y`. -/
def monthIndex (y m : Int) : Int := 12 * y + (m - 1)

/-- A count of months is that of one month of one year. -/
theorem monthIndex_eq_iff {n y m : Int} (hlow : 1 ≤ m) (hhigh : m ≤ 12) :
    monthIndex y m = n ↔ y = n / 12 ∧ m = n % 12 + 1 := by
  unfold monthIndex
  omega

/-- The days of the month `k` months after the start of year 0. -/
def monthLengthAt (k : Int) : Nat := daysInMonth (k / 12) (k % 12 + 1).toNat

theorem monthLengthAt_index {y m : Int} (hlow : 1 ≤ m) (hhigh : m ≤ 12) :
    monthLengthAt (monthIndex y m) = daysInMonth y m.toNat := by
  obtain ⟨hyear, hmonth⟩ := (monthIndex_eq_iff (n := monthIndex y m) hlow hhigh).mp rfl
  rw [monthLengthAt, ← hyear, ← hmonth]

/-! ## A day carried over months -/

section Carry

variable {len : Int → Nat} {d : Nat}

/-- A day carried over the months `ks`, cut to the length of each. -/
def carry (len : Int → Nat) (d : Nat) (ks : List Int) : Nat :=
  ks.foldl (fun d k => min d (len k)) d

/-- **The day is the least of itself and the lengths passed.** -/
theorem le_carry_iff (ks : List Int) {n : Nat} :
    n ≤ carry len d ks ↔ n ≤ d ∧ ∀ k ∈ ks, n ≤ len k := by
  induction ks generalizing d with
  | nil => simp [carry]
  | cons k ks ih =>
      have hrest := @ih (min d (len k))
      rw [carry] at hrest
      rw [carry, List.foldl_cons, hrest, Nat.le_min, List.forall_mem_cons, and_assoc]

theorem carry_le (ks : List Int) : carry len d ks ≤ d :=
  ((le_carry_iff ks).mp (Nat.le_refl _)).1

/-- **The walk against the jump.**  A walk ends on the day a jump to its last month ends
on exactly if every month it passed was long enough for the day, or no shorter than the
last. -/
theorem carry_last_eq_iff (ks : List Int) (last : Int) :
    carry len d (ks ++ [last]) = min d (len last) ↔
      ∀ k ∈ ks, d ≤ len k ∨ len last ≤ len k := by
  have hmost : carry len d (ks ++ [last]) ≤ min d (len last) := by
    have hall := (@le_carry_iff len d (ks ++ [last]) _).mp (Nat.le_refl _)
    have hlast := hall.2 last (List.mem_append_right _ (List.mem_singleton_self _))
    exact Nat.le_min.mpr ⟨hall.1, hlast⟩
  constructor
  · intro heq k hk
    have hleast := ((le_carry_iff (ks ++ [last])).mp heq.ge).2 k (List.mem_append_left _ hk)
    omega
  · intro hlong
    refine Nat.le_antisymm hmost ((le_carry_iff _).mpr ⟨Nat.min_le_left _ _, ?_⟩)
    intro k hk
    rcases List.mem_append.mp hk with hpassed | hlast
    · have hk := hlong k hpassed
      omega
    · rw [List.mem_singleton.mp hlast]
      exact Nat.min_le_right _ _

end Carry

/-! ## Floor division out of truncating division -/

section Floor

variable {n b : Int}

theorem floor_parts (hb : 0 < b) :
    -((b - 1 - n) / b) = n / b ∧ b - 1 - (b - 1 - n) % b = n % b := by
  have hmod := Int.emod_add_mul_ediv (b - 1 - n) b
  have hlow := Int.emod_nonneg (b - 1 - n) (Int.ne_of_gt hb)
  have hhigh := Int.emod_lt_of_pos (b - 1 - n) hb
  have hunique := (Int.ediv_emod_unique (a := n) (r := b - 1 - (b - 1 - n) % b)
    (q := -((b - 1 - n) / b)) hb).mpr ⟨?_, by omega, by omega⟩
  · exact ⟨hunique.1.symm, hunique.2.symm⟩
  · rw [Int.mul_neg]
    omega

/-- The quotient of a negative number, moved down by `b - 1`, is the floor. -/
theorem tdiv_eq_floor (hb : 0 < b) (hn : n < 0) : (n - (b - 1)).tdiv b = n / b := by
  have hneg : n - (b - 1) = -(b - 1 - n) := by omega
  rw [hneg, Int.neg_tdiv, Int.tdiv_eq_ediv_of_nonneg (by omega)]
  exact (floor_parts hb).1

/-- The remainder of a negative number, moved up by one, is the remainder of the
floor less `b - 1`. -/
theorem tmod_eq_floor (hb : 0 < b) (hn : n < 0) : (n + 1).tmod b = n % b - (b - 1) := by
  have hneg : n + 1 = -(-n - 1) := by omega
  have hshift : b - 1 - n = (-n - 1) + b := by omega
  have hparts := (floor_parts (n := n) hb).2
  rw [hshift, Int.add_emod_right] at hparts
  rw [hneg, Int.neg_tmod, Int.tmod_eq_emod_of_nonneg (by omega)]
  omega

end Floor

end MyGenSvr.Verified.Calendar
