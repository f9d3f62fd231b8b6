import MyGenSvr.Verified.Calendar

/-!
# Counting seconds

The seconds from the first of January of a base year to a civil time, and back: a
clock without leap seconds and without a time zone.  The years and the months are
blocks of days laid end to end, and `locate` walks over such blocks to the one a
position lies in.

## Main results

* `locate_block` — a position is found in the block it was counted from.
* `ofSeconds_seconds` — a valid civil time is read off its count of seconds.
* `seconds_ofSeconds` — every count of seconds in the span is that of a valid civil time.
* `seconds_lt_iff` — counts of seconds are ordered as the fields are, from the year down.
* `seconds_lt` — the span of the counts.
-/

namespace MyGenSvr.Verified.Calendar

/-! ## Blocks laid end to end -/

/-- Where the block `k` starts, with blocks of the lengths `len`. -/
def blockStart (len : Nat → Nat) (k : Nat) : Nat := ∑ i ∈ Finset.range k, len i

/-- The block `n` lies in and the position in it, where `n` is counted from the start
of block `k`; no more than `fuel` blocks are passed. -/
def locate (len : Nat → Nat) : (fuel k n : Nat) → Nat × Nat
  | 0, k, n => (k, n)
  | fuel + 1, k, n => if n < len k then (k, n) else locate len fuel (k + 1) (n - len k)

theorem blockStart_le {len : Nat → Nat} {b : Nat} (hlen : ∀ i, len i ≤ b) (k : Nat) :
    blockStart len k ≤ b * k := by
  induction k with
  | zero => exact Nat.le_refl _
  | succ k ih =>
      have hk := hlen k
      rw [blockStart, Finset.sum_range_succ, Nat.mul_succ]
      exact Nat.add_le_add ih hk

/-- The walk from block `k`, over the `j` blocks that come before the position. -/
theorem locate_from {len : Nat → Nat} (fuel : Nat) :
    ∀ {k j r : Nat}, r < len (k + j) → j < fuel →
      locate len fuel k (∑ i ∈ Finset.range j, len (k + i) + r) = (k + j, r) := by
  induction fuel with
  | zero =>
      intro k j r _ hj
      exact absurd hj (Nat.not_lt_zero j)
  | succ fuel ih =>
      intro k j r hr hj
      cases j with
      | zero =>
          rw [Nat.add_zero] at hr
          rw [Finset.sum_range_zero, Nat.zero_add, locate, if_pos hr, Nat.add_zero]
      | succ j =>
          have hshift : ∀ i, len (k + (i + 1)) = len (k + 1 + i) := by
            intro i
            congr 1
            omega
          have hsum : ∑ i ∈ Finset.range (j + 1), len (k + i) + r =
              len k + (∑ i ∈ Finset.range j, len (k + 1 + i) + r) := by
            rw [Finset.sum_range_succ', Nat.add_zero]
            simp only [hshift]
            omega
          have hr' : r < len (k + 1 + j) := by
            rw [← hshift]
            exact hr
          rw [hsum, locate, if_neg (by omega), Nat.add_sub_cancel_left, ih hr' (by omega)]
          congr 1
          omega

/-- **A position is found in the block it was counted from.** -/
theorem locate_block {len : Nat → Nat} {fuel k r : Nat} (hr : r < len k) (hk : k < fuel) :
    locate len fuel 0 (blockStart len k + r) = (k, r) := by
  have hr' : r < len (0 + k) := by
    rw [Nat.zero_add]
    exact hr
  have hfrom := locate_from fuel hr' hk
  simp only [Nat.zero_add] at hfrom
  exact hfrom

/-- Blocks within a block: a position in one of the first `n` is before their end. -/
theorem blockStart_add_lt {len : Nat → Nat} {k n r : Nat} (hr : r < len k) (hk : k < n) :
    blockStart len k + r < blockStart len n := by
  have hmono : blockStart len (k + 1) ≤ blockStart len n :=
    Finset.sum_le_sum_of_subset (Finset.range_subset_range.mpr hk)
  rw [blockStart, Finset.sum_range_succ] at hmono
  exact Nat.lt_of_lt_of_le (Nat.add_lt_add_left hr _) hmono

/-- **Positions are ordered by their blocks first.** -/
theorem blockStart_lt_iff {len : Nat → Nat} {k n r q : Nat} (hr : r < len k) (hq : q < len n) :
    blockStart len k + r < blockStart len n + q ↔ k < n ∨ (k = n ∧ r < q) := by
  rcases lt_trichotomy k n with hless | rfl | hmore
  · have hend := blockStart_add_lt hr hless
    exact iff_of_true (by omega) (Or.inl hless)
  · omega
  · have hend := blockStart_add_lt hq hmore
    refine iff_of_false (by omega) ?_
    omega

/-- The walk ends in a block, and the position is counted from its start. -/
theorem locate_spec {len : Nat → Nat} (fuel : Nat) :
    ∀ {k n : Nat}, n < ∑ i ∈ Finset.range fuel, len (k + i) →
      ∃ j, j < fuel ∧ (locate len fuel k n).1 = k + j ∧
        (locate len fuel k n).2 < len (k + j) ∧
        ∑ i ∈ Finset.range j, len (k + i) + (locate len fuel k n).2 = n := by
  induction fuel with
  | zero =>
      intro k n hn
      rw [Finset.sum_range_zero] at hn
      exact absurd hn (Nat.not_lt_zero n)
  | succ fuel ih =>
      intro k n hn
      have hshift : ∀ i, len (k + (i + 1)) = len (k + 1 + i) := by
        intro i
        congr 1
        omega
      rw [locate]
      by_cases hhere : n < len k
      · rw [if_pos hhere]
        exact ⟨0, Nat.succ_pos fuel, rfl, hhere, by rw [Finset.sum_range_zero, Nat.zero_add]⟩
      · rw [if_neg hhere]
        have hrest : n - len k < ∑ i ∈ Finset.range fuel, len (k + 1 + i) := by
          rw [Finset.sum_range_succ', Nat.add_zero] at hn
          simp only [hshift] at hn
          omega
        obtain ⟨j, hj, hblock, hpos, hsum⟩ := ih hrest
        refine ⟨j + 1, Nat.succ_lt_succ hj, by rw [hblock]; omega, ?_, ?_⟩
        · rw [hshift]
          exact hpos
        · rw [Finset.sum_range_succ', Nat.add_zero]
          simp only [hshift]
          omega

/-- **Every position before the end is found in a block.** -/
theorem blockStart_locate {len : Nat → Nat} {fuel n : Nat} (hn : n < blockStart len fuel) :
    (locate len fuel 0 n).1 < fuel ∧ (locate len fuel 0 n).2 < len (locate len fuel 0 n).1 ∧
      blockStart len (locate len fuel 0 n).1 + (locate len fuel 0 n).2 = n := by
  have hspan : n < ∑ i ∈ Finset.range fuel, len (0 + i) := by
    simp only [Nat.zero_add]
    exact hn
  obtain ⟨j, hj, hblock, hpos, hsum⟩ := locate_spec fuel hspan
  simp only [Nat.zero_add] at hblock hpos hsum
  rw [hblock]
  exact ⟨hj, hpos, hsum⟩

/-! ## Civil times -/

/-- A civil time; months and days are counted from 1. -/
structure Civil where
  year : Nat
  month : Nat
  day : Nat
  hour : Nat
  minute : Nat
  second : Nat
  deriving DecidableEq, Repr

/-- The fields are within their ranges, from the year `base` on. -/
structure Civil.Valid (base : Nat) (c : Civil) : Prop where
  year_ge : base ≤ c.year
  month_pos : 1 ≤ c.month
  month_le : c.month ≤ 12
  day_pos : 1 ≤ c.day
  day_le : c.day ≤ daysInMonth c.year c.month
  hour_lt : c.hour < 24
  minute_lt : c.minute < 60
  second_lt : c.second < 60

instance Civil.instDecidableValid (base : Nat) (c : Civil) : Decidable (c.Valid base) :=
  decidable_of_iff
    ((base ≤ c.year ∧ 1 ≤ c.month ∧ c.month ≤ 12) ∧
      (1 ≤ c.day ∧ c.day ≤ daysInMonth c.year c.month) ∧
      c.hour < 24 ∧ c.minute < 60 ∧ c.second < 60)
    ⟨fun h => ⟨h.1.1, h.1.2.1, h.1.2.2, h.2.1.1, h.2.1.2, h.2.2.1, h.2.2.2.1, h.2.2.2.2⟩,
      fun h => ⟨⟨h.year_ge, h.month_pos, h.month_le⟩, ⟨h.day_pos, h.day_le⟩, h.hour_lt,
        h.minute_lt, h.second_lt⟩⟩

/-- The length of the month `m` after January. -/
def monthLength (year m : Nat) : Nat := daysInMonth year (m + 1)

/-- The length of the year `k` after `base`. -/
def yearLength (base k : Nat) : Nat := blockStart (monthLength (base + k)) 12

/-- The days before a date, from the start of `base`. -/
def Civil.days (base : Nat) (c : Civil) : Nat :=
  blockStart (yearLength base) (c.year - base) +
    (blockStart (monthLength c.year) (c.month - 1) + (c.day - 1))

/-- The seconds before a civil time, from the start of `base`. -/
def Civil.seconds (base : Nat) (c : Civil) : Nat :=
  c.days base * 86400 + (c.hour * 3600 + c.minute * 60 + c.second)

/-- The date that `d` days after the start of `base` is, within `years` years. -/
def ofDays (base years d : Nat) : Nat × Nat × Nat :=
  let y := locate (yearLength base) years 0 d
  let m := locate (monthLength (base + y.1)) 12 0 y.2
  (base + y.1, m.1 + 1, m.2 + 1)

/-- The civil time `n` seconds after the start of `base`, within `years` years. -/
def ofSeconds (base years n : Nat) : Civil :=
  let date := ofDays base years (n / 86400)
  ⟨date.1, date.2.1, date.2.2, n % 86400 / 3600, n % 3600 / 60, n % 60⟩

section Inverse

variable {base years : Nat} {c : Civil}

theorem Civil.Valid.day_lt (h : c.Valid base) :
    c.day - 1 < monthLength c.year (c.month - 1) := by
  have hpos := h.day_pos
  have hle := h.day_le
  have hmonth := h.month_pos
  have hmonths : c.month - 1 + 1 = c.month := by omega
  rw [monthLength, hmonths]
  omega

/-- The day lies in its year. -/
theorem Civil.Valid.dayOfYear_lt (h : c.Valid base) :
    blockStart (monthLength c.year) (c.month - 1) + (c.day - 1) <
      yearLength base (c.year - base) := by
  have hmonth := h.month_le
  have hyear : base + (c.year - base) = c.year := Nat.add_sub_cancel' h.year_ge
  rw [yearLength, hyear]
  exact blockStart_add_lt h.day_lt (by omega)

theorem ofDays_days (h : c.Valid base) (hyears : c.year - base < years) :
    ofDays base years (c.days base) = (c.year, c.month, c.day) := by
  have hpos := h.day_pos
  have hmonth := h.month_pos
  have hmonths := h.month_le
  have hyear : base + (c.year - base) = c.year := Nat.add_sub_cancel' h.year_ge
  have hyearFound := locate_block h.dayOfYear_lt hyears
  have hmonthFound : locate (monthLength c.year) 12 0
      (blockStart (monthLength c.year) (c.month - 1) + (c.day - 1)) = (c.month - 1, c.day - 1) :=
    locate_block h.day_lt (by omega)
  rw [ofDays, Civil.days, hyearFound]
  simp only [hyear, hmonthFound, Nat.sub_add_cancel hpos, Nat.sub_add_cancel hmonth]

/-- The time of day is what is left of the days. -/
theorem Civil.Valid.seconds_parts (h : c.Valid base) :
    c.seconds base / 86400 = c.days base ∧ c.seconds base % 86400 / 3600 = c.hour ∧
      c.seconds base % 3600 / 60 = c.minute ∧ c.seconds base % 60 = c.second := by
  have hhour := h.hour_lt
  have hminute := h.minute_lt
  have hsecond := h.second_lt
  rw [Civil.seconds]
  omega

/-- **A civil time is read off its seconds.** -/
theorem ofSeconds_seconds (h : c.Valid base) (hyears : c.year - base < years) :
    ofSeconds base years (c.seconds base) = c := by
  obtain ⟨hdays, hhour, hminute, hsecond⟩ := h.seconds_parts
  rw [ofSeconds, hdays, ofDays_days h hyears, hhour, hminute, hsecond]

/-- No year has more than 372 days. -/
theorem yearLength_le (base k : Nat) : yearLength base k ≤ 372 :=
  blockStart_le (b := 31) (fun _ => daysInMonth_le _ _) 12

/-- **The span of the counts.** -/
theorem seconds_lt (h : c.Valid base) (hyears : c.year - base < years) :
    c.seconds base < 372 * years * 86400 := by
  have hyear := h.dayOfYear_lt
  have hlength := yearLength_le base (c.year - base)
  have hstart := blockStart_le (yearLength_le base) (c.year - base)
  have hhour := h.hour_lt
  have hminute := h.minute_lt
  have hsecond := h.second_lt
  have hdays : c.days base < 372 * years := by
    rw [Civil.days]
    omega
  rw [Civil.seconds]
  omega

/-- The counts of seconds within `years` years. -/
def secondsEnd (base years : Nat) : Nat := blockStart (yearLength base) years * 86400

/-- **Every count in the span is that of a civil time.** -/
theorem seconds_ofSeconds {n : Nat} (hn : n < secondsEnd base years) :
    (ofSeconds base years n).Valid base ∧ (ofSeconds base years n).year < base + years ∧
      (ofSeconds base years n).seconds base = n := by
  have hdays : n / 86400 < blockStart (yearLength base) years :=
    Nat.div_lt_of_lt_mul (by rwa [Nat.mul_comm])
  obtain ⟨hyear, hinYear, hyearSum⟩ := blockStart_locate hdays
  obtain ⟨y, hy⟩ : ∃ y, y = locate (yearLength base) years 0 (n / 86400) := ⟨_, rfl⟩
  rw [← hy] at hyear hinYear hyearSum
  obtain ⟨hmonth, hinMonth, hmonthSum⟩ := blockStart_locate hinYear
  obtain ⟨m, hm⟩ : ∃ m, m = locate (monthLength (base + y.1)) 12 0 y.2 := ⟨_, rfl⟩
  rw [← hm] at hmonth hinMonth hmonthSum
  have hcivil : ofSeconds base years n =
      ⟨base + y.1, m.1 + 1, m.2 + 1, n % 86400 / 3600, n % 3600 / 60, n % 60⟩ := by
    rw [ofSeconds, ofDays, ← hy]
    dsimp only
    rw [← hm]
  rw [hcivil]
  refine ⟨⟨?_, ?_, ?_, ?_, ?_, ?_, ?_, ?_⟩, ?_, ?_⟩
  · exact Nat.le_add_right _ _
  · exact Nat.succ_pos _
  · exact hmonth
  · exact Nat.succ_pos _
  · exact hinMonth
  · show n % 86400 / 3600 < 24
    omega
  · show n % 3600 / 60 < 60
    omega
  · exact Nat.mod_lt n (by decide)
  · exact Nat.add_lt_add_left hyear base
  · rw [Civil.seconds, Civil.days]
    dsimp only
    rw [Nat.add_sub_cancel_left, Nat.add_sub_cancel, Nat.add_sub_cancel, hmonthSum, hyearSum]
    omega

end Inverse

/-! ## Order -/

/-- The fields, from the year down. -/
def Civil.fields (c : Civil) : List Nat :=
  [c.year, c.month, c.day, c.hour, c.minute, c.second]

section Order

variable {base : Nat} {c d : Civil}

theorem days_lt_iff (hc : c.Valid base) (hd : d.Valid base) :
    c.days base < d.days base ↔
      c.year < d.year ∨ c.year = d.year ∧ (c.month < d.month ∨
        c.month = d.month ∧ c.day < d.day) := by
  have hyear := hc.year_ge
  have hyear' := hd.year_ge
  have hmonth := hc.month_pos
  have hmonth' := hd.month_pos
  have hday := hc.day_pos
  have hday' := hd.day_pos
  rw [Civil.days, Civil.days, blockStart_lt_iff hc.dayOfYear_lt hd.dayOfYear_lt]
  by_cases hsame : c.year = d.year
  · have hmonths : blockStart (monthLength c.year) (c.month - 1) + (c.day - 1) <
        blockStart (monthLength d.year) (d.month - 1) + (d.day - 1) ↔
        c.month - 1 < d.month - 1 ∨ (c.month - 1 = d.month - 1 ∧ c.day - 1 < d.day - 1) := by
      rw [← hsame]
      refine blockStart_lt_iff hc.day_lt ?_
      rw [hsame]
      exact hd.day_lt
    rw [hmonths]
    omega
  · omega

/-- The day and the time of day. -/
theorem seconds_lt_iff_days (hc : c.Valid base) (hd : d.Valid base) :
    c.seconds base < d.seconds base ↔ c.days base < d.days base ∨
      c.days base = d.days base ∧ (c.hour < d.hour ∨ c.hour = d.hour ∧
        (c.minute < d.minute ∨ c.minute = d.minute ∧ c.second < d.second)) := by
  have hhour := hc.hour_lt
  have hminute := hc.minute_lt
  have hsecond := hc.second_lt
  have hhour' := hd.hour_lt
  have hminute' := hd.minute_lt
  have hsecond' := hd.second_lt
  rw [Civil.seconds, Civil.seconds]
  omega

/-- The fields that name a day. -/
theorem days_eq_iff (hc : c.Valid base) (hd : d.Valid base) :
    c.days base = d.days base ↔ c.year = d.year ∧ c.month = d.month ∧ c.day = d.day := by
  have hless := days_lt_iff hc hd
  have hmore := days_lt_iff hd hc
  omega

theorem fields_lt_iff (c d : Civil) : c.fields < d.fields ↔
    c.year < d.year ∨ c.year = d.year ∧ (c.month < d.month ∨ c.month = d.month ∧
      (c.day < d.day ∨ c.day = d.day ∧ (c.hour < d.hour ∨ c.hour = d.hour ∧
        (c.minute < d.minute ∨ c.minute = d.minute ∧ c.second < d.second)))) := by
  have hnil : ¬([] : List Nat) < [] := List.lt_irrefl []
  simp only [Civil.fields, List.cons_lt_cons_iff, hnil, and_false, or_false]

/-- **Counts of seconds are ordered as the fields**, from the year down. -/
theorem seconds_lt_iff (hc : c.Valid base) (hd : d.Valid base) :
    c.seconds base < d.seconds base ↔ c.fields < d.fields := by
  rw [seconds_lt_iff_days hc hd, days_lt_iff hc hd, days_eq_iff hc hd, fields_lt_iff]
  constructor
  · rintro ((hyear | ⟨hyear, hmonth | ⟨hmonth, hday⟩⟩) | ⟨⟨hyear, hmonth, hday⟩, htime⟩)
    · exact Or.inl hyear
    · exact Or.inr ⟨hyear, Or.inl hmonth⟩
    · exact Or.inr ⟨hyear, Or.inr ⟨hmonth, Or.inl hday⟩⟩
    · exact Or.inr ⟨hyear, Or.inr ⟨hmonth, Or.inr ⟨hday, htime⟩⟩⟩
  · rintro (hyear | ⟨hyear, hmonth | ⟨hmonth, hday | ⟨hday, htime⟩⟩⟩)
    · exact Or.inl (Or.inl hyear)
    · exact Or.inl (Or.inr ⟨hyear, Or.inl hmonth⟩)
    · exact Or.inl (Or.inr ⟨hyear, Or.inr ⟨hmonth, hday⟩⟩)
    · exact Or.inr ⟨⟨hyear, hmonth, hday⟩, htime⟩

/-- A count of seconds is that of one civil time. -/
theorem seconds_inj (hc : c.Valid base) (hd : d.Valid base) :
    c.seconds base = d.seconds base ↔ c = d := by
  constructor
  · intro heq
    have hback := @ofSeconds_seconds base (c.year + d.year + 1) c hc (by omega)
    rw [heq, @ofSeconds_seconds base (c.year + d.year + 1) d hd (by omega)] at hback
    exact hback.symm
  · intro heq
    rw [heq]

end Order

/-- The epoch of Unix, from 1900 on. -/
example : Civil.seconds 1900 ⟨1970, 1, 1, 0, 0, 0⟩ = 2208988800 := by decide +kernel

end MyGenSvr.Verified.Calendar
