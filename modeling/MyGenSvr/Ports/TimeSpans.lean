import MyGenSvr.Ports.DateStrings

/-!
# Adding spans of time

`AddDays` down to `AddMilliseconds` scale their argument to seconds and go through
`mktime` and `localtime`.  Each call rebuilds the date from a `struct tm`, so a sequence of
calls is only as good as the clock.  With a steady clock, and whole numbers of units, the
spans add up.

`ticks_per_second` is 1, and `AddMilliseconds` divides it by 1000: its scale is zero.

## Main results

* `Span.apply_eq` — one call.
* `addSpans_run` — a sequence of calls.
-/

namespace MyGenSvr.Ports

open MyGenSvr.Verified
open MyGenSvr.Verified.Calendar

/-- `ticks_per_second`. -/
def ticks_per_second : Int := 1

section Source

variable (clock : Clock) (D : DoubleOps) (t : DateTime) (value : UInt64)

/-- `AddDays`. -/
def DateTime.AddDays : DateTime := t.Add clock D value (86400 * ticks_per_second)

/-- `AddHours`. -/
def DateTime.AddHours : DateTime := t.Add clock D value (3600 * ticks_per_second)

/-- `AddMinutes`. -/
def DateTime.AddMinutes : DateTime := t.Add clock D value (60 * ticks_per_second)

/-- `AddSeconds`. -/
def DateTime.AddSeconds : DateTime := t.Add clock D value (1 * ticks_per_second)

/-- `AddMilliseconds`. -/
def DateTime.AddMilliseconds : DateTime := t.Add clock D value (ticks_per_second.tdiv 1000)

end Source

/-- A call with a whole number of units. -/
inductive Span where
  | days (n : Int)
  | hours (n : Int)
  | minutes (n : Int)
  | seconds (n : Int)
  | milliseconds (n : Int)
  deriving DecidableEq, Repr

/-- The number of units. -/
def Span.count : Span → Int
  | .days n | .hours n | .minutes n | .seconds n | .milliseconds n => n

/-- The seconds of a unit, as the calls scale it. -/
def Span.scale : Span → Int
  | .days _ => 86400
  | .hours _ => 3600
  | .minutes _ => 60
  | .seconds _ => 1
  | .milliseconds _ => 0

/-- The seconds a call adds. -/
def Span.total (s : Span) : Int := s.count * s.scale

/-- The call. -/
def Span.apply (clock : Clock) (D : DoubleOps) (t : DateTime) : Span → DateTime
  | .days n => t.AddDays clock D (D.ofInt n)
  | .hours n => t.AddHours clock D (D.ofInt n)
  | .minutes n => t.AddMinutes clock D (D.ofInt n)
  | .seconds n => t.AddSeconds clock D (D.ofInt n)
  | .milliseconds n => t.AddMilliseconds clock D (D.ofInt n)

theorem Span.apply_add (clock : Clock) (D : DoubleOps) (t : DateTime) (s : Span) :
    s.apply clock D t = t.Add clock D (D.ofInt s.count) s.scale := by
  cases s with
  | days n => rfl
  | hours n => rfl
  | minutes n => rfl
  | seconds n => rfl
  | milliseconds n => rfl

/-- A whole number times zero is a zero, of either sign. -/
def DoubleOps.Absorbs (D : DoubleOps) : Prop :=
  ∀ n : Int, n.natAbs < 2 ^ 53 → D.trunc (D.mul (D.ofInt n) (D.ofInt 0)) = 0

theorem DoubleOps.binary64_absorbs : DoubleOps.binary64.Absorbs := by
  intro n hn
  have hzero : Binary64.decode (Binary64.encode 0) = 0 := Binary64.decode_encode (by decide)
  show Binary64.decode (Binary64.encode (Binary64.decode (Binary64.encode n) *
    Binary64.decode (Binary64.encode 0))) = 0
  rw [hzero, Int.mul_zero, hzero]

/-! ## The date of a count of seconds -/

/-- The seconds from the start of 1900 to a date. -/
def DateTime.seconds (t : DateTime) : Nat := t.toCivil.seconds 1900

/-- A count of seconds within the years 1900 to 9999. -/
def InSpan (n : Int) : Prop := 0 ≤ n ∧ n < secondsEnd 1900 8100

/-- The date `n` seconds after the start of 1900. -/
def DateTime.ofSpan (n : Int) : DateTime := .ofStamp (ofSeconds 1900 8100 n.toNat)

/-- The part of a date that the calls do not keep is zero. -/
def DateTime.Plain (t : DateTime) : Prop := t.second_part = 0 ∧ t.neg = 0 ∧ t.reserve = 0

theorem ofStamp_toCivil {c : Civil} (hc : c.Valid 1900) (hlast : c.year < 10000) :
    (DateTime.ofStamp c).toCivil = c := by
  have hday : c.day ≤ 31 := hc.day_le.trans (daysInMonth_le _ _)
  have hmonth := hc.month_le
  have hhour := hc.hour_lt
  have hminute := hc.minute_lt
  have hsecond := hc.second_lt
  have hfield : ∀ n : Nat, n < 2 ^ 32 → (UInt32.ofNat n).toNat = n := fun n hn => toNat_ofNat32 hn
  simp only [DateTime.ofStamp, DateTime.toCivil, DateTime.ofCivil, hfield c.year (by omega),
    hfield c.month (by omega), hfield c.day (by omega), hfield c.hour (by omega),
    hfield c.minute (by omega), hfield c.second (by omega)]

/-- **The date of a count** is valid and has that count. -/
theorem ofSpan_spec {n : Int} (hn : InSpan n) :
    (DateTime.ofSpan n).ValidCivil ∧ ((DateTime.ofSpan n).seconds : Int) = n ∧
      (DateTime.ofSpan n).Plain := by
  obtain ⟨hlow, hhigh⟩ := hn
  obtain ⟨hvalid, hyear, hseconds⟩ :=
    @seconds_ofSeconds 1900 8100 n.toNat (by omega)
  have hcivil := ofStamp_toCivil hvalid hyear
  have hlast : (DateTime.ofSpan n).toCivil.year ≤ 9999 := by
    rw [DateTime.ofSpan, hcivil]
    omega
  refine ⟨⟨?_, hlast⟩, ?_, ⟨rfl, rfl, rfl⟩⟩
  · rw [DateTime.ofSpan, hcivil]
    exact hvalid
  · rw [DateTime.seconds, DateTime.ofSpan, hcivil, hseconds]
    omega

/-- The counts are far below what `double` holds. -/
theorem secondsEnd_le : secondsEnd 1900 8100 ≤ 372 * 8100 * 86400 :=
  Nat.mul_le_mul_right 86400 (blockStart_le (yearLength_le 1900) 8100)

/-! ## One call -/

section Calls

variable {clock : Clock} {D : DoubleOps} {t : DateTime}

/-- The seconds `operator+` is given. -/
theorem Span.trunc_eq (hD : D.Exact) (hzero : D.Absorbs) {s : Span}
    (hcount : s.count.natAbs < 2 ^ 53) (htotal : s.total.natAbs < 2 ^ 53) :
    D.trunc (D.mul (D.ofInt s.count) (D.ofInt s.scale)) = s.total := by
  have hscale : s.scale = 0 ∨ (0 < s.scale ∧ s.scale < 2 ^ 53) := by
    cases s with
    | days n => exact Or.inr (show (0 : Int) < 86400 ∧ (86400 : Int) < 2 ^ 53 by decide)
    | hours n => exact Or.inr (show (0 : Int) < 3600 ∧ (3600 : Int) < 2 ^ 53 by decide)
    | minutes n => exact Or.inr (show (0 : Int) < 60 ∧ (60 : Int) < 2 ^ 53 by decide)
    | seconds n => exact Or.inr (show (0 : Int) < 1 ∧ (1 : Int) < 2 ^ 53 by decide)
    | milliseconds n => exact Or.inl rfl
  rcases hscale with hnone | ⟨hpos, hlt⟩
  · rw [Span.total, hnone, Int.mul_zero]
    exact hzero s.count hcount
  · rw [hD.mul_ofInt s.count s.scale hpos hlt htotal]
    exact hD.trunc_ofInt _ htotal

/-- **One call** goes to the date of the sum. -/
theorem Span.apply_eq (hregular : clock.Regular) (hsteady : clock.Steady) (hD : D.Exact)
    (hzero : D.Absorbs) (ht : t.ValidCivil) {s : Span} (hcount : s.count.natAbs < 2 ^ 53)
    (hspan : InSpan t.seconds) (hspan' : InSpan (t.seconds + s.total)) :
    s.apply clock D t = .ofSpan (t.seconds + s.total) := by
  obtain ⟨hvalid, hseconds, hplain⟩ := ofSpan_spec hspan'
  have hmost := secondsEnd_le
  obtain ⟨hlow, hhigh⟩ := hspan
  obtain ⟨hlow', hhigh'⟩ := hspan'
  have htotal : s.total.natAbs < 2 ^ 53 := by omega
  have hdistance := hsteady (.ofSpan (t.seconds + s.total)) t hvalid ht
  rw [← DateTime.seconds, ← DateTime.seconds, hseconds] at hdistance
  have htime : clock.mktime t.civil + s.total =
      clock.mktime (DateTime.ofSpan (t.seconds + s.total)).civil := by omega
  rw [Span.apply_add, DateTime.Add]
  refine DateTime.plus_of_localtime ?_ hplain
  rw [Span.trunc_eq hD hzero hcount htotal, htime]
  exact hregular.inverse _ hvalid

/-! ## A sequence of calls -/

/-- The counts of seconds a sequence passes, from `n`. -/
def passed (n : Int) : List Span → List Int
  | [] => []
  | s :: spans => (n + s.total) :: passed (n + s.total) spans

/-- The seconds a sequence adds. -/
def totalSeconds (spans : List Span) : Int := (spans.map Span.total).sum

theorem totalSeconds_cons (n : Int) (s : Span) (spans : List Span) :
    n + totalSeconds (s :: spans) = n + s.total + totalSeconds spans := by
  rw [totalSeconds, List.map_cons, List.sum_cons, ← add_assoc]
  rfl

/-- The last count passed. -/
theorem last_passed {spans : List Span} (hne : spans ≠ []) (n : Int) :
    n + totalSeconds spans ∈ passed n spans := by
  induction spans generalizing n with
  | nil => exact absurd rfl hne
  | cons s spans ih =>
      rw [totalSeconds_cons, passed]
      by_cases hend : spans = []
      · subst hend
        rw [totalSeconds, List.map_nil, List.sum_nil, add_zero]
        exact List.mem_cons_self
      · exact List.mem_cons_of_mem _ (ih hend _)

/-- A sequence from a date goes to the date of the sum. -/
theorem apply_run (hregular : clock.Regular) (hsteady : clock.Steady) (hD : D.Exact)
    (hzero : D.Absorbs) {spans : List Span} (hcounts : ∀ s ∈ spans, s.count.natAbs < 2 ^ 53) :
    ∀ {t : DateTime}, t.ValidCivil → InSpan t.seconds →
      (∀ n ∈ passed t.seconds spans, InSpan n) → spans ≠ [] →
      spans.foldl (Span.apply clock D) t = .ofSpan (t.seconds + totalSeconds spans) := by
  induction spans with
  | nil => exact fun _ _ _ hne => absurd rfl hne
  | cons s spans ih =>
      intro t ht hspan hpassed _
      have hnext : InSpan (t.seconds + s.total) := hpassed _ List.mem_cons_self
      have hone := Span.apply_eq hregular hsteady hD hzero ht
        (hcounts s List.mem_cons_self) hspan hnext
      obtain ⟨hvalid, hseconds, -⟩ := ofSpan_spec hnext
      rw [List.foldl_cons, hone, totalSeconds_cons]
      by_cases hend : spans = []
      · subst hend
        rw [List.foldl_nil, totalSeconds, List.map_nil, List.sum_nil, add_zero]
      · have hrest := ih (fun s' hs' => hcounts s' (List.mem_cons_of_mem s hs')) hvalid
          (by rw [hseconds]; exact hnext)
          (by
            rw [hseconds]
            exact fun n hn => hpassed n (List.mem_cons_of_mem _ hn))
          hend
        rw [hrest, hseconds]

/-- A valid date lies in the span. -/
theorem DateTime.ValidCivil.inSpan (ht : t.ValidCivil) : InSpan t.seconds := by
  refine ⟨Int.natCast_nonneg _, ?_⟩
  have hyears := ht.year_lt
  have hdays : t.toCivil.days 1900 < blockStart (yearLength 1900) 8100 := by
    rw [Civil.days]
    exact blockStart_add_lt ht.1.dayOfYear_lt hyears
  have hhour := ht.1.hour_lt
  have hminute := ht.1.minute_lt
  have hsecond := ht.1.second_lt
  rw [DateTime.seconds, Civil.seconds, secondsEnd]
  omega

end Calls

/-- **Spans add up.**  On a host without daylight saving time, any sequence of calls with
whole numbers of units that stays in the years 1900 to 9999 ends on a valid date as many
seconds later as the calls add, which is also what `operator-` gives; any other sequence
with that sum ends on the same date; and milliseconds count for nothing. -/
theorem addSpans_run (clock : Clock) (D : DoubleOps) (hregular : clock.Regular)
    (hsteady : clock.Steady) (hD : D.Exact) (hzero : D.Absorbs) (t : DateTime)
    (ht : t.ValidCivil) (spans : List Span) (hne : spans ≠ [])
    (hcounts : ∀ s ∈ spans, s.count.natAbs < 2 ^ 53)
    (hpassed : ∀ n ∈ passed t.seconds spans, InSpan n) :
    let r := spans.foldl (Span.apply clock D) t
    r.ValidCivil ∧ r.Plain ∧ (r.seconds : Int) = t.seconds + totalSeconds spans ∧
      r.minus clock.mktime t = totalSeconds spans ∧
      ∀ spans' : List Span, spans' ≠ [] → (∀ s ∈ spans', s.count.natAbs < 2 ^ 53) →
        (∀ n ∈ passed t.seconds spans', InSpan n) →
        (spans'.foldl (Span.apply clock D) t = r ↔ totalSeconds spans' = totalSeconds spans) := by
  intro r
  have hr : r = .ofSpan (t.seconds + totalSeconds spans) :=
    apply_run hregular hsteady hD hzero hcounts ht ht.inSpan hpassed hne
  obtain ⟨hvalid, hseconds, hplain⟩ := ofSpan_spec (hpassed _ (last_passed hne _))
  rw [← hr] at hvalid hseconds hplain
  refine ⟨hvalid, hplain, hseconds, ?_, ?_⟩
  · have hdistance := hsteady r t hvalid ht
    rw [← DateTime.seconds, ← DateTime.seconds, hseconds] at hdistance
    rw [DateTime.minus, hdistance]
    omega
  · intro spans' hne' hcounts' hpassed'
    have hseconds' := (ofSpan_spec (hpassed' _ (last_passed hne' _))).2.1
    rw [apply_run hregular hsteady hD hzero hcounts' ht ht.inSpan hpassed' hne', hr]
    constructor
    · intro heq
      rw [heq, ← hr, hseconds] at hseconds'
      omega
    · intro heq
      rw [heq]

/-- Two hours over the end of February, half a second, and a minute back. -/
theorem addSpans_run_february :
    let r := [.hours 2, .milliseconds 500, .minutes (-1)].foldl (Span.apply .utc .binary64)
      (.ofCivil 2016 2 29 23 0 0)
    r.toCivil = ⟨2016, 3, 1, 0, 59, 0⟩ ∧
      r.minus Clock.utc.mktime (.ofCivil 2016 2 29 23 0 0) = 7140 := by
  intro r
  have hpassed : ∀ n ∈ passed (DateTime.ofCivil 2016 2 29 23 0 0).seconds
      [.hours 2, .milliseconds 500, .minutes (-1)], InSpan n := by
    have hone : (DateTime.ofCivil 2016 3 1 1 0 0).ValidCivil := by decide
    have htwo : (DateTime.ofCivil 2016 3 1 0 59 0).ValidCivil := by decide
    have hcounts : passed (DateTime.ofCivil 2016 2 29 23 0 0).seconds
        [.hours 2, .milliseconds 500, .minutes (-1)] =
        [((DateTime.ofCivil 2016 3 1 1 0 0).seconds : Int),
          (DateTime.ofCivil 2016 3 1 1 0 0).seconds,
          (DateTime.ofCivil 2016 3 1 0 59 0).seconds] := by decide +kernel
    rw [hcounts]
    exact List.forall_mem_cons.mpr ⟨hone.inSpan, List.forall_mem_cons.mpr ⟨hone.inSpan,
      List.forall_mem_singleton.mpr htwo.inSpan⟩⟩
  obtain ⟨hvalid, -, hseconds, hminus, -⟩ := addSpans_run .utc .binary64 Clock.utc_regular
    Clock.utc_steady DoubleOps.binary64_exact DoubleOps.binary64_absorbs
    (.ofCivil 2016 2 29 23 0 0) (by decide) [.hours 2, .milliseconds 500, .minutes (-1)]
    (by decide) (by decide) hpassed
  refine ⟨(@seconds_inj 1900 _ _ hvalid.1 (by decide)).mp ?_, hminus⟩
  have hcount : ((Civil.seconds 1900 ⟨2016, 3, 1, 0, 59, 0⟩ : Nat) : Int) =
      (DateTime.ofCivil 2016 2 29 23 0 0).seconds +
        totalSeconds [.hours 2, .milliseconds 500, .minutes (-1)] := by decide +kernel
  have hsame := hseconds.trans hcount.symm
  exact Int.ofNat_inj.mp hsame

end MyGenSvr.Ports
