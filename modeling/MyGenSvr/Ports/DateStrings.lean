import MyGenSvr.Ports.DateOrder
import MyGenSvr.Ports.DateWire
import MyGenSvr.Ports.Format
import MyGenSvr.Ports.SetDate

/-!
# Dates as strings

`StringDateTime` and `StringDate` print into 20 bytes of the stack.  The fields of a valid
civil time have a fixed width there, from the year down, so that the strings are ordered
as the times are: sorted names of files and sorted records are in the order of time.

`SetDate` is no inverse: it looks for a separator between the year, the month and the day,
and there is none.

## Main results

* `string_eq` — the two strings of a valid civil time.
* `strings_in_order` — the strings, the counts of seconds and the operators agree.
* `string_not_read_back` — what `SetDate` makes of the strings.
-/

namespace MyGenSvr.Ports

open MyGenSvr.Verified.Calendar
open MyGenSvr.Verified.Numerals

/-- `sprintf` to an array of `size` characters; what does not fit is undefined. -/
def sprintf (size : Nat) (text : List UInt8) : Option (List UInt8) :=
  if text.length < size then some text else none

/-- `%d` of an unsigned field. -/
def intOf (field : UInt32) : Int := field.toInt32.toInt

/-- `"%4d%02d%02d"`. -/
def DateTime.formatDate (t : DateTime) : List UInt8 :=
  blankPadded 4 (intOf t.year) ++ zeroPadded 2 (intOf t.month) ++ zeroPadded 2 (intOf t.day)

/-- `StringDateTime`. -/
def DateTime.StringDateTime (t : DateTime) : Option (List UInt8) :=
  sprintf 20 (t.formatDate ++ bytes " " ++ zeroPadded 2 (intOf t.hour) ++ bytes ":" ++
    zeroPadded 2 (intOf t.minute) ++ bytes ":" ++ zeroPadded 2 (intOf t.second))

/-- `StringDate`. -/
def DateTime.StringDate (t : DateTime) : Option (List UInt8) := sprintf 20 t.formatDate

/-! ## The strings of a valid civil time -/

/-- The date, with all its digits. -/
def dateText (c : Civil) : List UInt8 :=
  digitText 4 c.year ++ (digitText 2 c.month ++ digitText 2 c.day)

/-- The date and the time of day. -/
def dateTimeText (c : Civil) : List UInt8 :=
  dateText c ++ (bytes " " ++ (digitText 2 c.hour ++ (bytes ":" ++ (digitText 2 c.minute ++
    (bytes ":" ++ digitText 2 c.second)))))

@[simp] theorem dateText_length (c : Civil) : (dateText c).length = 8 := by
  simp only [dateText, List.length_append, digitText_length]

@[simp] theorem dateTimeText_length (c : Civil) : (dateTimeText c).length = 17 := by
  have hblank : (bytes " ").length = 1 := by decide
  have hcolon : (bytes ":").length = 1 := by decide
  simp only [dateTimeText, List.length_append, digitText_length, dateText_length, hblank, hcolon]

/-- The fields of a civil time fit their widths. -/
structure Printable (c : Civil) : Prop where
  year_ge : 1000 ≤ c.year
  year_lt : c.year < 10 ^ 4
  month_lt : c.month < 10 ^ 2
  day_lt : c.day < 10 ^ 2
  hour_lt : c.hour < 10 ^ 2
  minute_lt : c.minute < 10 ^ 2
  second_lt : c.second < 10 ^ 2

theorem DateTime.ValidCivil.printable {t : DateTime} (ht : t.ValidCivil) : Printable t.toCivil := by
  obtain ⟨hvalid, hlast⟩ := ht
  have hday : t.toCivil.day ≤ 31 := Nat.le_trans hvalid.day_le (daysInMonth_le _ _)
  have hyear : t.toCivil.year ≤ 9999 := hlast
  have hfirst := hvalid.year_ge
  have hmonth := hvalid.month_le
  have hhour := hvalid.hour_lt
  have hminute := hvalid.minute_lt
  have hsecond := hvalid.second_lt
  constructor <;> omega

/-- A field below a power of ten, printed with zeros. -/
theorem zeroPadded_field {u : UInt32} (hu : u.toNat < 10 ^ 2) :
    zeroPadded 2 (intOf u) = digitText 2 u.toNat := by
  rw [intOf, toInt_toInt32 (by omega), zeroPadded_eq (by decide) hu]

theorem formatDate_eq {t : DateTime} (ht : t.ValidCivil) : t.formatDate = dateText t.toCivil := by
  have hp := ht.printable
  have hyear : blankPadded 4 (intOf t.year) = digitText 4 t.year.toNat := by
    have hlow : 10 ^ 3 ≤ t.year.toNat := hp.year_ge
    have hhigh : t.year.toNat < 10 ^ (3 + 1) := hp.year_lt
    rw [intOf, toInt_toInt32 (by omega), blankPadded_eq hlow hhigh]
  rw [DateTime.formatDate, hyear, zeroPadded_field hp.month_lt, zeroPadded_field hp.day_lt,
    List.append_assoc]
  rfl

/-- **The strings** of a valid civil time fit the array. -/
theorem string_eq {t : DateTime} (ht : t.ValidCivil) :
    t.StringDateTime = some (dateTimeText t.toCivil) ∧
      t.StringDate = some (dateText t.toCivil) := by
  have hp := ht.printable
  have htext : t.formatDate ++ bytes " " ++ zeroPadded 2 (intOf t.hour) ++ bytes ":" ++
      zeroPadded 2 (intOf t.minute) ++ bytes ":" ++ zeroPadded 2 (intOf t.second) =
      dateTimeText t.toCivil := by
    rw [formatDate_eq ht, zeroPadded_field hp.hour_lt, zeroPadded_field hp.minute_lt,
      zeroPadded_field hp.second_lt]
    simp only [dateTimeText, List.append_assoc]
    rfl
  constructor
  · rw [DateTime.StringDateTime, htext, sprintf, if_pos]
    rw [dateTimeText_length]
    decide
  · rw [DateTime.StringDate, formatDate_eq ht, sprintf, if_pos]
    rw [dateText_length]
    decide

/-! ## Order -/

section Order

variable {c d : Civil}

/-- Bytes are ordered as their numbers. -/
theorem bytes_lt_iff (l₁ l₂ : List UInt8) :
    l₁ < l₂ ↔ l₁.map UInt8.toNat < l₂.map UInt8.toNat := by
  rw [texts_lt_iff]
  · exact fun x _ y _ => UInt8.lt_iff_toNat_lt.symm
  · exact fun x _ y _ => UInt8.toNat_inj.mp

/-- Two fields of digits, and what follows them. -/
theorem field_lt_iff {w n m : Nat} (hn : n < 10 ^ w) (hm : m < 10 ^ w) (r₁ r₂ : List UInt8) :
    digitText w n ++ r₁ < digitText w m ++ r₂ ↔ n < m ∨ n = m ∧ r₁ < r₂ := by
  have hinj : (digitText w n).map UInt8.toNat = (digitText w m).map UInt8.toNat ↔ n = m := by
    rw [List.map_inj_right fun x y => UInt8.toNat_inj.mp, digitText_inj hn hm]
  rw [bytes_lt_iff, List.map_append, List.map_append,
    append_lt_append_iff (by simp only [List.length_map, digitText_length]), hinj,
    ← bytes_lt_iff, ← bytes_lt_iff, digitText_lt_iff hn hm]

/-- A separator decides nothing. -/
theorem separator_lt_iff (sep r₁ r₂ : List UInt8) : sep ++ r₁ < sep ++ r₂ ↔ r₁ < r₂ := by
  rw [bytes_lt_iff, List.map_append, List.map_append, append_lt_append_iff rfl, ← bytes_lt_iff,
    ← bytes_lt_iff]
  constructor
  · rintro (hless | ⟨-, hrest⟩)
    · exact absurd hless (List.lt_irrefl sep)
    · exact hrest
  · exact fun hrest => Or.inr ⟨rfl, hrest⟩

/-- The strings of two days. -/
theorem dateText_lt_iff (hc : Printable c) (hd : Printable d) :
    dateText c < dateText d ↔ c.year < d.year ∨ c.year = d.year ∧ (c.month < d.month ∨
      c.month = d.month ∧ c.day < d.day) := by
  rw [dateText, dateText, field_lt_iff hc.year_lt hd.year_lt, field_lt_iff hc.month_lt hd.month_lt,
    digitText_lt_iff hc.day_lt hd.day_lt]

/-- The strings of two times are ordered as the fields. -/
theorem dateTimeText_lt_iff (hc : Printable c) (hd : Printable d) :
    dateTimeText c < dateTimeText d ↔ c.fields < d.fields := by
  rw [fields_lt_iff, dateTimeText, dateTimeText, dateText, dateText]
  simp only [List.append_assoc]
  rw [field_lt_iff hc.year_lt hd.year_lt, field_lt_iff hc.month_lt hd.month_lt,
    field_lt_iff hc.day_lt hd.day_lt, separator_lt_iff, field_lt_iff hc.hour_lt hd.hour_lt,
    separator_lt_iff, field_lt_iff hc.minute_lt hd.minute_lt, separator_lt_iff,
    digitText_lt_iff hc.second_lt hd.second_lt]

end Order

/-- A zone without daylight saving time: `mktime` counts the seconds of civil time, from
wherever it starts. -/
def Clock.Steady (clock : Clock) : Prop :=
  ∀ t u : DateTime, t.ValidCivil → u.ValidCivil →
    clock.mktime t.civil - clock.mktime u.civil =
      (t.toCivil.seconds 1900 : Int) - u.toCivil.seconds 1900

theorem Clock.utc_steady : Clock.utc.Steady := by
  intro t u ht hu
  simp only [Clock.utc, ht.toCivil_civil, hu.toCivil_civil]
  omega

/-- **Strings are in the order of time.**  Of two valid civil times, the one with the
smaller string is the earlier by the count of seconds, by `operator-` and, whatever is on the
stack, by `operator>`; equal strings are equal times; and the string of the day is the front
of the other and orders the days. -/
theorem strings_in_order (clock : Clock) (hclock : clock.Steady) (t u : DateTime)
    (ht : t.ValidCivil) (hu : u.ValidCivil) :
    ∃ a b a' b', t.StringDateTime = some a ∧ u.StringDateTime = some b ∧
      t.StringDate = some a' ∧ u.StringDate = some b' ∧ a' <+: a ∧ b' <+: b ∧
      (a < b ↔ 0 < u.minus clock.mktime t) ∧ (a = b ↔ t.toCivil = u.toCivil) ∧
      (a' < b' ↔ t.toCivil.days 1900 < u.toCivil.days 1900) ∧
      (a ≠ b → ∀ unset, (a < b ↔ u.gt clock.mktime unset t = true)) := by
  obtain ⟨hstring, hday⟩ := string_eq ht
  obtain ⟨hstring', hday'⟩ := string_eq hu
  have hspan := hclock u t hu ht
  have horder : dateTimeText t.toCivil < dateTimeText u.toCivil ↔
      0 < u.minus clock.mktime t := by
    rw [dateTimeText_lt_iff ht.printable hu.printable, ← seconds_lt_iff ht.1 hu.1,
      DateTime.minus, hspan]
    omega
  have hback : dateTimeText u.toCivil < dateTimeText t.toCivil ↔
      u.toCivil.seconds 1900 < t.toCivil.seconds 1900 := by
    rw [dateTimeText_lt_iff hu.printable ht.printable, ← seconds_lt_iff hu.1 ht.1]
  have hsame : dateTimeText t.toCivil = dateTimeText u.toCivil ↔ t.toCivil = u.toCivil := by
    constructor
    · intro heq
      rw [heq] at horder hback
      have hnone := List.lt_irrefl (dateTimeText u.toCivil)
      rw [iff_false_left hnone, DateTime.minus, hspan] at horder
      rw [iff_false_left hnone] at hback
      exact (seconds_inj ht.1 hu.1).mp (by omega)
    · intro heq
      rw [heq]
  refine ⟨_, _, _, _, hstring, hstring', hday, hday', List.prefix_append _ _,
    List.prefix_append _ _, horder, hsame, ?_, ?_⟩
  · rw [dateText_lt_iff ht.printable hu.printable, days_lt_iff ht.1 hu.1]
  · intro hdiffer unset
    have hne : clock.mktime u.civil ≠ clock.mktime t.civil := by
      intro heq
      refine hdiffer (hsame.mpr ((seconds_inj ht.1 hu.1).mp ?_))
      omega
    rw [horder, gt_of_ne hne, decide_eq_true_eq, DateTime.minus]
    omega

/-- The last second of a day and the first of the next. -/
theorem strings_in_order_midnight :
    ∃ a b, (DateTime.ofCivil 2016 2 29 23 59 59).StringDateTime = some a ∧
      (DateTime.ofCivil 2016 3 1 0 0 0).StringDateTime = some b ∧
      (a < b ↔ 0 < (DateTime.ofCivil 2016 3 1 0 0 0).minus Clock.utc.mktime
        (.ofCivil 2016 2 29 23 59 59)) := by
  obtain ⟨a, b, -, -, ha, hb, -, -, -, -, horder, -⟩ :=
    strings_in_order .utc Clock.utc_steady (.ofCivil 2016 2 29 23 59 59)
      (.ofCivil 2016 3 1 0 0 0) (by decide) (by decide)
  exact ⟨a, b, ha, hb, horder⟩

/-! ## What `SetDate` makes of them -/

theorem digitText_isDigit (w n : Nat) : ∀ c ∈ digitText w n, isDigit c = true := by
  intro c hc
  obtain ⟨d, hd, rfl⟩ := List.mem_map.mp hc
  have hlt := digits_lt (by decide) w n d hd
  rw [isDigit_iff, digitByte_toNat hlt]
  omega

theorem digitValue_digitByte {d : Nat} (hd : d < 10) : digitValue (digitByte d) = d := by
  have hzero : (ch '0').toNat = 48 := by decide
  rw [digitValue, digitByte_toNat hd, hzero]
  omega

/-- The number a text of digits stands for. -/
theorem ofDigits_digitText (w n : Nat) :
    Nat.ofDigits 10 ((digitText w n).map digitValue).reverse = n % 10 ^ w := by
  induction w generalizing n with
  | zero =>
      rw [pow_zero, Nat.mod_one]
      rfl
  | succ w ih =>
      have hlast : digitText (w + 1) n = digitText w (n / 10) ++ [digitByte (n % 10)] := by
        rw [digitText, digits, List.map_append, List.map_singleton]
        rfl
      rw [hlast, List.map_append, List.map_singleton, List.reverse_append, List.reverse_singleton,
        List.singleton_append, Nat.ofDigits_cons, ih,
        digitValue_digitByte (Nat.mod_lt n (by decide)), pow_succ', Nat.mod_mul]

/-- A text of digits as a numeral. -/
def numeralOf (w n : Nat) (hn : n % 10 ^ w < 2 ^ 31) : Numeral where
  digits := digitText w n
  all_digits := digitText_isDigit w n
  value_lt := by rwa [ofDigits_digitText]

/-- Two texts of digits side by side are one. -/
theorem digitText_append (w n : Nat) {k m : Nat} (hm : m < 10 ^ k) :
    digitText w n ++ digitText k m = digitText (w + k) (n * 10 ^ k + m) := by
  rw [digitText, digitText, ← List.map_append, digits_append w n hm, digitText]

/-- The number of a day, as its digits are read. -/
def dayNumber (c : Civil) : Nat := c.year * 10 ^ 4 + (c.month * 10 ^ 2 + c.day)

theorem dayNumber_lt {c : Civil} (hc : Printable c) : dayNumber c < 10 ^ 8 := by
  have hyear := hc.year_lt
  have hmonth := hc.month_lt
  have hday := hc.day_lt
  rw [dayNumber]
  omega

/-- The eight digits of a day are one number. -/
theorem dateText_eq {c : Civil} (hc : Printable c) : dateText c = digitText 8 (dayNumber c) := by
  have hmonth := hc.month_lt
  have hday := hc.day_lt
  rw [dateText, digitText_append 2 c.month hday, digitText_append 4 c.year (by omega)]
  rfl

/-- A field of digits with a separator behind it. -/
theorem foldl_digitText (h : Host) (t : DateTime) (count : Nat) {w n : Nat} (hn : n < 10 ^ w)
    (hfit : n < 2 ^ 31) {sep : UInt8} (hsep : isSeparator sep = true) (rest : List UInt8) :
    (digitText w n ++ sep :: rest).foldl (SetDateState.turn h) ⟨t, count, []⟩ =
      rest.foldl (SetDateState.turn h) ⟨t.setField count (.ofNat n), count + 1, []⟩ := by
  have hmod : n % 10 ^ w = n := Nat.mod_eq_of_lt hn
  have hvalue : (numeralOf w n (by rw [hmod]; exact hfit)).value = n :=
    (ofDigits_digitText w n).trans hmod
  have hfield := foldl_field h t count (numeralOf w n (by rw [hmod]; exact hfit)) hsep rest
  rwa [hvalue] at hfield

/-- **The strings are not read back.**  From the string of a time, `SetDate` takes all
eight digits of the day for the year, the hour for the month and the minute for the day, and
leaves the seconds out; from the string of a day it takes nothing. -/
theorem string_not_read_back (h : Host) (t u : DateTime) (ht : t.ValidCivil) :
    ∃ a a', t.StringDateTime = some a ∧ t.StringDate = some a' ∧
      u.SetDate h a = some { u with
        year := .ofNat (dayNumber t.toCivil)
        month := t.hour
        day := t.minute } ∧
      u.SetDate h a' = some u ∧ u.SetDate h a ≠ some t := by
  have hp := ht.printable
  obtain ⟨hstring, hday⟩ := string_eq ht
  have hnumber := dayNumber_lt hp
  have hmod : dayNumber t.toCivil % 10 ^ 8 = dayNumber t.toCivil := Nat.mod_eq_of_lt hnumber
  have hhour : UInt32.ofNat t.toCivil.hour = t.hour := UInt32.ofNat_toNat
  have hminute : UInt32.ofNat t.toCivil.minute = t.minute := UInt32.ofNat_toNat
  have hread : u.SetDate h (dateTimeText t.toCivil) = some { u with
      year := .ofNat (dayNumber t.toCivil)
      month := t.hour
      day := t.minute } := by
    have htext : dateTimeText t.toCivil = digitText 8 (dayNumber t.toCivil) ++ ch ' ' ::
        (digitText 2 t.toCivil.hour ++ ch ':' :: (digitText 2 t.toCivil.minute ++ ch ':' ::
          digitText 2 t.toCivil.second)) := by
      rw [dateTimeText, dateText_eq hp]
      rfl
    rw [SetDate_eq, if_pos (by rw [dateTimeText_length]; decide), htext,
      foldl_digitText h u 0 hnumber (by omega) (by decide),
      foldl_digitText h _ 1 hp.hour_lt (by have := hp.hour_lt; omega) (by decide),
      foldl_digitText h _ 2 hp.minute_lt (by have := hp.minute_lt; omega) (by decide),
      foldl_digits h _ _ (digitText_isDigit 2 t.toCivil.second), hhour, hminute]
    rfl
  refine ⟨_, _, hstring, hday, hread, ?_, ?_⟩
  · rw [SetDate_eq, if_pos (by rw [dateText_length]; decide), dateText_eq hp,
      foldl_digits h _ _ (digitText_isDigit 8 _)]
    rfl
  · rw [hread]
    intro heq
    have hyear := congrArg (fun r : DateTime => r.year.toNat) (Option.some.inj heq)
    have hyears : t.toCivil.year = t.year.toNat := rfl
    have hsmall := hp.year_lt
    have hlarge := hp.year_ge
    dsimp only at hyear
    rw [UInt32.toNat_ofNat', Nat.mod_eq_of_lt (by omega), dayNumber] at hyear
    omega

/-- New Year of 2013. -/
theorem string_not_read_back_2013 :
    ∃ a, (DateTime.ofCivil 2013 1 1 0 0 0).StringDateTime = some a ∧
      DateTime.zero.SetDate .x86_64 a ≠ some (.ofCivil 2013 1 1 0 0 0) := by
  obtain ⟨a, -, ha, -, -, -, hne⟩ :=
    string_not_read_back .x86_64 (.ofCivil 2013 1 1 0 0 0) .zero (by decide)
  exact ⟨a, ha, hne⟩

end MyGenSvr.Ports
