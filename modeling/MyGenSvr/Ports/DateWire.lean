import MyGenSvr.Ports.AddMonths
import MyGenSvr.Ports.RoundTrip
import MyGenSvr.Verified.Binary64
import MyGenSvr.Verified.CivilTime

/-!
# Dates on the wire

`<<` sends a date as the `double` of its milliseconds since 1970, and `>>` hands the
seconds of what it reads to `SetTime`.  All the numbers on the way are whole and
below `2 ^ 53`, where `double` is exact, and `localtime` undoes `mktime`.  What
stands in the way is the guard of `SetTime`: a date before 1970 has a negative
count, and then nothing is set.

The `double` is copied in the byte order of the host, whatever `_bChangeByteOrder`
says, so both ends are the same host here.

## Main results

* `Clock.utc_regular`, `DoubleOps.binary64_exact` — a clock and an arithmetic as they
  are assumed.
* `dateTime_round_trip` — what a date is read back as.
-/

namespace MyGenSvr.Ports

open MyGenSvr.Verified
open MyGenSvr.Verified.Buffer
open MyGenSvr.Verified.Calendar

/-- `operator<<` on a date: the bytes of `timespan`. -/
def Serializer.putDateTime (h : Host) (clock : Clock) (D : DoubleOps) (s : Serializer)
    (value : DateTime) : Serializer :=
  let timespan := D.mul (value.GetTime clock D) (D.ofInt 1000)
  s.putScalar h .double timespan

/-- `operator>>` on a date.  `millsec` stays 0 when the read fails. -/
def Serializer.getDateTime (h : Host) (clock : Clock) (D : DoubleOps) (s : Serializer)
    (value : DateTime) : Serializer × DateTime :=
  let read := s.getScalar h .double (D.ofInt 0)
  (read.1, value.SetTime clock D (D.div read.2 (D.ofInt 1000)))

/-! ## What is assumed of the clock and of `double` -/

/-- The civil fields of a date. -/
def DateTime.toCivil (t : DateTime) : Civil :=
  ⟨t.year.toNat, t.month.toNat, t.day.toNat, t.hour.toNat, t.minute.toNat, t.second.toNat⟩

/-- A valid civil time of the years 1900 to 9999. -/
def DateTime.ValidCivil (t : DateTime) : Prop := t.toCivil.Valid 1900 ∧ t.year.toNat ≤ 9999

instance DateTime.instDecidableValidCivil (t : DateTime) : Decidable t.ValidCivil :=
  inferInstanceAs (Decidable (_ ∧ _))

/-- The start of 1970. -/
def DateTime.epoch : DateTime := ofCivil 1970 1 1 0 0 0

/-- A zone without daylight saving time: `localtime` undoes `mktime` on valid civil
times, and these are fewer than `2 ^ 53` milliseconds away from 1970. -/
structure Clock.Regular (clock : Clock) : Prop where
  inverse : ∀ t : DateTime, t.ValidCivil → clock.localtime (clock.mktime t.civil) = t.civil
  span : ∀ t : DateTime, t.ValidCivil →
    ((clock.mktime t.civil - clock.mktime DateTime.epoch.civil) * 1000).natAbs < 2 ^ 53

/-- Whole numbers below `2 ^ 53` in magnitude are exact.  The factors and the
divisors are positive, since a zero has a sign. -/
structure DoubleOps.Exact (D : DoubleOps) : Prop where
  trunc_ofInt : ∀ n : Int, n.natAbs < 2 ^ 53 → D.trunc (D.ofInt n) = n
  mul_ofInt : ∀ a b : Int, 0 < b → b < 2 ^ 53 → (a * b).natAbs < 2 ^ 53 →
    D.mul (D.ofInt a) (D.ofInt b) = D.ofInt (a * b)
  div_ofInt : ∀ a b : Int, 0 < b → b < 2 ^ 53 → (a * b).natAbs < 2 ^ 53 →
    D.div (D.ofInt (a * b)) (D.ofInt b) = D.ofInt a
  lt_ofInt : ∀ a b : Int, a.natAbs < 2 ^ 53 → b.natAbs < 2 ^ 53 →
    D.lt (D.ofInt a) (D.ofInt b) = decide (a < b)

/-! ## Coordinated universal time -/

/-- The date with given civil fields. -/
def DateTime.ofStamp (c : Civil) : DateTime :=
  ofCivil (.ofNat c.year) (.ofNat c.month) (.ofNat c.day) (.ofNat c.hour) (.ofNat c.minute)
    (.ofNat c.second)

/-- The civil time of a `struct tm` in range. -/
def CivilFields.toCivil (c : CivilFields) : Civil where
  year := (c.tm_year.toInt + 1900).toNat
  month := (c.tm_mon.toInt + 1).toNat
  day := c.tm_mday.toInt.toNat
  hour := c.tm_hour.toInt.toNat
  minute := c.tm_min.toInt.toNat
  second := c.tm_sec.toInt.toNat

/-- `mktime` and `localtime` of a host set to UTC, on the years 1900 to 9999. -/
def Clock.utc : Clock where
  mktime c := c.toCivil.seconds 1900 - 2208988800
  localtime td := (DateTime.ofStamp (ofSeconds 1900 8100 (td + 2208988800).toNat)).civil

theorem DateTime.ValidCivil.year_lt {t : DateTime} (h : t.ValidCivil) :
    t.toCivil.year - 1900 < 8100 := by
  have hlast : t.toCivil.year ≤ 9999 := h.2
  omega

theorem toInt_sub_small {u : UInt32} {k : Nat} (hle : k ≤ u.toNat) (hlt : u.toNat < 2 ^ 31) :
    (u - .ofNat k).toInt32.toInt = u.toNat - k := by
  have hk : (UInt32.ofNat k).toNat = k := by
    rw [UInt32.toNat_ofNat', Nat.mod_eq_of_lt (by omega)]
  have hsub : (u - .ofNat k).toNat = u.toNat - k := by
    rw [UInt32.toNat_sub_of_le _ _ (UInt32.le_iff_toNat_le.mpr (by omega)), hk]
  rw [toInt_toInt32 (by omega), hsub]
  omega

theorem DateTime.ValidCivil.toCivil_civil {t : DateTime} (h : t.ValidCivil) :
    t.civil.toCivil = t.toCivil := by
  obtain ⟨hvalid, hlast⟩ := h
  have hyear : 1900 ≤ t.year.toNat := hvalid.year_ge
  have hmonth : 1 ≤ t.month.toNat := hvalid.month_pos
  have hmonths : t.month.toNat ≤ 12 := hvalid.month_le
  have hday : t.day.toNat ≤ 31 := Nat.le_trans hvalid.day_le (daysInMonth_le _ _)
  have hhour : t.hour.toNat < 24 := hvalid.hour_lt
  have hminute : t.minute.toNat < 60 := hvalid.minute_lt
  have hsecond : t.second.toNat < 60 := hvalid.second_lt
  have hyears : (t.year - 1900).toInt32.toInt = t.year.toNat - 1900 :=
    toInt_sub_small hyear (by omega)
  have hmonths' : (t.month - 1).toInt32.toInt = t.month.toNat - 1 :=
    toInt_sub_small hmonth (by omega)
  simp only [CivilFields.toCivil, DateTime.civil, DateTime.toTm, hyears, hmonths',
    toInt_toInt32 (show t.day.toNat < 2 ^ 31 by omega),
    toInt_toInt32 (show t.hour.toNat < 2 ^ 31 by omega),
    toInt_toInt32 (show t.minute.toNat < 2 ^ 31 by omega),
    toInt_toInt32 (show t.second.toNat < 2 ^ 31 by omega), Int.sub_add_cancel, Int.toNat_natCast]
  rfl

theorem DateTime.civil_ofStamp (t : DateTime) : (DateTime.ofStamp t.toCivil).civil = t.civil := by
  simp only [DateTime.ofStamp, DateTime.toCivil, UInt32.ofNat_toNat]
  rfl

/-- **The clock of a host set to UTC.** -/
theorem Clock.utc_regular : Clock.utc.Regular where
  inverse t ht := by
    have hseconds : (Clock.utc.mktime t.civil + 2208988800).toNat = t.toCivil.seconds 1900 := by
      simp only [Clock.utc, ht.toCivil_civil]
      omega
    have hstamp : ofSeconds 1900 8100 (t.toCivil.seconds 1900) = t.toCivil :=
      ofSeconds_seconds ht.1 ht.year_lt
    show (DateTime.ofStamp (ofSeconds 1900 8100 (Clock.utc.mktime t.civil +
      2208988800).toNat)).civil = t.civil
    rw [hseconds, hstamp, DateTime.civil_ofStamp]
  span t ht := by
    have hspan := seconds_lt ht.1 ht.year_lt
    have hepoch : Clock.utc.mktime DateTime.epoch.civil = 0 := by decide +kernel
    have htime : Clock.utc.mktime t.civil = t.toCivil.seconds 1900 - 2208988800 := by
      simp only [Clock.utc, ht.toCivil_civil]
    rw [hepoch, htime]
    omega

/-- The operations of `double` on whole numbers. -/
def DoubleOps.binary64 : DoubleOps where
  ofInt := Binary64.encode
  trunc := Binary64.decode
  mul a b := Binary64.encode (Binary64.decode a * Binary64.decode b)
  div a b := Binary64.encode ((Binary64.decode a).tdiv (Binary64.decode b))
  lt a b := decide (Binary64.decode a < Binary64.decode b)

/-- A factor of a whole number in range is in range. -/
theorem natAbs_lt_of_mul {a b : Int} {n : Nat} (hb : 0 < b) (h : (a * b).natAbs < n) :
    a.natAbs < n := by
  rw [Int.natAbs_mul] at h
  exact Nat.lt_of_le_of_lt (Nat.le_mul_of_pos_right _ (Int.natAbs_pos.mpr (by omega))) h

theorem DoubleOps.binary64_exact : DoubleOps.binary64.Exact where
  trunc_ofInt n hn := Binary64.decode_encode hn
  mul_ofInt a b hpos hb hab := by
    have ha := natAbs_lt_of_mul hpos hab
    show Binary64.encode (Binary64.decode (Binary64.encode a) *
      Binary64.decode (Binary64.encode b)) = Binary64.encode (a * b)
    rw [Binary64.decode_encode ha, Binary64.decode_encode (by omega)]
  div_ofInt a b hpos hb hab := by
    show Binary64.encode ((Binary64.decode (Binary64.encode (a * b))).tdiv
      (Binary64.decode (Binary64.encode b))) = Binary64.encode a
    rw [Binary64.decode_encode hab, Binary64.decode_encode (by omega),
      Int.mul_tdiv_cancel _ (by omega)]
  lt_ofInt a b ha hb := by
    show decide (Binary64.decode (Binary64.encode a) < Binary64.decode (Binary64.encode b)) =
      decide (a < b)
    rw [Binary64.decode_encode ha, Binary64.decode_encode hb]

/-! ## The way there and back -/

section Wire

variable {clock : Clock} {D : DoubleOps}

/-- The seconds from 1970 to a date, as `mktime` counts them. -/
def Clock.sinceEpoch (clock : Clock) (t : DateTime) : Int :=
  clock.mktime t.civil - clock.mktime DateTime.epoch.civil

/-- A date is put together again from its `struct tm`. -/
theorem DateTime.plus_of_localtime {t u : DateTime} {timespan : UInt64}
    (hcivil : clock.localtime (clock.mktime u.civil + D.trunc timespan) = t.civil)
    (hrest : t.second_part = 0 ∧ t.neg = 0 ∧ t.reserve = 0) : u.plus clock D timespan = t := by
  obtain ⟨year, month, day, hour, minute, second, second_part, neg, reserve⟩ := t
  obtain ⟨hpart, hneg, hreserve⟩ := hrest
  simp only at hpart hneg hreserve
  subst hpart hneg hreserve
  have hyear : ((year - 1900).toInt32 + 1900).toUInt32 = year := by simp
  have hmonth : ((month - 1).toInt32 + 1).toUInt32 = month := by simp
  simp only [DateTime.plus, hcivil]
  simp only [DateTime.civil, DateTime.toTm, hyear, hmonth, UInt32.toUInt32_toInt32,
    DateTime.zero]

/-- `SetTime` of a whole number of seconds. -/
theorem DateTime.SetTime_ofInt (hD : D.Exact) (old : DateTime) {n : Int}
    (hn : n.natAbs < 2 ^ 53) :
    old.SetTime clock D (D.ofInt n) =
      if n < 0 then old else DateTime.epoch.plus clock D (D.ofInt n) := by
  have hguard : D.lt (D.ofInt n) (D.ofInt 0) = decide (n < 0) :=
    hD.lt_ofInt n 0 hn (by decide)
  have hscale : D.mul (D.ofInt n) (D.ofInt 1) = D.ofInt n := by
    have hmul := hD.mul_ofInt n 1 (by decide) (by decide) (by rwa [Int.mul_one])
    rwa [Int.mul_one] at hmul
  rw [DateTime.SetTime, hguard]
  by_cases hneg : n < 0
  · rw [if_pos (decide_eq_true hneg), if_pos hneg]
  · rw [if_neg (by simp [hneg]), if_neg hneg, DateTime.Add, hscale]
    rfl

/-- The number `<<` sends. -/
theorem DateTime.timespan_eq (hclock : clock.Regular) (hD : D.Exact) {t : DateTime}
    (ht : t.ValidCivil) :
    D.mul (t.GetTime clock D) (D.ofInt 1000) = D.ofInt (clock.sinceEpoch t * 1000) :=
  hD.mul_ofInt (clock.sinceEpoch t) 1000 (by decide) (by decide) (hclock.span t ht)

/-- **What the number is read as.** -/
theorem DateTime.SetTime_timespan (hclock : clock.Regular) (hD : D.Exact) {t : DateTime}
    (ht : t.ValidCivil) (hrest : t.second_part = 0 ∧ t.neg = 0 ∧ t.reserve = 0)
    (old : DateTime) :
    old.SetTime clock D (D.div (D.ofInt (clock.sinceEpoch t * 1000)) (D.ofInt 1000)) =
      if clock.sinceEpoch t < 0 then old else t := by
  have hspan : (clock.sinceEpoch t * 1000).natAbs < 2 ^ 53 := hclock.span t ht
  have hseconds : (clock.sinceEpoch t).natAbs < 2 ^ 53 := natAbs_lt_of_mul (by decide) hspan
  have hcivil : clock.localtime (clock.mktime DateTime.epoch.civil +
      D.trunc (D.ofInt (clock.sinceEpoch t))) = t.civil := by
    rw [hD.trunc_ofInt _ hseconds, Clock.sinceEpoch, add_sub_cancel, hclock.inverse t ht]
  rw [hD.div_ofInt _ _ (by decide) (by decide) hspan, DateTime.SetTime_ofInt hD old hseconds,
    DateTime.plus_of_localtime hcivil hrest]

/-- Writing a date with room for it appends the eight bytes of its number. -/
theorem putDateTime_written (h : Host) (hclock : clock.Regular) (hD : D.Exact) {t : DateTime}
    (ht : t.ValidCivil) {w : Serializer} (hw : Ordered w.pBuffer)
    (hroom : w.pBuffer.pWrite + 8 ≤ w.pBuffer.size.toNat) :
    written w.pBuffer (w.putDateTime h clock D t).pBuffer =
      Scalar.double.wire h w.changeByteOrder (D.ofInt (clock.sinceEpoch t * 1000)) := by
  obtain ⟨b, hput, happends⟩ := putScalar_appends h .double hw
    (D.mul (t.GetTime clock D) (D.ofInt 1000)) hroom
  have hbuffer : (w.putDateTime h clock D t).pBuffer = b := by
    rw [Serializer.putDateTime, hput]
    rfl
  rw [hbuffer, happends.written_eq hw, DateTime.timespan_eq hclock hD ht]

/-- The bytes of a `double` do not depend on the byte-order mode. -/
theorem double_wire (h : Host) (c c' : Bool) (v : UInt64) :
    Scalar.double.wire h c v = Scalar.double.wire h c' v := by
  cases c <;> cases c' <;> rfl

/-- **The round trip of a date.**  A valid civil time that is not before 1970 comes
back in all fields, whatever the target held; before 1970 the target keeps what it
held. -/
theorem dateTime_round_trip (h : Host) (hclock : clock.Regular) (hD : D.Exact) {t : DateTime}
    (ht : t.ValidCivil) (hrest : t.second_part = 0 ∧ t.neg = 0 ∧ t.reserve = 0)
    {w r : Serializer} (hw : Ordered w.pBuffer)
    (hroom : w.pBuffer.pWrite + 8 ≤ w.pBuffer.size.toNat) (hr : Ordered r.pBuffer)
    {later : List UInt8}
    (hbytes : r.pBuffer.unread =
      written w.pBuffer (w.putDateTime h clock D t).pBuffer ++ later) (old : DateTime) :
    (r.getDateTime h clock D old).2 =
      if clock.mktime t.civil < clock.mktime DateTime.epoch.civil then old else t := by
  rw [putDateTime_written h hclock hD ht hw hroom,
    double_wire h w.changeByteOrder r.changeByteOrder] at hbytes
  have hread := getScalar_of_unread h .double hr (D.ofInt 0) _ later hbytes
  have hbefore : clock.sinceEpoch t < 0 ↔
      clock.mktime t.civil < clock.mktime DateTime.epoch.civil := sub_neg
  simp only [Serializer.getDateTime, hread, DateTime.SetTime_timespan hclock hD ht hrest old,
    hbefore]

end Wire

/-! ## On both sides of 1970 -/

/-- A serializer with eight bytes of room. -/
def emptySerializer : Serializer := .new (.ofData (List.replicate 8 0) 8 0) true

/-- A serializer with `bytes` to read. -/
def filledSerializer (bytes : List UInt8) : Serializer :=
  .new (.ofData bytes (.ofNat bytes.length) (.ofNat bytes.length)) true

/-- The bytes a date is sent as. -/
def sentBytes (t : DateTime) : List UInt8 :=
  written emptySerializer.pBuffer
    (emptySerializer.putDateTime .x86_64 .utc .binary64 t).pBuffer

/-- What a date is read back as into the start of 2000. -/
def readBack (t : DateTime) : DateTime :=
  ((filledSerializer (sentBytes t)).getDateTime .x86_64 .utc .binary64
    (.ofCivil 2000 1 1 0 0 0)).2

/-- The evening of 8 August 2008 comes back. -/
theorem dateTime_round_trip_2008 :
    readBack (.ofCivil 2008 8 8 20 0 0) = .ofCivil 2008 8 8 20 0 0 := by
  have hvalid : (DateTime.ofCivil 2008 8 8 20 0 0).ValidCivil := by decide
  have hempty : Ordered emptySerializer.pBuffer :=
    ⟨Nat.le_refl _, Nat.zero_le _, Nat.le_refl _⟩
  have hfilled : Ordered (filledSerializer (sentBytes (.ofCivil 2008 8 8 20 0 0))).pBuffer := by
    constructor <;> decide +kernel
  have hbytes : (filledSerializer (sentBytes (.ofCivil 2008 8 8 20 0 0))).pBuffer.unread =
      sentBytes (.ofCivil 2008 8 8 20 0 0) ++ [] := by decide +kernel
  have hread := dateTime_round_trip .x86_64 Clock.utc_regular DoubleOps.binary64_exact hvalid
    ⟨rfl, rfl, rfl⟩ hempty (Nat.le_refl _) hfilled hbytes (.ofCivil 2000 1 1 0 0 0)
  rw [if_neg (by decide +kernel)] at hread
  exact hread

/-- The last second of 1969 does not. -/
theorem dateTime_lost_1969 :
    Clock.utc.Regular ∧ DoubleOps.binary64.Exact ∧
      (DateTime.ofCivil 1969 12 31 23 59 59).ValidCivil ∧
      readBack (.ofCivil 1969 12 31 23 59 59) ≠ .ofCivil 1969 12 31 23 59 59 := by
  have hvalid : (DateTime.ofCivil 1969 12 31 23 59 59).ValidCivil := by decide
  have hkept : readBack (.ofCivil 1969 12 31 23 59 59) = .ofCivil 2000 1 1 0 0 0 := by
    decide +kernel
  refine ⟨Clock.utc_regular, DoubleOps.binary64_exact, hvalid, ?_⟩
  rw [hkept]
  decide

end MyGenSvr.Ports
