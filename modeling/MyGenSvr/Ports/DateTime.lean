import MyGenSvr.Ports.ReadConfig

/-!
# `DateTime`

Six unsigned civil fields and three more that nothing but a copy touches.  The
operators go through `mktime` and `localtime`, which are parameters here, and
through a `struct tm` that `operator tm` fills only in part: the rest holds what
the stack held, and a `memcmp` of two such structures sees it.

Values of type `double` are bit patterns; the operations on them that dates need
are a parameter too.
-/

namespace MyGenSvr.Ports

/-- A `DateTime`, on a host whose `unsigned long` has 64 bits. -/
structure DateTime where
  year : UInt32
  month : UInt32
  day : UInt32
  hour : UInt32
  minute : UInt32
  second : UInt32
  second_part : UInt64
  neg : UInt32
  reserve : UInt32
  deriving DecidableEq, Repr

/-- The default constructor. -/
def DateTime.zero : DateTime := ⟨0, 0, 0, 0, 0, 0, 0, 0, 0⟩

/-- The constructor from civil fields. -/
def DateTime.ofCivil (y m d h mm s : UInt32) : DateTime := ⟨y, m, d, h, mm, s, 0, 0, 0⟩

/-! ## `struct tm` -/

/-- The six fields of a `struct tm` that name a civil time. -/
structure CivilFields where
  tm_sec : Int32
  tm_min : Int32
  tm_hour : Int32
  tm_mday : Int32
  tm_mon : Int32
  tm_year : Int32
  deriving DecidableEq, Repr

/-- A `struct tm`: `unset` is the bytes `operator tm` does not write, which are the
padding, `tm_gmtoff` and `tm_zone`. -/
structure Tm extends CivilFields where
  tm_wday : Int32
  tm_yday : Int32
  tm_isdst : Int32
  unset : List UInt8
  deriving DecidableEq

/-- `operator tm`, over a stack slot whose unwritten bytes hold `unset`. -/
def DateTime.toTm (t : DateTime) (unset : List UInt8) : Tm where
  tm_year := (t.year - 1900).toInt32
  tm_mon := (t.month - 1).toInt32
  tm_mday := t.day.toInt32
  tm_hour := t.hour.toInt32
  tm_min := t.minute.toInt32
  tm_sec := t.second.toInt32
  tm_isdst := 0
  tm_wday := 0
  tm_yday := 0
  unset := unset

/-- The civil fields `mktime` is given. -/
def DateTime.civil (t : DateTime) : CivilFields := (t.toTm []).toCivilFields

theorem DateTime.toTm_civil (t : DateTime) (unset : List UInt8) :
    (t.toTm unset).toCivilFields = t.civil := rfl

/-- The time zone: `mktime` and `localtime`, with `time_t` as an integer. -/
structure Clock where
  mktime : CivilFields → Int
  localtime : Int → CivilFields

/-- The arithmetic of `double`, on bit patterns, as far as dates use it: the
conversions from and to an integer, products, quotients and `<`. -/
structure DoubleOps where
  ofInt : Int → UInt64
  trunc : UInt64 → Int
  mul : UInt64 → UInt64 → UInt64
  div : UInt64 → UInt64 → UInt64
  lt : UInt64 → UInt64 → Bool

/-! ## The operators -/

/-- `operator+`. -/
def DateTime.plus (clock : Clock) (D : DoubleOps) (t : DateTime) (timespan : UInt64) : DateTime :=
  let td := clock.mktime t.civil + D.trunc timespan
  let result := clock.localtime td
  { DateTime.zero with
    year := (result.tm_year + 1900).toUInt32
    month := (result.tm_mon + 1).toUInt32
    day := result.tm_mday.toUInt32
    hour := result.tm_hour.toUInt32
    minute := result.tm_min.toUInt32
    second := result.tm_sec.toUInt32 }

/-- `operator-`, before the cast to `double`, which keeps the sign. -/
def DateTime.minus (mktime : CivilFields → Int) (t rhs : DateTime) : Int :=
  mktime t.civil - mktime rhs.civil

/-- `operator==`: a `memcmp` of the two objects, which have no padding. -/
def DateTime.eq (t rhs : DateTime) : Bool := decide (t = rhs)

/-- `operator>`; `unset` is what the two `struct tm` hold where nothing is written. -/
def DateTime.gt (mktime : CivilFields → Int) (unset : List UInt8 × List UInt8)
    (t rhs : DateTime) : Bool :=
  if t.minus mktime rhs > 0 then true
  else decide (t.toTm unset.1 = rhs.toTm unset.2)

/-- `operator<`. -/
def DateTime.lt (mktime : CivilFields → Int) (unset : List UInt8 × List UInt8)
    (t rhs : DateTime) : Bool :=
  !t.gt mktime unset rhs

/-- `operator>=`. -/
def DateTime.ge (mktime : CivilFields → Int) (unset : List UInt8 × List UInt8)
    (t rhs : DateTime) : Bool :=
  t.gt mktime unset rhs || t.eq rhs

/-- `operator<=`. -/
def DateTime.le (mktime : CivilFields → Int) (unset : List UInt8 × List UInt8)
    (t rhs : DateTime) : Bool :=
  t.lt mktime unset rhs || t.eq rhs

/-! ## `SetDate` -/

/-- The locals of `SetDate` and the fields it sets. -/
structure SetDateState where
  date : DateTime
  count : Nat
  temp : List UInt8
  deriving DecidableEq

/-- The assignment on a separator, by the number of separators before it. -/
def DateTime.setField (t : DateTime) (count : Nat) (value : UInt32) : DateTime :=
  if count = 0 then { t with year := value }
  else if count = 1 then { t with month := value }
  else if count = 2 then { t with day := value }
  else if count = 3 then { t with hour := value }
  else if count = 4 then { t with minute := value }
  else if count = 5 then { t with second := value }
  else t

/-- `atoi(temp.c_str())`, converted to an unsigned field. -/
def fieldValue (h : Host) (temp : List UInt8) : UInt32 := .ofInt (atoi h (cstr temp))

def isSeparator (c : UInt8) : Bool := c == ch '-' || c == ch ' ' || c == ch ':'

/-- One turn of the loop. -/
def SetDateState.turn (h : Host) (st : SetDateState) (c : UInt8) : SetDateState :=
  if isSeparator c then
    { date := st.date.setField st.count (fieldValue h st.temp), count := st.count + 1, temp := [] }
  else { st with temp := st.temp ++ [c] }

/-- The loop from position `i` on.  `i` is an `int`, whose increment is undefined
at the largest value: `none`. -/
def SetDateState.loop (h : Host) (st : SetDateState) (i : Nat) : List UInt8 → Option SetDateState
  | [] => some st
  | c :: cs => if i + 1 < 2 ^ 31 then (st.turn h c).loop h (i + 1) cs else none

/-- The two cases after the loop. -/
def SetDateState.finish (h : Host) (st : SetDateState) : DateTime :=
  let date := if st.count = 2 then { st.date with day := fieldValue h st.temp } else st.date
  if st.count = 5 then { date with second := fieldValue h st.temp } else date

/-- `SetDate`; `none` where the behaviour is undefined. -/
def DateTime.SetDate (h : Host) (t : DateTime) (str : List UInt8) : Option DateTime :=
  (SetDateState.loop h ⟨t, 0, []⟩ 0 str).map (·.finish h)

/-! ## `SetTime`, `GetTime` and the months -/

/-- `Add`. -/
def DateTime.Add (clock : Clock) (D : DoubleOps) (t : DateTime) (value : UInt64) (scale : Int) :
    DateTime :=
  t.plus clock D (D.mul value (D.ofInt scale))

/-- `SetTime`. -/
def DateTime.SetTime (clock : Clock) (D : DoubleOps) (t : DateTime) (ticks : UInt64) : DateTime :=
  if D.lt ticks (D.ofInt 0) then t
  else (ofCivil 1970 1 1 0 0 0).Add clock D ticks 1

/-- `GetTime`. -/
def DateTime.GetTime (clock : Clock) (D : DoubleOps) (t : DateTime) : UInt64 :=
  D.ofInt (clock.mktime t.civil - clock.mktime (ofCivil 1970 1 1 0 0 0).civil)

/-- `IsLeepYear`. -/
def IsLeepYear (year : Int32) : Bool :=
  if year % 4 ≠ 0 then false
  else if year % 100 = 0 then decide (year % 400 = 0)
  else true

def DaysToMonth365 : List Int32 :=
  [0, 0x1f, 0x3b, 90, 120, 0x97, 0xb5, 0xd4, 0xf3, 0x111, 0x130, 0x14e, 0x16d]

def DaysToMonth366 : List Int32 :=
  [0, 0x1f, 60, 0x5b, 0x79, 0x98, 0xb6, 0xd5, 0xf4, 0x112, 0x131, 0x14f, 0x16e]

/-- `DaysInMonth`, for the months the two tables have. -/
def DaysInMonth (year month : Int32) : Int32 :=
  let numArray := if IsLeepYear year then DaysToMonth366 else DaysToMonth365
  numArray.getD month.toInt.toNat 0 - numArray.getD (month - 1).toInt.toNat 0

/-- The year and the month `AddMonths` sets, for `m` months after January. -/
def DateTime.shiftMonths (t : DateTime) (m : Int32) : DateTime :=
  if m ≥ 0 then
    { t with month := (m % 12 + 1).toUInt32, year := t.year + (m / 12).toUInt32 }
  else
    { t with
      month := (12 + (m + 1) % 12).toUInt32
      year := t.year + ((m - 11) / 12).toUInt32 }

/-- The day `AddMonths` sets. -/
def DateTime.clampDay (t : DateTime) : DateTime :=
  let days := (DaysInMonth t.year.toInt32 t.month.toInt32).toUInt32
  if t.day > days then { t with day := days } else t

/-- `AddMonths`.  `month - 1` is unsigned, and so is its sum with `months`. -/
def DateTime.AddMonths (t : DateTime) (months : Int32) : DateTime :=
  (t.shiftMonths (t.month - 1 + months.toUInt32).toInt32).clampDay

end MyGenSvr.Ports
