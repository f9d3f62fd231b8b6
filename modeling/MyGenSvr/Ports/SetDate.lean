import MyGenSvr.Ports.DateTime

/-!
# `SetDate`

One loop over the characters collects the digits of a field and assigns it on the
separator behind it; the last field is assigned after the loop.  `loop_eq` turns the
loop into a fold, where the position is no more than a count of characters, and
`foldl_field` is the fold over one field.

The position is an `int`, so a string of `2 ^ 31` characters or more makes its
increment overflow.

## Main results

* `fieldValue_digits` — `atoi` reads a numeral of any width.
* `setDate_iff` — exactly when both forms of a date are parsed.
-/

namespace MyGenSvr.Ports

/-! ## Numerals -/

def digitValue (c : UInt8) : Nat := c.toNat - (ch '0').toNat

/-- A decimal numeral of any width whose value fits an `int`. -/
structure Numeral where
  digits : List UInt8
  all_digits : ∀ c ∈ digits, isDigit c = true
  value_lt : Nat.ofDigits 10 (digits.map digitValue).reverse < 2 ^ 31

/-- The number a numeral denotes. -/
def Numeral.value (N : Numeral) : Nat := Nat.ofDigits 10 (N.digits.map digitValue).reverse

theorem isDigit_iff (c : UInt8) : isDigit c = true ↔ 48 ≤ c.toNat ∧ c.toNat ≤ 57 := by
  have hzero : ch '0' = 48 := by decide
  have hnine : ch '9' = 57 := by decide
  rw [isDigit, hzero, hnine, Bool.and_eq_true, decide_eq_true_eq, decide_eq_true_eq,
    UInt8.le_iff_toNat_le, UInt8.le_iff_toNat_le]
  rfl

/-- A digit is none of the bytes that `atoi` and `SetDate` look for. -/
theorem ne_of_isDigit {c b : UInt8} (hc : isDigit c = true) (hb : b.toNat < 48 ∨ 57 < b.toNat) :
    c ≠ b := by
  intro h
  have hrange := (isDigit_iff c).mp hc
  rw [h] at hrange
  omega

theorem not_isSeparator {c : UInt8} (hc : isDigit c = true) : isSeparator c = false := by
  have hminus : c ≠ ch '-' := ne_of_isDigit hc (by decide)
  have hblank : c ≠ ch ' ' := ne_of_isDigit hc (by decide)
  have hcolon : c ≠ ch ':' := ne_of_isDigit hc (by decide)
  simp [isSeparator, hminus, hblank, hcolon]

theorem not_isSpace {c : UInt8} (hc : isDigit c = true) : isSpace c = false := by
  have hrange := (isDigit_iff c).mp hc
  have hblank : c ≠ 32 := ne_of_isDigit hc (by decide)
  have hhigh : ¬c ≤ 13 := by
    rw [UInt8.le_iff_toNat_le]
    show ¬c.toNat ≤ 13
    omega
  simp [isSpace, hblank, hhigh]

theorem leadingNumber_digits {digits : List UInt8} (hall : ∀ c ∈ digits, isDigit c = true) :
    leadingNumber digits = Nat.ofDigits 10 (digits.map digitValue).reverse := by
  have htake : digits.takeWhile isDigit = digits := List.takeWhile_eq_self_iff.mpr hall
  have hfold : ∀ (ds : List UInt8) (n : Nat),
      ds.foldl (fun n c => 10 * n + (c.toNat - (ch '0').toNat)) n =
        Nat.ofDigits 10 (ds.map digitValue).reverse + 10 ^ ds.length * n := by
    intro ds
    induction ds with
    | nil =>
        intro n
        simp
    | cons d ds ih =>
        intro n
        rw [List.foldl_cons, ih, List.map_cons, Nat.ofDigits_reverse_cons, List.length_map,
          List.length_cons, pow_succ]
        show _ = _ + 10 ^ ds.length * digitValue d + _
        rw [digitValue]
        ring
  rw [leadingNumber, htake, hfold]
  simp

theorem head?_digits {digits : List UInt8} (hall : ∀ c ∈ digits, isDigit c = true) {b : UInt8}
    (hb : b.toNat < 48 ∨ 57 < b.toNat) : digits.head? ≠ some b := by
  intro hhead
  have hmem : b ∈ digits := List.mem_of_head? hhead
  exact ne_of_isDigit (hall b hmem) hb rfl

theorem cstr_digits {digits : List UInt8} (hall : ∀ c ∈ digits, isDigit c = true) :
    cstr digits = digits := by
  refine List.takeWhile_eq_self_iff.mpr fun c hc => ?_
  have hnul : c ≠ 0 := ne_of_isDigit (hall c hc) (by decide)
  simpa using hnul

theorem dropWhile_digits {digits : List UInt8} (hall : ∀ c ∈ digits, isDigit c = true) :
    digits.dropWhile isSpace = digits := by
  cases digits with
  | nil => rfl
  | cons d ds => rw [List.dropWhile_cons_of_neg (by simp [not_isSpace (hall d (by simp))])]

/-- **The value of a field**: `atoi` gives the number a numeral denotes. -/
theorem fieldValue_digits (h : Host) (N : Numeral) :
    fieldValue h N.digits = UInt32.ofNat N.value := by
  have hlt : N.value < 2 ^ 31 := N.value_lt
  have hbound : (2 : Int) ^ 31 ≤ 2 ^ (h.sizeBits - 1) := by
    rcases h.sizeBits_eq with hbits | hbits
    · rw [hbits]
    · rw [hbits]
      decide
  have hstrtol : strtol h N.digits = N.value := by
    unfold strtol
    simp only [dropWhile_digits N.all_digits]
    rw [if_neg (head?_digits N.all_digits (by decide)),
      if_neg (head?_digits N.all_digits (by decide)), leadingNumber_digits N.all_digits]
    exact min_eq_right (by show (N.value : Int) ≤ _; omega)
  have hwide : ((N.value : Int) % 2 ^ 32).toNat = N.value := by omega
  rw [fieldValue, cstr_digits N.all_digits, atoi, hstrtol, toInt32_of_lt hlt, UInt32.ofInt, hwide]

/-! ## The loop as a fold -/

section Loop

variable (h : Host)

/-- The loop is a fold, unless the position leaves the range of `int`. -/
theorem loop_eq (cs : List UInt8) : ∀ (st : SetDateState) (i : Nat), i < 2 ^ 31 →
    st.loop h i cs =
      if i + cs.length < 2 ^ 31 then some (cs.foldl (SetDateState.turn h) st) else none := by
  induction cs with
  | nil =>
      intro st i hi
      rw [if_pos (by simpa using hi)]
      rfl
  | cons c cs ih =>
      intro st i hi
      rw [SetDateState.loop, List.length_cons, List.foldl_cons]
      by_cases hnext : i + 1 < 2 ^ 31
      · rw [if_pos hnext, ih _ _ hnext, Nat.add_right_comm i 1, Nat.add_assoc]
      · rw [if_neg hnext, if_neg (by omega)]

theorem SetDate_eq (t : DateTime) (str : List UInt8) :
    t.SetDate h str =
      if str.length < 2 ^ 31 then
        some ((str.foldl (SetDateState.turn h) ⟨t, 0, []⟩).finish h)
      else none := by
  rw [DateTime.SetDate, loop_eq h str _ 0 (by decide), Nat.zero_add]
  split <;> rfl

theorem foldl_digits (digits : List UInt8) : ∀ st : SetDateState,
    (∀ c ∈ digits, isDigit c = true) →
      digits.foldl (SetDateState.turn h) st = { st with temp := st.temp ++ digits } := by
  induction digits with
  | nil =>
      intro st _
      simp
  | cons d ds ih =>
      intro st hall
      have hturn : st.turn h d = { st with temp := st.temp ++ [d] } := by
        rw [SetDateState.turn, not_isSeparator (hall d (by simp))]
        rfl
      rw [List.foldl_cons, hturn, ih _ fun c hc => hall c (List.mem_cons_of_mem d hc)]
      simp

/-- **One field**: its digits are collected and assigned on the separator. -/
theorem foldl_field (t : DateTime) (count : Nat) (N : Numeral) {sep : UInt8}
    (hsep : isSeparator sep = true) (rest : List UInt8) :
    (N.digits ++ sep :: rest).foldl (SetDateState.turn h) ⟨t, count, []⟩ =
      rest.foldl (SetDateState.turn h)
        ⟨t.setField count (UInt32.ofNat N.value), count + 1, []⟩ := by
  rw [List.foldl_append, foldl_digits h N.digits _ N.all_digits, List.foldl_cons,
    SetDateState.turn, if_pos hsep]
  simp only [List.nil_append, fieldValue_digits]

/-- The last field is left in `temp`. -/
theorem foldl_last (t : DateTime) (count : Nat) (N : Numeral) :
    N.digits.foldl (SetDateState.turn h) ⟨t, count, []⟩ = ⟨t, count, N.digits⟩ := by
  rw [foldl_digits h N.digits _ N.all_digits, List.nil_append]

end Loop

/-! ## The two forms of a date -/

/-- A date with or without a time of day. -/
inductive DateText where
  | date (Y M D : Numeral)
  | dateTime (Y M D h m s : Numeral)

/-- `Y-M-D` or `Y-M-D h:m:s`. -/
def DateText.str : DateText → List UInt8
  | .date Y M D => Y.digits ++ ch '-' :: (M.digits ++ ch '-' :: D.digits)
  | .dateTime Y M D h m s =>
      Y.digits ++ ch '-' :: (M.digits ++ ch '-' :: (D.digits ++ ch ' ' ::
        (h.digits ++ ch ':' :: (m.digits ++ ch ':' :: s.digits))))

/-- The fields a text names, set to their numbers. -/
def DateText.assign (t : DateTime) : DateText → DateTime
  | .date Y M D =>
      { t with
        year := UInt32.ofNat Y.value
        month := UInt32.ofNat M.value
        day := UInt32.ofNat D.value }
  | .dateTime Y M D h m s =>
      { t with
        year := UInt32.ofNat Y.value
        month := UInt32.ofNat M.value
        day := UInt32.ofNat D.value
        hour := UInt32.ofNat h.value
        minute := UInt32.ofNat m.value
        second := UInt32.ofNat s.value }

theorem finish_foldl (h : Host) (t : DateTime) (text : DateText) :
    (text.str.foldl (SetDateState.turn h) ⟨t, 0, []⟩).finish h = text.assign t := by
  cases text with
  | date Y M D =>
      rw [DateText.str, foldl_field h t 0 Y (by decide), foldl_field h _ 1 M (by decide),
        foldl_last]
      simp only [SetDateState.finish, fieldValue_digits]
      rfl
  | dateTime Y M D hh m s =>
      rw [DateText.str, foldl_field h t 0 Y (by decide), foldl_field h _ 1 M (by decide),
        foldl_field h _ 2 D (by decide), foldl_field h _ 3 hh (by decide),
        foldl_field h _ 4 m (by decide), foldl_last]
      simp only [SetDateState.finish, fieldValue_digits]
      rfl

/-- **`SetDate`.**  Both forms are parsed, with numerals of any width and any values
before, exactly when the position fits an `int`. -/
theorem setDate_iff (h : Host) (t : DateTime) (text : DateText) :
    t.SetDate h text.str = some (text.assign t) ↔ text.str.length < 2 ^ 31 := by
  rw [SetDate_eq, finish_foldl]
  by_cases hfits : text.str.length < 2 ^ 31
  · rw [if_pos hfits]
    exact iff_of_true rfl hfits
  · rw [if_neg hfits]
    exact iff_of_false (by simp) hfits

/-- A numeral of `n` zeros. -/
def zeros (n : Nat) : Numeral where
  digits := List.replicate n (ch '0')
  all_digits := by
    intro c hc
    rw [List.eq_of_mem_replicate hc]
    decide
  value_lt := by
    have hzero : digitValue (ch '0') = 0 := by decide
    rw [List.map_replicate, List.reverse_replicate, hzero, Nat.ofDigits_replicate_zero]
    decide

/-- A year written with `2 ^ 31` zeros overflows the position. -/
theorem setDate_overflows :
    DateTime.zero.SetDate Host.x86_64 (DateText.date (zeros (2 ^ 31)) (zeros 1) (zeros 1)).str ≠
      some ((DateText.date (zeros (2 ^ 31)) (zeros 1) (zeros 1)).assign DateTime.zero) := by
  have hlong : ¬(DateText.date (zeros (2 ^ 31)) (zeros 1) (zeros 1)).str.length < 2 ^ 31 := by
    simp only [DateText.str, zeros, List.length_append, List.length_replicate]
    omega
  rw [SetDate_eq, if_neg hlong]
  simp

end MyGenSvr.Ports
