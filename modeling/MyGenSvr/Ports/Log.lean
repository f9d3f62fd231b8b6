import MyGenSvr.Ports.IniFile

/-!
# `Log`

The rotation of the log files: `shift_files` looks at the size of the current file,
removes the oldest one and renames every other one upwards, one system call at a
time.  `shiftStep` is the code between two system calls, with the call; a thread is
at a `ShiftPc`, and the directory is what the calls act on.

`log_file_name` formats the index into a buffer of ten bytes.
-/

namespace MyGenSvr.Ports

/-- A directory: the contents of the files by name. -/
abbrev Dir := List UInt8 → Option (List UInt8)

/-- `remove`, where the kernel lets it succeed. -/
def Dir.remove (d : Dir) (name : List UInt8) : Option Dir :=
  (d name).map fun _ => Function.update d name none

/-- `rename`, where the kernel lets it succeed: a file at the new name is replaced. -/
def Dir.rename (d : Dir) (old new : List UInt8) : Option Dir :=
  (d old).map fun contents => Function.update (Function.update d old none) new (some contents)

/-- The members of a `Log` that rotation reads. -/
structure Log where
  max_log_size : Int
  max_log_num : Int
  deriving DecidableEq

/-- What `%d` prints. -/
def decimal : Int → List UInt8
  | .ofNat n => (Nat.toDigits 10 n).map ch
  | .negSucc n => ch '-' :: (Nat.toDigits 10 (n + 1)).map ch

/-- `log_file_name`; `none` where the index does not fit `str_index`. -/
def log_file_name (pre_name : List UInt8) (cur_index : Int) : Option (List UInt8) :=
  if cur_index = 0 then some (pre_name ++ bytes ".log")
  else if (decimal cur_index).length < 10 then
    some (pre_name ++ decimal cur_index ++ bytes ".log")
  else none

/-- Where a call of `shift_files` stands: before a system call, or at its end. -/
inductive ShiftPc where
  | stat
  | accessOldest
  | removeOldest
  | access (i : Int)
  | rename (i : Int)
  | returned (r : Int)
  deriving DecidableEq

/-- One system call of `shift_files` and the code up to the next one.  `succeeds` is
what the kernel does with a `remove` or a `rename`; `none` is undefined behaviour. -/
def shiftStep (log : Log) (file_name : List UInt8) (d : Dir) (succeeds : Bool) :
    ShiftPc → Option (Dir × ShiftPc)
  | .stat => do
      let tmp ← log_file_name file_name 0
      match d tmp with
      | none => some (d, .returned 0)
      | some contents =>
          if (contents.length : Int) < log.max_log_size then some (d, .returned 0)
          else some (d, .accessOldest)
  | .accessOldest => do
      let tmp ← log_file_name file_name (log.max_log_num - 1)
      if (d tmp).isSome then some (d, .removeOldest)
      else some (d, .access (log.max_log_num - 2))
  | .removeOldest => do
      let tmp ← log_file_name file_name (log.max_log_num - 1)
      match if succeeds then d.remove tmp else none with
      | some d' => some (d', .access (log.max_log_num - 2))
      | none => some (d, .returned (-1))
  | .access i =>
      if i < 0 then some (d, .returned 0)
      else do
        let tmp ← log_file_name file_name i
        if (d tmp).isSome then some (d, .rename i) else some (d, .access (i - 1))
  | .rename i => do
      let tmp ← log_file_name file_name i
      let new_file ← log_file_name file_name (i + 1)
      match if succeeds then d.rename tmp new_file else none with
      | some d' => some (d', .access (i - 1))
      | none => some (d, .returned (-1))
  | .returned r => some (d, .returned r)

/-- The file is there and has reached the maximal size. -/
def FullAt (log : Log) (d : Dir) (name : List UInt8) : Prop :=
  ∃ contents, d name = some contents ∧ log.max_log_size ≤ contents.length

/-! ## The names -/

/-- The name of the file at an index, however large. -/
def logName (pre_name : List UInt8) (i : Nat) : List UInt8 :=
  pre_name ++ (if i = 0 then [] else decimal i) ++ bytes ".log"

theorem ch_of_isDigit {c : Char} (hc : c.isDigit = true) : Char.ofNat (ch c).toNat = c := by
  simp only [Char.isDigit, ge_iff_le, Bool.and_eq_true, decide_eq_true_eq,
    UInt32.le_iff_toNat_le] at hc
  have hhigh : c.toNat ≤ 57 := hc.2
  have hbyte : (ch c).toNat = c.toNat := Nat.mod_eq_of_lt (by omega)
  rw [hbyte, Char.ofNat_toNat]

theorem decimal_injective {i j : Nat} (h : decimal i = decimal j) : i = j := by
  have hback : ∀ n : Nat, (decimal n).map (fun b => Char.ofNat b.toNat) = Nat.toDigits 10 n := by
    intro n
    have hdigit : ∀ c ∈ Nat.toDigits 10 n, ((fun b => Char.ofNat b.toNat) ∘ ch) c = id c := by
      intro c hc
      exact ch_of_isDigit (Nat.isDigit_of_mem_toDigits (by decide) (by decide) hc)
    show ((Nat.toDigits 10 n).map ch).map _ = _
    rw [List.map_map, List.map_congr_left hdigit, List.map_id]
  have hdigits := congrArg (List.map fun b => Char.ofNat b.toNat) h
  rw [hback, hback] at hdigits
  rw [← Nat.ofDigitChars_ten_toDigits (n := i), hdigits, Nat.ofDigitChars_ten_toDigits]

theorem decimal_ne_nil (i : Nat) : decimal i ≠ [] := by
  intro h
  exact Nat.toDigits_ne_nil (List.map_eq_nil_iff.mp h)

/-- Different indices name different files. -/
theorem logName_inj (pre_name : List UInt8) {i j : Nat} :
    logName pre_name i = logName pre_name j ↔ i = j := by
  constructor
  · intro h
    have htext := List.append_cancel_left (List.append_cancel_right h)
    by_cases hi : i = 0
    · by_cases hj : j = 0
      · rw [hi, hj]
      · rw [if_pos hi, if_neg hj] at htext
        exact absurd htext.symm (decimal_ne_nil j)
    · by_cases hj : j = 0
      · rw [if_neg hi, if_pos hj] at htext
        exact absurd htext (decimal_ne_nil i)
      · rw [if_neg hi, if_neg hj] at htext
        exact decimal_injective htext
  · intro h
    rw [h]

/-- An index that is named at all has its own name. -/
theorem log_file_name_some {pre_name name : List UInt8} {i : Nat}
    (h : log_file_name pre_name i = some name) : name = logName pre_name i := by
  unfold log_file_name at h
  unfold logName
  by_cases hi : i = 0
  · rw [if_pos (by omega)] at h
    rw [if_pos hi, List.append_nil]
    exact (Option.some.inj h).symm
  · rw [if_neg (by omega)] at h
    rw [if_neg hi]
    split at h
    · exact (Option.some.inj h).symm
    · exact absurd h (by simp)

/-- Nine digits fit the buffer. -/
theorem log_file_name_eq (pre_name : List UInt8) {i : Nat} (hi : i < 10 ^ 9) :
    log_file_name pre_name i = some (logName pre_name i) := by
  unfold log_file_name logName
  by_cases hzero : i = 0
  · rw [if_pos (by omega), if_pos hzero, List.append_nil]
  · have hlen : (decimal i).length < 10 := by
      show ((Nat.toDigits 10 i).map ch).length < 10
      rw [List.length_map, Nat.lt_succ_iff, Nat.length_toDigits_le_iff (by decide) (by decide)]
      exact hi
    rw [if_neg (by omega), if_pos hlen, if_neg hzero]

/-! ## What a system call does -/

section Moves

variable {log : Log} {file_name : List UInt8} {d d' : Dir} {succeeds : Bool} {pc pc' : ShiftPc}

/-- What a system call of `shift_files` can do. -/
inductive ShiftMove (log : Log) (file_name : List UInt8) (d : Dir) (succeeds : Bool) :
    ShiftPc → Dir → ShiftPc → Prop where
  | ended (pc : ShiftPc) (r : Int) : ShiftMove log file_name d succeeds pc d (.returned r)
  | checked (hfull : FullAt log d (logName file_name 0)) :
      ShiftMove log file_name d succeeds .stat d .accessOldest
  | oldestFound : ShiftMove log file_name d succeeds .accessOldest d .removeOldest
  | oldestAbsent :
      ShiftMove log file_name d succeeds .accessOldest d (.access (log.max_log_num - 2))
  | removed {tmp : List UInt8} {d' : Dir}
      (hname : log_file_name file_name (log.max_log_num - 1) = some tmp)
      (hremove : d.remove tmp = some d') :
      ShiftMove log file_name d succeeds .removeOldest d' (.access (log.max_log_num - 2))
  | found {i : Int} (hi : 0 ≤ i) : ShiftMove log file_name d succeeds (.access i) d (.rename i)
  | absent {i : Int} (hi : 0 ≤ i) :
      ShiftMove log file_name d succeeds (.access i) d (.access (i - 1))
  | renamed {i : Int} {tmp new_file : List UInt8} {d' : Dir} (hsucceeds : succeeds = true)
      (hname : log_file_name file_name i = some tmp)
      (hname' : log_file_name file_name (i + 1) = some new_file)
      (hrename : d.rename tmp new_file = some d') :
      ShiftMove log file_name d succeeds (.rename i) d' (.access (i - 1))

theorem name_current : log_file_name file_name 0 = some (logName file_name 0) :=
  log_file_name_eq file_name (i := 0) (by decide)

theorem ShiftMove.of_eq {d₁ : Dir} {pc₁ : ShiftPc}
    (hmove : ShiftMove log file_name d succeeds pc d₁ pc₁)
    (h : some (d₁, pc₁) = some (d', pc')) : ShiftMove log file_name d succeeds pc d' pc' := by
  obtain ⟨rfl, rfl⟩ := Prod.mk.inj (Option.some.inj h)
  exact hmove

/-- The moves are all that a system call does. -/
theorem shiftStep_move (h : shiftStep log file_name d succeeds pc = some (d', pc')) :
    ShiftMove log file_name d succeeds pc d' pc' := by
  cases pc with
  | stat =>
      simp only [shiftStep, name_current, Option.bind_eq_bind, Option.bind_some] at h
      cases hfile : d (logName file_name 0) with
      | none =>
          rw [hfile] at h
          exact .of_eq (.ended _ 0) h
      | some contents =>
          simp only [hfile] at h
          by_cases hsmall : (contents.length : Int) < log.max_log_size
          · rw [if_pos hsmall] at h
            exact .of_eq (.ended _ 0) h
          · rw [if_neg hsmall] at h
            exact .of_eq (.checked ⟨contents, hfile, by omega⟩) h
  | accessOldest =>
      obtain ⟨tmp, _, h⟩ := Option.bind_eq_some_iff.mp h
      by_cases hfound : (d tmp).isSome = true
      · rw [if_pos hfound] at h
        exact .of_eq .oldestFound h
      · rw [if_neg hfound] at h
        exact .of_eq .oldestAbsent h
  | removeOldest =>
      obtain ⟨tmp, hname, h⟩ := Option.bind_eq_some_iff.mp h
      cases succeeds with
      | false => exact .of_eq (.ended _ (-1)) h
      | true =>
          rw [if_pos rfl] at h
          cases hremove : d.remove tmp with
          | none =>
              rw [hremove] at h
              exact .of_eq (.ended _ (-1)) h
          | some d'' =>
              rw [hremove] at h
              exact .of_eq (.removed hname hremove) h
  | access i =>
      rw [shiftStep] at h
      by_cases hneg : i < 0
      · rw [if_pos hneg] at h
        exact .of_eq (.ended _ 0) h
      · rw [if_neg hneg] at h
        obtain ⟨tmp, _, h⟩ := Option.bind_eq_some_iff.mp h
        by_cases hfound : (d tmp).isSome = true
        · rw [if_pos hfound] at h
          exact .of_eq (.found (by omega)) h
        · rw [if_neg hfound] at h
          exact .of_eq (.absent (by omega)) h
  | rename i =>
      obtain ⟨tmp, hname, h⟩ := Option.bind_eq_some_iff.mp h
      obtain ⟨new_file, hname', h⟩ := Option.bind_eq_some_iff.mp h
      cases succeeds with
      | false => exact .of_eq (.ended _ (-1)) h
      | true =>
          rw [if_pos rfl] at h
          cases hrename : d.rename tmp new_file with
          | none =>
              rw [hrename] at h
              exact .of_eq (.ended _ (-1)) h
          | some d'' =>
              rw [hrename] at h
              exact .of_eq (.renamed rfl hname hname' hrename) h
  | returned r => exact .of_eq (.ended _ r) h

end Moves

end MyGenSvr.Ports
