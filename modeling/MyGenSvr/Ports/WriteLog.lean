import MyGenSvr.Ports.DateTime
import MyGenSvr.Ports.Format
import MyGenSvr.Verified.AppendStore
import MyGenSvr.Verified.Transition

/-!
# Writing the log

`write_log`, called by any number of threads.  A call that passes the level names its file
by the category of its level and the day, opens it for appending, formats its line into a
buffer of 2048 bytes, and closes the file; only the close writes, in one piece, since the
line fits the buffer of the stream.  The day is read before the file is opened and the time
of the line after that, so the two may differ.  Opening fails when there are no descriptors
left; the line is then lost.  The rotation is commented out in `write_log`.

A `Log` whose directory or name is too long for its members has no terminator there; such a
one is not built here.

## Main results

* `log_line_fits` — when the two formats stay within the buffer.
* `fileName_eq_iff` — which calls write to the same file.
* `log_files_whole_lines` — what is in each file after any run.
* `log_files_by_day` — which lines share a file in any run.
-/

namespace MyGenSvr.Ports

open MyGenSvr.Verified.AppendStore
open MyGenSvr.Verified.Transition

def LOG_FATAL : Int := 0
def LOG_WARN : Int := 1
def LOG_ERROR : Int := 2
def LOG_INFO : Int := 3
def LOG_DEBUG : Int := 4

/-- The members of a `Log` that `write_log` reads. -/
structure Logger where
  path : List UInt8
  filePrefix : List UInt8
  level : Int
  deriving DecidableEq, Repr

/-- The constructor; `none` where `strncpy` leaves no terminator. -/
def Logger.make (dir : List UInt8) (lvl : Int) (p : Option (List UInt8)) : Option Logger :=
  if dir.length < 255 ∧ (p.getD []).length < 32 then some ⟨dir, p.getD [], lvl⟩ else none

/-- The first part of the name of a file, by the level. -/
def category (type : Int) : Option (List UInt8) :=
  if type = LOG_FATAL ∨ type = LOG_WARN then some (bytes "fatal_warn")
  else if type = LOG_ERROR then some (bytes "error")
  else if type = LOG_INFO then some (bytes "info")
  else if type = LOG_DEBUG then some (bytes "debug")
  else none

/-- What `snprintf` leaves in `str_date`. -/
def strDate (tm : CivilFields) : List UInt8 :=
  (zeroPadded 4 (tm.tm_year + 1900).toInt ++ zeroPadded 2 (tm.tm_mon + 1).toInt ++
    zeroPadded 2 tm.tm_mday.toInt).take 8

/-- `log_file_name` of a level, on a day. -/
def Logger.log_file_name (log : Logger) (tm : CivilFields) (type : Int) : List UInt8 :=
  match category type with
  | none => bytes "debug"
  | some file_name =>
      let dated := file_name ++ strDate tm
      let named := if 0 < log.filePrefix.length then log.filePrefix ++ dated else dated
      log.path ++ bytes "/" ++ named

/-- The file that `write_log` opens. -/
def Logger.fileName (log : Logger) (tm : CivilFields) (lvl : Int) : List UInt8 :=
  log.log_file_name tm lvl ++ bytes ".log"

/-- A call of `write_log`, with the text its format makes and the thread it is from. -/
structure LogCall where
  lvl : Int
  file : List UInt8
  line : Int
  text : List UInt8
  self : Nat
  deriving DecidableEq, Repr

/-- The first format. -/
def LogCall.header (c : LogCall) (tm : CivilFields) (usec : Nat) : List UInt8 :=
  zeroPadded 2 (tm.tm_mon + 1).toInt ++ bytes "-" ++ zeroPadded 2 tm.tm_mday.toInt ++ bytes " " ++
    zeroPadded 2 tm.tm_hour.toInt ++ bytes ":" ++ zeroPadded 2 tm.tm_min.toInt ++ bytes ":" ++
    zeroPadded 2 tm.tm_sec.toInt ++ bytes "." ++ zeroPadded 3 (usec / 1000 : Nat) ++
    bytes " [" ++ decimal (c.self % 2 ^ 32 : Nat) ++ bytes "] [" ++ c.file ++
    blankPadded 5 c.line ++ bytes "] "

/-- Both formats and the line printed; `none` where the second one starts behind the end of
`log_buf`. -/
def LogCall.format (c : LogCall) (tm : CivilFields) (usec : Nat) : Option (List UInt8) :=
  let pos := (c.header tm usec).length
  let log_buf := (c.header tm usec).take 2047
  if pos ≤ 2048 then
    some (cstr (if pos < 2048 then log_buf ++ c.text.take (2048 - pos - 1) else log_buf) ++
      bytes "\n")
  else none

/-- A line, with the file it is for and the day that file was named on. -/
structure LogLine where
  name : List UInt8
  date : CivilFields
  call : LogCall
  bytes : List UInt8
  deriving DecidableEq, Repr

/-- Where a thread stands in `write_log`: before it names the file, opens it, reads the time
of the line, or closes the file. -/
inductive WritePc where
  | idle
  | naming (c : LogCall)
  | opening (name : List UInt8) (date : CivilFields) (c : LogCall)
  | stamping (name : List UInt8) (date : CivilFields) (c : LogCall)
  | closing (l : LogLine)

/-- The files and the threads.  `appended` is every append, `lines` those that were lines. -/
structure LogFiles (τ : Type) where
  dir : Dir
  stderr : List UInt8
  pc : τ → WritePc
  appended : List (List UInt8 × List UInt8)
  lines : List LogLine

/-- What a thread does next. -/
inductive WriteEvent (τ : Type) where
  | call (t : τ) (c : LogCall)
  | time (t : τ) (now : Int)
  | fopen (t : τ) (succeeds : Bool)
  | gettimeofday (t : τ) (sec : Int) (usec : Nat)
  /-- `fclose`, which writes so many bytes. -/
  | fclose (t : τ) (n : Nat)

section Threads

variable {τ : Type} [DecidableEq τ]

/-- A thread moves on. -/
def LogFiles.goto (s : LogFiles τ) (t : τ) (pc : WritePc) : LogFiles τ :=
  { s with pc := Function.update s.pc t pc }

/-- Bytes are appended to a file. -/
def LogFiles.append (s : LogFiles τ) (name text : List UInt8) : LogFiles τ :=
  { s with
    dir := Verified.AppendStore.append s.dir name text
    appended := s.appended ++ [(name, text)] }

/-- The state after an event; `none` where the thread is not there, or faults. -/
def LogFiles.next (log : Logger) (localtime : Int → CivilFields) (s : LogFiles τ) :
    WriteEvent τ → Option (LogFiles τ)
  | .call t c =>
      match s.pc t with
      | .idle => some (if c.lvl > log.level then s else s.goto t (.naming c))
      | _ => none
  | .time t now =>
      match s.pc t with
      | .naming c =>
          let date := localtime now
          some (s.goto t (.opening (log.fileName date c.lvl) date c))
      | _ => none
  | .fopen t succeeds =>
      match s.pc t with
      | .opening name date c =>
          some (if succeeds then (s.append name []).goto t (.stamping name date c)
            else s.goto t .idle)
      | _ => none
  | .gettimeofday t sec usec =>
      match s.pc t with
      | .stamping name date c =>
          (c.format (localtime sec) usec).map fun line =>
            { s.goto t (.closing ⟨name, date, c, line⟩) with
              stderr := if c.lvl ≤ LOG_ERROR then s.stderr ++ line else s.stderr }
      | _ => none
  | .fclose t n =>
      match s.pc t with
      | .closing l =>
          let written := { l with bytes := l.bytes.take n }
          some { (s.append l.name written.bytes).goto t .idle with lines := s.lines ++ [written] }
      | _ => none

/-- What can happen: the calls are those that the program makes, and `diskMayFill` says
whether the write of `fclose` can fall short. -/
def WriteEnabled (calls : LogCall → Prop) (diskMayFill : Bool) (s : LogFiles τ) :
    WriteEvent τ → Prop
  | .call _ c => calls c
  | .gettimeofday _ _ usec => usec < 10 ^ 6
  | .fclose t n => ∀ l, s.pc t = .closing l → diskMayFill = false → n = l.bytes.length
  | _ => True

/-- The runs of the threads, from any files. -/
def logging (log : Logger) (localtime : Int → CivilFields) (calls : LogCall → Prop)
    (diskMayFill : Bool) : System (LogFiles τ) (WriteEvent τ) where
  init s := (∀ t, s.pc t = .idle) ∧ s.appended = [] ∧ s.lines = []
  step s ev s' := WriteEnabled calls diskMayFill s ev ∧ s.next log localtime ev = some s'

end Threads

/-! ## The names of the files -/

/-- A day whose date takes four, two and two digits. -/
structure FourDigitDay (tm : CivilFields) : Prop where
  year : ∃ y : Nat, (tm.tm_year + 1900).toInt = y ∧ y < 10 ^ 4
  month : ∃ m : Nat, (tm.tm_mon + 1).toInt = m ∧ m < 10 ^ 2
  day : ∃ d : Nat, tm.tm_mday.toInt = d ∧ d < 10 ^ 2

/-- Two times on one day. -/
def SameDay (tm tm' : CivilFields) : Prop :=
  tm.tm_year = tm'.tm_year ∧ tm.tm_mon = tm'.tm_mon ∧ tm.tm_mday = tm'.tm_mday

instance instDecidableSameDay (tm tm' : CivilFields) : Decidable (SameDay tm tm') :=
  inferInstanceAs (Decidable (_ ∧ _ ∧ _))

section Names

variable {tm tm' : CivilFields}

/-- The date of such a day. -/
theorem strDate_eq {y m d : Nat} (hy : (tm.tm_year + 1900).toInt = y) (hylt : y < 10 ^ 4)
    (hm : (tm.tm_mon + 1).toInt = m) (hmlt : m < 10 ^ 2) (hd : tm.tm_mday.toInt = d)
    (hdlt : d < 10 ^ 2) :
    strDate tm = digitText 4 y ++ digitText 2 m ++ digitText 2 d := by
  rw [strDate, hy, hm, hd, zeroPadded_eq (by decide) hylt, zeroPadded_eq (by decide) hmlt,
    zeroPadded_eq (by decide) hdlt]
  refine List.take_of_length_le ?_
  simp

theorem FourDigitDay.strDate_length (h : FourDigitDay tm) : (strDate tm).length = 8 := by
  obtain ⟨⟨y, hy, hylt⟩, ⟨m, hm, hmlt⟩, ⟨d, hd, hdlt⟩⟩ := h
  rw [strDate_eq hy hylt hm hmlt hd hdlt]
  simp

/-- The date tells the days apart. -/
theorem FourDigitDay.strDate_eq_iff (h : FourDigitDay tm) (h' : FourDigitDay tm') :
    strDate tm = strDate tm' ↔ SameDay tm tm' := by
  obtain ⟨⟨y, hy, hylt⟩, ⟨m, hm, hmlt⟩, ⟨d, hd, hdlt⟩⟩ := h
  obtain ⟨⟨y', hy', hylt'⟩, ⟨m', hm', hmlt'⟩, ⟨d', hd', hdlt'⟩⟩ := h'
  have hyears : y = y' ↔ tm.tm_year = tm'.tm_year := by
    rw [← Int32.add_left_inj 1900, ← Int32.toInt_inj, hy, hy', Int.natCast_inj]
  have hmonths : m = m' ↔ tm.tm_mon = tm'.tm_mon := by
    rw [← Int32.add_left_inj 1, ← Int32.toInt_inj, hm, hm', Int.natCast_inj]
  have hdays : d = d' ↔ tm.tm_mday = tm'.tm_mday := by
    rw [← Int32.toInt_inj, hd, hd', Int.natCast_inj]
  rw [strDate_eq hy hylt hm hmlt hd hdlt, strDate_eq hy' hylt' hm' hmlt' hd' hdlt', SameDay,
    ← hyears, ← hmonths, ← hdays]
  constructor
  · intro heq
    obtain ⟨hfront, hday⟩ := List.append_inj' heq (by simp)
    obtain ⟨hyear, hmonth⟩ := List.append_inj' hfront (by simp)
    exact ⟨(digitText_inj hylt hylt').mp hyear, (digitText_inj hmlt hmlt').mp hmonth,
      (digitText_inj hdlt hdlt').mp hday⟩
  · rintro ⟨rfl, rfl, rfl⟩
    rfl

/-- The name of a file with a category. -/
theorem Logger.fileName_eq (log : Logger) {lvl : Int} {kind : List UInt8}
    (hkind : category lvl = some kind) :
    log.fileName tm lvl =
      log.path ++ bytes "/" ++ (log.filePrefix ++ (kind ++ strDate tm)) ++ bytes ".log" := by
  rw [Logger.fileName, Logger.log_file_name, hkind]
  dsimp only
  cases hprefix : log.filePrefix with
  | nil => rfl
  | cons c rest => rw [if_pos (by simp)]

/-- **Which calls write to one file**: those with the category and the day in common. -/
theorem Logger.fileName_eq_iff (log : Logger) {lvl lvl' : Int}
    (hlvl : (category lvl).isSome) (hlvl' : (category lvl').isSome) (h : FourDigitDay tm)
    (h' : FourDigitDay tm') :
    log.fileName tm lvl = log.fileName tm' lvl' ↔
      category lvl = category lvl' ∧ SameDay tm tm' := by
  obtain ⟨kind, hkind⟩ := Option.isSome_iff_exists.mp hlvl
  obtain ⟨kind', hkind'⟩ := Option.isSome_iff_exists.mp hlvl'
  rw [log.fileName_eq hkind, log.fileName_eq hkind', hkind, hkind', Option.some.injEq,
    ← h.strDate_eq_iff h']
  constructor
  · intro heq
    have hdated := List.append_cancel_left (List.append_cancel_left (List.append_cancel_right heq))
    exact List.append_inj' hdated (by rw [h.strDate_length, h'.strDate_length])
  · rintro ⟨rfl, hdate⟩
    rw [hdate]

/-- The levels of the macros have a category. -/
theorem category_isSome {lvl : Int} (hlow : 0 ≤ lvl) (hhigh : lvl ≤ 4) :
    (category lvl).isSome := by
  have hcases : lvl = 0 ∨ lvl = 1 ∨ lvl = 2 ∨ lvl = 3 ∨ lvl = 4 := by omega
  rcases hcases with rfl | rfl | rfl | rfl | rfl <;> decide

end Names

/-! ## The lines -/

section Lines

variable {c : LogCall} {tm : CivilFields} {usec : Nat}

theorem format_eq (hpos : (c.header tm usec).length ≤ 2048) :
    c.format tm usec = some (cstr ((c.header tm usec ++ c.text).take 2047) ++ bytes "\n") := by
  rw [LogCall.format, if_pos hpos]
  by_cases hlt : (c.header tm usec).length < 2048
  · have hrest : 2048 - (c.header tm usec).length - 1 = 2047 - (c.header tm usec).length := by
      omega
    rw [if_pos hlt, List.take_append, hrest]
  · rw [if_neg hlt, List.take_append_of_le_length (by omega)]

theorem cstr_length_le (s : List UInt8) : (cstr s).length ≤ s.length :=
  (List.takeWhile_prefix _).length_le

/-- The first format has stayed within the buffer. -/
theorem header_le_of_format {line : List UInt8} (h : c.format tm usec = some line) :
    (c.header tm usec).length ≤ 2048 := by
  by_contra hover
  rw [LogCall.format, if_neg hover] at h
  cases h

/-- What is printed is one line's worth of the buffer. -/
theorem format_length {line : List UInt8} (h : c.format tm usec = some line) :
    line.length ≤ 2048 ∧ ∃ text, line = text ++ bytes "\n" ∧ 0 ∉ text := by
  rw [format_eq (header_le_of_format h), Option.some.injEq] at h
  subst h
  refine ⟨?_, _, rfl, ?_⟩
  · have hcut := cstr_length_le ((c.header tm usec ++ c.text).take 2047)
    have hmost := List.length_take_le 2047 (c.header tm usec ++ c.text)
    have hnewline : (bytes "\n").length = 1 := rfl
    rw [List.length_append, hnewline]
    omega
  · intro hzero
    have hne := List.mem_takeWhile_imp hzero
    simp at hne

/-- A field of a time that is printed with two digits. -/
def TwoDigits (x : Int32) : Prop := ∃ n : Nat, x.toInt = n ∧ n < 10 ^ 2

theorem zeroPadded_length {w n : Nat} (hw : 0 < w) (hn : n < 10 ^ w) :
    (zeroPadded w n).length = w := by
  rw [zeroPadded_eq hw hn, digitText_length]

theorem TwoDigits.length {x : Int32} (h : TwoDigits x) : (zeroPadded 2 x.toInt).length = 2 := by
  obtain ⟨n, hn, hlt⟩ := h
  rw [hn, zeroPadded_length (by decide) hlt]

/-- What `%d` takes for an `int`. -/
theorem decimal_length_le {n : Int} (hlow : -2 ^ 31 ≤ n) (hhigh : n < 2 ^ 31) :
    (decimal n).length ≤ 11 := by
  have hdigits : ∀ m : Nat, m < 10 ^ 10 → ((Nat.toDigits 10 m).map ch).length ≤ 10 := by
    intro m hm
    rw [List.length_map]
    exact (Nat.length_toDigits_le_iff (by decide) (by decide)).mpr hm
  cases n with
  | ofNat m =>
      have hlt : (m : Int) < 2 ^ 31 := hhigh
      have hm := hdigits m (by omega)
      show ((Nat.toDigits 10 m).map ch).length ≤ 11
      omega
  | negSucc m =>
      have hm := hdigits (m + 1) (by omega)
      show (ch '-' :: (Nat.toDigits 10 (m + 1)).map ch).length ≤ 11
      rw [List.length_cons]
      omega

/-- The length of what the first format makes. -/
def LogCall.headLength (c : LogCall) : Nat :=
  25 + (decimal (c.self % 2 ^ 32 : Nat)).length + c.file.length + (blankPadded 5 c.line).length

/-- The time does not change that length. -/
theorem header_length (husec : usec < 10 ^ 6) (hmonth : TwoDigits (tm.tm_mon + 1))
    (hday : TwoDigits tm.tm_mday) (hhour : TwoDigits tm.tm_hour) (hmin : TwoDigits tm.tm_min)
    (hsec : TwoDigits tm.tm_sec) : (c.header tm usec).length = c.headLength := by
  have husec' : (zeroPadded 3 (usec / 1000 : Nat)).length = 3 :=
    zeroPadded_length (by decide) (by omega)
  have hlit : (bytes "-").length = 1 ∧ (bytes " ").length = 1 ∧ (bytes ":").length = 1 ∧
      (bytes ".").length = 1 ∧ (bytes " [").length = 2 ∧ (bytes "] [").length = 3 ∧
      (bytes "] ").length = 2 := ⟨rfl, rfl, rfl, rfl, rfl, rfl, rfl⟩
  simp only [LogCall.header, LogCall.headLength, List.length_append, hmonth.length, hday.length,
    hhour.length, hmin.length, hsec.length, husec', hlit]
  omega

/-- What it is at most. -/
theorem headLength_le (hlow : -2 ^ 31 ≤ c.line) (hhigh : c.line < 2 ^ 31) :
    c.headLength ≤ 46 + c.file.length := by
  have hself : (decimal (c.self % 2 ^ 32 : Nat)).length ≤ 10 := by
    have hlt : c.self % 2 ^ 32 < 2 ^ 32 := Nat.mod_lt _ (by decide)
    rw [decimal_ofNat, List.length_map]
    exact (Nat.length_toDigits_le_iff (by decide) (by decide)).mpr (by omega)
  have hline : (blankPadded 5 c.line).length ≤ 11 := by
    have hdecimal := decimal_length_le hlow hhigh
    rw [blankPadded, List.length_append, List.length_replicate]
    omega
  rw [LogCall.headLength]
  omega

/-- **The buffer of a line is never overrun.**  For every call from a source file whose name
has at most 2002 bytes, from any thread and at any time of day: both formats stay within
`log_buf`, and what is printed is the first 2047 bytes of the head of the line followed by
its text, up to a terminator in it, and a newline. -/
theorem log_line_fits (c : LogCall) (tm : CivilFields) (usec : Nat)
    (hfile : c.file.length ≤ 2002) (hlow : -2 ^ 31 ≤ c.line) (hhigh : c.line < 2 ^ 31)
    (husec : usec < 10 ^ 6) (hmonth : TwoDigits (tm.tm_mon + 1)) (hday : TwoDigits tm.tm_mday)
    (hhour : TwoDigits tm.tm_hour) (hmin : TwoDigits tm.tm_min) (hsec : TwoDigits tm.tm_sec) :
    ∃ line, c.format tm usec = some line ∧ line.length ≤ 2048 ∧
      line = cstr ((c.header tm usec ++ c.text).take 2047) ++ bytes "\n" := by
  have hhead := headLength_le (c := c) hlow hhigh
  have hpos : (c.header tm usec).length ≤ 2048 := by
    rw [header_length husec hmonth hday hhour hmin hsec]
    omega
  refine ⟨_, format_eq hpos, ?_, rfl⟩
  exact (format_length (format_eq hpos)).1

/-- A line of the main loop. -/
theorem log_line_fits_pool :
    ∃ line, (LogCall.mk LOG_ERROR (bytes "main.cpp") 104 (bytes "epoll_wait error") 7).format
      ⟨5, 4, 3, 2, 0, 100⟩ 678000 = some line ∧ line.length ≤ 2048 := by
  obtain ⟨line, hline, hlength, -⟩ :=
    log_line_fits ⟨LOG_ERROR, bytes "main.cpp", 104, bytes "epoll_wait error", 7⟩
      ⟨5, 4, 3, 2, 0, 100⟩ 678000 (by decide) (by decide) (by decide) (by decide)
      ⟨1, rfl, by decide⟩ ⟨2, rfl, by decide⟩ ⟨3, rfl, by decide⟩ ⟨4, rfl, by decide⟩
      ⟨5, rfl, by decide⟩
  exact ⟨line, hline, hlength⟩

end Lines

/-! ## Runs -/

section Runs

variable {τ : Type} [DecidableEq τ] {log : Logger} {localtime : Int → CivilFields}
  {calls : LogCall → Prop} {diskMayFill : Bool} {s s' : LogFiles τ}

/-- **All that one step of a thread can do.** -/
inductive WriteStep (log : Logger) (localtime : Int → CivilFields) (calls : LogCall → Prop)
    (diskMayFill : Bool) (s : LogFiles τ) : WriteEvent τ → LogFiles τ → Prop where
  | filtered (t : τ) (c : LogCall) : log.level < c.lvl →
      WriteStep log localtime calls diskMayFill s (.call t c) s
  | called (t : τ) (c : LogCall) : s.pc t = .idle → c.lvl ≤ log.level → calls c →
      WriteStep log localtime calls diskMayFill s (.call t c) (s.goto t (.naming c))
  | named (t : τ) (now : Int) (c : LogCall) : s.pc t = .naming c →
      WriteStep log localtime calls diskMayFill s (.time t now)
        (s.goto t (.opening (log.fileName (localtime now) c.lvl) (localtime now) c))
  | opened (t : τ) (name : List UInt8) (date : CivilFields) (c : LogCall) :
      s.pc t = .opening name date c →
      WriteStep log localtime calls diskMayFill s (.fopen t true)
        ((s.append name []).goto t (.stamping name date c))
  | refused (t : τ) : WriteStep log localtime calls diskMayFill s (.fopen t false) (s.goto t .idle)
  | stamped (t : τ) (sec : Int) (usec : Nat) (name : List UInt8) (date : CivilFields)
      (c : LogCall) (line : List UInt8) : s.pc t = .stamping name date c → usec < 10 ^ 6 →
      c.format (localtime sec) usec = some line →
      WriteStep log localtime calls diskMayFill s (.gettimeofday t sec usec)
        { s.goto t (.closing ⟨name, date, c, line⟩) with
          stderr := if c.lvl ≤ LOG_ERROR then s.stderr ++ line else s.stderr }
  | closed (t : τ) (n : Nat) (l : LogLine) : s.pc t = .closing l →
      (diskMayFill = false → n = l.bytes.length) →
      WriteStep log localtime calls diskMayFill s (.fclose t n)
        { (s.append l.name (l.bytes.take n)).goto t .idle with
          lines := s.lines ++ [{ l with bytes := l.bytes.take n }] }

/-- **The step inversion.** -/
theorem LogFiles.next_cases {ev : WriteEvent τ}
    (hst : (logging log localtime calls diskMayFill).step s ev s') :
    WriteStep log localtime calls diskMayFill s ev s' := by
  obtain ⟨henabled, hnext⟩ := hst
  cases ev with
  | call t c =>
      simp only [LogFiles.next] at hnext
      cases hpc : s.pc t <;> rw [hpc] at hnext <;> try cases hnext
      by_cases hlvl : c.lvl > log.level
      · rw [if_pos hlvl]
        exact .filtered t c hlvl
      · rw [if_neg hlvl]
        exact .called t c hpc (not_lt.mp hlvl) henabled
  | time t now =>
      simp only [LogFiles.next] at hnext
      cases hpc : s.pc t <;> rw [hpc] at hnext <;> try cases hnext
      exact .named t now _ hpc
  | fopen t succeeds =>
      simp only [LogFiles.next] at hnext
      cases hpc : s.pc t <;> rw [hpc] at hnext <;> try cases hnext
      cases succeeds with
      | true => exact .opened t _ _ _ hpc
      | false => exact .refused t
  | gettimeofday t sec usec =>
      simp only [LogFiles.next] at hnext
      cases hpc : s.pc t with
      | stamping name date c =>
          rw [hpc] at hnext
          obtain ⟨line, hline, rfl⟩ := Option.map_eq_some_iff.mp hnext
          exact .stamped t sec usec name date c line hpc henabled hline
      | _ =>
          rw [hpc] at hnext
          cases hnext
  | fclose t n =>
      simp only [LogFiles.next] at hnext
      cases hpc : s.pc t <;> rw [hpc] at hnext <;> try cases hnext
      exact .closed t n _ hpc (henabled _ hpc)

/-- A line as a call makes it, cut where the disk was full. -/
structure LogLine.Formed (log : Logger) (localtime : Int → CivilFields) (calls : LogCall → Prop)
    (diskMayFill : Bool) (l : LogLine) : Prop where
  made : calls l.call
  level : l.call.lvl ≤ log.level
  date : ∃ now, l.date = localtime now
  name : l.name = log.fileName l.date l.call.lvl
  bytes : ∃ sec usec line, usec < 10 ^ 6 ∧ l.call.format (localtime sec) usec = some line ∧
    l.bytes <+: line ∧ (diskMayFill = false → l.bytes = line)

/-- What a thread has in hand. -/
def WritePc.Formed (log : Logger) (localtime : Int → CivilFields) (calls : LogCall → Prop)
    (diskMayFill : Bool) : WritePc → Prop
  | .idle => True
  | .naming c => calls c ∧ c.lvl ≤ log.level
  | .opening name date c | .stamping name date c =>
      calls c ∧ c.lvl ≤ log.level ∧ (∃ now, date = localtime now) ∧
        name = log.fileName date c.lvl
  | .closing l =>
      l.Formed log localtime calls diskMayFill ∧
        ∃ sec usec, usec < 10 ^ 6 ∧ l.call.format (localtime sec) usec = some l.bytes

/-- What the threads have made of the files they found. -/
structure LogFiles.Kept (log : Logger) (localtime : Int → CivilFields) (calls : LogCall → Prop)
    (diskMayFill : Bool) (d₀ : Dir) (s : LogFiles τ) : Prop where
  dir : s.dir = replay d₀ s.appended
  lines : ∀ name, under name s.appended =
    (s.lines.filter fun l => decide (l.name = name)).flatMap LogLine.bytes
  threads : ∀ t, (s.pc t).Formed log localtime calls diskMayFill
  formed : ∀ l ∈ s.lines, l.Formed log localtime calls diskMayFill
  named : ∀ e ∈ s.appended, ∃ now lvl, lvl ≤ log.level ∧ e.1 = log.fileName (localtime now) lvl

/-- A thread moves on with something else in hand. -/
theorem LogFiles.Kept.goto {d₀ : Dir} (h : s.Kept log localtime calls diskMayFill d₀) (t : τ)
    (pc : WritePc) (hpc : pc.Formed log localtime calls diskMayFill) :
    (s.goto t pc).Kept log localtime calls diskMayFill d₀ where
  dir := h.dir
  lines := h.lines
  threads := by
    intro u
    show (Function.update s.pc t pc u).Formed log localtime calls diskMayFill
    by_cases hu : u = t
    · subst hu
      rw [Function.update_self]
      exact hpc
    · rw [Function.update_of_ne hu]
      exact h.threads u
  formed := h.formed
  named := h.named

/-- **One step keeps the files.** -/
theorem WriteStep.kept {d₀ : Dir} {ev : WriteEvent τ}
    (hst : WriteStep log localtime calls diskMayFill s ev s')
    (h : s.Kept log localtime calls diskMayFill d₀) :
    s'.Kept log localtime calls diskMayFill d₀ := by
  cases hst with
  | filtered t c => exact h
  | called t c hpc hlvl hcalls => exact h.goto t (.naming c) ⟨hcalls, hlvl⟩
  | named t now c hpc =>
      have hhand := h.threads t
      rw [hpc] at hhand
      exact h.goto t (.opening _ _ c) ⟨hhand.1, hhand.2, ⟨now, rfl⟩, rfl⟩
  | refused t => exact h.goto t .idle trivial
  | opened t name date c hpc =>
      have hhand := h.threads t
      rw [hpc] at hhand
      obtain ⟨hcalls, hlvl, ⟨now, hdate⟩, hname⟩ := hhand
      refine LogFiles.Kept.goto ?_ t (.stamping name date c) ⟨hcalls, hlvl, ⟨now, hdate⟩, hname⟩
      refine ⟨?_, ?_, h.threads, h.formed, ?_⟩
      · show Verified.AppendStore.append s.dir name [] = replay d₀ (s.appended ++ [(name, [])])
        rw [replay_concat, ← h.dir]
      · intro name'
        show under name' (s.appended ++ [(name, [])]) = _
        rw [under_concat, ite_self, List.append_nil]
        exact h.lines name'
      · intro e he
        rcases List.mem_append.mp he with hold | hlast
        · exact h.named e hold
        · rw [List.mem_singleton.mp hlast]
          exact ⟨now, c.lvl, hlvl, hdate ▸ hname⟩
  | stamped t sec usec name date c line hpc husec hline =>
      have hhand := h.threads t
      rw [hpc] at hhand
      obtain ⟨hcalls, hlvl, hdate, hname⟩ := hhand
      have hgoto := h.goto t (.closing ⟨name, date, c, line⟩)
        ⟨⟨hcalls, hlvl, hdate, hname, sec, usec, line, husec, hline, List.prefix_refl _,
          fun _ => rfl⟩, sec, usec, husec, hline⟩
      exact ⟨hgoto.dir, hgoto.lines, hgoto.threads, hgoto.formed, hgoto.named⟩
  | closed t n l hpc hall =>
      have hhand := h.threads t
      rw [hpc] at hhand
      obtain ⟨hformed, sec, usec, husec, hline⟩ := hhand
      have hcut : LogLine.Formed log localtime calls diskMayFill
          { l with bytes := l.bytes.take n } := by
        refine ⟨hformed.made, hformed.level, hformed.date, hformed.name, sec, usec, l.bytes,
          husec, hline, List.take_prefix n l.bytes, ?_⟩
        intro hfull
        show l.bytes.take n = l.bytes
        rw [hall hfull, List.take_length]
      have hgoto := h.goto t .idle trivial
      refine ⟨?_, ?_, hgoto.threads, ?_, ?_⟩
      · show Verified.AppendStore.append s.dir l.name (l.bytes.take n) =
          replay d₀ (s.appended ++ [(l.name, l.bytes.take n)])
        rw [replay_concat, ← h.dir]
      · intro name'
        show under name' (s.appended ++ [(l.name, l.bytes.take n)]) =
          ((s.lines ++ [{ l with bytes := l.bytes.take n }]).filter _).flatMap _
        rw [under_concat, h.lines name', List.filter_append, List.flatMap_append]
        by_cases hname : l.name = name'
        · simp [hname]
        · simp [hname]
      · intro l' hl'
        rcases List.mem_append.mp hl' with hold | hlast
        · exact h.formed l' hold
        · rw [List.mem_singleton.mp hlast]
          exact hcut
      · intro e he
        rcases List.mem_append.mp he with hold | hlast
        · exact h.named e hold
        · obtain ⟨now, hdate⟩ := hformed.date
          rw [List.mem_singleton.mp hlast]
          exact ⟨now, l.call.lvl, hformed.level, hdate ▸ hformed.name⟩

theorem logging_kept {s₀ : LogFiles τ} {es : List (WriteEvent τ)}
    (hs₀ : (logging log localtime calls diskMayFill).init s₀)
    (hrun : (logging log localtime calls diskMayFill).Run s₀ es s) :
    s.Kept log localtime calls diskMayFill s₀.dir := by
  obtain ⟨hidle, happended, hlines⟩ := hs₀
  refine hrun.preserves (fun s ev s' h hst => (LogFiles.next_cases hst).kept h) ?_
  refine ⟨?_, ?_, ?_, ?_, ?_⟩
  · rw [happended, replay_nil]
  · intro name
    rw [happended, hlines]
    rfl
  · intro t
    rw [hidle t]
    trivial
  · simp [hlines]
  · simp [happended]

end Runs

/-! ## A line -/

/-- No files, and no thread in `write_log`. -/
def LogFiles.empty {τ : Type} : LogFiles τ := ⟨fun _ => none, [], fun _ => .idle, [], []⟩

section Lines

variable {τ : Type} [DecidableEq τ] {log : Logger} {localtime : Int → CivilFields}
  {calls : LogCall → Prop} {s : LogFiles τ} {t : τ} {c : LogCall} {line : List UInt8}

theorem LogFiles.empty_init (log : Logger) (localtime : Int → CivilFields)
    (calls : LogCall → Prop) : (logging log localtime calls false).init (.empty : LogFiles τ) :=
  ⟨fun _ => rfl, rfl, rfl⟩

theorem LogFiles.goto_self (s : LogFiles τ) (t : τ) (pc : WritePc) : (s.goto t pc).pc t = pc := by
  show Function.update s.pc t pc t = pc
  rw [Function.update_self]

theorem LogFiles.goto_other (s : LogFiles τ) {t u : τ} (hu : u ≠ t) (pc : WritePc) :
    (s.goto t pc).pc u = s.pc u := by
  show Function.update s.pc t pc u = s.pc u
  rw [Function.update_of_ne hu]

/-- A call that is within the level opens its file. -/
theorem call_opens (hidle : s.pc t = .idle) (hlvl : c.lvl ≤ log.level) (hcalls : calls c) :
    ∃ s' es, (logging log localtime calls false).Run s es s' ∧
      s'.pc t = .stamping (log.fileName (localtime 0) c.lvl) (localtime 0) c ∧
      s'.lines = s.lines ∧ ∀ u, u ≠ t → s'.pc u = s.pc u := by
  let S := @logging τ _ log localtime calls false
  let name := log.fileName (localtime 0) c.lvl
  let s₁ := s.goto t (.naming c)
  let s₂ := s₁.goto t (.opening name (localtime 0) c)
  let s₃ := (s₂.append name []).goto t (.stamping name (localtime 0) c)
  have h₁ : S.step s (.call t c) s₁ := by
    refine ⟨hcalls, ?_⟩
    simp only [LogFiles.next, hidle]
    rw [if_neg (not_lt.mpr hlvl)]
  have h₂ : S.step s₁ (.time t 0) s₂ := by
    refine ⟨trivial, ?_⟩
    simp only [LogFiles.next, s₁, LogFiles.goto_self]
    rfl
  have h₃ : S.step s₂ (.fopen t true) s₃ := by
    refine ⟨trivial, ?_⟩
    simp only [LogFiles.next, s₂, LogFiles.goto_self, if_true]
    rfl
  refine ⟨s₃, _, ((System.Run.single h₁).snoc h₂).snoc h₃, LogFiles.goto_self _ t _, rfl, ?_⟩
  intro u hu
  calc s₃.pc u = s₂.pc u := LogFiles.goto_other _ hu _
    _ = s₁.pc u := LogFiles.goto_other _ hu _
    _ = s.pc u := LogFiles.goto_other _ hu _

/-- And leaves its line there. -/
theorem call_closes {name : List UInt8} {date : CivilFields}
    (hpc : s.pc t = .stamping name date c) (hline : c.format (localtime 0) 0 = some line) :
    ∃ s' es, (logging log localtime calls false).Run s es s' ∧
      s'.lines = s.lines ++ [⟨name, date, c, line⟩] ∧ ∀ u, u ≠ t → s'.pc u = s.pc u := by
  let S := @logging τ _ log localtime calls false
  let l : LogLine := ⟨name, date, c, line⟩
  let s₁ : LogFiles τ := { s.goto t (.closing l) with
    stderr := if c.lvl ≤ LOG_ERROR then s.stderr ++ line else s.stderr }
  let s₂ : LogFiles τ := { (s₁.append name (line.take line.length)).goto t .idle with
    lines := s.lines ++ [⟨name, date, c, line.take line.length⟩] }
  have hclosing : s₁.pc t = .closing l := LogFiles.goto_self s t _
  have h₁ : S.step s (.gettimeofday t 0 0) s₁ := by
    refine ⟨show 0 < 10 ^ 6 by decide, ?_⟩
    simp only [LogFiles.next, hpc, hline, Option.map_some]
    rfl
  have h₂ : S.step s₁ (.fclose t line.length) s₂ := by
    refine ⟨?_, ?_⟩
    · intro l' hl' _
      rw [← WritePc.closing.inj (hclosing.symm.trans hl')]
    · simp only [LogFiles.next, hclosing]
      rfl
  refine ⟨s₂, _, (System.Run.single h₁).snoc h₂, ?_, ?_⟩
  · show s.lines ++ [LogLine.mk name date c (line.take line.length)] = _
    rw [List.take_length]
  · intro u hu
    calc s₂.pc u = s₁.pc u := LogFiles.goto_other _ hu _
      _ = s.pc u := LogFiles.goto_other _ hu _

/-- A call that is within the level leaves its line. -/
theorem line_logged (hlvl : c.lvl ≤ log.level) (hcalls : calls c)
    (hline : c.format (localtime 0) 0 = some line) :
    ∃ (s : LogFiles Unit) (es : _), (logging log localtime calls false).Run .empty es s ∧
      s.lines = [⟨log.fileName (localtime 0) c.lvl, localtime 0, c, line⟩] := by
  obtain ⟨s₁, es₁, hrun₁, hpc₁, hlines₁, -⟩ :=
    @call_opens Unit _ log localtime calls .empty () c rfl hlvl hcalls
  obtain ⟨s₂, es₂, hrun₂, hlines₂, -⟩ :=
    @call_closes Unit _ log localtime calls s₁ () c line _ _ hpc₁ hline
  rw [hlines₁] at hlines₂
  exact ⟨s₂, _, hrun₁.append hrun₂, hlines₂⟩

end Lines

/-- **Every file is made of whole lines.**  After any run of any number of threads, if no
write falls short: each file is what it was before, followed by the lines that were closed
for it, in that order and none torn by another; each of them is what one call within the
level made; and no file changed but those that such a call names. -/
theorem log_files_whole_lines {τ : Type} [DecidableEq τ] (log : Logger)
    (localtime : Int → CivilFields) (calls : LogCall → Prop) (s₀ s : LogFiles τ)
    (es : List (WriteEvent τ)) (hs₀ : (logging log localtime calls false).init s₀)
    (hrun : (logging log localtime calls false).Run s₀ es s) :
    (∀ name, (s.dir name).getD [] = (s₀.dir name).getD [] ++
      (s.lines.filter fun l => decide (l.name = name)).flatMap LogLine.bytes) ∧
    (∀ l ∈ s.lines, calls l.call ∧ l.call.lvl ≤ log.level ∧
      ∃ sec usec, l.call.format (localtime sec) usec = some l.bytes) ∧
    ∀ name, s.dir name ≠ s₀.dir name →
      ∃ now lvl, lvl ≤ log.level ∧ name = log.fileName (localtime now) lvl := by
  have hkept := logging_kept hs₀ hrun
  refine ⟨?_, ?_, ?_⟩
  · intro name
    rw [hkept.dir, replay_getD, hkept.lines name]
  · intro l hl
    have hformed := hkept.formed l hl
    obtain ⟨sec, usec, line, -, hline, -, hwhole⟩ := hformed.bytes
    exact ⟨hformed.made, hformed.level, sec, usec, hwhole rfl ▸ hline⟩
  · intro name hchanged
    have hmem : name ∈ s.appended.map Prod.fst := by
      by_contra hother
      exact hchanged (by rw [hkept.dir, replay_other hother])
    obtain ⟨e, he, rfl⟩ := List.mem_map.mp hmem
    exact hkept.named e he

/-- The call and the clock of an error in the main loop. -/
def LogCall.ofMain : LogCall := ⟨LOG_ERROR, bytes "main.cpp", 104, bytes "epoll_wait error", 7⟩

def secondOfJanuary : Int → CivilFields := fun _ => ⟨5, 4, 3, 2, 0, 100⟩

/-- The call of another thread. -/
def LogCall.ofOther : LogCall := ⟨LOG_ERROR, bytes "Socket.cpp", 51, bytes "send error", 8⟩

/-- Both threads have the file open; the second one is the first to close it. -/
theorem two_logged :
    ∃ (s : LogFiles Bool) (es : _), (logging ⟨bytes "/log", [], LOG_DEBUG⟩ secondOfJanuary
        (fun c => 0 ≤ c.lvl ∧ c.lvl ≤ 4) false).Run .empty es s ∧
      s.lines =
        [ ⟨bytes "/log/error20000102.log", secondOfJanuary 0, .ofOther,
            bytes "01-02 03:04:05.000 [8] [Socket.cpp   51] send error\n"⟩
        , ⟨bytes "/log/error20000102.log", secondOfJanuary 0, .ofMain,
            bytes "01-02 03:04:05.000 [7] [main.cpp  104] epoll_wait error\n"⟩ ] := by
  let log : Logger := ⟨bytes "/log", [], LOG_DEBUG⟩
  let calls : LogCall → Prop := fun c => 0 ≤ c.lvl ∧ c.lvl ≤ 4
  have hmain : LogCall.ofMain.format (secondOfJanuary 0) 0 =
      some (bytes "01-02 03:04:05.000 [7] [main.cpp  104] epoll_wait error\n") := by
    decide +kernel
  have hother : LogCall.ofOther.format (secondOfJanuary 0) 0 =
      some (bytes "01-02 03:04:05.000 [8] [Socket.cpp   51] send error\n") := by
    decide +kernel
  have hname : log.fileName (secondOfJanuary 0) LOG_ERROR = bytes "/log/error20000102.log" := by
    decide +kernel
  obtain ⟨s₁, es₁, hrun₁, hpc₁, hlines₁, hrest₁⟩ :=
    @call_opens Bool _ log secondOfJanuary calls .empty true .ofMain rfl (by decide) (by decide)
  obtain ⟨s₂, es₂, hrun₂, hpc₂, hlines₂, hrest₂⟩ :=
    @call_opens Bool _ log secondOfJanuary calls s₁ false .ofOther (hrest₁ false (by decide))
      (by decide) (by decide)
  obtain ⟨s₃, es₃, hrun₃, hlines₃, hrest₃⟩ :=
    @call_closes Bool _ log secondOfJanuary calls s₂ false _ _ _ _ hpc₂ hother
  have hpc₃ := (hrest₃ true (by decide)).trans ((hrest₂ true (by decide)).trans hpc₁)
  obtain ⟨s₄, es₄, hrun₄, hlines₄, -⟩ :=
    @call_closes Bool _ log secondOfJanuary calls s₃ true _ _ _ _ hpc₃ hmain
  rw [hlines₃, hlines₂, hlines₁] at hlines₄
  exact ⟨s₄, _, ((hrun₁.append hrun₂).append hrun₃).append hrun₄, hname ▸ hlines₄⟩

/-- The errors of two threads are two lines. -/
theorem log_files_whole_lines_two :
    ∃ s : LogFiles Bool, s.lines.length = 2 ∧
      (s.dir (bytes "/log/error20000102.log")).getD [] =
        (s.lines.filter fun l => decide (l.name = bytes "/log/error20000102.log")).flatMap
          LogLine.bytes := by
  obtain ⟨s, es, hrun, hlines⟩ := two_logged
  obtain ⟨hfiles, -, -⟩ := log_files_whole_lines _ _ _ _ s es (LogFiles.empty_init _ _ _) hrun
  exact ⟨s, by rw [hlines]; rfl, hfiles _⟩

/-- **A file has the lines of one category and one day**, those that were named on it.  The
levels are those of the macros, the years those of four digits. -/
theorem log_files_by_day {τ : Type} [DecidableEq τ] (log : Logger)
    (localtime : Int → CivilFields) (s₀ s : LogFiles τ) (es : List (WriteEvent τ))
    (hclock : ∀ now, FourDigitDay (localtime now))
    (hs₀ : (logging log localtime (fun c => 0 ≤ c.lvl ∧ c.lvl ≤ 4) false).init s₀)
    (hrun : (logging log localtime (fun c => 0 ≤ c.lvl ∧ c.lvl ≤ 4) false).Run s₀ es s)
    (now : Int) (lvl : Int) (hlow : 0 ≤ lvl) (hhigh : lvl ≤ 4) :
    (s.dir (log.fileName (localtime now) lvl)).getD [] =
      (s₀.dir (log.fileName (localtime now) lvl)).getD [] ++
        (s.lines.filter fun l => decide (category l.call.lvl = category lvl) &&
          decide (SameDay l.date (localtime now))).flatMap LogLine.bytes := by
  have hkept := logging_kept hs₀ hrun
  rw [hkept.dir, replay_getD, hkept.lines]
  have hsame : (s.lines.filter fun l => decide (l.name = log.fileName (localtime now) lvl)) =
      s.lines.filter fun l => decide (category l.call.lvl = category lvl) &&
        decide (SameDay l.date (localtime now)) := by
    refine List.filter_congr ?_
    intro l hl
    have hformed := hkept.formed l hl
    obtain ⟨named, hdate⟩ := hformed.date
    have hday : FourDigitDay l.date := hdate ▸ hclock named
    rw [hformed.name, decide_eq_decide.mpr (log.fileName_eq_iff
      (category_isSome hformed.made.1 hformed.made.2) (category_isSome hlow hhigh) hday
      (hclock now)), Bool.decide_and]
  rw [hsame]

/-- Both lines are in the file of errors of that day. -/
theorem log_files_by_day_two :
    ∃ s : LogFiles Bool, s.lines.length = 2 ∧
      (s.dir (bytes "/log/error20000102.log")).getD [] =
        bytes "01-02 03:04:05.000 [8] [Socket.cpp   51] send error\n" ++
          bytes "01-02 03:04:05.000 [7] [main.cpp  104] epoll_wait error\n" := by
  have hday : FourDigitDay (secondOfJanuary 0) :=
    ⟨⟨2000, by decide, by decide⟩, ⟨1, by decide, by decide⟩, ⟨2, by decide, by decide⟩⟩
  have hname : Logger.fileName ⟨bytes "/log", [], LOG_DEBUG⟩ (secondOfJanuary 0) LOG_ERROR =
      bytes "/log/error20000102.log" := by
    decide +kernel
  obtain ⟨s, es, hrun, hlines⟩ := two_logged
  have hfile := log_files_by_day _ _ _ s es (fun _ => hday) (LogFiles.empty_init _ _ _) hrun 0
    LOG_ERROR (by decide) (by decide)
  rw [hname, hlines] at hfile
  exact ⟨s, by rw [hlines]; rfl, hfile⟩

end MyGenSvr.Ports
