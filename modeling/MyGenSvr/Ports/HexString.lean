import MyGenSvr.Ports.ReadConfig
import MyGenSvr.Ports.WriteLog

/-!
# Dumps in the log

`DealService` and `SendMsg` log the bytes of every request and every answer as text: two
digits and a separator for each, a newline for the separator of every sixteenth.  A line of
the log ends after 2047 bytes, in the middle of a dump if it is longer than that.

`readDump` is what a reader of the log makes of such a line: the pairs of digits behind its
first newline.

## Main results

* `readHex_take` — a dump that is cut off.
* `dumps_read_back` — what the lines of any run say of the bytes that were dumped.
-/

namespace MyGenSvr.Ports

open MyGenSvr.Verified.Numerals

/-- `%02x` of an `unsigned char`. -/
def hexPair (c : UInt8) : List UInt8 := (digits 16 2 c.toNat).map digitByte

/-- The bytes from the one at `i`. -/
def hexBytes : (i : Nat) → List UInt8 → List UInt8
  | _, [] => []
  | i, c :: rest =>
      hexPair c ++ (if (i + 1) % 16 = 0 then bytes "\n" else bytes " ") ++ hexBytes (i + 1) rest

/-- `HexString`; `none` where it reads past the memory at `ptrSrc`. -/
def HexString (ptrSrc : List UInt8) (iLen : Int) : Option (List UInt8) :=
  if iLen ≤ ptrSrc.length then
    some (bytes "HexString, Bytes[" ++ decimal iLen ++ bytes "] \n" ++
      hexBytes 0 (ptrSrc.take iLen.toNat))
  else none

/-- The call that logs a dump, in a file, on a line, from a thread. -/
def dumpCall (file : List UInt8) (line : Int) (self : Nat) (ptr : List UInt8) (iSize : Int) :
    Option LogCall :=
  (HexString ptr iSize).map fun hexString =>
    ⟨LOG_DEBUG, file, line, bytes "req hex string[" ++ cstr hexString ++ bytes "]", self⟩

/-! ## Reading a dump -/

/-- The value of a digit. -/
def hexValue (c : UInt8) : Option Nat := (List.range 16).find? fun d => digitByte d == c

/-- The pairs of digits up to anything else. -/
def readHex : List UInt8 → List UInt8
  | a :: b :: _ :: rest =>
      match hexValue a, hexValue b with
      | some x, some y => UInt8.ofNat (16 * x + y) :: readHex rest
      | _, _ => []
  | _ => []

/-- The bytes that a line of the log shows. -/
def readDump (line : List UInt8) : List UInt8 :=
  readHex (line.dropWhile (· ≠ ch '\n')).tail

section Reading

/-- The digits of a byte. -/
theorem hexPair_eq (c : UInt8) :
    hexPair c = [digitByte (c.toNat / 16), digitByte (c.toNat % 16)] := by
  have hhigh : c.toNat / 16 % 16 = c.toNat / 16 := by
    have hlt := c.toNat_lt
    omega
  show [digitByte (c.toNat / 16 % 16), digitByte (c.toNat % 16)] = _
  rw [hhigh]

theorem hexValue_digitByte {d : Nat} (hd : d < 16) : hexValue (digitByte d) = some d := by
  have hall : ∀ d < 16, hexValue (digitByte d) = some d := by decide +kernel
  exact hall d hd

/-- A byte that is there in full. -/
theorem readHex_pair (c s : UInt8) (rest : List UInt8) :
    readHex (hexPair c ++ s :: rest) = c :: readHex rest := by
  have hlt := c.toNat_lt
  rw [hexPair_eq]
  show readHex (_ :: _ :: s :: rest) = _
  rw [readHex, hexValue_digitByte (by omega), hexValue_digitByte (by omega)]
  have hvalue : 16 * (c.toNat / 16) + c.toNat % 16 = c.toNat := Nat.div_add_mod _ 16
  dsimp only
  rw [hvalue, UInt8.ofNat_toNat]

/-- One digit is not enough. -/
theorem readHex_short {s : List UInt8} (h : s.length ≤ 2) : readHex s = [] := by
  rcases s with - | ⟨a, - | ⟨b, - | ⟨c, rest⟩⟩⟩
  · rfl
  · rfl
  · rfl
  · simp only [List.length_cons] at h
    omega

/-- **A dump that is cut off** shows the bytes whose two digits are left. -/
theorem readHex_take (i : Nat) (bs : List UInt8) (n : Nat) :
    readHex ((hexBytes i bs ++ bytes "]").take n ++ bytes "\n") = bs.take ((n + 1) / 3) := by
  induction bs generalizing i n with
  | nil =>
      rw [List.take_nil]
      refine readHex_short ?_
      have hcut := List.length_take_le' n (hexBytes i [] ++ bytes "]")
      have hone : (hexBytes i [] ++ bytes "]").length = 1 := rfl
      have hnewline : (bytes "\n").length = 1 := rfl
      rw [List.length_append]
      omega
  | cons c bs ih =>
      obtain ⟨s, hsep⟩ : ∃ s, (if (i + 1) % 16 = 0 then bytes "\n" else bytes " ") = [s] := by
        split
        · exact ⟨ch '\n', rfl⟩
        · exact ⟨ch ' ', rfl⟩
      have hpair : (hexPair c).length = 2 := by rw [hexPair_eq]; rfl
      rw [hexBytes, hsep, List.append_assoc, List.append_assoc, List.singleton_append]
      rcases Nat.lt_or_ge n 3 with hcut | hwhole
      · rcases Nat.lt_or_ge n 2 with hless | htwo
        · have hnone : (n + 1) / 3 = 0 := by omega
          rw [hnone, List.take_zero]
          refine readHex_short ?_
          have hmost := List.length_take_le n (hexPair c ++ s :: (hexBytes (i + 1) bs ++ bytes "]"))
          have hnewline : (bytes "\n").length = 1 := rfl
          rw [List.length_append]
          omega
        · have htwo : n = 2 := by omega
          subst htwo
          rw [List.take_left' hpair]
          exact readHex_pair c (ch '\n') []
      · obtain ⟨m, rfl⟩ := Nat.exists_eq_add_of_le' hwhole
        have hmore : (m + 3 + 1) / 3 = (m + 1) / 3 + 1 := by omega
        rw [List.take_append, hpair, List.take_of_length_le (by omega), List.append_assoc]
        show readHex (hexPair c ++ s :: (List.take m _ ++ bytes "\n")) = _
        rw [readHex_pair, ih (i + 1) m, hmore, List.take_succ_cons]

/-- What is read of less is less. -/
theorem readHex_prefix {s t : List UInt8} (h : s <+: t) : readHex s <+: readHex t := by
  obtain ⟨u, rfl⟩ := h
  induction s using readHex.induct with
  | case1 a b c rest x y hx hy ih =>
      show readHex (a :: b :: c :: rest) <+: readHex (a :: b :: c :: (rest ++ u))
      rw [readHex, readHex, hx, hy]
      exact List.cons_prefix_cons.mpr ⟨rfl, ih⟩
  | case2 a b c rest hbad =>
      rw [readHex]
      split
      · next x y hx hy => exact absurd hy (hbad x y hx)
      · exact List.nil_prefix
  | case3 s hshort =>
      rw [readHex.eq_2 s hshort]
      exact List.nil_prefix

theorem readDump_prefix {s t : List UInt8} (h : s <+: t) : readDump s <+: readDump t := by
  obtain ⟨u, rfl⟩ := h
  refine readHex_prefix ?_
  induction s with
  | nil => exact List.nil_prefix
  | cons c s ih =>
      by_cases hnewline : c = ch '\n'
      · subst hnewline
        simp
      · rw [List.cons_append, List.dropWhile_cons_of_pos (by simpa using hnewline),
          List.dropWhile_cons_of_pos (by simpa using hnewline)]
        exact ih

end Reading

/-! ## The line of a dump -/

/-- Text on one line. -/
def OneLine (s : List UInt8) : Prop := ∀ b ∈ s, b ≠ 0 ∧ b ≠ ch '\n'

instance instDecidableOneLine (s : List UInt8) : Decidable (OneLine s) :=
  inferInstanceAs (Decidable (∀ b ∈ s, b ≠ 0 ∧ b ≠ ch '\n'))

/-- A time whose parts take two digits. -/
structure TwoDigitTime (tm : CivilFields) : Prop where
  month : TwoDigits (tm.tm_mon + 1)
  day : TwoDigits tm.tm_mday
  hour : TwoDigits tm.tm_hour
  min : TwoDigits tm.tm_min
  sec : TwoDigits tm.tm_sec

section Line

variable {s t : List UInt8}

theorem oneLine_append : OneLine (s ++ t) ↔ OneLine s ∧ OneLine t :=
  List.forall_mem_append

theorem oneLine_replicate {n : Nat} {c : UInt8} (hc : c ≠ 0 ∧ c ≠ ch '\n') :
    OneLine (List.replicate n c) := by
  intro b hb
  rw [List.eq_of_mem_replicate hb]
  exact hc

theorem oneLine_decimal (n : Int) : OneLine (decimal n) := by
  have hdigits : ∀ m : Nat, OneLine ((Nat.toDigits 10 m).map ch) := by
    intro m b hb
    obtain ⟨c, hc, rfl⟩ := List.mem_map.mp hb
    have hdigit : 48 ≤ c.toNat ∧ c.toNat ≤ 57 :=
      Char.isDigit_iff_toNat.mp (Nat.isDigit_of_mem_toDigits (by decide) (by decide) hc)
    have hbyte : (ch c).toNat = c.toNat % 256 := rfl
    constructor <;> intro heq <;> rw [heq] at hbyte
    · have hzero : (0 : UInt8).toNat = 0 := rfl
      omega
    · have hnewline : (ch '\n').toNat = 10 := rfl
      omega
  cases n with
  | ofNat m => exact hdigits m
  | negSucc m => exact List.forall_mem_cons.mpr ⟨by decide, hdigits (m + 1)⟩

theorem oneLine_zeroPadded (w : Nat) (n : Int) : OneLine (zeroPadded w n) := by
  cases n with
  | ofNat m =>
      exact oneLine_append.mpr ⟨oneLine_replicate (by decide), oneLine_decimal m⟩
  | negSucc m =>
      exact List.forall_mem_cons.mpr ⟨by decide,
        oneLine_append.mpr ⟨oneLine_replicate (by decide), oneLine_decimal (m + 1 : Nat)⟩⟩

theorem oneLine_blankPadded (w : Nat) (n : Int) : OneLine (blankPadded w n) :=
  oneLine_append.mpr ⟨oneLine_replicate (by decide), oneLine_decimal n⟩

/-- The head of a line. -/
theorem oneLine_header {c : LogCall} (hfile : OneLine c.file) (tm : CivilFields) (usec : Nat) :
    OneLine (c.header tm usec) := by
  have hlit : OneLine (bytes "-") ∧ OneLine (bytes " ") ∧ OneLine (bytes ":") ∧
      OneLine (bytes ".") ∧ OneLine (bytes " [") ∧ OneLine (bytes "] [") ∧
      OneLine (bytes "] ") := by
    decide +kernel
  simp only [LogCall.header, oneLine_append, oneLine_zeroPadded, oneLine_decimal,
    oneLine_blankPadded, hfile, hlit, and_self]

/-- Behind the first line is what is read. -/
theorem readDump_append (hs : OneLine s) : readDump (s ++ bytes "\n" ++ t) = readHex t := by
  have hskip : ∀ b ∈ s, (decide (b ≠ ch '\n')) = true := fun b hb => decide_eq_true (hs b hb).2
  rw [readDump, List.append_assoc, List.dropWhile_append_of_pos hskip]
  rfl

/-- No byte of a dump is a terminator. -/
theorem hexBytes_no_zero (i : Nat) (bs : List UInt8) : 0 ∉ hexBytes i bs := by
  have hdigit : ∀ d < 16, (0 : UInt8) ≠ digitByte d := by decide +kernel
  induction bs generalizing i with
  | nil => exact List.not_mem_nil
  | cons c bs ih =>
      have hlt := c.toNat_lt
      have hpair : 0 ∉ hexPair c := by
        rw [hexPair_eq, List.mem_cons, List.mem_singleton, not_or]
        exact ⟨hdigit _ (by omega), hdigit _ (by omega)⟩
      have hsep : 0 ∉ (if (i + 1) % 16 = 0 then bytes "\n" else bytes " ") := by
        split <;> decide
      rw [hexBytes, List.mem_append, List.mem_append, not_or, not_or]
      exact ⟨⟨hpair, hsep⟩, ih (i + 1)⟩

/-- What a line of the log shows that is cut off at `m`. -/
theorem readDump_take (hs : OneLine s) (bs : List UInt8) (m : Nat) :
    readDump (cstr ((s ++ bytes "\n" ++ (hexBytes 0 bs ++ bytes "]")).take m) ++ bytes "\n") =
      bs.take ((m + 1 - (s.length + 1)) / 3) := by
  have hzero : 0 ∉ (s ++ bytes "\n" ++ (hexBytes 0 bs ++ bytes "]")).take m := by
    intro hmem
    have hs0 : 0 ∉ s := fun h => (hs 0 h).1 rfl
    have hnl : 0 ∉ bytes "\n" := by decide
    have hend : 0 ∉ bytes "]" := by decide
    have hin := List.mem_of_mem_take hmem
    simp only [List.mem_append, hs0, hnl, hend, hexBytes_no_zero, or_self] at hin
  rw [cstr_eq_self hzero]
  rcases Nat.lt_or_ge s.length m with hmore | hless
  · have hlength : (s ++ bytes "\n").length = s.length + 1 := List.length_append
    have hcount : m - (s.length + 1) + 1 = m + 1 - (s.length + 1) := by omega
    rw [List.take_append, hlength, List.take_of_length_le (by omega), List.append_assoc,
      readDump_append hs, readHex_take, hcount]
  · have hnone : (m + 1 - (s.length + 1)) / 3 = 0 := by omega
    have hcut : OneLine (s.take m) := fun b hb => hs b (List.mem_of_mem_take hb)
    have hall := @readDump_append (s.take m) [] hcut
    rw [List.append_assoc, List.take_append_of_le_length hless, hnone, List.take_zero]
    rw [List.append_nil] at hall
    exact hall

end Line

section Dumps

variable {file ptr : List UInt8} {line iSize : Int} {self : Nat} {c : LogCall}

/-- The call that is made. -/
theorem dumpCall_eq (hcall : dumpCall file line self ptr iSize = some c) :
    iSize ≤ ptr.length ∧ c = ⟨LOG_DEBUG, file, line, bytes "req hex string[HexString, Bytes[" ++
      decimal iSize ++ bytes "] " ++ bytes "\n" ++
        (hexBytes 0 (ptr.take iSize.toNat) ++ bytes "]"), self⟩ := by
  rw [dumpCall, HexString] at hcall
  split at hcall
  · next hsize =>
      refine ⟨hsize, ?_⟩
      have hdecimal : 0 ∉ decimal iSize := fun h => (oneLine_decimal iSize 0 h).1 rfl
      have hlit : 0 ∉ bytes "HexString, Bytes[" ∧ 0 ∉ bytes "] \n" := by decide
      have hzero : 0 ∉ bytes "HexString, Bytes[" ++ decimal iSize ++ bytes "] \n" ++
          hexBytes 0 (ptr.take iSize.toNat) := by
        simp only [List.mem_append, hlit, hdecimal, hexBytes_no_zero, or_self, not_false_eq_true]
      have hmade := (Option.some.inj hcall).symm
      dsimp only at hmade
      rw [cstr_eq_self hzero] at hmade
      rw [hmade]
      have htitle : bytes "req hex string[HexString, Bytes[" =
          bytes "req hex string[" ++ bytes "HexString, Bytes[" := rfl
      have hbreak : bytes "] \n" = bytes "] " ++ bytes "\n" := rfl
      simp only [htitle, hbreak, List.append_assoc]
  · cases hcall

/-- **A line that dumps bytes** shows as many of them as it has room for. -/
theorem readDump_format {tm : CivilFields} {usec : Nat} {text : List UInt8}
    (hfile : OneLine file) (htime : TwoDigitTime tm) (husec : usec < 10 ^ 6)
    (hcall : dumpCall file line self ptr iSize = some c) (hline : c.format tm usec = some text) :
    readDump text =
      (ptr.take iSize.toNat).take ((2048 - (c.headLength + 35 + (decimal iSize).length)) / 3) := by
  obtain ⟨-, hc⟩ := dumpCall_eq hcall
  have hlength : (c.header tm usec).length = c.headLength :=
    header_length husec htime.month htime.day htime.hour htime.min htime.sec
  have hheader : OneLine (c.header tm usec) := oneLine_header (by rw [hc]; exact hfile) tm usec
  rw [format_eq (header_le_of_format hline), Option.some.injEq] at hline
  have htitle : OneLine (bytes "req hex string[HexString, Bytes[") ∧ OneLine (bytes "] ") := by
    decide +kernel
  have htext : c.text = _ := congrArg LogCall.text hc
  have hread := @readDump_take (c.header tm usec ++
    (bytes "req hex string[HexString, Bytes[" ++ decimal iSize ++ bytes "] "))
    (oneLine_append.mpr ⟨hheader, oneLine_append.mpr
      ⟨oneLine_append.mpr ⟨htitle.1, oneLine_decimal iSize⟩, htitle.2⟩⟩)
    (ptr.take iSize.toNat) 2047
  have hroom : 2047 + 1 - ((c.header tm usec ++ (bytes "req hex string[HexString, Bytes[" ++
      decimal iSize ++ bytes "] ")).length + 1) =
      2048 - (c.headLength + 35 + (decimal iSize).length) := by
    have htitle : (bytes "req hex string[HexString, Bytes[").length = 32 := rfl
    have hclose : (bytes "] ").length = 2 := rfl
    rw [List.length_append, List.length_append, List.length_append, hlength, htitle, hclose]
    omega
  rw [hroom] at hread
  rw [← hread, ← hline, htext]
  simp only [List.append_assoc]

end Dumps

/-- **The dumps read back.**  In every run of the threads, a line that dumps `iSize` bytes
shows the front of them; if no write falls short, as many as there is room for behind the
head and the first line of the dump. -/
theorem dumps_read_back {τ : Type} [DecidableEq τ] (log : Logger)
    (localtime : Int → CivilFields) (calls : LogCall → Prop) (diskMayFill : Bool)
    (s₀ s : LogFiles τ) (es : List (WriteEvent τ))
    (hclock : ∀ now, TwoDigitTime (localtime now))
    (hs₀ : (logging log localtime calls diskMayFill).init s₀)
    (hrun : (logging log localtime calls diskMayFill).Run s₀ es s) (l : LogLine)
    (hl : l ∈ s.lines) (file ptr : List UInt8) (line iSize : Int) (self : Nat)
    (hfile : OneLine file) (hcall : dumpCall file line self ptr iSize = some l.call) :
    readDump l.bytes <+: ptr.take iSize.toNat ∧
      (diskMayFill = false → readDump l.bytes = (ptr.take iSize.toNat).take
        ((2048 - (l.call.headLength + 35 + (decimal iSize).length)) / 3)) := by
  have hformed := (logging_kept hs₀ hrun).formed l hl
  obtain ⟨sec, usec, text, husec, htext, hcut, hwhole⟩ := hformed.bytes
  have hread := readDump_format hfile (hclock sec) husec hcall htext
  constructor
  · have hprefix := readDump_prefix hcut
    rw [hread] at hprefix
    exact hprefix.trans (List.take_prefix _ _)
  · intro hfull
    rw [hwhole hfull, hread]

/-- The call that dumps three bytes. -/
def LogCall.ofDump : LogCall :=
  ⟨LOG_DEBUG, bytes "Service.cpp", 32, bytes "req hex string[HexString, Bytes[3] \nde ad 0a ]", 7⟩

/-- They are in the line. -/
theorem dumps_read_back_three :
    ∃ (s : LogFiles Unit) (l : LogLine), s.lines = [l] ∧ readDump l.bytes = [0xde, 0xad, 0x0a] := by
  have hcall : dumpCall (bytes "Service.cpp") 32 7 [0xde, 0xad, 0x0a] 3 = some .ofDump := by
    decide +kernel
  obtain ⟨line, hline⟩ : ∃ line, LogCall.ofDump.format (secondOfJanuary 0) 0 = some line :=
    Option.isSome_iff_exists.mp (by decide +kernel)
  obtain ⟨s, es, hrun, hlines⟩ := @line_logged ⟨bytes "/log", [], LOG_DEBUG⟩ secondOfJanuary
    (fun _ => True) .ofDump line (by decide) trivial hline
  have hclock : ∀ now, TwoDigitTime (secondOfJanuary now) := fun _ =>
    ⟨⟨1, rfl, by decide⟩, ⟨2, rfl, by decide⟩, ⟨3, rfl, by decide⟩, ⟨4, rfl, by decide⟩,
      ⟨5, rfl, by decide⟩⟩
  have hfile : OneLine (bytes "Service.cpp") := by decide +kernel
  obtain ⟨-, hread⟩ := dumps_read_back _ _ _ _ _ s es hclock (LogFiles.empty_init _ _ _) hrun _
    (by rw [hlines]; exact List.mem_singleton.mpr rfl) _ [0xde, 0xad, 0x0a] 32 3 7 hfile hcall
  refine ⟨s, _, hlines, ?_⟩
  rw [hread rfl]
  show List.take ((2048 - (LogCall.ofDump.headLength + 35 + (decimal 3).length)) / 3) _ = _
  decide +kernel

end MyGenSvr.Ports
