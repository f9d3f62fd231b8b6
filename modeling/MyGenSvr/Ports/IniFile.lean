import MyGenSvr.Ports.CommDef
import MyGenSvr.Verified.Text
import Mathlib.Data.List.AList

/-!
# The INI file

`IniFile` reads a file line by line and keeps the values in one map, under the
section name, a separator and the key.  The positions that `std::string` finds are
kept in an `int`: one at or past `2 ^ 31` changes there.  Where a sum or a difference
of such positions leaves `int`, what the code does is undefined.

## Main results

* `valueText_core_iff`, `valueText_far` — what the lengths of a text behind `=` leave of it.
* `operator_key`, `stores_iff` — what a line with `=` stores.
* `operator_section` — which lines set the section.
* `mapKey_inj` — a section and a key are told from their concatenation.
-/

namespace MyGenSvr.Ports

open MyGenSvr.Verified.Text

/-- A character, as the byte of a `std::string`. -/
def ch (c : Char) : UInt8 := c.toNat.toUInt8

/-- A string literal. -/
def bytes (s : String) : List UInt8 := s.toList.map ch

/-! ## Positions in an `int` -/

/-- `string::npos` as an `int`. -/
def npos : Int := -1

/-- The `int` a found position is kept in. -/
def intPos : Option Nat → Int
  | none => npos
  | some pos => toInt32 pos

/-- `substr`, with positions that come from an `int`.  A negative start is past
every string, for which `std::out_of_range` is thrown; a negative count is more
than any string holds. -/
def substr (s : List UInt8) (pos count : Int) : Option (List UInt8) :=
  if pos < 0 ∨ s.length < pos then none
  else if count < 0 then some (s.drop pos.toNat)
  else some ((s.drop pos.toNat).take count.toNat)

/-- The result of an `int` operation, if it is defined. -/
def checked (x : Int) : Option Int := if -2 ^ 31 ≤ x ∧ x < 2 ^ 31 then some x else none

/-- `substr` from one position to another, both included. -/
def substrTo (s : List UInt8) (first last : Int) : Option (List UInt8) := do
  let distance ← checked (last - first)
  let count ← checked (distance + 1)
  substr s first count

/-- `find` of a string, from a position that comes from an `int`. -/
def findFrom (s pat : List UInt8) (pos : Int) : Option Nat :=
  if pos < 0 then none else matchFrom pat pos.toNat s

/-- The set `" \t"`. -/
def isBlank (c : UInt8) : Bool := c == ch ' ' || c == ch '\t'

/-- `find_first_not_of(" \t")`. -/
def firstNonBlank (s : List UInt8) : Option Nat := s.findIdx? fun c => !isBlank c

/-- `find_last_not_of(" \t")`. -/
def lastNonBlank (s : List UInt8) : Option Nat := lastIdx? (fun c => !isBlank c) s

/-! ## `analyzeini` -/

/-- The map of an `IniFile`. -/
abbrev StrMap := AList fun _ : List UInt8 => List UInt8

def MIDDLESTRING : List UInt8 := bytes "_____***_______"

/-- The key in the map. -/
def mapKey (sect key : List UInt8) : List UInt8 := sect ++ MIDDLESTRING ++ key

/-- The state of the `analyzeini` that goes over the lines. -/
structure Analyzeini where
  strsect : List UInt8
  pmap : StrMap

/-- What introduces a comment, in the order of the searches. -/
def markers : List (List UInt8) := [bytes "\t#", bytes " #", bytes "\t//", bytes " //"]

/-- The searches for a comment from `first` on: the first that finds one decides. -/
def findMarker (strtmp2 : List UInt8) (first : Int) : List (List UInt8) → Int
  | [] => npos
  | pat :: pats =>
      let last := intPos (findFrom strtmp2 pat first)
      if last ≠ npos then last else findMarker strtmp2 first pats

/-- The text behind `=` without its comment.  The cut is `last - first` bytes from
the start of the text, not from `first`. -/
def stripComment (strtmp2 : List UInt8) (first : Int) : Option (List UInt8) :=
  let last := findMarker strtmp2 first markers
  if last ≠ npos then (checked (last - first)).bind (substr strtmp2 0) else some strtmp2

/-- The line sets the section: it has a `[` and a `]`, and the first `[` does not
follow the last `]` directly. -/
def opensSection (strini : List UInt8) : Option Bool :=
  let first := intPos (strini.findIdx? (· == ch '['))
  let last := intPos (lastIdx? (· == ch ']') strini)
  if first ≠ npos ∧ last ≠ npos then (checked (last + 1)).map (decide <| first ≠ ·)
  else some false

/-- The section such a line sets. -/
def sectionName (strini : List UInt8) : Option (List UInt8) := do
  let first := intPos (strini.findIdx? (· == ch '['))
  let last := intPos (lastIdx? (· == ch ']') strini)
  let pos ← checked (first + 1)
  let distance ← checked (last - first)
  let count ← checked (distance - 1)
  substr strini pos count

/-- The key of a line, from the text before `=`; there is none in blanks. -/
def keyText (strtmp1 : List UInt8) : Option (Option (List UInt8)) :=
  let first := intPos (firstNonBlank strtmp1)
  let last := intPos (lastNonBlank strtmp1)
  if first = npos ∨ last = npos then some none
  else (substrTo strtmp1 first last).map some

/-- The value of a line, from the text behind `=`. -/
def valueText (strtmp2 : List UInt8) : Option (Option (List UInt8)) := do
  let first := intPos (firstNonBlank strtmp2)
  let strtmp2 ← stripComment strtmp2 first
  let last := intPos (lastNonBlank strtmp2)
  if first = npos ∨ last = npos then some none
  else (substrTo strtmp2 first last).map some

/-- `analyzeini::operator()` on one line; `none` when `substr` throws or an `int`
overflows. -/
def Analyzeini.operator (a : Analyzeini) (strini : List UInt8) : Option Analyzeini := do
  if ← opensSection strini then
    (sectionName strini).map fun strsect => { a with strsect }
  else if a.strsect = [] then some a
  else
    let first := intPos (strini.findIdx? (· == ch '='))
    if first = npos then some a
    else do
      let strtmp1 ← substr strini 0 first
      let pos ← checked (first + 1)
      let strtmp2 ← substr strini pos npos
      match ← keyText strtmp1 with
      | none => some a
      | some strkey =>
          match ← valueText strtmp2 with
          | none => some a
          | some value =>
              some { a with pmap := a.pmap.insert (mapKey a.strsect strkey) value }

/-! ## `IniFile` -/

structure IniFile where
  c_inimap : StrMap := ∅

/-- A line without its carriage return, and what follows it. -/
def subbuf (inbuf : List UInt8) : Option (List UInt8) :=
  let last_pos := intPos (lastIdx? (fun c => c == ch '\r' || c == ch '\n') inbuf)
  if last_pos ≠ npos then substr inbuf 0 last_pos else some inbuf

/-- The lines of a file, as `getline` takes them until the end of the file is seen:
a file that ends in a line feed has an empty one behind it. -/
def readLines (fin : List UInt8) : Option (List (List UInt8)) :=
  (fin.splitOn (ch '\n')).mapM subbuf

/-- `do_open` on a file with the given contents, or on none that can be opened. -/
def IniFile.do_open (f : IniFile) : Option (List UInt8) → Option (Bool × IniFile)
  | none => some (false, f)
  | some fin => do
      let strvect ← readLines fin
      if strvect = [] then some (false, f)
      else
        let a ← strvect.foldlM Analyzeini.operator ⟨[], f.c_inimap⟩
        some (!a.pmap.entries.isEmpty, ⟨a.pmap⟩)

/-- What a `const char*` points at: the bytes before the first NUL. -/
def cstr (s : List UInt8) : List UInt8 := s.takeWhile (· ≠ 0)

/-- `read`: its result and its output. -/
def IniFile.read (f : IniFile) (psect pkey : List UInt8) : Int × List UInt8 :=
  match f.c_inimap.lookup (mapKey (cstr psect) (cstr pkey)) with
  | none => (-1, [])
  | some value => (0, value)

/-! ## Positions -/

section Positions

variable {s x y z pat : List UInt8} {n : Nat}

theorem intPos_some (hn : n < 2 ^ 31) : intPos (some n) = n := toInt32_of_lt hn

/-- A position past `2 ^ 31` is negative. -/
theorem intPos_big (hlow : 2 ^ 31 ≤ n) (hhigh : n < 2 ^ 32) :
    intPos (some n) = (n : Int) - 2 ^ 32 := by
  rw [intPos, toInt32]
  split <;> omega

theorem intPos_cases (hn : n < 2 ^ 32) : n < 2 ^ 31 ∧ intPos (some n) = n ∨
    2 ^ 31 ≤ n ∧ intPos (some n) = (n : Int) - 2 ^ 32 := by
  by_cases hsmall : n < 2 ^ 31
  · exact Or.inl ⟨hsmall, intPos_some hsmall⟩
  · exact Or.inr ⟨Nat.le_of_not_lt hsmall, intPos_big (Nat.le_of_not_lt hsmall) hn⟩

/-- The first position that is taken for none is `2 ^ 32 - 1`. -/
theorem intPos_ne_npos (hn : n < 2 ^ 32 - 1) : intPos (some n) ≠ npos := by
  rw [npos]
  rcases intPos_cases (show n < 2 ^ 32 by omega) with ⟨-, hpos⟩ | ⟨-, hpos⟩ <;> rw [hpos] <;>
    omega

theorem substr_neg {pos count : Int} (hneg : pos < 0) : substr s pos count = none :=
  if_pos (Or.inl hneg)

theorem substr_nat {pos count : Nat} (hpos : pos ≤ s.length) :
    substr s pos count = some ((s.drop pos).take count) := by
  have hin : ¬ ((pos : Int) < 0 ∨ (s.length : Int) < pos) := by omega
  have hcount : ¬ (count : Int) < 0 := by omega
  rw [substr, if_neg hin, if_neg hcount, Int.toNat_natCast, Int.toNat_natCast]

theorem substr_take : substr s 0 n = some (s.take n) := by
  have htake : substr s ((0 : Nat) : Int) n = some ((s.drop 0).take n) :=
    substr_nat (Nat.zero_le s.length)
  rwa [List.drop_zero, Nat.cast_zero] at htake

theorem substr_drop (hn : n ≤ s.length) : substr s n npos = some (s.drop n) := by
  have hin : ¬ ((n : Int) < 0 ∨ (s.length : Int) < n) := by omega
  have hcount : npos < 0 := by decide
  rw [substr, if_neg hin, if_pos hcount, Int.toNat_natCast]

theorem substr_middle : substr (x ++ y ++ z) x.length y.length = some y := by
  have hin : x.length ≤ (x ++ y ++ z).length := by
    simp only [List.length_append]
    omega
  rw [substr_nat hin, List.append_assoc, List.drop_left, List.take_left]

theorem checked_eq {i : Int} (hlow : -2 ^ 31 ≤ i) (hhigh : i < 2 ^ 31) : checked i = some i := by
  rw [checked, if_pos ⟨hlow, hhigh⟩]

theorem checked_range {i k : Int} (hchecked : checked i = some k) :
    (-2 ^ 31 ≤ i ∧ i < 2 ^ 31) ∧ k = i := by
  rw [checked, Option.ite_none_right_eq_some] at hchecked
  exact ⟨hchecked.1, (Option.some.inj hchecked.2).symm⟩

theorem checked_nat (hn : n < 2 ^ 31) : checked (n : Int) = some (n : Int) :=
  checked_eq (by omega) (by omega)

/-- From the first byte of a part to the last, both included. -/
theorem substrTo_between {first last : Nat} (hfirst : first = x.length) (hy : y ≠ [])
    (hlast : last = x.length + y.length - 1) (hcount : y.length < 2 ^ 31) :
    substrTo (x ++ y ++ z) first last = some y := by
  have hpos := List.length_pos_of_ne_nil hy
  have hdistance : (last : Int) - first = ((y.length - 1 : Nat) : Int) := by omega
  have hnext : ((y.length - 1 : Nat) : Int) + 1 = y.length := by omega
  have hshort : y.length - 1 < 2 ^ 31 := by omega
  rw [substrTo, hdistance, checked_nat hshort, Option.bind_eq_bind, Option.bind_some, hnext,
    checked_nat hcount, Option.bind_some]
  rw [hfirst, substr_middle]

theorem substrTo_nat {first last : Nat} (hle : first ≤ last) (hcount : last - first + 1 < 2 ^ 31) :
    substrTo s first last = substr s first (last - first + 1 : Nat) := by
  have hdistance : (last : Int) - first = ((last - first : Nat) : Int) := by omega
  have hnext : ((last - first : Nat) : Int) + 1 = ((last - first + 1 : Nat) : Int) := by omega
  rw [substrTo, hdistance, checked_nat (Nat.lt_of_succ_lt hcount), Option.bind_eq_bind,
    Option.bind_some, hnext, checked_nat hcount, Option.bind_some]

theorem substrTo_neg {first last : Int} (hneg : first < 0) : substrTo s first last = none := by
  rw [substrTo, Option.bind_eq_bind, Option.bind_eq_none_iff]
  intro distance _
  rw [Option.bind_eq_none_iff]
  intro count _
  exact substr_neg hneg

/-- What `substr` gives starts at the position. -/
theorem prefix_of_substr {pos : Nat} {count : Int} (hsub : substr s pos count = some y) :
    pos ≤ s.length ∧ y <+: s.drop pos := by
  rw [substr] at hsub
  split at hsub
  · exact absurd hsub (by simp)
  · rename_i hin
    refine ⟨by omega, ?_⟩
    rw [Int.toNat_natCast] at hsub
    split at hsub
    · obtain rfl := Option.some.inj hsub
      exact List.prefix_rfl
    · obtain rfl := Option.some.inj hsub
      exact List.take_prefix _ _

theorem prefix_of_substrTo {pos : Nat} {last : Int} (hsub : substrTo s pos last = some y) :
    pos ≤ s.length ∧ y <+: s.drop pos := by
  obtain ⟨distance, -, hsub⟩ := Option.bind_eq_some_iff.mp hsub
  obtain ⟨count, -, hsub⟩ := Option.bind_eq_some_iff.mp hsub
  exact prefix_of_substr hsub

end Positions

/-- A byte that is not there is not found. -/
theorem beq_of_not_mem {c : UInt8} {s : List UInt8} (hs : c ∉ s) : ∀ x ∈ s, (x == c) = false :=
  fun _ hx => beq_false_of_ne fun heq => hs (heq ▸ hx)

theorem blank_nil : ∀ c ∈ ([] : List UInt8), isBlank c = true :=
  fun _ hc => absurd hc List.not_mem_nil

/-- Among blanks there is nothing else. -/
theorem not_mem_blanks {c : UInt8} {s : List UInt8} (hs : ∀ x ∈ s, isBlank x = true)
    (hc : isBlank c = false) : c ∉ s := by
  intro hmem
  rw [hs c hmem] at hc
  exact absurd hc (by decide)

/-! ## Keys and values -/

section Blanks

variable {left core right text : List UInt8}

theorem keyText_surrounded (hleft : ∀ c ∈ left, isBlank c = true)
    (hcore : Trimmed isBlank core) (hright : ∀ c ∈ right, isBlank c = true)
    (hlen : left.length + core.length < 2 ^ 31) :
    keyText (left ++ core ++ right) = some (some core) := by
  have hpos := List.length_pos_of_ne_nil hcore.ne_nil
  have hfirst : firstNonBlank (left ++ core ++ right) = some left.length :=
    findIdx?_surrounded hleft hcore
  have hlast : lastNonBlank (left ++ core ++ right) =
      some (left.length + core.length - 1) := lastIdx?_surrounded hcore hright
  have hfound : ¬ (intPos (some left.length) = npos ∨
      intPos (some (left.length + core.length - 1)) = npos) := not_or.mpr
    ⟨intPos_ne_npos (by omega), intPos_ne_npos (by omega)⟩
  simp only [keyText, hfirst, hlast]
  rw [if_neg hfound, intPos_some (by omega), intPos_some (by omega),
    substrTo_between rfl hcore.ne_nil rfl (by omega), Option.map_some]

/-- The key of a text that holds more than blanks. -/
theorem keyText_eq (htext : ∃ c ∈ text, isBlank c = false) (hlen : text.length < 2 ^ 31) :
    keyText text = some (some (trim isBlank text)) := by
  obtain ⟨left, right, hsplit, hleft, hcore, hright⟩ := exists_surrounded htext
  have hshort : left.length + (trim isBlank text).length < 2 ^ 31 := by
    have hsum := congrArg List.length hsplit
    simp only [List.length_append] at hsum
    omega
  calc keyText text
      = keyText (left ++ trim isBlank text ++ right) := congrArg keyText hsplit
    _ = some (some (trim isBlank text)) := keyText_surrounded hleft hcore hright hshort

/-- The value of a text whose comment was cut off. -/
theorem valueText_of_strip (hfirst : firstNonBlank text = some left.length)
    (hstrip : stripComment text left.length = some (left ++ core ++ right))
    (hcore : Trimmed isBlank core) (hright : ∀ c ∈ right, isBlank c = true)
    (hlen : left.length + core.length ≤ 2 ^ 31) (hcount : core.length < 2 ^ 31) :
    valueText text = some (some core) := by
  have hpos := List.length_pos_of_ne_nil hcore.ne_nil
  have hlast : lastNonBlank (left ++ core ++ right) =
      some (left.length + core.length - 1) := lastIdx?_surrounded hcore hright
  have hfound : ¬ ((left.length : Int) = npos ∨
      intPos (some (left.length + core.length - 1)) = npos) := not_or.mpr
    ⟨by rw [npos]; omega, intPos_ne_npos (by omega)⟩
  simp only [valueText, hfirst, intPos_some (show left.length < 2 ^ 31 by omega), hstrip,
    Option.bind_eq_bind, Option.bind_some, hlast]
  rw [if_neg hfound, intPos_some (by omega), substrTo_between rfl hcore.ne_nil rfl hcount,
    Option.map_some]

/-- A value that is stored comes from the text without its comment, up to its last
byte that is no blank. -/
theorem substrTo_of_valueText {first : Nat} {cut value : List UInt8}
    (hfirst : firstNonBlank text = some first) (hsmall : first < 2 ^ 31)
    (hstrip : stripComment text first = some cut)
    (hvalue : valueText text = some (some value)) :
    substrTo cut first (intPos (lastNonBlank cut)) = some value := by
  simp only [valueText, hfirst, intPos_some hsmall, hstrip, Option.bind_eq_bind,
    Option.bind_some] at hvalue
  split at hvalue
  · exact absurd hvalue (by simp)
  · simpa using hvalue

end Blanks

/-! ## Comments -/

section Comments

variable {text behind : List UInt8} {first : Nat}

/-- Where the first kind of marker that is in a text at all has its first place. -/
def markerOffset (text : List UInt8) : Option Nat := markers.findSome? (firstMatch · text)

theorem findMarker_eq {pats : List (List UInt8)} (hfirst : first ≤ text.length)
    (hfit : ∀ off, pats.findSome? (firstMatch · (text.drop first)) = some off →
      off + first < 2 ^ 32 - 1) :
    findMarker text first pats =
      intPos ((pats.findSome? (firstMatch · (text.drop first))).map (· + first)) := by
  have hpos : ¬ (first : Int) < 0 := by omega
  induction pats with
  | nil => rfl
  | cons pat pats ih =>
      have hfind : findFrom text pat first =
          (firstMatch pat (text.drop first)).map (· + first) := by
        rw [findFrom, if_neg hpos, Int.toNat_natCast, matchFrom, if_pos hfirst]
      rw [List.findSome?_cons] at hfit ⊢
      simp only [findMarker, hfind]
      cases hmatch : firstMatch pat (text.drop first) with
      | none =>
          rw [hmatch] at hfit
          simpa [intPos] using ih hfit
      | some off =>
          rw [hmatch] at hfit
          exact if_pos (intPos_ne_npos (hfit off rfl))

/-- A text in which no marker stands from `first` on is kept. -/
theorem stripComment_none (hfirst : first ≤ text.length)
    (hnone : markerOffset (text.drop first) = none) :
    stripComment text first = some text := by
  have hmarker : findMarker text first markers = npos := by
    rw [markerOffset] at hnone
    rw [findMarker_eq hfirst (by simp [hnone]), hnone]
    rfl
  simp only [stripComment, hmarker]
  rfl

/-- A text is cut by the distance from `first` to the marker. -/
theorem stripComment_some {off : Nat} (hfirst : first ≤ text.length)
    (hsome : markerOffset (text.drop first) = some off) (hfit : off + first < 2 ^ 31) :
    stripComment text first = some (text.take off) := by
  have hmarker : findMarker text first markers = ((off + first : Nat) : Int) := by
    rw [markerOffset] at hsome
    rw [findMarker_eq hfirst (by rw [hsome]; rintro off ⟨rfl⟩; omega), hsome,
      Option.map_some, intPos_some hfit]
  have hne : ((off + first : Nat) : Int) ≠ npos := by
    rw [npos]
    omega
  have hcut : ((off + first : Nat) : Int) - first = off := by omega
  simp only [stripComment, hmarker]
  rw [if_pos hne, hcut, checked_nat (by omega), Option.bind_some, substr_take]

/-- A marker at `2 ^ 31` or behind cuts nothing off: the count is negative, or overflows. -/
theorem stripComment_late {off : Nat} (hfirst : first ≤ text.length) (hsmall : first < 2 ^ 31)
    (hsome : markerOffset (text.drop first) = some off) (hlate : 2 ^ 31 ≤ off + first)
    (hlen : off + first < 2 ^ 32 - 1) :
    stripComment text first = if 2 ^ 31 ≤ off then some text else none := by
  have hmarker : findMarker text first markers = ((off + first : Nat) : Int) - 2 ^ 32 := by
    rw [markerOffset] at hsome
    rw [findMarker_eq hfirst (by rw [hsome]; rintro off ⟨rfl⟩; exact hlen), hsome,
      Option.map_some, intPos_big hlate (by omega)]
  have hne : ((off + first : Nat) : Int) - 2 ^ 32 ≠ npos := by
    rw [npos]
    omega
  simp only [stripComment, hmarker]
  rw [if_pos hne]
  by_cases hoff : 2 ^ 31 ≤ off
  · have hin : ¬ ((0 : Int) < 0 ∨ (text.length : Int) < 0) := by omega
    rw [if_pos hoff, checked_eq (by omega) (by omega), Option.bind_some, substr, if_neg hin,
      if_pos (by omega), Int.toNat_zero, List.drop_zero]
  · have hover : checked (((off + first : Nat) : Int) - 2 ^ 32 - first) = none :=
      if_neg (by omega)
    rw [if_neg hoff, hover]
    rfl

/-- A marker goes on with bytes that are no blanks. -/
theorem markers_tail : ∀ pat ∈ markers, ∀ c ∈ pat.tail, c ∈ bytes "#/" := by
  decide +kernel

theorem markers_blank : ∀ pat ∈ markers, ∃ c ∈ pat, isBlank c = true := by
  decide +kernel

theorem markers_byte : ∀ pat ∈ markers, ∃ c ∈ bytes "#/", c ∈ pat := by
  decide +kernel

theorem isBlank_markerByte : ∀ c ∈ bytes "#/", isBlank c = false := by
  decide +kernel

/-- Behind a text without markers, at a byte that none goes on with, the search starts
anew. -/
theorem markerOffset_append (htext : ∀ pat ∈ markers, ¬ pat <:+: text)
    (hbehind : ∀ c ∈ behind.head?, c ∉ bytes "#/") :
    markerOffset (text ++ behind) = (markerOffset behind).map (· + text.length) := by
  have hshift : ∀ pat ∈ markers,
      firstMatch pat (text ++ behind) = (firstMatch pat behind).map (· + text.length) := by
    intro pat hpat
    refine firstMatch_append_of_not_infix (htext pat hpat) ?_
    intro c hc hmem
    exact hbehind c hc (markers_tail pat hpat c hmem)
  rw [markerOffset, markerOffset, List.map_findSome?]
  generalize markers = pats at hshift
  induction pats with
  | nil => rfl
  | cons pat pats ih =>
      have hrest := ih fun q hq => hshift q (List.mem_cons_of_mem pat hq)
      rw [List.findSome?_cons, List.findSome?_cons, hshift pat List.mem_cons_self, hrest]
      rfl

/-- Without the bytes of a marker there is none. -/
theorem markerOffset_none (htext : ∀ c ∈ bytes "#/", c ∉ text) : markerOffset text = none := by
  refine List.findSome?_eq_none_iff.mpr ?_
  intro pat hpat
  refine firstMatch_eq_none ?_
  intro hstands
  obtain ⟨c, hc, hmem⟩ := markers_byte pat hpat
  exact htext c hc (hstands.mem hmem)

theorem not_markerByte {c : UInt8} (hc : isBlank c = true) : c ∉ bytes "#/" := by
  intro hmem
  rw [isBlank_markerByte c hmem] at hc
  exact Bool.false_ne_true hc

/-- Behind a text without markers blanks add none. -/
theorem markerOffset_blanks (htext : ∀ pat ∈ markers, ¬ pat <:+: text)
    (hblank : ∀ c ∈ behind, isBlank c = true) : markerOffset (text ++ behind) = none := by
  rw [markerOffset_append htext
      (fun c hc => not_markerByte (hblank c (List.mem_of_mem_head? hc))),
    markerOffset_none fun c hc => not_mem_blanks hblank (isBlank_markerByte c hc)]
  rfl

theorem markerOffset_le {off : Nat} (hoff : markerOffset text = some off) :
    off ≤ text.length := by
  obtain ⟨pat, hpat, hmatch⟩ := List.exists_of_findSome?_eq_some hoff
  have hne : ∀ pat ∈ markers, 0 < pat.length := by
    decide +kernel
  have hpos := hne pat hpat
  have hstands := (firstMatch_spec hmatch).length_le
  rw [List.length_drop] at hstands
  omega

end Comments

/-! ## Values without a comment -/

section Plain

variable {left core right : List UInt8}

/-- A text without a comment is kept. -/
theorem stripComment_plain (hplain : markerOffset (core ++ right) = none) :
    stripComment (left ++ core ++ right) left.length = some (left ++ core ++ right) := by
  refine stripComment_none ?_ ?_
  · simp only [List.length_append]
    omega
  · rw [List.append_assoc, List.drop_left, hplain]

/-- The value of a text without a comment. -/
theorem valueText_plain (hleft : ∀ c ∈ left, isBlank c = true) (hcore : Trimmed isBlank core)
    (hright : ∀ c ∈ right, isBlank c = true) (hplain : markerOffset (core ++ right) = none)
    (hlen : left.length + core.length ≤ 2 ^ 31) (hcount : core.length < 2 ^ 31) :
    valueText (left ++ core ++ right) = some (some core) :=
  valueText_of_strip (findIdx?_surrounded hleft hcore) (stripComment_plain hplain) hcore hright
    hlen hcount

theorem findMarker_neg {text : List UInt8} {first : Int} (hneg : first < 0)
    (pats : List (List UInt8)) : findMarker text first pats = npos := by
  induction pats with
  | nil => rfl
  | cons pat pats ih =>
      have hnone : findFrom text pat first = none := if_pos hneg
      simp only [findMarker, hnone]
      exact ih

/-- Behind `2 ^ 31` blanks there is no value: `substr` throws. -/
theorem valueText_late (hleft : ∀ c ∈ left, isBlank c = true) (hcore : Trimmed isBlank core)
    (hright : ∀ c ∈ right, isBlank c = true) (hlate : 2 ^ 31 ≤ left.length)
    (hlen : (left ++ core ++ right).length < 2 ^ 32 - 1) :
    valueText (left ++ core ++ right) = none := by
  simp only [List.length_append] at hlen
  have hpos := List.length_pos_of_ne_nil hcore.ne_nil
  have hfirst : intPos (firstNonBlank (left ++ core ++ right)) = left.length - 2 ^ 32 := by
    rw [show firstNonBlank (left ++ core ++ right) = some left.length from
      findIdx?_surrounded hleft hcore, intPos_big (by omega) (by omega)]
  have hlast : intPos (lastNonBlank (left ++ core ++ right)) =
      (left.length + core.length - 1 : Nat) - 2 ^ 32 := by
    rw [show lastNonBlank (left ++ core ++ right) = some (left.length + core.length - 1) from
      lastIdx?_surrounded hcore hright, intPos_big (by omega) (by omega)]
  have hneg : ((left.length : Int) - 2 ^ 32) < 0 := by omega
  have hstrip : stripComment (left ++ core ++ right) (left.length - 2 ^ 32) =
      some (left ++ core ++ right) := by
    simp only [stripComment, findMarker_neg hneg]
    exact if_neg (not_not.mpr rfl)
  have hfound : ¬ ((left.length : Int) - 2 ^ 32 = npos ∨
      ((left.length + core.length - 1 : Nat) : Int) - 2 ^ 32 = npos) := by
    rw [npos]
    omega
  simp only [valueText, hfirst, hstrip, Option.bind_eq_bind, Option.bind_some, hlast]
  rw [if_neg hfound, substrTo_neg hneg, Option.map_none]

/-- A value that does not fit an `int` is kept with all that stands behind it, where the
count of its bytes is negative, and is undefined where the count overflows. -/
theorem valueText_long (hleft : ∀ c ∈ left, isBlank c = true) (hcore : Trimmed isBlank core)
    (hright : ∀ c ∈ right, isBlank c = true) (hstart : left.length < 2 ^ 31)
    (hstrip : stripComment (left ++ core ++ right) left.length = some (left ++ core ++ right))
    (hlong : ¬ (left.length + core.length ≤ 2 ^ 31 ∧ core.length < 2 ^ 31))
    (hlen : (left ++ core ++ right).length < 2 ^ 32 - 1) :
    valueText (left ++ core ++ right) =
      if 2 ^ 31 < core.length then some (some (core ++ right)) else none := by
  have hpos := List.length_pos_of_ne_nil hcore.ne_nil
  have hfirst : firstNonBlank (left ++ core ++ right) = some left.length :=
    findIdx?_surrounded hleft hcore
  have hlast : lastNonBlank (left ++ core ++ right) =
      some (left.length + core.length - 1) := lastIdx?_surrounded hcore hright
  simp only [List.length_append] at hlen
  have hfound : ¬ ((left.length : Int) = npos ∨
      intPos (some (left.length + core.length - 1)) = npos) :=
    not_or.mpr ⟨by rw [npos]; omega, intPos_ne_npos (by omega)⟩
  simp only [valueText, hfirst, intPos_some hstart, hstrip, Option.bind_eq_bind,
    Option.bind_some, hlast]
  rw [if_neg hfound]
  by_cases hcount : 2 ^ 31 < core.length
  · have hdrop : substrTo (left ++ core ++ right) left.length
        (intPos (some (left.length + core.length - 1))) = some (core ++ right) := by
      have hdistance : ((left.length + core.length - 1 : Nat) : Int) - 2 ^ 32 - left.length =
          (core.length : Int) - 1 - 2 ^ 32 := by omega
      have hnext : (core.length : Int) - 1 - 2 ^ 32 + 1 = core.length - 2 ^ 32 := by omega
      have hthere : ¬ ((left.length : Int) < 0 ∨
          ((left ++ core ++ right).length : Int) < left.length) := by
        simp only [List.length_append]
        omega
      rw [intPos_big (by omega) (by omega), substrTo, hdistance,
        checked_eq (by omega) (by omega), Option.bind_eq_bind, Option.bind_some, hnext,
        checked_eq (by omega) (by omega), Option.bind_some, substr, if_neg hthere,
        if_pos (by omega), Int.toNat_natCast, List.append_assoc, List.drop_left]
    rw [hdrop, if_pos hcount, Option.map_some]
  · rw [if_neg hcount]
    by_cases hsmall : left.length + core.length - 1 < 2 ^ 31
    · have hdistance : ((left.length + core.length - 1 : Nat) : Int) - left.length =
          2 ^ 31 - 1 := by omega
      have hover : checked ((2 : Int) ^ 31 - 1 + 1) = none := if_neg (by omega)
      rw [intPos_some hsmall, substrTo, hdistance, checked_eq (by omega) (by omega),
        Option.bind_eq_bind, Option.bind_some, hover]
      rfl
    · have hover : checked (((left.length + core.length - 1 : Nat) : Int) - 2 ^ 32 -
          left.length) = none := if_neg (by omega)
      rw [intPos_big (by omega) (by omega), substrTo, hover]
      rfl

/-- **The lengths decide** whether a value without a comment is what is stored. -/
theorem valueText_core_iff (hleft : ∀ c ∈ left, isBlank c = true) (hcore : Trimmed isBlank core)
    (hright : ∀ c ∈ right, isBlank c = true) (hplain : markerOffset (core ++ right) = none)
    (hlen : left.length + core.length ≤ 2 ^ 31 ∧ core.length < 2 ^ 31 ∨
      (left ++ core ++ right).length < 2 ^ 32 - 1) :
    valueText (left ++ core ++ right) = some (some core) ↔
      left.length + core.length ≤ 2 ^ 31 ∧ core.length < 2 ^ 31 ∨
        left.length < 2 ^ 31 ∧ 2 ^ 31 < core.length ∧ right = [] := by
  by_cases hfit : left.length + core.length ≤ 2 ^ 31 ∧ core.length < 2 ^ 31
  · rw [valueText_plain hleft hcore hright hplain hfit.1 hfit.2]
    exact ⟨fun _ => Or.inl hfit, fun _ => rfl⟩
  have hbound := hlen.resolve_left hfit
  rw [or_iff_right hfit]
  by_cases hlate : 2 ^ 31 ≤ left.length
  · rw [valueText_late hleft hcore hright hlate hbound]
    exact ⟨fun h => absurd h (by simp), fun h => absurd h.1 (Nat.not_lt.mpr hlate)⟩
  have hstart : left.length < 2 ^ 31 := Nat.lt_of_not_le hlate
  rw [valueText_long hleft hcore hright hstart (stripComment_plain hplain) hfit hbound]
  by_cases hlong : 2 ^ 31 < core.length
  · rw [if_pos hlong, Option.some.injEq, Option.some.injEq, List.append_right_eq_self]
    exact ⟨fun hnil => ⟨hstart, hlong, hnil⟩, fun h => h.2.2⟩
  · rw [if_neg hlong]
    exact ⟨fun h => absurd h (by simp), fun h => absurd h.2.1 hlong⟩

end Plain

/-! ## Comments behind `2 ^ 31` bytes -/

section Far

variable {left core right : List UInt8} {off : Nat}

/-- A marker ends before the blanks at the end of a text. -/
theorem lt_length_of_markerOffset (hright : ∀ c ∈ right, isBlank c = true)
    (hoff : markerOffset (core ++ right) = some off) : off + 1 < core.length := by
  obtain ⟨pat, hpat, hmatch⟩ := List.exists_of_findSome?_eq_some hoff
  have hlong : ∀ pat ∈ markers, pat.tail ≠ [] := by
    decide +kernel
  obtain ⟨c, hc⟩ := List.exists_mem_of_ne_nil _ (hlong pat hpat)
  by_contra hshort
  have hstands : pat.tail <+: (core ++ right).drop (off + 1) := by
    obtain ⟨rest, hrest⟩ := firstMatch_spec hmatch
    refine ⟨rest, ?_⟩
    rw [← List.tail_drop, ← hrest, List.tail_append_of_ne_nil]
    exact fun hnil => hlong pat hpat (by rw [hnil]; rfl)
  have hmem := hstands.mem hc
  rw [List.drop_append, List.drop_of_length_le (Nat.le_of_not_lt hshort), List.nil_append] at hmem
  have hblank := hright c (List.mem_of_mem_drop hmem)
  rw [isBlank_markerByte c (markers_tail pat hpat c hc)] at hblank
  exact absurd hblank (by decide)

/-- **A comment behind `2 ^ 31` bytes** is kept with the value, or the text is undefined. -/
theorem valueText_far (hleft : ∀ c ∈ left, isBlank c = true) (hcore : Trimmed isBlank core)
    (hright : ∀ c ∈ right, isBlank c = true) (hstart : left.length < 2 ^ 31)
    (hoff : markerOffset (core ++ right) = some off) (hfar : 2 ^ 31 ≤ left.length + off)
    (hlen : (left ++ core ++ right).length < 2 ^ 32 - 1) :
    valueText (left ++ core ++ right) =
      if 2 ^ 31 ≤ off then some (some (core ++ right)) else none := by
  have hend := lt_length_of_markerOffset hright hoff
  have hdrop : markerOffset ((left ++ core ++ right).drop left.length) = some off := by
    rw [List.append_assoc, List.drop_left, hoff]
  have hsum := hlen
  simp only [List.length_append] at hsum
  have hstrip := stripComment_late (by simp only [List.length_append]; omega) hstart hdrop
    (by omega) (by omega)
  by_cases hlong : 2 ^ 31 ≤ off
  · rw [if_pos hlong] at hstrip ⊢
    rw [valueText_long hleft hcore hright hstart hstrip (by omega) hlen, if_pos (by omega)]
  · rw [if_neg hlong] at hstrip ⊢
    have hfirst : firstNonBlank (left ++ core ++ right) = some left.length :=
      findIdx?_surrounded hleft hcore
    simp only [valueText, hfirst, intPos_some hstart, hstrip, Option.bind_eq_bind,
      Option.bind_none]

end Far

/-! ## Line ends -/

section LineEnds

variable {inbuf text : List UInt8}

/-- A byte that `subbuf` looks for. -/
def isLineEnd (c : UInt8) : Bool := c == ch '\r' || c == ch '\n'

/-- A line without a line end is kept. -/
theorem subbuf_plain (htext : ∀ c ∈ text, isLineEnd c = false) : subbuf text = some text := by
  have hlast : lastIdx? (fun c => c == ch '\r' || c == ch '\n') text = none :=
    lastIdx?_eq_none htext
  rw [subbuf, hlast]
  exact if_neg (not_not.mpr rfl)

theorem lastIdx?_return : lastIdx? (fun c => c == ch '\r' || c == ch '\n')
    (text ++ [ch '\r']) = some text.length :=
  lastIdx?_split (by decide) (fun c hc => absurd hc List.not_mem_nil)

/-- A line loses the carriage return at its end. -/
theorem subbuf_return (hlen : text.length < 2 ^ 31) :
    subbuf (text ++ [ch '\r']) = some text := by
  rw [subbuf, lastIdx?_return]
  refine (if_pos (intPos_ne_npos (by omega))).trans ?_
  rw [intPos_some hlen, substr_take, List.take_left]

/-- A carriage return behind `2 ^ 31` bytes or more stays: its position is negative. -/
theorem subbuf_keeps (hlow : 2 ^ 31 ≤ text.length) (hhigh : text.length < 2 ^ 32 - 1) :
    subbuf (text ++ [ch '\r']) = some (text ++ [ch '\r']) := by
  have hfound : ¬ (text.length : Int) - 2 ^ 32 = npos := by
    rw [npos]
    omega
  have hin : ¬ ((0 : Int) < 0 ∨ ((text ++ [ch '\r']).length : Int) < 0) := by omega
  rw [subbuf, lastIdx?_return]
  simp only [intPos_big hlow (show text.length < 2 ^ 32 by omega)]
  rw [if_pos hfound, substr, if_neg hin, if_pos (by omega)]
  rfl

/-- A line of `2 ^ 32` bytes is lost with it. -/
theorem subbuf_wrapped (hlen : text.length = 2 ^ 32) :
    subbuf (text ++ [ch '\r']) = some [] := by
  have hzero : intPos (some text.length) = 0 := by
    rw [hlen]
    decide +kernel
  rw [subbuf, lastIdx?_return]
  simp only [hzero]
  exact substr_take (n := 0)

/-- Whatever is cut off a line, it is off its end. -/
theorem subbuf_prefix (inbuf : List UInt8) : ∃ text, subbuf inbuf = some text ∧ text <+: inbuf := by
  simp only [subbuf]
  split
  · simp only [substr, Int.toNat_zero, List.drop_zero]
    split
    · omega
    · split
      · exact ⟨inbuf, rfl, List.prefix_rfl⟩
      · exact ⟨_, rfl, List.take_prefix _ inbuf⟩
  · exact ⟨inbuf, rfl, List.prefix_rfl⟩

end LineEnds

/-! ## Lines -/

section Lines

variable {a : Analyzeini} {line K W S : List UInt8}

/-- A line has a `[` and a `]`, and the first `[` is not the byte behind the last `]`. -/
def Bracketed (line : List UInt8) : Prop :=
  ∃ i j, line.findIdx? (· == ch '[') = some i ∧ lastIdx? (· == ch ']') line = some j ∧ i ≠ j + 1

instance (line : List UInt8) : Decidable (Bracketed line) :=
  match hi : line.findIdx? (· == ch '['), hj : lastIdx? (· == ch ']') line with
  | some i, some j => decidable_of_iff (i ≠ j + 1) (by simp [Bracketed, hi, hj])
  | none, _ => isFalse (by simp [Bracketed, hi])
  | _, none => isFalse (by simp [Bracketed, hj])

/-- The line sets no section: of `[` and `]` it has one kind at most, or its first `[` is
right behind its last `]`, at a position that an `int` holds or has another number for. -/
def Quiet (line : List UInt8) : Prop :=
  ∀ i j, line.findIdx? (· == ch '[') = some i → lastIdx? (· == ch ']') line = some j →
    i = j + 1 ∧ (j + 1 < 2 ^ 31 ∨ 2 ^ 31 < j + 1 ∧ line.length < 2 ^ 32 - 1)

/-- The test for a section, with both brackets in the line. -/
theorem opensSection_both {i j : Nat} (hi : line.findIdx? (· == ch '[') = some i)
    (hj : lastIdx? (· == ch ']') line = some j) (hi' : i < 2 ^ 32 - 1) (hj' : j < 2 ^ 32 - 1) :
    opensSection line =
      (checked (intPos (some j) + 1)).map (decide <| intPos (some i) ≠ ·) := by
  rw [opensSection, hi, hj]
  exact if_pos ⟨intPos_ne_npos hi', intPos_ne_npos hj'⟩

theorem Quiet.opensSection (hquiet : Quiet line) : opensSection line = some false := by
  cases hi : line.findIdx? (· == ch '[') with
  | none => simp [Ports.opensSection, hi, intPos]
  | some i =>
      cases hj : lastIdx? (· == ch ']') line with
      | none => simp [Ports.opensSection, hj, intPos]
      | some j =>
          obtain ⟨rfl, hpos⟩ := hquiet i j hi hj
          have hlt := findIdx?_lt hi
          rw [opensSection_both hi hj (by omega) (by omega)]
          rcases hpos with hshort | ⟨hlong, hlen⟩
          · rw [intPos_some hshort, intPos_some (Nat.lt_of_succ_lt hshort),
              checked_eq (by omega) (by omega), Option.map_some, Option.some.injEq,
              decide_eq_false_iff_not, not_not, Nat.cast_succ]
          · rw [intPos_big (by omega) (by omega), intPos_big (by omega) (by omega),
              checked_eq (by omega) (by omega), Option.map_some, Option.some.injEq,
              decide_eq_false_iff_not]
            omega

/-- A line whose positions do not wrap around twice sets no section but in these cases. -/
theorem quiet_of_opensSection (hlen : line.length < 2 ^ 32 - 1)
    (hopen : opensSection line = some false) : Quiet line := by
  intro i j hi hj
  have hi' := findIdx?_lt hi
  have hj' := lastIdx?_lt hj
  rw [opensSection_both hi hj (by omega) (by omega), Option.map_eq_some_iff] at hopen
  obtain ⟨next, hnext, hsame⟩ := hopen
  rw [decide_eq_false_iff_not, not_not] at hsame
  obtain ⟨hrange, hvalue⟩ := checked_range hnext
  rw [← hsame] at hvalue
  rcases intPos_cases (show i < 2 ^ 32 by omega) with ⟨hlow, hpos⟩ | ⟨hlow, hpos⟩ <;>
    rcases intPos_cases (show j < 2 ^ 32 by omega) with ⟨hlow', hpos'⟩ | ⟨hlow', hpos'⟩ <;>
    rw [hpos'] at hvalue hrange <;> rw [hpos] at hvalue <;> omega

/-- A line that sets one has brackets that matter. -/
theorem bracketed_of_opensSection (hopen : opensSection line = some true) : Bracketed line := by
  rw [opensSection] at hopen
  split at hopen
  · obtain ⟨hfirst, hlast⟩ := ‹_ ∧ _›
    cases hi : line.findIdx? (· == ch '[') with
    | none => exact absurd (by rw [hi]; rfl) hfirst
    | some i =>
        cases hj : lastIdx? (· == ch ']') line with
        | none => exact absurd (by rw [hj]; rfl) hlast
        | some j =>
            rw [hi, hj, Option.map_eq_some_iff] at hopen
            obtain ⟨next, hnext, hne⟩ := hopen
            obtain ⟨hrange, rfl⟩ := checked_range hnext
            refine ⟨i, j, hi, hj, ?_⟩
            rintro rfl
            refine of_decide_eq_true hne ?_
            simp only [intPos, toInt32] at hrange ⊢
            split <;> omega
  · exact absurd hopen (by simp)

theorem findByte_eq_none {c : UInt8} (hline : c ∉ line) : line.findIdx? (· == c) = none := by
  exact List.findIdx?_eq_none_iff.mpr (beq_of_not_mem hline)

theorem findByte_split {c : UInt8} (hK : c ∉ K) :
    (K ++ c :: W).findIdx? (· == c) = some K.length := by
  exact findIdx?_split (beq_self_eq_true c) (beq_of_not_mem hK)

theorem findByte_last {c : UInt8} (hW : c ∉ W) :
    lastIdx? (· == c) (K ++ c :: W) = some K.length :=
  lastIdx?_split (beq_self_eq_true c) (beq_of_not_mem hW)

theorem opensSection_of_not_mem (hopen : ch '[' ∉ line) : opensSection line = some false := by
  rw [opensSection, findByte_eq_none hopen]
  simp [intPos]

/-- What is stored under a key. -/
def Analyzeini.stored (a : Analyzeini) (strkey : List UInt8) : Option (List UInt8) → Analyzeini
  | none => a
  | some value => { a with pmap := a.pmap.insert (mapKey a.strsect strkey) value }

/-- A line with `=` that sets no section, within one. -/
theorem operator_equals (hsect : a.strsect ≠ [])
    (hopen : opensSection (K ++ ch '=' :: W) = some false) (hK : ch '=' ∉ K)
    (hlen : K.length + 1 < 2 ^ 31) :
    a.operator (K ++ ch '=' :: W) = (keyText K).bind fun key =>
      match key with
      | none => some a
      | some strkey => (valueText W).map (a.stored strkey) := by
  have hfirst : (K ++ ch '=' :: W).findIdx? (· == ch '=') = some K.length := findByte_split hK
  have htmp1 : substr (K ++ ch '=' :: W) 0 K.length = some K := by
    rw [substr_take, List.take_left]
  have htmp2 : substr (K ++ ch '=' :: W) (K.length + 1 : Nat) npos = some W := by
    have hrest := substr_drop (s := K ++ ch '=' :: W) (n := K.length + 1) (by simp)
    rwa [List.drop_length_add_append, List.drop_one, List.tail_cons] at hrest
  have hpos : checked ((K.length : Int) + 1) = some ((K.length + 1 : Nat) : Int) := by
    rw [← Nat.cast_succ]
    exact checked_nat hlen
  have hfound : ¬ (K.length : Int) = npos := by
    rw [npos]
    omega
  simp only [Analyzeini.operator, hopen, hfirst, intPos_some (Nat.lt_of_succ_lt hlen),
    if_neg hsect, if_neg hfound, htmp1, hpos, htmp2, Option.bind_eq_bind, Option.bind_some,
    Bool.false_eq_true, if_false]
  cases keyText K with
  | none => rfl
  | some key =>
      cases key with
      | none => rfl
      | some strkey =>
          cases valueText W with
          | none => rfl
          | some value => cases value <;> rfl

/-- Behind `2 ^ 31 - 1` bytes no `=` is found. -/
theorem operator_late (hsect : a.strsect ≠ [])
    (hopen : opensSection (K ++ ch '=' :: W) = some false) (hK : ch '=' ∉ K)
    (hlate : 2 ^ 31 ≤ K.length + 1) (hlen : K.length < 2 ^ 32 - 1) :
    a.operator (K ++ ch '=' :: W) = none := by
  have hfirst : (K ++ ch '=' :: W).findIdx? (· == ch '=') = some K.length := findByte_split hK
  by_cases hsmall : K.length < 2 ^ 31
  · have hfound : ¬ (K.length : Int) = npos := by
      rw [npos]
      omega
    have hover : checked ((K.length : Int) + 1) = none := if_neg (by omega)
    simp only [Analyzeini.operator, hopen, hfirst, intPos_some hsmall, if_neg hsect,
      if_neg hfound, hover, Option.bind_eq_bind, Option.bind_some, Option.bind_none,
      Bool.false_eq_true, if_false, Option.bind_fun_none]
  · have hfound : ¬ (K.length : Int) - 2 ^ 32 = npos := by
      rw [npos]
      omega
    have hneg : (K.length : Int) - 2 ^ 32 + 1 < 0 := by omega
    have hpos : checked ((K.length : Int) - 2 ^ 32 + 1) = some ((K.length : Int) - 2 ^ 32 + 1) :=
      checked_eq (by omega) (by omega)
    simp only [Analyzeini.operator, hopen, hfirst,
      intPos_big (Nat.le_of_not_lt hsmall) (show K.length < 2 ^ 32 by omega), if_neg hsect,
      if_neg hfound, hpos, substr_neg hneg, Option.bind_eq_bind, Option.bind_some,
      Option.bind_none, Bool.false_eq_true, if_false, Option.bind_fun_none]

/-- **A line with `=`** that sets no section stores the value behind it under the
text before it, within a section. -/
theorem operator_key (hsect : a.strsect ≠ [])
    (hopen : opensSection (K ++ ch '=' :: W) = some false) (hK : ch '=' ∉ K)
    (htext : ∃ c ∈ K, isBlank c = false) (hlen : K.length + 1 < 2 ^ 31) :
    a.operator (K ++ ch '=' :: W) = (valueText W).map (a.stored (trim isBlank K)) := by
  rw [operator_equals hsect hopen hK hlen, keyText_eq htext (Nat.lt_of_succ_lt hlen)]
  rfl

/-- Without a key nothing is stored. -/
theorem operator_blank (hsect : a.strsect ≠ [])
    (hopen : opensSection (K ++ ch '=' :: W) = some false) (hK : ch '=' ∉ K)
    (hblank : ∀ c ∈ K, isBlank c = true) (hlen : K.length + 1 < 2 ^ 31) :
    a.operator (K ++ ch '=' :: W) = some a := by
  have hfirst : firstNonBlank K = none :=
    List.findIdx?_eq_none_iff.mpr fun c hc => by rw [hblank c hc]; rfl
  have hkey : keyText K = some none := by
    simp only [keyText, hfirst]
    exact if_pos (Or.inl rfl)
  rw [operator_equals hsect hopen hK hlen, hkey]
  rfl

/-- Within any section, the line stores a value under a key and does nothing else. -/
def Stores (line strkey value : List UInt8) : Prop :=
  ∀ a : Analyzeini, a.strsect ≠ [] → a.operator line = some (a.stored strkey (some value))

/-- What is stored is seen from the outcome in a section with an empty map. -/
theorem Stores.run {strkey V : List UInt8} (hstores : Stores line strkey V) :
    ∃ a', (Analyzeini.mk [0] ∅).operator line = some a' ∧
      a'.pmap.lookup (mapKey [0] strkey) = some V :=
  ⟨_, hstores _ (List.cons_ne_nil 0 []), AList.lookup_insert ∅⟩

/-- A line that stores something sets no section. -/
theorem Stores.opensSection {strkey V : List UInt8} (hstores : Stores line strkey V) :
    opensSection line = some false := by
  obtain ⟨a', hrun, hlookup⟩ := hstores.run
  cases hopen : Ports.opensSection line with
  | none =>
      rw [Analyzeini.operator, hopen] at hrun
      exact absurd hrun (by simp)
  | some opens =>
      cases opens with
      | true =>
          rw [Analyzeini.operator, hopen, Option.bind_eq_bind, Option.bind_some, if_pos rfl,
            Option.map_eq_some_iff] at hrun
          obtain ⟨strsect, -, rfl⟩ := hrun
          rw [AList.lookup_empty] at hlookup
          exact absurd hlookup (by simp)
      | false => rfl

/-- Its `=` is where an `int` finds it. -/
theorem Stores.length_lt {strkey V : List UInt8} (hstores : Stores (K ++ ch '=' :: W) strkey V)
    (hK : ch '=' ∉ K) (hlen : K.length < 2 ^ 32 - 1) : K.length + 1 < 2 ^ 31 := by
  by_contra hlate
  obtain ⟨a', hrun, -⟩ := hstores.run
  rw [operator_late (List.cons_ne_nil 0 []) hstores.opensSection hK (Nat.le_of_not_lt hlate)
    hlen] at hrun
  exact absurd hrun (by simp)

/-- A line with `=` stores the value behind it, unless it sets a section. -/
theorem stores_iff {V : List UInt8} (hK : ch '=' ∉ K) (htext : ∃ c ∈ K, isBlank c = false)
    (hlen : K.length + 1 < 2 ^ 31) : Stores (K ++ ch '=' :: W) (trim isBlank K) V ↔
      opensSection (K ++ ch '=' :: W) = some false ∧ valueText W = some (some V) := by
  constructor
  · intro hstores
    obtain ⟨a', hrun, hlookup⟩ := hstores.run
    have hopen := hstores.opensSection
    refine ⟨hopen, ?_⟩
    rw [operator_key (List.cons_ne_nil 0 []) hopen hK htext hlen, Option.map_eq_some_iff] at hrun
    obtain ⟨value, hvalue, rfl⟩ := hrun
    cases value with
    | none =>
        rw [Analyzeini.stored, AList.lookup_empty] at hlookup
        exact absurd hlookup (by simp)
    | some value =>
        rw [Analyzeini.stored, AList.lookup_insert] at hlookup
        exact hvalue.trans (congrArg some hlookup)
  · rintro ⟨hopen, hvalue⟩ a hsect
    rw [operator_key hsect hopen hK htext hlen, hvalue]
    rfl

/-- A line whose brackets matter sets the section to what stands between them, for positions
that an `int` holds. -/
theorem operator_bracketed {i j : Nat} (hi : line.findIdx? (· == ch '[') = some i)
    (hj : lastIdx? (· == ch ']') line = some j) (hi' : i + 1 < 2 ^ 31) (hj' : j + 1 < 2 ^ 31)
    (hne : i ≠ j + 1) (hname : substr line (i + 1 : Nat) ((j : Int) - i - 1) = some S) :
    a.operator line = some { a with strsect := S } := by
  have hopen : opensSection line = some true := by
    rw [opensSection_both hi hj (by omega) (by omega), intPos_some (Nat.lt_of_succ_lt hi'),
      intPos_some (Nat.lt_of_succ_lt hj'), checked_eq (by omega) (by omega), Option.map_some,
      Option.some.injEq, decide_eq_true_eq]
    omega
  have hpos : checked ((i : Int) + 1) = some ((i + 1 : Nat) : Int) := checked_nat hi'
  have hsection : sectionName line = some S := by
    rw [sectionName, hi, hj, intPos_some (Nat.lt_of_succ_lt hi'),
      intPos_some (Nat.lt_of_succ_lt hj'), hpos, Option.bind_eq_bind, Option.bind_some,
      checked_eq (by omega) (by omega), Option.bind_some, checked_eq (by omega) (by omega),
      Option.bind_some, hname]
  rw [Analyzeini.operator, hopen, Option.bind_eq_bind, Option.bind_some, if_pos rfl, hsection,
    Option.map_some]

/-- **A section line** sets the section to what stands in the brackets. -/
theorem operator_section (hlen : S.length + 2 < 2 ^ 31) :
    a.operator (ch '[' :: S ++ [ch ']']) = some { a with strsect := S } := by
  have hfirst : (ch '[' :: S ++ [ch ']']).findIdx? (· == ch '[') = some 0 := by
    simp [List.findIdx?_cons]
  have hlast : lastIdx? (· == ch ']') (ch '[' :: S ++ [ch ']']) = some (S.length + 1) :=
    lastIdx?_split (beq_self_eq_true (ch ']'))
      (fun x hx => absurd hx List.not_mem_nil)
  have hcount : ((S.length + 1 : Nat) : Int) - (0 : Nat) - 1 = S.length := by omega
  have hmiddle := substr_middle (x := [ch '[']) (y := S) (z := [ch ']'])
  refine operator_bracketed hfirst hlast (by decide) hlen (by omega) ?_
  rw [hcount]
  exact hmiddle

/-- A line without `=` that sets no section. -/
theorem operator_other (hopen : opensSection line = some false) (hline : ch '=' ∉ line) :
    a.operator line = some a := by
  have hfirst : intPos (line.findIdx? (· == ch '=')) = npos := by
    rw [findByte_eq_none hline]
    rfl
  simp [Analyzeini.operator, hopen, hfirst]

/-- Before the first section, a line that sets none is passed over. -/
theorem operator_outside (hsect : a.strsect = []) (hopen : opensSection line = some false) :
    a.operator line = some a := by
  simp [Analyzeini.operator, hopen, hsect]

/-- A line that sets no section keeps the one before. -/
theorem operator_strsect {a' : Analyzeini} (hopen : opensSection line = some false)
    (hrun : a.operator line = some a') : a'.strsect = a.strsect := by
  simp only [Analyzeini.operator, hopen, Option.bind_eq_bind, Option.bind_some,
    Bool.false_eq_true, if_false] at hrun
  split at hrun
  · rw [Option.some.inj hrun]
  · split at hrun
    · rw [Option.some.inj hrun]
    · obtain ⟨strtmp1, -, hrun⟩ := Option.bind_eq_some_iff.mp hrun
      obtain ⟨pos, -, hrun⟩ := Option.bind_eq_some_iff.mp hrun
      obtain ⟨strtmp2, -, hrun⟩ := Option.bind_eq_some_iff.mp hrun
      obtain ⟨strkey, -, hrun⟩ := Option.bind_eq_some_iff.mp hrun
      cases strkey with
      | none => rw [Option.some.inj hrun]
      | some strkey =>
          obtain ⟨value, -, hrun⟩ := Option.bind_eq_some_iff.mp hrun
          cases value with
          | none => rw [Option.some.inj hrun]
          | some value => rw [← Option.some.inj hrun]

/-- The first `*` of a map key is that of the separator. -/
theorem mapKey_findIdx? (hS : ch '*' ∉ S) :
    (mapKey S K).findIdx? (· == ch '*') = some (S.length + 5) := by
  have hsplit : mapKey S K = (S ++ bytes "_____") ++ ch '*' :: (bytes "**_______" ++ K) := by
    rw [mapKey, MIDDLESTRING, show bytes "_____***_______" =
      bytes "_____" ++ ch '*' :: bytes "**_______" by decide +kernel]
    simp
  have hbefore : ch '*' ∉ S ++ bytes "_____" := by
    rw [List.mem_append, not_or]
    exact ⟨hS, by decide +kernel⟩
  rw [hsplit, findByte_split hbefore, List.length_append]
  rfl

/-- **A section and a key** are told from their concatenation when neither has a `*`. -/
theorem mapKey_inj {S' K' : List UInt8} (hS : ch '*' ∉ S) (hK : ch '*' ∉ K) :
    mapKey S' K' = mapKey S K ↔ S' = S ∧ K' = K := by
  constructor
  · intro heq
    have hcount := congrArg (List.count (ch '*')) heq
    simp only [mapKey, List.count_append, List.count_eq_zero_of_not_mem hS,
      List.count_eq_zero_of_not_mem hK] at hcount
    have hS' : ch '*' ∉ S' := List.count_eq_zero.mp (by omega)
    have hlen : S'.length = S.length := by
      have hstar := congrArg (List.findIdx? (· == ch '*')) heq
      rw [mapKey_findIdx? hS', mapKey_findIdx? hS] at hstar
      simpa using hstar
    obtain ⟨hsect, hrest⟩ := List.append_inj
      ((List.append_assoc S' MIDDLESTRING K').symm.trans
        (heq.trans (List.append_assoc S MIDDLESTRING K))) hlen
    exact ⟨hsect, List.append_cancel_left hrest⟩
  · rintro ⟨rfl, rfl⟩
    rfl

end Lines

end MyGenSvr.Ports
