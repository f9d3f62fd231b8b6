import MyGenSvr.Ports.IniFile

/-!
# Brackets in values

Whether a line sets the section is decided before its `=` is looked for, by the first
`[` and the last `]` anywhere in it.  A value with both is taken for a section name,
and every key behind that line goes to a section that no header of the file names; so
it is with every other line that shows a name in brackets.

## Main results

* `operator_shows`, `operator_quiet_iff` — what a line does to the section.
* `brackets_spare_iff` — the values are stored and the keys stay under their headers
  exactly when no value has both brackets, but for a `[` right behind the last `]`, and
  no other line shows a name but that of the header above it, in lengths that an `int` can
  take.
* `bracketed_value_opens` — `"j=[x]"` stores nothing and opens the section `x`.
-/

namespace MyGenSvr.Ports

open MyGenSvr.Verified.Text

/-- A key line whose key has no brackets and whose value has no comment. -/
structure ValueLine where
  K : List UInt8
  V : List UInt8
  no_equals : ch '=' ∉ K
  no_open : ch '[' ∉ K
  no_close : ch ']' ∉ K
  key : ∃ c ∈ K, isBlank c = false
  value : ∃ c ∈ V, isBlank c = false
  plain : ∀ pat ∈ markers, ¬ pat <:+: V

namespace ValueLine

def text (l : ValueLine) : List UInt8 := l.K ++ ch '=' :: l.V

/-- The line stores its value under its key. -/
def StoresValue (l : ValueLine) : Prop := Stores l.text (trim isBlank l.K) (trim isBlank l.V)

end ValueLine

/-- The name in a header: a name in brackets with nothing but blanks in front of it, and
no other bracket in the line. -/
def headerName (line : List UInt8) : Option (List UInt8) :=
  match line.dropWhile isBlank with
  | [] => none
  | c :: rest =>
      if c = ch '[' ∧ ch '[' ∉ rest ∧ rest.count (ch ']') = 1 then
        some (rest.takeWhile (· ≠ ch ']'))
      else none

/-- The section behind some lines by their headers. -/
def sectionAfter (strsect : List UInt8) (lines : List (List UInt8)) : List UInt8 :=
  lines.foldl (fun strsect line => (headerName line).getD strsect) strsect

/-- The lines with values are stored, and the keys stay under their headers: whatever
the lines read so far, the section is that of the last header among them. -/
structure SectionsHold (strvect : List (List UInt8)) : Prop where
  stores : ∀ l : ValueLine, l.text ∈ strvect → l.StoresValue
  under : ∀ lines behind, strvect = lines ++ behind → ∀ a : Analyzeini,
    ∃ a', lines.foldlM Analyzeini.operator a = some a' ∧
      a'.strsect = sectionAfter a.strsect lines

/-- The name that a line shows: what stands between its first `[` and its last `]`, or all
behind the first `[` if that comes later, but not right behind the last `]`. -/
def ShowsName (line S : List UInt8) : Prop :=
  (∃ x y, line = x ++ ch '[' :: (S ++ ch ']' :: y) ∧ ch '[' ∉ x ∧ ch ']' ∉ y) ∨
    ∃ x y, line = x ++ ch ']' :: (y ++ ch '[' :: S) ∧ y ≠ [] ∧ ch '[' ∉ x ++ y ∧ ch ']' ∉ y ++ S

/-! ## Lengths that an `int` can take -/

/-- A text behind `=`, without a comment, of which no more and no less is stored than what
stands between the blanks at its ends. -/
def WholeValue (V : List UInt8) : Prop :=
  (V.takeWhile isBlank).length + (trim isBlank V).length ≤ 2 ^ 31 ∧
      (trim isBlank V).length < 2 ^ 31 ∨
    ((V.takeWhile isBlank).length < 2 ^ 31 ∧ 2 ^ 31 < (trim isBlank V).length ∧
      V.dropWhile isBlank = trim isBlank V) ∧ V.length < 2 ^ 32 - 1

/-- A text behind `=` in which no `int` overflows and no text is asked for that starts at a
negative position: it is blank, or it starts where an `int` finds it, and a value without a
comment, or what stands before the comment, is short enough or longer than `2 ^ 31` bytes. -/
def ValueDefined (W : List UInt8) : Prop :=
  (∀ c ∈ W, isBlank c = true) ∨ (W.takeWhile isBlank).length < 2 ^ 31 ∧
    match markerOffset (W.dropWhile isBlank) with
    | none =>
        (W.takeWhile isBlank).length + (trim isBlank W).length ≤ 2 ^ 31 ∧
            (trim isBlank W).length < 2 ^ 31 ∨
          2 ^ 31 < (trim isBlank W).length ∧ W.length < 2 ^ 32 - 1
    | some off =>
        (W.takeWhile isBlank).length + off < 2 ^ 31 ∨ 2 ^ 31 ≤ off ∧ W.length < 2 ^ 32 - 1

/-- The same for a line under a section. -/
def LineDefined (line : List UInt8) : Prop :=
  ∀ K W, line = K ++ ch '=' :: W → ch '=' ∉ K →
    K.length + 1 < 2 ^ 31 ∧ ((∃ c ∈ K, isBlank c = false) → ValueDefined W)

/-- The brackets of a line that has both stand where an `int` finds them. -/
def BracketsFit (line : List UInt8) : Prop :=
  ∀ i j, line.findIdx? (· == ch '[') = some i → lastIdx? (· == ch ']') line = some j →
    i + 1 < 2 ^ 31 ∧ j + 1 < 2 ^ 31

/-- The values have no brackets that matter and are stored whole; a line that shows a name
is a header, or shows that of the header above it, and its brackets are found; and on any
other line nothing overflows, unless the section above it has no name. -/
structure BracketsSpare (strvect : List (List UInt8)) : Prop where
  values : ∀ l : ValueLine, l.text ∈ strvect →
    Quiet l.text ∧ l.K.length + 1 < 2 ^ 31 ∧ WholeValue l.V
  names : ∀ lines line behind, strvect = lines ++ line :: behind → ∀ S, ShowsName line S →
    BracketsFit line ∧ (headerName line = none → ∀ strsect, sectionAfter strsect lines = S)
  others : ∀ lines line behind, strvect = lines ++ line :: behind → ¬ Bracketed line →
    Quiet line ∧ ((∀ strsect, sectionAfter strsect lines = []) ∨ LineDefined line)

section Fits

variable {line W : List UInt8}

/-- A short line is defined. -/
theorem lineDefined_of_length (hlen : line.length < 2 ^ 31) : LineDefined line := by
  rintro K W rfl -
  rw [List.length_append, List.length_cons] at hlen
  have htrim := length_trim_le (p := isBlank) W
  refine ⟨by omega, fun _ => Or.inr ⟨by omega, ?_⟩⟩
  cases hoff : markerOffset (W.dropWhile isBlank) with
  | none => exact Or.inl (by omega)
  | some off =>
      have hle := markerOffset_le hoff
      have hW := congrArg List.length (List.takeWhile_append_dropWhile (p := isBlank) (l := W))
      rw [List.length_append] at hW
      exact Or.inl (by omega)

/-- Without brackets that matter it sets no section. -/
theorem quiet_of_length (hlen : line.length < 2 ^ 31) (hnot : ¬ Bracketed line) : Quiet line := by
  intro i j hi hj
  have hi' := findIdx?_lt hi
  have hsame : i = j + 1 := by_contra fun hne => hnot ⟨i, j, hi, hj, hne⟩
  exact ⟨hsame, Or.inl (by omega)⟩

theorem bracketsFit_of_length (hlen : line.length < 2 ^ 31) : BracketsFit line := by
  intro i j hi hj
  have hi' := findIdx?_lt hi
  have hj' := lastIdx?_lt hj
  omega

theorem blanks_of_not_text (htext : ¬ ∃ c ∈ W, isBlank c = false) :
    ∀ c ∈ W, isBlank c = true := by
  intro c hc
  by_contra hne
  exact htext ⟨c, hc, Bool.eq_false_of_not_eq_true hne⟩

/-- A comment that is cut off leaves a value that `substr` can take, or blanks. -/
theorem valueText_cut {left core right : List UInt8} (hW : W = left ++ core ++ right)
    (hleft : ∀ c ∈ left, isBlank c = true) (hcore : Trimmed isBlank core) {off : Nat}
    (hsome : markerOffset (W.drop left.length) = some off) (hfit : left.length + off < 2 ^ 31) :
    ∃ value, valueText W = some value := by
  have hfirst : firstNonBlank W = some left.length := by
    rw [hW]
    exact findIdx?_surrounded hleft hcore
  have hin : left.length ≤ W.length := by
    rw [hW, List.length_append, List.length_append]
    omega
  have hstrip := stripComment_some hin hsome (by omega)
  simp only [valueText, hfirst, intPos_some (show left.length < 2 ^ 31 by omega), hstrip,
    Option.bind_eq_bind, Option.bind_some]
  by_cases hblank : ∃ c ∈ W.take off, (!isBlank c) = true
  · obtain ⟨before, c, behind, hcut, hc, hbehind⟩ := exists_last hblank
    have hlast : lastNonBlank (W.take off) = some before.length := by
      rw [hcut]
      exact lastIdx?_split hc hbehind
    have hlt := lastIdx?_lt hlast
    rw [List.length_take] at hlt
    -- what is no blank does not stand among those in front
    have hle : left.length ≤ before.length := by
      by_contra hless
      have hget : W[before.length]? = some c := by
        rw [← List.take_append_drop off W, hcut]
        simp
      rw [hW, List.append_assoc, List.getElem?_append_left (by omega)] at hget
      have hmem := hleft c (List.mem_of_getElem? hget)
      rw [hmem] at hc
      exact absurd hc (by decide)
    have htake : left.length ≤ (W.take off).length := by
      rw [List.length_take]
      omega
    have hfound : ¬ ((left.length : Int) = npos ∨ (before.length : Int) = npos) := by
      rw [npos]
      omega
    rw [hlast, intPos_some (by omega), if_neg hfound, substrTo_nat hle (by omega),
      substr_nat htake, Option.map_some]
    exact ⟨_, rfl⟩
  · have hlast : lastNonBlank (W.take off) = none :=
      lastIdx?_eq_none fun c hc => Bool.eq_false_iff.mpr fun h => hblank ⟨c, hc, h⟩
    rw [hlast]
    exact ⟨none, if_pos (Or.inr rfl)⟩

theorem valueText_blank (hblank : ∀ c ∈ W, isBlank c = true) : valueText W = some none := by
  have hfirst : firstNonBlank W = none :=
    List.findIdx?_eq_none_iff.mpr fun c hc => by rw [hblank c hc]; rfl
  have hpos : intPos none = npos := rfl
  have hstrip : stripComment W npos = some W := by
    simp only [stripComment, findMarker_neg (show npos < 0 by decide)]
    rfl
  simp only [valueText, hfirst, hpos, hstrip, Option.bind_eq_bind, Option.bind_some,
    true_or, if_true]

/-- The parts of a text that holds more than blanks. -/
theorem exists_parts (htext : ∃ c ∈ W, isBlank c = false) : ∃ left right,
    W = left ++ trim isBlank W ++ right ∧ (∀ c ∈ left, isBlank c = true) ∧
      Trimmed isBlank (trim isBlank W) ∧ (∀ c ∈ right, isBlank c = true) ∧
      W.takeWhile isBlank = left ∧ W.dropWhile isBlank = trim isBlank W ++ right := by
  obtain ⟨left, right, hW, hleft, hcore, hright⟩ := exists_surrounded htext
  have htake : W.takeWhile isBlank = left := by
    conv_lhs => rw [hW]
    exact takeWhile_surrounded hleft hcore
  have hdrop : W.dropWhile isBlank = trim isBlank W ++ right := by
    conv_lhs => rw [hW]
    exact dropWhile_surrounded hleft hcore
  exact ⟨left, right, hW, hleft, hcore, hright, htake, hdrop⟩

section Parts

variable {left core right : List UInt8}

/-- Without a comment, -/
theorem valueText_defined_plain (hleft : ∀ c ∈ left, isBlank c = true)
    (hcore : Trimmed isBlank core) (hright : ∀ c ∈ right, isBlank c = true)
    (hstart : left.length < 2 ^ 31) (hnone : markerOffset (core ++ right) = none)
    (hlen : left.length + core.length ≤ 2 ^ 31 ∧ core.length < 2 ^ 31 ∨
      (left ++ core ++ right).length < 2 ^ 32 - 1) :
    (∃ value, valueText (left ++ core ++ right) = some value) ↔
      left.length + core.length ≤ 2 ^ 31 ∧ core.length < 2 ^ 31 ∨
        2 ^ 31 < core.length ∧ (left ++ core ++ right).length < 2 ^ 32 - 1 := by
  by_cases hfit : left.length + core.length ≤ 2 ^ 31 ∧ core.length < 2 ^ 31
  · rw [valueText_plain hleft hcore hright hnone hfit.1 hfit.2]
    exact ⟨fun _ => Or.inl hfit, fun _ => ⟨_, rfl⟩⟩
  have hbound := hlen.resolve_left hfit
  rw [or_iff_right hfit, and_iff_left hbound,
    valueText_long hleft hcore hright hstart (stripComment_plain hnone) hfit hbound]
  simp

/-- and with one. -/
theorem valueText_defined_comment (hleft : ∀ c ∈ left, isBlank c = true)
    (hcore : Trimmed isBlank core) (hright : ∀ c ∈ right, isBlank c = true)
    (hstart : left.length < 2 ^ 31) {off : Nat} (hoff : markerOffset (core ++ right) = some off)
    (hlen : left.length + off < 2 ^ 31 ∨ (left ++ core ++ right).length < 2 ^ 32 - 1) :
    (∃ value, valueText (left ++ core ++ right) = some value) ↔
      left.length + off < 2 ^ 31 ∨
        2 ^ 31 ≤ off ∧ (left ++ core ++ right).length < 2 ^ 32 - 1 := by
  by_cases hnear : left.length + off < 2 ^ 31
  · have hsome : markerOffset ((left ++ core ++ right).drop left.length) = some off := by
      rw [List.append_assoc, List.drop_left, hoff]
    exact ⟨fun _ => Or.inl hnear, fun _ => valueText_cut rfl hleft hcore hsome hnear⟩
  have hbound := hlen.resolve_left hnear
  rw [or_iff_right hnear, and_iff_left hbound,
    valueText_far hleft hcore hright hstart hoff (Nat.le_of_not_lt hnear) hbound]
  simp

end Parts

/-- **On which texts** behind `=` nothing overflows and nothing is thrown. -/
theorem valueText_defined_iff (hlen : ValueDefined W ∨ W.length < 2 ^ 32 - 1) :
    (∃ value, valueText W = some value) ↔ ValueDefined W := by
  by_cases htext : ∃ c ∈ W, isBlank c = false
  swap
  · have hblank := blanks_of_not_text htext
    exact ⟨fun _ => Or.inl hblank, fun _ => ⟨none, valueText_blank hblank⟩⟩
  have hnot : ¬ ∀ c ∈ W, isBlank c = true := by
    obtain ⟨c, hc, hne⟩ := htext
    exact fun hall => absurd (hall c hc) (by simp [hne])
  obtain ⟨left, right, hW, hleft, hcore, hright, htake, hdrop⟩ := exists_parts htext
  rw [ValueDefined, or_iff_right hnot, htake, hdrop] at hlen ⊢
  generalize trim isBlank W = core at *
  subst hW
  by_cases hlate : 2 ^ 31 ≤ left.length
  · have hbound := hlen.resolve_left fun h => absurd h.1 (Nat.not_lt.mpr hlate)
    rw [valueText_late hleft hcore hright hlate hbound]
    exact ⟨fun h => absurd h (by simp), fun h => absurd h.1 (Nat.not_lt.mpr hlate)⟩
  have hstart : left.length < 2 ^ 31 := Nat.lt_of_not_le hlate
  rw [and_iff_right hstart] at hlen ⊢
  cases hoff : markerOffset (core ++ right) with
  | none =>
      simp only [hoff] at hlen
      refine valueText_defined_plain hleft hcore hright hstart hoff ?_
      exact hlen.elim (fun h => h.imp_right And.right) Or.inr
  | some off =>
      simp only [hoff] at hlen
      refine valueText_defined_comment hleft hcore hright hstart hoff ?_
      exact hlen.elim (fun h => h.imp_right And.right) Or.inr

/-- A line is split at its first `=`. -/
theorem lineDefined_split {K : List UInt8} (hK : ch '=' ∉ K) :
    LineDefined (K ++ ch '=' :: W) ↔
      K.length + 1 < 2 ^ 31 ∧ ((∃ c ∈ K, isBlank c = false) → ValueDefined W) := by
  refine ⟨fun h => h K W rfl hK, ?_⟩
  rintro h K' W' hline hK'
  have hlen : K.length = K'.length := by
    have hfirst := congrArg (List.findIdx? (· == ch '=')) hline
    rwa [findByte_split hK, findByte_split hK', Option.some.injEq] at hfirst
  obtain ⟨rfl, hrest⟩ := List.append_inj hline hlen
  obtain rfl := (List.cons.inj hrest).2
  exact h

/-- **On which lines** under a section nothing overflows and nothing is thrown, of those
that set none. -/
theorem operator_quiet_iff {a : Analyzeini} (hsect : a.strsect ≠ [])
    (hopen : opensSection line = some false)
    (hlen : LineDefined line ∨ line.length < 2 ^ 32 - 1) :
    (∃ a', a.operator line = some a') ↔ LineDefined line := by
  by_cases hequals : ch '=' ∈ line
  swap
  · refine ⟨fun _ K W hline _ => absurd ?_ hequals, fun _ => ⟨a, operator_other hopen hequals⟩⟩
    simp [hline]
  obtain ⟨K, c, W, rfl, hc, hK⟩ :=
    exists_first (show ∃ x ∈ line, (x == ch '=') = true from ⟨_, hequals, by simp⟩)
  obtain rfl := eq_of_beq hc
  have hno : ch '=' ∉ K := fun hmem => by simpa using hK _ hmem
  rw [lineDefined_split hno] at hlen ⊢
  rw [List.length_append, List.length_cons] at hlen
  by_cases hkey : K.length + 1 < 2 ^ 31
  swap
  · have hbound := hlen.resolve_left fun h => hkey h.1
    rw [operator_late hsect hopen hno (Nat.le_of_not_lt hkey) (by omega)]
    exact ⟨fun h => absurd h (by simp), fun h => absurd h.1 hkey⟩
  rw [and_iff_right hkey] at hlen ⊢
  by_cases htext : ∃ c ∈ K, isBlank c = false
  · rw [operator_key hsect hopen hno htext hkey, ← valueText_defined_iff (W := W)]
    · constructor
      · rintro ⟨a', hrun⟩ -
        obtain ⟨value, hvalue, -⟩ := Option.map_eq_some_iff.mp hrun
        exact ⟨value, hvalue⟩
      · intro hvalue
        obtain ⟨value, hvalue⟩ := hvalue htext
        exact ⟨_, Option.map_eq_some_iff.mpr ⟨value, hvalue, rfl⟩⟩
    · exact hlen.imp (fun h => h htext) (by omega)
  · exact ⟨fun _ h => absurd h htext,
      fun _ => ⟨a, operator_blank hsect hopen hno (blanks_of_not_text htext) hkey⟩⟩

/-! ## What a line shows -/

theorem mem_of_findIdx? {c : UInt8} {i : Nat} (hi : line.findIdx? (· == c) = some i) :
    c ∈ line := by
  by_contra hno
  rw [findByte_eq_none hno] at hi
  exact absurd hi (by simp)

theorem mem_of_lastIdx? {c : UInt8} {j : Nat} (hj : lastIdx? (· == c) line = some j) :
    c ∈ line := by
  by_contra hno
  rw [lastIdx?_eq_none (beq_of_not_mem hno)] at hj
  exact absurd hj (by simp)

/-- The first place of a byte. -/
theorem exists_firstByte {c : UInt8} (hmem : c ∈ line) :
    ∃ x y, line = x ++ c :: y ∧ c ∉ x := by
  obtain ⟨x, d, y, hline, hd, hx⟩ :=
    exists_first (show ∃ d ∈ line, (d == c) = true from ⟨c, hmem, beq_self_eq_true c⟩)
  obtain rfl := eq_of_beq hd
  exact ⟨x, y, hline, fun h => by simpa using hx _ h⟩

/-- The last place of a byte. -/
theorem exists_lastByte {c : UInt8} (hmem : c ∈ line) :
    ∃ x y, line = x ++ c :: y ∧ c ∉ y := by
  obtain ⟨x, d, y, hline, hd, hy⟩ :=
    exists_last (show ∃ d ∈ line, (d == c) = true from ⟨c, hmem, beq_self_eq_true c⟩)
  obtain rfl := eq_of_beq hd
  exact ⟨x, y, hline, fun h => by simpa using hy _ h⟩

/-- A line with brackets that matter shows a name. -/
theorem shows_of_bracketed (hboth : Bracketed line) : ∃ S, ShowsName line S := by
  obtain ⟨i, j, hi, hj, hne⟩ := hboth
  obtain ⟨x, rest, rfl, hx⟩ := exists_firstByte (mem_of_findIdx? hi)
  by_cases hrest : ch ']' ∈ rest
  · obtain ⟨S, y, rfl, hy⟩ := exists_lastByte hrest
    exact ⟨S, Or.inl ⟨x, y, rfl, hx, hy⟩⟩
  · have hfront : ch ']' ∈ x := by
      have hmem := mem_of_lastIdx? hj
      rw [List.mem_append, List.mem_cons] at hmem
      rcases hmem with hmem | hmem | hmem
      · exact hmem
      · exact absurd hmem (by decide)
      · exact absurd hmem hrest
    obtain ⟨x, y, rfl, hy⟩ := exists_lastByte hfront
    have hline : x ++ ch ']' :: y ++ ch '[' :: rest = x ++ ch ']' :: (y ++ ch '[' :: rest) := by
      rw [List.append_assoc, List.cons_append]
    rw [List.mem_append, List.mem_cons, not_or, not_or] at hx
    refine ⟨rest, Or.inr ⟨x, y, hline, ?_, ?_, ?_⟩⟩
    · rintro rfl
      rw [findByte_split (by simp [hx.1, hx.2.1])] at hi
      rw [hline, findByte_last (by simp [hrest]; decide)] at hj
      obtain rfl := Option.some.inj hi
      obtain rfl := Option.some.inj hj
      simp at hne
    · simp [hx.1, hx.2.2]
    · simp [hy, hrest]

/-- The name that a line shows is what `substr` takes from its brackets. -/
theorem ShowsName.found {S : List UInt8} (hshows : ShowsName line S) :
    ∃ i j, line.findIdx? (· == ch '[') = some i ∧ lastIdx? (· == ch ']') line = some j ∧
      i ≠ j + 1 ∧ substr line (i + 1 : Nat) ((j : Int) - i - 1) = some S := by
  rcases hshows with ⟨x, y, rfl, hx, hy⟩ | ⟨x, y, rfl, hne, hx, hy⟩
  · have hj : lastIdx? (· == ch ']') (x ++ ch '[' :: (S ++ ch ']' :: y)) =
        some (x.length + (S.length + 1)) := by
      have hsplit : x ++ ch '[' :: (S ++ ch ']' :: y) =
          (x ++ ch '[' :: S) ++ ch ']' :: y := by simp
      rw [hsplit, findByte_last hy, List.length_append, List.length_cons]
    have hcount : ((x.length + (S.length + 1) : Nat) : Int) - x.length - 1 = S.length := by
      omega
    have hmiddle := substr_middle (x := x ++ [ch '[']) (y := S) (z := ch ']' :: y)
    rw [List.length_append, List.length_singleton] at hmiddle
    refine ⟨_, _, findByte_split hx, hj, by omega, ?_⟩
    rw [hcount, ← hmiddle]
    simp
  · have hpos := List.length_pos_of_ne_nil hne
    have hfront : ch '[' ∉ x ++ ch ']' :: y := by
      rw [List.mem_append, not_or] at hx
      simp only [List.mem_append, List.mem_cons, not_or]
      exact ⟨hx.1, by decide, hx.2⟩
    have hback : ch ']' ∉ y ++ ch '[' :: S := by
      rw [List.mem_append, not_or] at hy
      simp only [List.mem_append, List.mem_cons, not_or]
      exact ⟨hy.1, by decide, hy.2⟩
    have hi : (x ++ ch ']' :: (y ++ ch '[' :: S)).findIdx? (· == ch '[') =
        some (x.length + (y.length + 1)) := by
      have hsplit : x ++ ch ']' :: (y ++ ch '[' :: S) =
          (x ++ ch ']' :: y) ++ ch '[' :: S := by simp
      rw [hsplit, findByte_split hfront, List.length_append, List.length_cons]
    refine ⟨_, _, hi, findByte_last hback, by omega, ?_⟩
    have hcount : (x.length : Int) - (x.length + (y.length + 1) : Nat) - 1 < 0 := by omega
    have hdrop : (x ++ ch ']' :: (y ++ ch '[' :: S)).drop (x.length + (y.length + 1) + 1) = S := by
      have hsplit : x ++ ch ']' :: (y ++ ch '[' :: S) =
          (x ++ ch ']' :: (y ++ [ch '['])) ++ S := by simp
      rw [hsplit]
      exact List.drop_left' (by simp; omega)
    have hin : ¬ (((x.length + (y.length + 1) + 1 : Nat) : Int) < 0 ∨
        ((x ++ ch ']' :: (y ++ ch '[' :: S)).length : Int) <
          ((x.length + (y.length + 1) + 1 : Nat) : Int)) := by
      simp only [List.length_append, List.length_cons]
      omega
    rw [substr, if_neg hin, if_pos hcount, Int.toNat_natCast, hdrop]

theorem ShowsName.bracketed {S : List UInt8} (hshows : ShowsName line S) : Bracketed line := by
  obtain ⟨i, j, hi, hj, hne, -⟩ := hshows.found
  exact ⟨i, j, hi, hj, hne⟩

/-- **A line that shows a name** sets the section to it. -/
theorem operator_shows (hfit : BracketsFit line) {S : List UInt8} (hshows : ShowsName line S)
    (a : Analyzeini) : a.operator line = some { a with strsect := S } := by
  obtain ⟨i, j, hi, hj, hne, hname⟩ := hshows.found
  obtain ⟨hi', hj'⟩ := hfit i j hi hj
  exact operator_bracketed hi hj hi' hj' hne hname

/-- A name is taken from its place, or from the first `[` to the end of the line. -/
theorem sectionName_some {i j : Nat} (hi : line.findIdx? (· == ch '[') = some i)
    (hj : lastIdx? (· == ch ']') line = some j) (hlen : line.length < 2 ^ 32 - 1)
    {S : List UInt8} (hname : sectionName line = some S) :
    i + 1 < 2 ^ 31 ∧ (j < 2 ^ 31 ∨ i < j ∧ S = line.drop (i + 1)) := by
  have hi' := findIdx?_lt hi
  have hj' := lastIdx?_lt hj
  rw [sectionName, hi, hj] at hname
  obtain ⟨pos, hpos, hname⟩ := Option.bind_eq_some_iff.mp hname
  obtain ⟨distance, hdistance, hname⟩ := Option.bind_eq_some_iff.mp hname
  obtain ⟨count, hcount, hname⟩ := Option.bind_eq_some_iff.mp hname
  obtain ⟨hpos, rfl⟩ := checked_range hpos
  obtain ⟨-, rfl⟩ := checked_range hdistance
  obtain ⟨-, rfl⟩ := checked_range hcount
  rcases intPos_cases (show i < 2 ^ 32 by omega) with ⟨hfirst, hpos'⟩ | ⟨hfirst, hpos'⟩
  swap
  · rw [hpos', substr_neg (by omega)] at hname
    exact absurd hname (by simp)
  rw [hpos'] at hpos hname
  rcases intPos_cases (show j < 2 ^ 32 by omega) with ⟨hlast, -⟩ | ⟨hlast, hlast'⟩
  · exact ⟨by omega, Or.inl hlast⟩
  · have hin : ¬ ((i : Int) + 1 < 0 ∨ (line.length : Int) < (i : Int) + 1) := by omega
    rw [hlast', substr, if_neg hin, if_pos (by omega), Option.some.injEq] at hname
    exact ⟨by omega, Or.inr ⟨by omega, hname.symm⟩⟩

/-- Where the brackets of such a line are not found, it throws, or sets the section to all
that stands behind its first `[`. -/
theorem bracketsFit_of_operator (hlen : line.length < 2 ^ 32 - 1) (hboth : Bracketed line)
    {a a' : Analyzeini} (hrun : a.operator line = some a') (hname : ch ']' ∉ a'.strsect) :
    BracketsFit line := by
  intro i j hi hj
  obtain ⟨i', j', hi', hj', hne⟩ := hboth
  obtain rfl := Option.some.inj (hi.symm.trans hi')
  obtain rfl := Option.some.inj (hj.symm.trans hj')
  have hi'' := findIdx?_lt hi
  have hj'' := lastIdx?_lt hj
  obtain ⟨opens, hopens, hrun⟩ := Option.bind_eq_some_iff.mp hrun
  cases opens with
  | false => exact absurd (quiet_of_opensSection hlen hopens i j hi hj).1 hne
  | true =>
      rw [if_pos rfl, Option.map_eq_some_iff] at hrun
      obtain ⟨S, hsection, rfl⟩ := hrun
      rw [opensSection_both hi hj (by omega) (by omega), Option.map_eq_some_iff] at hopens
      obtain ⟨next, hnext, -⟩ := hopens
      have hrange := (checked_range hnext).1
      obtain ⟨hfirst, hlast | ⟨hbehind, rfl⟩⟩ := sectionName_some hi hj hlen hsection
      · rw [intPos_some hlast] at hrange
        exact ⟨hfirst, by omega⟩
      · obtain ⟨x, y, hline, hy⟩ := exists_lastByte (mem_of_lastIdx? hj)
        rw [hline, findByte_last hy, Option.some.injEq] at hj
        rw [hline, List.drop_append_of_le_length (by omega)] at hname
        exact absurd (List.mem_append_right _ List.mem_cons_self) hname

/-- A header shows its name. -/
theorem shows_headerName {S : List UInt8} (hname : headerName line = some S) :
    ShowsName line S := by
  have hline := List.takeWhile_append_dropWhile (p := isBlank) (l := line)
  rw [headerName] at hname
  cases hrest : line.dropWhile isBlank with
  | nil =>
      rw [hrest] at hname
      exact absurd hname (by simp)
  | cons c rest =>
      rw [hrest, Option.ite_none_right_eq_some] at hname
      obtain ⟨⟨rfl, hopen, hclose⟩, hname⟩ := hname
      have hmem : ch ']' ∈ rest := List.count_pos_iff.mp (by omega)
      obtain ⟨S', y, rfl, hS'⟩ := exists_firstByte hmem
      have hy : ch ']' ∉ y := by
        rw [List.count_append, List.count_cons_self] at hclose
        exact List.count_eq_zero.mp (by omega)
      have htake : (S' ++ ch ']' :: y).takeWhile (· ≠ ch ']') = S' := by
        have hall : ∀ d ∈ S', decide (d ≠ ch ']') = true := fun d hd =>
          decide_eq_true fun heq : d = ch ']' => hS' (heq ▸ hd)
        rw [List.takeWhile_append_of_pos hall]
        simp
      obtain rfl := (Option.some.inj hname).symm.trans htake
      have hblank : ch '[' ∉ line.takeWhile isBlank :=
        not_mem_blanks (fun d hd => List.mem_takeWhile_imp hd) (by decide)
      rw [hrest] at hline
      exact Or.inl ⟨_, y, hline.symm, hblank, hy⟩

end Fits

/-! ## The theorem -/

theorem ValueLine.length_text (l : ValueLine) :
    l.text.length = l.K.length + 1 + l.V.length := by
  simp only [text, List.length_append, List.length_cons]
  omega

/-- A value without a comment is stored exactly if it is whole. -/
theorem valueText_whole_iff {V : List UInt8} (htext : ∃ c ∈ V, isBlank c = false)
    (hplain : ∀ pat ∈ markers, ¬ pat <:+: V) (hlen : WholeValue V ∨ V.length < 2 ^ 32 - 1) :
    valueText V = some (some (trim isBlank V)) ↔ WholeValue V := by
  obtain ⟨left, right, hV, hleft, hcore, hright, htake, hdrop⟩ := exists_parts htext
  have hinfix : trim isBlank V <:+: V := ⟨left, right, hV.symm⟩
  have hnone : markerOffset (trim isBlank V ++ right) = none :=
    markerOffset_blanks (fun pat hpat hstands => hplain pat hpat (hstands.trans hinfix)) hright
  rw [WholeValue, htake, hdrop, List.append_right_eq_self] at hlen ⊢
  generalize trim isBlank V = core at *
  subst hV
  by_cases hbound : (left ++ core ++ right).length < 2 ^ 32 - 1
  · rw [valueText_core_iff hleft hcore hright hnone (Or.inr hbound), and_iff_left hbound]
  · have hfit := (hlen.resolve_right hbound).resolve_right fun h => hbound h.2
    rw [valueText_plain hleft hcore hright hnone hfit.1 hfit.2]
    exact ⟨fun _ => Or.inl hfit, fun _ => rfl⟩

/-- **When the value of a line is stored.** -/
theorem ValueLine.storesValue_of {l : ValueLine} (hquiet : Quiet l.text)
    (hkey : l.K.length + 1 < 2 ^ 31) (hwhole : WholeValue l.V) : l.StoresValue :=
  (stores_iff l.no_equals l.key hkey).mpr
    ⟨hquiet.opensSection, (valueText_whole_iff l.value l.plain (Or.inl hwhole)).mpr hwhole⟩

theorem ValueLine.of_storesValue {l : ValueLine} (hlen : l.text.length < 2 ^ 32 - 1)
    (hstores : l.StoresValue) : Quiet l.text ∧ l.K.length + 1 < 2 ^ 31 ∧ WholeValue l.V := by
  have hsum := l.length_text
  have hkey : l.K.length + 1 < 2 ^ 31 := Stores.length_lt hstores l.no_equals (by omega)
  obtain ⟨hopen, hvalue⟩ := (stores_iff l.no_equals l.key hkey).mp hstores
  exact ⟨quiet_of_opensSection hlen hopen, hkey,
    (valueText_whole_iff l.value l.plain (Or.inr (by omega))).mp hvalue⟩

/-- A short line with a value stores it, unless its brackets matter. -/
theorem ValueLine.fits_of_length (l : ValueLine) (hlen : l.text.length < 2 ^ 31)
    (hnot : ¬ Bracketed l.text) : Quiet l.text ∧ l.K.length + 1 < 2 ^ 31 ∧ WholeValue l.V := by
  have htrim := length_trim_le (p := isBlank) l.V
  have hsum := l.length_text
  exact ⟨quiet_of_length hlen hnot, by omega, Or.inl (by omega)⟩

theorem sectionAfter_append (strsect : List UInt8) (lines : List (List UInt8))
    (line : List UInt8) : sectionAfter strsect (lines ++ [line]) =
      (headerName line).getD (sectionAfter strsect lines) := by
  rw [sectionAfter, List.foldl_append]
  rfl

/-- A run over lines of which only headers show names, but for names that change nothing. -/
theorem sectionsHold_of_spare {strvect : List (List UInt8)} (hspare : BracketsSpare strvect) :
    SectionsHold strvect := by
  refine ⟨fun l hmem => ?_, ?_⟩
  · obtain ⟨hquiet, hkey, hwhole⟩ := hspare.values l hmem
    exact ValueLine.storesValue_of hquiet hkey hwhole
  intro lines
  induction lines using List.reverseRecOn with
  | nil => exact fun _ _ a => ⟨a, rfl, rfl⟩
  | append_singleton lines line ih =>
      intro behind hsplit a
      rw [List.append_assoc, List.singleton_append] at hsplit
      obtain ⟨a₁, hrun, hsect⟩ := ih _ hsplit a
      suffices hstep : ∃ a', a₁.operator line = some a' ∧
          a'.strsect = (headerName line).getD (sectionAfter a.strsect lines) by
        obtain ⟨a', hstep, hsect'⟩ := hstep
        refine ⟨a', ?_, hsect'.trans (sectionAfter_append _ _ _).symm⟩
        simp [List.foldlM_append, hrun, hstep]
      by_cases hshows : ∃ S, ShowsName line S
      · obtain ⟨S, hshows⟩ := hshows
        obtain ⟨hfit, hsame⟩ := hspare.names lines line behind hsplit S hshows
        refine ⟨_, operator_shows hfit hshows a₁, ?_⟩
        cases hname : headerName line with
        | none => exact (hsame hname _).symm
        | some S' =>
            obtain ⟨i, j, hi, hj, -, hS⟩ := hshows.found
            obtain ⟨i', j', hi', hj', -, hS'⟩ := (shows_headerName hname).found
            obtain rfl := Option.some.inj (hi.symm.trans hi')
            obtain rfl := Option.some.inj (hj.symm.trans hj')
            exact Option.some.inj (hS.symm.trans hS')
      · have hquiet : ¬ Bracketed line := fun hboth => hshows (shows_of_bracketed hboth)
        obtain ⟨hopen, hdefined⟩ := hspare.others lines line behind hsplit hquiet
        obtain ⟨a', hstep⟩ : ∃ a', a₁.operator line = some a' := by
          by_cases hnil : a₁.strsect = []
          · exact ⟨a₁, operator_outside hnil hopen.opensSection⟩
          · have hline := hdefined.resolve_left fun h => hnil (hsect.trans (h a.strsect))
            exact (operator_quiet_iff hnil hopen.opensSection (Or.inl hline)).mpr hline
        refine ⟨a', hstep, ?_⟩
        cases hname : headerName line with
        | none => exact (operator_strsect hopen.opensSection hstep).trans hsect
        | some S => exact absurd ⟨S, shows_headerName hname⟩ hshows

/-- A section by the headers has no `]` in its name, if the first has none. -/
theorem close_not_mem_sectionAfter {strsect : List UInt8} (hstart : ch ']' ∉ strsect)
    (lines : List (List UInt8)) : ch ']' ∉ sectionAfter strsect lines := by
  induction lines using List.reverseRecOn with
  | nil => exact hstart
  | append_singleton lines line ih =>
      rw [sectionAfter_append]
      cases hname : headerName line with
      | none => exact ih
      | some S =>
          intro hmem
          rw [Option.getD_some] at hmem
          rw [headerName] at hname
          split at hname
          · exact absurd hname (by simp)
          · rw [Option.ite_none_right_eq_some] at hname
            rw [← Option.some.inj hname.2] at hmem
            exact absurd (List.mem_takeWhile_imp hmem) (by simp)

/-- What one line does where the sections hold, behind those before it. -/
theorem SectionsHold.step {strvect lines behind : List (List UInt8)} {line : List UInt8}
    (hholds : SectionsHold strvect) (hsplit : strvect = lines ++ line :: behind)
    (strsect : List UInt8) :
    ∃ a a' : Analyzeini, a.strsect = sectionAfter strsect lines ∧ a.operator line = some a' ∧
      a'.strsect = sectionAfter strsect (lines ++ [line]) := by
  obtain ⟨a, hrun, hsect⟩ := hholds.under lines (line :: behind) hsplit ⟨strsect, ∅⟩
  obtain ⟨a', hrun', hsect'⟩ :=
    hholds.under (lines ++ [line]) behind (by simp [hsplit]) ⟨strsect, ∅⟩
  rw [List.foldlM_append, hrun, Option.bind_eq_bind, Option.bind_some, List.foldlM_cons,
    Option.bind_eq_bind] at hrun'
  obtain ⟨a'', hstep, heq⟩ := Option.bind_eq_some_iff.mp hrun'
  obtain rfl := Option.some.inj heq
  exact ⟨a, a'', hsect, hstep, hsect'⟩

/-- **Brackets in values** are harmless, in a file as a whole, exactly when no line with
a value has both, but for a `[` right behind the last `]`, and no other line shows a name
but that of the header above it, with lengths that an `int` can take: this is enough for
every file, and needed by every file whose lines have fewer than `2 ^ 32 - 1` bytes. -/
theorem brackets_spare_iff (strvect : List (List UInt8)) :
    (BracketsSpare strvect → SectionsHold strvect) ∧
      ((∀ line ∈ strvect, line.length < 2 ^ 32 - 1) →
        SectionsHold strvect → BracketsSpare strvect) := by
  refine ⟨sectionsHold_of_spare, fun hlen hholds => ?_⟩
  refine ⟨fun l hmem => ValueLine.of_storesValue (hlen _ hmem) (hholds.stores l hmem), ?_, ?_⟩
  · intro lines line behind hsplit S hshows
    have hfit : BracketsFit line := by
      obtain ⟨a, a', -, hrun, hsect'⟩ := hholds.step hsplit []
      refine bracketsFit_of_operator (hlen line (by simp [hsplit])) hshows.bracketed hrun ?_
      rw [hsect']
      exact close_not_mem_sectionAfter List.not_mem_nil _
    refine ⟨hfit, fun hname strsect => ?_⟩
    obtain ⟨a, a', -, hrun, hsect'⟩ := hholds.step hsplit strsect
    rw [operator_shows hfit hshows] at hrun
    obtain rfl := Option.some.inj hrun
    rw [sectionAfter_append, hname, Option.getD_none] at hsect'
    exact hsect'.symm
  · intro lines line behind hsplit hnot
    have hline : line.length < 2 ^ 32 - 1 := hlen line (by simp [hsplit])
    have hquiet : Quiet line := by
      obtain ⟨a, a', -, hrun, -⟩ := hholds.step hsplit []
      obtain ⟨opens, hopens, -⟩ := Option.bind_eq_some_iff.mp hrun
      cases opens with
      | true => exact absurd (bracketed_of_opensSection hopens) hnot
      | false => exact quiet_of_opensSection hline hopens
    refine ⟨hquiet, or_iff_not_imp_left.mpr fun hnamed => ?_⟩
    obtain ⟨strsect, hne⟩ := not_forall.mp hnamed
    obtain ⟨a, a', hsect, hrun, -⟩ := hholds.step hsplit strsect
    exact (operator_quiet_iff (hsect ▸ hne) hquiet.opensSection (Or.inr hline)).mp ⟨a', hrun⟩

/-- A value whose `[` follows its `]` directly is stored, and `i` stays under `s`. -/
theorem brackets_spare_iff_adjacent : SectionsHold [bytes "[s]", bytes "j=][", bytes "i=1"] := by
  have hlines : ∀ line ∈ [bytes "[s]", bytes "j=][", bytes "i=1"],
      line.length < 2 ^ 31 ∧ (ch '=' ∈ line → ¬ Bracketed line) ∧
        (headerName line = none → ¬ Bracketed line) := by decide +kernel
  refine (brackets_spare_iff _).1 ⟨?_, ?_, ?_⟩
  · intro l hmem
    obtain ⟨hlen, hvalue, -⟩ := hlines _ hmem
    exact l.fits_of_length hlen (hvalue (by simp [ValueLine.text]))
  · intro lines line behind hsplit S hshows
    obtain ⟨hlen, -, hother⟩ := hlines line (by simp [hsplit])
    exact ⟨bracketsFit_of_length hlen, fun hname => absurd hshows.bracketed (hother hname)⟩
  · intro lines line behind hsplit hnot
    obtain ⟨hlen, -, -⟩ := hlines line (by simp [hsplit])
    exact ⟨quiet_of_length hlen hnot, Or.inr (lineDefined_of_length hlen)⟩

/-- The line `j=[x]`. -/
def bracketValue : ValueLine where
  K := bytes "j"
  V := bytes "[x]"
  no_equals := by decide
  no_open := by decide
  no_close := by decide
  key := ⟨ch 'j', by decide, by decide⟩
  value := ⟨ch 'x', by decide, by decide⟩
  plain := by decide +kernel

/-- **A value opens a section**: the line stores nothing, and what follows is looked up
under `x`. -/
theorem bracketed_value_opens :
    ¬ SectionsHold [bytes "[s]", bracketValue.text, bytes "i=1"] := by
  intro hholds
  have hstores := hholds.stores bracketValue (by simp)
  have hrun := hstores ⟨bytes "s", ∅⟩ (by decide)
  have hopens : (Analyzeini.mk (bytes "s") ∅).operator bracketValue.text =
      some ⟨bytes "x", ∅⟩ := rfl
  rw [hopens, Option.some.injEq] at hrun
  have hsect : bytes "x" = bytes "s" := congrArg Analyzeini.strsect hrun
  exact absurd hsect (by decide)

end MyGenSvr.Ports
