import MyGenSvr.Ports.IniFile

/-!
# Comments behind values

A key line `K = B V C` with blanks `B`, a value `V` and a comment `C`.  The search
for the comment gives a position in `B V C`, and `substr` is called with its distance
from the first byte of `V`, but from position 0: what is kept ends `B.length` bytes
before the comment that was found.  And the comment that is found is the first one
of the first kind of marker that occurs, not the first one.

## Main results

* `comment_spares_iff` — the value is stored exactly when these two cancel out.
* `last_letter_eaten` — `"n= vw #"` stores the value cut short.
-/

namespace MyGenSvr.Ports

open MyGenSvr.Verified.Text

/-- A key line with a value and a comment. -/
structure CommentLine where
  K : List UInt8
  B : List UInt8
  V : List UInt8
  C : List UInt8
  no_equals : ch '=' ∉ K
  key : ∃ c ∈ K, isBlank c = false
  blank : ∀ c ∈ B, isBlank c = true
  value : Trimmed isBlank V
  plain : ∀ pat ∈ markers, ¬ pat <:+: V
  comment : C = [] ∨ ∃ pat ∈ markers, pat <+: C
  no_open : ch '[' ∉ C
  no_close : ch ']' ∉ C

namespace CommentLine

variable (l : CommentLine)

/-- What stands behind the `=`. -/
def rest : List UInt8 := l.B ++ l.V ++ l.C

def text : List UInt8 := l.K ++ ch '=' :: l.rest

/-- The line stores its value under its key. -/
def StoresValue : Prop := Stores l.text (trim isBlank l.K) l.V

/-- No section is set, and what is kept ends right behind the value: there is no comment and
the value has a length that an `int` can count, or is kept to the end of the line, or the
marker that is found stands as far behind the value as the value behind the `=`, or one byte
further. -/
structure Spares : Prop where
  key : l.K.length + 1 < 2 ^ 31
  quiet : Quiet l.text
  plain : markerOffset l.C = none →
    l.B.length + l.V.length ≤ 2 ^ 31 ∧ l.V.length < 2 ^ 31 ∨
      l.B.length < 2 ^ 31 ∧ 2 ^ 31 < l.V.length ∧ l.text.length < 2 ^ 32 - 1
  marker : ∀ off, markerOffset l.C = some off →
    (off = l.B.length ∨ off = l.B.length + 1) ∧ l.B.length + l.V.length + off < 2 ^ 31

variable {l}

/-- A comment starts with a blank. -/
theorem head_blank : ∀ c ∈ l.C.head?, isBlank c = true := by
  intro c hc
  rcases l.comment with hnil | ⟨pat, hpat, rest, hC⟩
  · rw [hnil] at hc
    exact absurd hc (by simp)
  · have hhead : ∀ pat ∈ markers, ∃ d, pat.head? = some d ∧ isBlank d = true := by
      decide +kernel
    obtain ⟨d, hd, hblank⟩ := hhead pat hpat
    rw [← hC, List.head?_append, hd] at hc
    obtain rfl := Option.some.inj hc
    exact hblank

/-- The search finds what it would find in the comment alone. -/
theorem markerOffset_rest : markerOffset (l.rest.drop l.B.length) =
    (markerOffset l.C).map (· + l.V.length) := by
  rw [rest, List.append_assoc, List.drop_left,
    markerOffset_append l.plain fun c hc => not_markerByte (head_blank c hc)]

theorem first_rest : firstNonBlank l.rest = some l.B.length :=
  findIdx?_surrounded l.blank l.value

theorem length_le_rest : l.B.length ≤ l.rest.length := by
  simp only [rest, List.length_append]
  omega

/-- A line without a marker in its comment has none. -/
theorem nil_of_markerOffset (hnone : markerOffset l.C = none) : l.C = [] := by
  rcases l.comment with hnil | ⟨pat, hpat, hstart⟩
  · exact hnil
  · have hmatch := List.findSome?_eq_none_iff.mp hnone pat hpat
    rw [firstMatch_start hstart] at hmatch
    exact absurd hmatch (by simp)

/-- Behind the blank, a comment goes on with a byte that is none. -/
theorem second_nonBlank (hlong : 2 ≤ l.C.length) :
    ∃ c₀ c₁ C, l.C = c₀ :: c₁ :: C ∧ isBlank c₁ = false := by
  rcases l.comment with hnil | ⟨pat, hpat, rest, hC⟩
  · rw [hnil] at hlong
    exact absurd hlong (by decide)
  · have htwo : ∀ pat ∈ markers, 2 ≤ pat.length := by
      decide +kernel
    match pat, htwo pat hpat, markers_tail pat hpat with
    | c₀ :: c₁ :: t, _, htail =>
        exact ⟨c₀, c₁, t ++ rest, hC.symm,
          isBlank_markerByte c₁ (htail c₁ List.mem_cons_self)⟩

/-- The cut, seen from the value. -/
theorem take_rest (k : Nat) :
    l.rest.take (l.B.length + k + l.V.length) = l.B ++ l.V ++ l.C.take k := by
  have hlen : l.B.length + k + l.V.length = (l.B ++ l.V).length + k := by
    rw [List.length_append]
    omega
  rw [hlen, rest, List.take_length_add_append]

theorem V_pos : 0 < l.V.length := List.length_pos_of_ne_nil l.value.ne_nil

/-- Without a comment the value is stored exactly for these lengths. -/
theorem valueText_plain_iff (hnil : l.C = []) (hlen : l.B.length + l.V.length < 2 ^ 32 - 1) :
    valueText l.rest = some (some l.V) ↔
      l.B.length + l.V.length ≤ 2 ^ 31 ∧ l.V.length < 2 ^ 31 ∨
        l.B.length < 2 ^ 31 ∧ 2 ^ 31 < l.V.length := by
  have hsum : (l.B ++ l.V ++ []).length < 2 ^ 32 - 1 := by
    simp only [List.length_append, List.length_nil]
    omega
  rw [rest, hnil, valueText_core_iff l.blank l.value blank_nil
    (markerOffset_blanks l.plain blank_nil) (Or.inr hsum), and_iff_left rfl]

/-- A marker that is found in the comment, from the first byte of the value on. -/
theorem markerOffset_some {off : Nat} (hoff : markerOffset l.C = some off) :
    markerOffset (l.rest.drop l.B.length) = some (off + l.V.length) := by
  rw [markerOffset_rest, hoff]
  rfl

/-- The value is stored when the cut falls right behind it. -/
theorem valueText_cut {off : Nat} (hoff : markerOffset l.C = some off)
    (hcut : off = l.B.length ∨ off = l.B.length + 1)
    (hmarker : l.B.length + l.V.length + off < 2 ^ 31) :
    valueText l.rest = some (some l.V) := by
  obtain ⟨k, hk, rfl⟩ : ∃ k, k ≤ 1 ∧ off = l.B.length + k := by
    rcases hcut with h | h
    · exact ⟨0, Nat.zero_le 1, h⟩
    · exact ⟨1, le_rfl, h⟩
  have hstrip := stripComment_some length_le_rest (markerOffset_some hoff) (by omega)
  rw [take_rest] at hstrip
  refine valueText_of_strip first_rest hstrip l.value ?_ (by omega) (by omega)
  intro c hc
  have hfirst : c ∈ l.C.take 1 := (List.take_prefix_take_left hk).mem hc
  rw [List.take_one, Option.mem_toList] at hfirst
  exact head_blank c hfirst

/-- When a byte of the marker is left over, what is stored ends no earlier than there. -/
theorem substrTo_ne_value {k : Nat} (hin : k + 2 ≤ l.C.length)
    (hlen : l.B.length + l.V.length + (k + 2) < 2 ^ 31) :
    substrTo (l.B ++ l.V ++ l.C.take (k + 2)) l.B.length
      (intPos (lastNonBlank (l.B ++ l.V ++ l.C.take (k + 2)))) ≠ some l.V := by
  intro hsub
  obtain ⟨c₀, c₁, C, hC, hc₁⟩ := second_nonBlank (l := l) (by omega)
  have hcut : l.B ++ l.V ++ l.C.take (k + 2) = (l.B ++ l.V ++ [c₀]) ++ c₁ :: C.take k := by
    simp [hC]
  rw [hcut] at hsub
  obtain ⟨last, hlast, hge, hlt⟩ : ∃ last,
      lastNonBlank ((l.B ++ l.V ++ [c₀]) ++ c₁ :: C.take k) = some last ∧
        (l.B ++ l.V ++ [c₀]).length ≤ last ∧
        last < ((l.B ++ l.V ++ [c₀]) ++ c₁ :: C.take k).length :=
    le_lastIdx? (by simp [hc₁])
  have hC' := congrArg List.length hC
  simp only [List.length_append, List.length_cons, List.length_nil, List.length_take]
    at hge hlt hC'
  rw [hlast, intPos_some (by omega), substrTo_nat (by omega) (by omega), substr_nat (by simp),
    Option.some.injEq] at hsub
  have hends := congrArg List.length hsub
  simp only [List.length_take, List.length_drop, List.length_append, List.length_cons,
    List.length_nil] at hends
  omega

/-- Where the cut falls elsewhere, something else is stored. -/
theorem offset_of_valueText (hvalue : valueText l.rest = some (some l.V)) {off : Nat}
    (hoff : markerOffset l.C = some off) (hmarker : l.B.length + l.V.length + off < 2 ^ 31) :
    off = l.B.length ∨ off = l.B.length + 1 := by
  have hle := markerOffset_le hoff
  have hstrip := stripComment_some length_le_rest (markerOffset_some hoff) (by omega)
  have hsub := substrTo_of_valueText first_rest (by omega) hstrip hvalue
  -- The value is at most what the cut leaves behind the blanks.
  have hlow : l.B.length ≤ off := by
    obtain ⟨hin, hpart⟩ := prefix_of_substrTo hsub
    have hshort := hpart.length_le
    rw [List.length_drop] at hshort
    rw [List.length_take] at hshort hin
    have hpos := V_pos (l := l)
    omega
  have hhigh : off ≤ l.B.length + 1 := by
    by_contra hmore
    obtain ⟨k, rfl⟩ : ∃ k, off = l.B.length + (k + 2) := ⟨off - l.B.length - 2, by omega⟩
    rw [take_rest] at hsub
    exact substrTo_ne_value (by omega) (by omega) hsub
  omega

/-- The value and its comment, without the blanks at the end. -/
theorem exists_core : ∃ core right, l.V ++ l.C = core ++ right ∧ Trimmed isBlank core ∧
    ∀ c ∈ right, isBlank c = true := by
  obtain ⟨hne, hhead, -⟩ := l.value
  have htext : ∃ c ∈ l.V ++ l.C, isBlank c = false := ⟨l.V.head hne, by simp, hhead⟩
  obtain ⟨left, right, hsplit, hleft, hcore, hright⟩ := exists_surrounded htext
  cases left with
  | nil => exact ⟨_, right, hsplit, hcore, hright⟩
  | cons c left =>
      have hfirst := congrArg List.head? hsplit
      rw [List.head?_append_of_ne_nil _ hne, List.head?_eq_some_head hne] at hfirst
      rw [Option.some.inj hfirst, hleft c List.mem_cons_self] at hhead
      exact absurd hhead (by decide)

/-- A comment that is found at `2 ^ 31` or behind is stored with the value, if anything is. -/
theorem marker_of_valueText (hvalue : valueText l.rest = some (some l.V)) {off : Nat}
    (hoff : markerOffset l.C = some off) (hlen : l.rest.length < 2 ^ 32 - 1) :
    l.B.length + l.V.length + off < 2 ^ 31 := by
  obtain ⟨core, right, hsplit, hcore, hright⟩ := exists_core (l := l)
  have hrest : l.rest = l.B ++ core ++ right := by
    rw [rest, List.append_assoc, hsplit, List.append_assoc]
  have hmarker : markerOffset (core ++ right) = some (off + l.V.length) := by
    have hfound := markerOffset_some hoff
    rwa [hrest, List.append_assoc, List.drop_left] at hfound
  rw [hrest] at hvalue hlen
  by_contra hfar
  by_cases hlate : 2 ^ 31 ≤ l.B.length
  · rw [valueText_late l.blank hcore hright hlate hlen] at hvalue
    exact absurd hvalue (by simp)
  · rw [valueText_far l.blank hcore hright (Nat.lt_of_not_le hlate) hmarker (by omega) hlen,
      ← hsplit] at hvalue
    split at hvalue
    · have hC : l.C = [] := by simpa using hvalue
      have hnone : markerOffset [] = none := by decide
      rw [hC, hnone] at hoff
      exact absurd hoff (by simp)
    · exact absurd hvalue (by simp)

/-- What is stored is the value when the line sets no section and the cut falls right
behind the value. -/
theorem storesValue_of_spares (hspares : l.Spares) : l.StoresValue := by
  refine (stores_iff l.no_equals l.key hspares.key).mpr ⟨hspares.quiet.opensSection, ?_⟩
  cases hoff : markerOffset l.C with
  | none =>
      have hplain := hspares.plain hoff
      have hsum : l.text.length = l.K.length + 1 + l.B.length + l.V.length + l.C.length := by
        simp only [text, rest, List.length_append, List.length_cons]
        omega
      refine (valueText_plain_iff (nil_of_markerOffset hoff) (by omega)).mpr ?_
      exact hplain.imp_right fun h => ⟨h.1, h.2.1⟩
  | some off => exact valueText_cut hoff (hspares.marker off hoff).1 (hspares.marker off hoff).2

/-- **What is stored** is the value exactly when the line sets no section and what is kept
ends right behind the value: this is enough for a line of any length, and needed by every
line of fewer than `2 ^ 32 - 1` bytes, in which no position wraps around twice. -/
theorem comment_spares_iff (l : CommentLine) : (l.Spares → l.StoresValue) ∧
    (l.text.length < 2 ^ 32 - 1 → l.StoresValue → l.Spares) := by
  refine ⟨storesValue_of_spares, fun hlen hstores => ?_⟩
  have hsum : l.text.length = l.K.length + 1 + l.rest.length := by
    simp only [text, List.length_append, List.length_cons]
    omega
  have hkey : l.K.length + 1 < 2 ^ 31 := Stores.length_lt hstores l.no_equals (by omega)
  obtain ⟨hopen, hvalue⟩ := (stores_iff l.no_equals l.key hkey).mp hstores
  refine ⟨hkey, quiet_of_opensSection hlen hopen, fun hnone => ?_, fun off hoff => ?_⟩
  · have hnil := nil_of_markerOffset hnone
    have hrest : l.rest.length = l.B.length + l.V.length := by
      rw [rest, hnil, List.append_nil, List.length_append]
    refine ((valueText_plain_iff hnil (by omega)).mp hvalue).imp_right ?_
    exact fun h => ⟨h.1, h.2, hlen⟩
  · have hmarker := marker_of_valueText hvalue hoff (by omega)
    exact ⟨offset_of_valueText hvalue hoff hmarker, hmarker⟩

/-- The line `n=v w # x`. -/
def plainComment : CommentLine where
  K := bytes "n"
  B := []
  V := bytes "v w"
  C := bytes " # x"
  no_equals := by decide
  key := ⟨ch 'n', by decide, by decide⟩
  blank := blank_nil
  value := ⟨by decide, by decide, by decide +kernel⟩
  plain := by decide +kernel
  comment := Or.inr ⟨bytes " #", by decide +kernel, by decide +kernel⟩
  no_open := by decide +kernel
  no_close := by decide +kernel

/-- Without blanks in front of the value, a comment right behind it is cut off. -/
theorem comment_spares_iff_plain : plainComment.StoresValue := by
  have hmarker : markerOffset plainComment.C = some 0 := by decide +kernel
  have hopen : plainComment.text.findIdx? (· == ch '[') = none := by decide +kernel
  refine (comment_spares_iff plainComment).1 ⟨by decide, ?_, ?_, ?_⟩
  · intro i j hi
    exact absurd (hopen.symm.trans hi) (by simp)
  · rw [hmarker]
    exact fun h => absurd h (by simp)
  · rw [hmarker]
    rintro off ⟨rfl⟩
    exact ⟨Or.inl rfl, by decide⟩

/-- The line `n= vw #`. -/
def blankBeforeValue : CommentLine where
  K := bytes "n"
  B := bytes " "
  V := bytes "vw"
  C := bytes " #"
  no_equals := by decide
  key := ⟨ch 'n', by decide, by decide⟩
  blank := by decide +kernel
  value := ⟨by decide, by decide, by decide +kernel⟩
  plain := by decide +kernel
  comment := Or.inr ⟨bytes " #", by decide +kernel, List.prefix_rfl⟩
  no_open := by decide +kernel
  no_close := by decide +kernel

/-- **A letter is lost**: `v` is stored for it. -/
theorem last_letter_eaten : ¬ blankBeforeValue.StoresValue := by
  intro hstores
  have hrun := hstores ⟨bytes "s", ∅⟩ (by decide)
  have hcut : (Analyzeini.mk (bytes "s") ∅).operator blankBeforeValue.text =
      some ((Analyzeini.mk (bytes "s") ∅).stored (bytes "n") (some (bytes "v"))) := rfl
  rw [hcut, Option.some.injEq] at hrun
  have hlookup : some (bytes "v") = some (bytes "vw") :=
    congrArg (fun a => a.pmap.lookup (mapKey (bytes "s") (bytes "n"))) hrun
  exact absurd hlookup (by decide)

end CommentLine

end MyGenSvr.Ports
