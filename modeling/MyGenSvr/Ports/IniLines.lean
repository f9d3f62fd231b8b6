import MyGenSvr.Ports.IniFile

/-!
# The lines of an INI file

Section lines, key lines and lines that are neither, each with its own line end.  What
such a line does to the state of `analyzeini` depends on it and on the lengths of its
parts only.  Where an `int` holds the positions that are looked up in it, the line does
what it says.  Elsewhere the count of the bytes to be kept may be negative, for which
`substr` keeps all that follows, or a sum may overflow.

## Main results

* `operator_sect`, `operator_entry`, `operator_otherText` — what one line does.
* `KeyLine.stored_right`, `KeyLine.stored_wrong`, `KeyLine.stored_none` — what a key line stores.
-/

namespace MyGenSvr.Ports

open MyGenSvr.Verified.Text

/-! ## Lines -/

/-- No bracket, no `*` and no byte of a line end. -/
def Plain (s : List UInt8) : Prop := ∀ c ∈ bytes "[]*\r\n", c ∉ s

/-- Spaces and tabs. -/
structure Blanks where
  text : List UInt8
  blank : ∀ c ∈ text, isBlank c = true

structure SectName where
  text : List UInt8
  ne_nil : text ≠ []
  plain : Plain text

structure KeyName where
  text : List UInt8
  trimmed : Trimmed isBlank text
  plain : Plain text
  no_equals : ch '=' ∉ text

structure IniValue where
  text : List UInt8
  trimmed : Trimmed isBlank text
  plain : Plain text
  no_comment : ∀ pat ∈ markers, ¬ pat <:+: text

/-- A key line, from left to right. -/
structure KeyLine where
  b₁ : Blanks
  K : KeyName
  b₂ : Blanks
  b₃ : Blanks
  V : IniValue
  b₄ : Blanks

/-- A line that is neither a section line nor a key line. -/
structure OtherText where
  text : List UInt8
  no_equals : ch '=' ∉ text
  no_open : ch '[' ∉ text
  no_close : ch ']' ∉ text
  no_feed : ch '\n' ∉ text

inductive IniLine
  | sect (S : SectName)
  | entry (E : KeyLine)
  | other (text : OtherText)

/-- What stands before the `=`. -/
def KeyLine.head (E : KeyLine) : List UInt8 := E.b₁.text ++ E.K.text ++ E.b₂.text

def KeyLine.text (E : KeyLine) : List UInt8 :=
  E.head ++ ch '=' :: (E.b₃.text ++ E.V.text ++ E.b₄.text)

/-- The bytes of a line. -/
def IniLine.text : IniLine → List UInt8
  | .sect S => ch '[' :: S.text ++ [ch ']']
  | .entry E => E.text
  | .other text => text.text

inductive LineEnd
  | lf
  | crlf
  deriving DecidableEq

/-- What stands between the line and the line feed. -/
def LineEnd.returns : LineEnd → List UInt8
  | .lf => []
  | .crlf => [ch '\r']

/-! ## Lengths -/

/-- The brackets of a section line stand where an `int` finds them. -/
def SectName.Fits (S : SectName) : Prop := S.text.length + 2 < 2 ^ 31

/-- No `int` overflows on a section line. -/
def SectName.Defined (S : SectName) : Prop :=
  S.Fits ∨ 2 ^ 31 < S.text.length + 1 ∧ S.text.length + 2 < 2 ^ 32 - 1

instance instDecidableSectFits (S : SectName) : Decidable S.Fits :=
  inferInstanceAs (Decidable (S.text.length + 2 < 2 ^ 31))

instance instDecidableSectDefined (S : SectName) : Decidable S.Defined :=
  inferInstanceAs (Decidable (_ ∨ _))

/-- The positions that are looked up in a key line and the sums that are formed with
them are values of `int`. -/
def KeyLine.Fits (E : KeyLine) (e : LineEnd) : Prop :=
  E.head.length + 1 < 2 ^ 31 ∧ E.b₃.text.length + E.V.text.length ≤ 2 ^ 31 ∧
    E.V.text.length < 2 ^ 31 ∧ (e = .crlf → E.text.length < 2 ^ 31)

instance instDecidableKeyLineFits (E : KeyLine) (e : LineEnd) : Decidable (E.Fits e) :=
  inferInstanceAs (Decidable (_ ∧ _ ∧ _ ∧ (_ → _)))

/-- A value of more than `2 ^ 31` bytes with nothing behind it. -/
def KeyLine.Whole (E : KeyLine) (e : LineEnd) : Prop :=
  e = .lf ∧ E.head.length + 1 < 2 ^ 31 ∧ E.b₃.text.length < 2 ^ 31 ∧
    2 ^ 31 < E.V.text.length ∧ E.b₄.text = [] ∧ E.text.length < 2 ^ 32 - 1

/-- The lengths with which a key line stores its value. -/
def KeyLine.Right (E : KeyLine) (e : LineEnd) : Prop := E.Fits e ∨ E.Whole e

/-- The lengths with which it stores something else: with a line feed, a value of more
than `2 ^ 31` bytes and what stands behind it; with a carriage return at `2 ^ 31` or
behind, the value up to this. -/
def KeyLine.Wrong (E : KeyLine) (e : LineEnd) : Prop :=
  E.head.length + 1 < 2 ^ 31 ∧ E.b₃.text.length < 2 ^ 31 ∧ E.text.length < 2 ^ 32 - 1 ∧
    (e = .lf ∧ 2 ^ 31 < E.V.text.length ∧ E.b₄.text ≠ [] ∨
      e = .crlf ∧ 2 ^ 31 ≤ E.text.length ∧
        (E.b₃.text.length + (E.V.text.length + E.b₄.text.length + 1) ≤ 2 ^ 31 ∧
            E.V.text.length + E.b₄.text.length + 1 < 2 ^ 31 ∨
          2 ^ 31 < E.V.text.length + E.b₄.text.length + 1))

/-! ## What is left of a line end -/

/-- The carriage return that stays in the line. -/
def LineEnd.kept (e : LineEnd) (text : List UInt8) : List UInt8 :=
  if text.length < 2 ^ 31 then [] else e.returns

section LineEnds

variable {s : List UInt8} {e : LineEnd}

theorem Blanks.not_mem (b : Blanks) {d : UInt8} (hd : isBlank d = false) : d ∉ b.text :=
  not_mem_blanks b.blank hd

/-- The bytes of a line are no line ends. -/
theorem not_isLineEnd (hcr : ch '\r' ∉ s) (hlf : ch '\n' ∉ s) :
    ∀ c ∈ s, isLineEnd c = false := by
  intro c hc
  have hne : c ≠ ch '\r' ∧ c ≠ ch '\n' := ⟨fun h => hcr (h ▸ hc), fun h => hlf (h ▸ hc)⟩
  simpa [isLineEnd] using hne

/-- A line without line ends comes out of `subbuf` with what stays of its own. -/
theorem subbuf_line (hs : ∀ c ∈ s, isLineEnd c = false)
    (hlen : e = .crlf → s.length < 2 ^ 32 - 1) :
    subbuf (s ++ e.returns) = some (s ++ e.kept s) := by
  cases e with
  | lf =>
      have hkept : LineEnd.lf.kept s = [] := by
        rw [LineEnd.kept, LineEnd.returns, ite_self]
      rw [hkept, LineEnd.returns, List.append_nil]
      exact subbuf_plain hs
  | crlf =>
      rw [LineEnd.kept, LineEnd.returns]
      by_cases hshort : s.length < 2 ^ 31
      · rw [if_pos hshort, List.append_nil]
        exact subbuf_return hshort
      · rw [if_neg hshort]
        exact subbuf_keeps (Nat.le_of_not_lt hshort) (hlen rfl)

theorem length_kept_le : (e.kept s).length ≤ 1 := by
  rw [LineEnd.kept]
  split
  · exact Nat.zero_le 1
  · cases e <;> decide

/-- What stays holds no byte but a carriage return. -/
theorem not_mem_kept {d : UInt8} (hd : d ≠ ch '\r') : d ∉ e.kept s := by
  rw [LineEnd.kept]
  split
  · exact List.not_mem_nil
  · cases e with
    | lf => exact List.not_mem_nil
    | crlf => exact fun hmem => hd (List.mem_singleton.mp hmem)

end LineEnds

/-! ## Section lines -/

/-- The name under which the keys behind a section line are kept. -/
def SectName.shown (S : SectName) (e : LineEnd) : List UInt8 :=
  if S.Fits then S.text else S.text ++ ch ']' :: e.returns

section Sections

variable {S : SectName} {e : LineEnd}

theorem lineEndBytes : ∀ d ∈ bytes "\r\n",
    d ∈ bytes "[]*\r\n" ∧ d ≠ ch '[' ∧ d ≠ ch ']' := by
  decide +kernel

theorem sect_not_mem {d : UInt8} (hd : d ∈ bytes "\r\n") : d ∉ (IniLine.sect S).text := by
  obtain ⟨hplain, hne⟩ := lineEndBytes d hd
  simp [IniLine.text, S.plain d hplain, hne]

theorem length_sect : (IniLine.sect S).text.length = S.text.length + 2 := by
  simp [IniLine.text]

theorem SectName.shown_ne_nil : S.shown e ≠ [] := by
  rw [shown]
  split
  · exact S.ne_nil
  · simp

theorem SectName.shown_no_star : ch '*' ∉ S.shown e := by
  have hplain := S.plain (ch '*') (by decide)
  rw [shown]
  split
  · exact hplain
  · cases e <;> simp [hplain, LineEnd.returns] <;> decide

/-- **A long section line**: the count of the name's bytes is negative, or overflows. -/
theorem operator_longSect (hlong : ¬ S.Fits) (hlen : S.text.length + 2 < 2 ^ 32 - 1)
    {kept : List UInt8} (hkept : ch ']' ∉ kept) (a : Analyzeini) :
    a.operator ((IniLine.sect S).text ++ kept) =
      if 2 ^ 31 < S.text.length + 1 then some { a with strsect := S.text ++ ch ']' :: kept }
      else none := by
  have hline : (IniLine.sect S).text ++ kept = ch '[' :: S.text ++ ch ']' :: kept := by
    simp [IniLine.text]
  have hfirst : intPos (((IniLine.sect S).text ++ kept).findIdx? (· == ch '[')) = 0 := by
    simp [IniLine.text, List.findIdx?_cons, intPos, toInt32]
  have hlast : lastIdx? (· == ch ']') ((IniLine.sect S).text ++ kept) =
      some (S.text.length + 1) := by
    rw [hline, findByte_last hkept, List.length_cons]
  rw [SectName.Fits] at hlong
  by_cases hsmall : S.text.length + 1 < 2 ^ 31
  · have hover : checked (((S.text.length + 1 : Nat) : Int) + 1) = none := if_neg (by omega)
    have hfound : (0 : Int) ≠ npos ∧ ((S.text.length + 1 : Nat) : Int) ≠ npos := by
      rw [npos]
      omega
    have hopen : opensSection ((IniLine.sect S).text ++ kept) = none := by
      rw [opensSection, hfirst, hlast, intPos_some hsmall, if_pos hfound, hover]
      rfl
    have hname : ¬ 2 ^ 31 < S.text.length + 1 := by omega
    rw [Analyzeini.operator, hopen, if_neg hname]
    rfl
  · have hpos : intPos (some (S.text.length + 1)) = (S.text.length + 1 : Nat) - 2 ^ 32 :=
      intPos_big (by omega) (by omega)
    have hfound : (0 : Int) ≠ npos ∧ ((S.text.length + 1 : Nat) : Int) - 2 ^ 32 ≠ npos := by
      rw [npos]
      omega
    have hopen : opensSection ((IniLine.sect S).text ++ kept) = some true := by
      rw [opensSection, hfirst, hlast, hpos, if_pos hfound, checked_eq (by omega) (by omega),
        Option.map_some, Option.some.injEq, decide_eq_true_eq]
      omega
    rw [Analyzeini.operator, hopen, Option.bind_eq_bind, Option.bind_some, if_pos rfl, sectionName,
      hfirst, hlast, hpos, checked_eq (by omega) (by omega), Option.bind_eq_bind,
      Option.bind_some, checked_eq (by omega) (by omega), Option.bind_some]
    by_cases hname : 2 ^ 31 < S.text.length + 1
    · have hin : ¬ ((0 : Int) + 1 < 0 ∨
          (((IniLine.sect S).text ++ kept).length : Int) < 0 + 1) := by
        rw [List.length_append, length_sect]
        omega
      rw [if_pos hname, checked_eq (by omega) (by omega), Option.bind_some, substr, if_neg hin,
        if_pos (by omega), hline]
      rfl
    · have hover : checked (((S.text.length + 1 : Nat) : Int) - 2 ^ 32 - 0 - 1) = none :=
        if_neg (by omega)
      rw [if_neg hname, hover]
      rfl

/-- **What a section line does.** -/
theorem operator_sect (hlen : S.Fits ∨ S.text.length + 2 < 2 ^ 32 - 1) :
    ∃ strini, subbuf ((IniLine.sect S).text ++ e.returns) = some strini ∧ ∀ a : Analyzeini,
      a.operator strini = if S.Defined then some { a with strsect := S.shown e } else none := by
  have hbound : S.text.length + 2 < 2 ^ 32 - 1 := by
    rcases hlen with hfit | hlen
    · rw [SectName.Fits] at hfit
      omega
    · exact hlen
  have hline : ∀ c ∈ (IniLine.sect S).text, isLineEnd c = false :=
    not_isLineEnd (sect_not_mem (by decide)) (sect_not_mem (by decide))
  refine ⟨_, subbuf_line hline fun _ => by rw [length_sect]; exact hbound, ?_⟩
  intro a
  rw [LineEnd.kept, length_sect, SectName.shown]
  by_cases hfit : S.Fits
  · have hdefined : S.Defined := Or.inl hfit
    have hshort : S.text.length + 2 < 2 ^ 31 := hfit
    rw [if_pos hshort, if_pos hdefined, if_pos hfit, List.append_nil]
    exact operator_section hfit
  · have hreturns : ch ']' ∉ e.returns := by
      cases e <;> decide
    have hlong : ¬ S.text.length + 2 < 2 ^ 31 := hfit
    rw [if_neg hlong, if_neg hfit, operator_longSect hfit hbound hreturns]
    have hdefined : S.Defined ↔ 2 ^ 31 < S.text.length + 1 :=
      ⟨fun h => (h.resolve_left hfit).1, fun h => Or.inr ⟨h, hbound⟩⟩
    simp only [hdefined]

end Sections

/-! ## Key lines -/

namespace KeyLine

/-- The value as the code finds it. -/
def core (E : KeyLine) (e : LineEnd) : List UInt8 :=
  if e.kept E.text = [] then E.V.text else E.V.text ++ E.b₄.text ++ e.kept E.text

/-- The blanks behind it. -/
def right (E : KeyLine) (e : LineEnd) : List UInt8 :=
  if e.kept E.text = [] then E.b₄.text else []

/-- What a key line stores; `none` when the code throws or an `int` overflows. -/
def stored (E : KeyLine) (e : LineEnd) : Option (List UInt8) :=
  if 2 ^ 31 ≤ E.head.length + 1 ∨ 2 ^ 31 ≤ E.b₃.text.length then none
  else if E.b₃.text.length + (E.core e).length ≤ 2 ^ 31 ∧ (E.core e).length < 2 ^ 31 then
    some (E.core e)
  else if 2 ^ 31 < (E.core e).length then some (E.core e ++ E.right e)
  else none

variable {E : KeyLine} {e : LineEnd}

theorem core_right : E.core e ++ E.right e = E.V.text ++ (E.b₄.text ++ e.kept E.text) := by
  rw [core, right]
  split
  · rename_i hkept
    rw [hkept, List.append_nil]
  · rw [List.append_nil, List.append_assoc]

theorem kept_cases : e.kept E.text = [] ∧ (e = .lf ∨ E.text.length < 2 ^ 31) ∨
    e.kept E.text = [ch '\r'] ∧ e = .crlf ∧ 2 ^ 31 ≤ E.text.length := by
  rw [LineEnd.kept]
  split
  · rename_i hshort
    exact Or.inl ⟨rfl, Or.inr hshort⟩
  · rename_i hlong
    cases e with
    | lf => exact Or.inl ⟨rfl, Or.inl rfl⟩
    | crlf => exact Or.inr ⟨rfl, rfl, Nat.le_of_not_lt hlong⟩

theorem core_trimmed : Trimmed isBlank (E.core e) := by
  obtain ⟨hne, hhead, hlast⟩ := E.V.trimmed
  rw [core]
  rcases kept_cases (E := E) (e := e) with ⟨hkept, -⟩ | ⟨hkept, -⟩
  · rw [if_pos hkept]
    exact E.V.trimmed
  · rw [hkept, if_neg (List.cons_ne_nil _ _)]
    refine ⟨by simp, ?_, ?_⟩
    · rw [List.head_append_of_ne_nil (by simp [hne]), List.head_append_of_ne_nil hne]
      exact hhead
    · rw [List.getLast_append_singleton]
      decide

theorem right_blank : ∀ c ∈ E.right e, isBlank c = true := by
  rw [right]
  split
  · exact E.b₄.blank
  · exact blank_nil

/-- No comment is found in the line. -/
theorem core_plain : markerOffset (E.core e ++ E.right e) = none := by
  have hreturn : ch '\r' ∉ bytes "#/" := by decide
  have hnot : ∀ c ∈ bytes "#/", c ∉ E.b₄.text ++ e.kept E.text := by
    intro c hc
    rw [List.mem_append, not_or]
    exact ⟨E.b₄.not_mem (isBlank_markerByte c hc), not_mem_kept fun h => hreturn (h ▸ hc)⟩
  have hhead : ∀ c ∈ (E.b₄.text ++ e.kept E.text).head?, c ∉ bytes "#/" :=
    fun c hc hmem => hnot c hmem (List.mem_of_mem_head? hc)
  rw [core_right, markerOffset_append E.V.no_comment hhead, markerOffset_none hnot,
    Option.map_none]

theorem head_not_mem : ch '=' ∉ E.head := by
  simp [head, E.b₁.not_mem (d := ch '=') (by decide), E.b₂.not_mem (d := ch '=') (by decide),
    E.K.no_equals]

theorem head_text : ∃ c ∈ E.head, isBlank c = false :=
  ⟨_, by simp [head, List.head_mem], E.K.trimmed.head⟩

theorem text_length : E.text.length =
    E.head.length + 1 + E.b₃.text.length + E.V.text.length + E.b₄.text.length := by
  simp only [text, List.length_append, List.length_cons]
  omega

theorem head_pos : 0 < E.head.length := by
  obtain ⟨c, hc, -⟩ := E.head_text
  exact List.length_pos_of_mem hc

theorem V_pos : 0 < E.V.text.length := List.length_pos_of_ne_nil E.V.trimmed.ne_nil

/-- The bytes of a key line with what stays of its end. -/
theorem text_kept : E.text ++ e.kept E.text =
    E.head ++ ch '=' :: (E.b₃.text ++ E.core e ++ E.right e) := by
  rw [List.append_assoc E.b₃.text, core_right, text]
  simp only [List.append_assoc, List.cons_append]

theorem core_length : (E.core e).length =
    E.V.text.length + if e = .crlf ∧ 2 ^ 31 ≤ E.text.length then E.b₄.text.length + 1 else 0 := by
  rw [core]
  rcases kept_cases (E := E) (e := e) with ⟨hkept, hshort⟩ | ⟨hkept, hcrlf⟩
  · have hnot : ¬ (e = .crlf ∧ 2 ^ 31 ≤ E.text.length) := by
      rintro ⟨rfl, hlong⟩
      exact hshort.elim (by simp) (Nat.not_lt.mpr hlong)
    rw [if_pos hkept, if_neg hnot, Nat.add_zero]
  · rw [hkept, if_neg (List.cons_ne_nil _ _), if_pos hcrlf]
    simp

/-- With lengths that fit, the value is found. -/
theorem Fits.core_eq (hfit : E.Fits e) : E.core e = E.V.text := by
  rw [core]
  rcases kept_cases (E := E) (e := e) with ⟨hkept, -⟩ | ⟨-, hcrlf, hlong⟩
  · exact if_pos hkept
  · exact absurd (hfit.2.2.2 hcrlf) (Nat.not_lt.mpr hlong)

/-- The value of a key line. -/
theorem valueText_entry (hlen : E.Fits e ∨ E.text.length < 2 ^ 32 - 1)
    (hhead : E.head.length + 1 < 2 ^ 31) :
    valueText (E.b₃.text ++ E.core e ++ E.right e) = (E.stored e).map some := by
  have hrest : E.text.length < 2 ^ 32 - 1 →
      (E.b₃.text ++ E.core e ++ E.right e).length < 2 ^ 32 - 1 := by
    intro hlen
    have htext := congrArg List.length (text_kept (E := E) (e := e))
    have hkept := length_kept_le (s := E.text) (e := e)
    have hpos := E.head_pos
    rw [List.length_append, List.length_append, List.length_cons] at htext
    omega
  have hV := E.V_pos
  rw [stored]
  by_cases hlate : 2 ^ 31 ≤ E.b₃.text.length
  · have hbound := hlen.resolve_left fun hfit => by
      have hvalue := hfit.2.1
      omega
    rw [if_pos (Or.inr hlate), Option.map_none]
    exact valueText_late E.b₃.blank core_trimmed right_blank hlate (hrest hbound)
  · rw [if_neg (by omega)]
    by_cases hfits : E.b₃.text.length + (E.core e).length ≤ 2 ^ 31 ∧ (E.core e).length < 2 ^ 31
    · rw [if_pos hfits, Option.map_some]
      exact valueText_plain E.b₃.blank core_trimmed right_blank core_plain hfits.1 hfits.2
    · have hbound := hlen.resolve_left fun hfit => by
        rw [hfit.core_eq] at hfits
        exact hfits ⟨hfit.2.1, hfit.2.2.1⟩
      rw [if_neg hfits, valueText_long E.b₃.blank core_trimmed right_blank
        (Nat.lt_of_not_le hlate) (stripComment_plain core_plain) hfits (hrest hbound),
        apply_ite (Option.map some)]
      rfl

/-- **The lengths decide** what is stored: the value, -/
theorem stored_right (hright : E.Right e) : E.stored e = some E.V.text := by
  have hV := E.V_pos
  rcases hright with hfit | ⟨rfl, hhead, hstart, hlong, hnil, -⟩
  · have hcore := hfit.core_eq
    obtain ⟨hhead, hvalue, hshort, -⟩ := hfit
    rw [stored, hcore, if_neg (by omega), if_pos ⟨hvalue, hshort⟩]
  · have hkept : LineEnd.lf.kept E.text = [] := by
      rw [LineEnd.kept, LineEnd.returns, ite_self]
    rw [stored, core, right, hkept, if_pos rfl, if_pos rfl, if_neg (by omega),
      if_neg (by omega), if_pos hlong, hnil, List.append_nil]

/-- something else, -/
theorem stored_wrong (hwrong : E.Wrong e) :
    ∃ value, E.stored e = some value ∧ value ≠ E.V.text := by
  obtain ⟨hhead, hstart, -, hcase⟩ := hwrong
  have hlonger : ∀ value, E.V.text.length < value.length → value ≠ E.V.text :=
    fun value hlen heq => Nat.lt_irrefl _ (heq ▸ hlen)
  rw [stored, if_neg (by omega)]
  rcases hcase with ⟨rfl, hlong, hne⟩ | ⟨rfl, hlong, hcount⟩
  · have hkept : LineEnd.lf.kept E.text = [] := by
      rw [LineEnd.kept, LineEnd.returns, ite_self]
    have hpos := List.length_pos_of_ne_nil hne
    rw [core, right, hkept, if_pos rfl, if_pos rfl, if_neg (by omega), if_pos hlong]
    exact ⟨_, rfl, hlonger _ (by rw [List.length_append]; omega)⟩
  · have hcore := core_length (E := E) (e := .crlf)
    rw [if_pos ⟨rfl, hlong⟩] at hcore
    rcases hcount with ⟨hend, hshort⟩ | hcount
    · rw [if_pos (by omega)]
      exact ⟨_, rfl, hlonger _ (by omega)⟩
    · rw [if_neg (by omega), if_pos (by omega)]
      exact ⟨_, rfl, hlonger _ (by rw [List.length_append]; omega)⟩

/-- or nothing. -/
theorem stored_none (hlen : E.text.length < 2 ^ 32 - 1) (hright : ¬ E.Right e)
    (hwrong : ¬ E.Wrong e) : E.stored e = none := by
  by_cases hearly : 2 ^ 31 ≤ E.head.length + 1 ∨ 2 ^ 31 ≤ E.b₃.text.length
  · rw [stored, if_pos hearly]
  have hhead : E.head.length + 1 < 2 ^ 31 := by omega
  have hstart : E.b₃.text.length < 2 ^ 31 := by omega
  have htext := E.text_length
  suffices hnot : ¬ (E.b₃.text.length + (E.core e).length ≤ 2 ^ 31 ∧
      (E.core e).length < 2 ^ 31) ∧ ¬ 2 ^ 31 < (E.core e).length by
    rw [stored, if_neg hearly, if_neg hnot.1, if_neg hnot.2]
  by_cases hkeeps : e = .crlf ∧ 2 ^ 31 ≤ E.text.length
  · have hcore := core_length (E := E) (e := e)
    rw [if_pos hkeeps] at hcore
    refine ⟨fun hfits => ?_, fun hlong => ?_⟩
    · exact hwrong ⟨hhead, hstart, hlen,
        Or.inr ⟨hkeeps.1, hkeeps.2, Or.inl ⟨by omega, by omega⟩⟩⟩
    · exact hwrong ⟨hhead, hstart, hlen, Or.inr ⟨hkeeps.1, hkeeps.2, Or.inr (by omega)⟩⟩
  · have hcore := core_length (E := E) (e := e)
    rw [if_neg hkeeps, Nat.add_zero] at hcore
    have hshort : e = .crlf → E.text.length < 2 ^ 31 :=
      fun hcrlf => Nat.lt_of_not_le fun hlong => hkeeps ⟨hcrlf, hlong⟩
    refine ⟨fun hfits => ?_, fun hlong => ?_⟩
    · exact hright (Or.inl ⟨hhead, by omega, by omega, hshort⟩)
    · cases e with
      | lf =>
          by_cases hnil : E.b₄.text = []
          · exact hright (Or.inr ⟨rfl, hhead, hstart, by omega, hnil, hlen⟩)
          · exact hwrong ⟨hhead, hstart, hlen, Or.inl ⟨rfl, by omega, hnil⟩⟩
      | crlf =>
          have hline := hshort rfl
          omega

end KeyLine

section Lines

variable {E : KeyLine} {e : LineEnd}

theorem lineBytes : ∀ d ∈ bytes "[]\r\n",
    isBlank d = false ∧ d ∈ bytes "[]*\r\n" ∧ d ≠ ch '=' := by
  decide +kernel

theorem entry_not_mem {d : UInt8} (hd : d ∈ bytes "[]\r\n") : d ∉ E.text := by
  obtain ⟨hblank, hplain, hequals⟩ := lineBytes d hd
  simp [KeyLine.text, KeyLine.head, E.b₁.not_mem hblank, E.b₂.not_mem hblank,
    E.b₃.not_mem hblank, E.b₄.not_mem hblank, E.K.plain d hplain, E.V.plain d hplain, hequals]

/-- What comes out of `subbuf` opens no section if the line does not. -/
theorem subbuf_not_mem {s : List UInt8} : ∃ strini, subbuf (s ++ e.returns) = some strini ∧
    ∀ d ∉ s, d ≠ ch '\r' → d ∉ strini := by
  obtain ⟨strini, hsub, hpart⟩ := subbuf_prefix (s ++ e.returns)
  refine ⟨strini, hsub, ?_⟩
  intro d hd hne hmem
  rcases List.mem_append.mp (hpart.mem hmem) with h | h
  · exact hd h
  · cases e with
    | lf => exact List.not_mem_nil h
    | crlf => exact hne (List.mem_singleton.mp h)

/-- **What a key line does**: it is passed over outside a section, and stored within. -/
theorem operator_entry :
    ∃ strini, subbuf (E.text ++ e.returns) = some strini ∧
      (∀ a : Analyzeini, a.strsect = [] → a.operator strini = some a) ∧
      (E.Fits e ∨ E.text.length < 2 ^ 32 - 1 → ∀ a : Analyzeini, a.strsect ≠ [] →
        a.operator strini = (E.stored e).map fun value => a.stored E.K.text (some value)) := by
  obtain ⟨strini, hsub, hnot⟩ := subbuf_not_mem (s := E.text) (e := e)
  have hopen : opensSection strini = some false :=
    opensSection_of_not_mem (hnot _ (entry_not_mem (by decide)) (by decide))
  refine ⟨strini, hsub, fun a hsect => operator_outside hsect hopen, ?_⟩
  intro hlen a hsect
  have hreturn : e = .crlf → E.text.length < 2 ^ 32 - 1 := by
    intro hcrlf
    rcases hlen with hfit | hlen
    · have hshort := hfit.2.2.2 hcrlf
      omega
    · exact hlen
  have hline : subbuf (E.text ++ e.returns) = some (E.text ++ e.kept E.text) :=
    subbuf_line (not_isLineEnd (entry_not_mem (by decide)) (entry_not_mem (by decide))) hreturn
  obtain rfl := Option.some.inj (hsub.symm.trans hline)
  rw [KeyLine.text_kept] at hopen ⊢
  by_cases hhead : E.head.length + 1 < 2 ^ 31
  · rw [operator_key hsect hopen KeyLine.head_not_mem KeyLine.head_text hhead,
      KeyLine.valueText_entry hlen hhead, Option.map_map, KeyLine.head,
      trim_surrounded E.b₁.blank E.K.trimmed E.b₂.blank]
    rfl
  · have hbound := hlen.resolve_left fun hfit => hhead hfit.1
    have htext := E.text_length
    have hlate : 2 ^ 31 ≤ E.head.length + 1 := Nat.le_of_not_lt hhead
    rw [operator_late hsect hopen KeyLine.head_not_mem hlate (by omega), KeyLine.stored,
      if_pos (Or.inl hlate)]
    rfl

/-- **Any other line** is passed over. -/
theorem operator_otherText (text : OtherText) :
    ∃ strini, subbuf (text.text ++ e.returns) = some strini ∧
      ∀ a : Analyzeini, a.operator strini = some a := by
  obtain ⟨strini, hsub, hnot⟩ := subbuf_not_mem (s := text.text) (e := e)
  refine ⟨strini, hsub, ?_⟩
  intro a
  exact operator_other (opensSection_of_not_mem (hnot _ text.no_open (by decide)))
    (hnot _ text.no_equals (by decide))

end Lines

end MyGenSvr.Ports
