import MyGenSvr.Ports.IniLines

/-!
# What `read` finds after `open`

A file of section lines, key lines and lines that are neither, each with its own line
end.  `analyzeini` keeps the last value that it stores for each key of each section.
Lines that stand before the first section, and lines without `=` and brackets, may have
any length; within a section a line with which an `int` overflows is the end of the
program, and one that stores something else must have a later line of the same key
behind it.

## Main results

* `run_defined`, `lookup_run` — when a run of lines is defined, and what it leaves.
* `read_last_iff` — for which files `read` gives the value of the last key line of its
  section.
* `long_line_lost` — a line of `2 ^ 32` bytes with a carriage return is lost.
-/

namespace MyGenSvr.Ports

open MyGenSvr.Verified.Text

/-! ## Files -/

/-- A file: lines with their ends, and perhaps a last one without. -/
structure IniText where
  ended : List (IniLine × LineEnd)
  last : Option IniLine

def IniText.content (file : IniText) : List UInt8 :=
  file.ended.flatMap (fun l => l.1.text ++ l.2.returns ++ [ch '\n']) ++
    file.last.elim [] IniLine.text

def IniText.lines (file : IniText) : List IniLine :=
  file.ended.map Prod.fst ++ file.last.toList

/-- The values of the key lines for `K` under a section line `S`, in their order;
`cur` is the section line above. -/
def valuesUnder (S K : List UInt8) : Option SectName → List IniLine → List (List UInt8)
  | _, [] => []
  | _, .sect S' :: lines => valuesUnder S K (some S') lines
  | cur, .entry E :: lines =>
      if cur.map SectName.text = some S ∧ E.K.text = K then
        E.V.text :: valuesUnder S K cur lines
      else valuesUnder S K cur lines
  | cur, .other _ :: lines => valuesUnder S K cur lines

/-- After the file was opened, `read` gives the value of the last key line for its
key that lies under its section, and fails when there is none. -/
def IniText.ReadsLast (file : IniText) : Prop :=
  ∃ opened f, IniFile.do_open {} (some file.content) = some (opened, f) ∧
    ∀ S K, f.read S K =
      match (valuesUnder (cstr S) (cstr K) none file.lines).getLast? with
      | none => (-1, [])
      | some V => (0, V)

/-- The empty line that `getline` takes behind the last line feed. -/
def OtherText.empty : OtherText := ⟨[], by decide, by decide, by decide, by decide⟩

/-- What `getline` takes, line by line. -/
def IniText.taken (file : IniText) : List (IniLine × LineEnd) :=
  file.ended ++ [(file.last.getD (.other .empty), .lf)]

/-! ## When `read` answers right -/

/-- A key line under a section line. -/
structure Under where
  sect : SectName
  sectEnd : LineEnd
  entry : KeyLine
  lineEnd : LineEnd

/-- The section line above the line behind. -/
def sectBehind (cur : Option (SectName × LineEnd)) :
    IniLine × LineEnd → Option (SectName × LineEnd)
  | (.sect S, e) => some (S, e)
  | (.entry _, _) => cur
  | (.other _, _) => cur

/-- A line, as a key line under `cur`. -/
def lineUnder (cur : Option (SectName × LineEnd)) : IniLine × LineEnd → Option Under
  | (.sect _, _) => none
  | (.entry E, e) => cur.map fun s => ⟨s.1, s.2, E, e⟩
  | (.other _, _) => none

/-- The key lines under section lines. -/
def entriesUnder : Option (SectName × LineEnd) → List (IniLine × LineEnd) → List Under
  | _, [] => []
  | cur, l :: lines => (lineUnder cur l).toList ++ entriesUnder (sectBehind cur l) lines

def IniText.under (file : IniText) : List Under := entriesUnder none file.taken

/-- The line is one for this key of this section. -/
def Under.IsFor (S K : List UInt8) (x : Under) : Prop := x.sect.text = S ∧ x.entry.K.text = K

instance (S K : List UInt8) : DecidablePred (Under.IsFor S K) :=
  fun _ => inferInstanceAs (Decidable (_ ∧ _))

/-- The key lines for a key of a section. -/
def IniText.linesFor (file : IniText) (S K : List UInt8) : List Under :=
  file.under.filter fun x => x.IsFor S K

/-- No `int` overflows under a section, and the last line for a key stores its value under
its section; a name with a NUL in it can not be asked for. -/
structure IniText.Fits (file : IniText) : Prop where
  sections : ∀ S e, (IniLine.sect S, e) ∈ file.taken → S.Defined
  entries : ∀ x ∈ file.under, x.entry.Right x.lineEnd ∨ x.entry.Wrong x.lineEnd
  last : ∀ S K, 0 ∉ S → 0 ∉ K → ∀ x ∈ (file.linesFor S K).getLast?,
    x.sect.Fits ∧ x.entry.Right x.lineEnd

/-- Section lines, and key lines under them, of less than `2 ^ 32 - 1` bytes. -/
structure IniText.Bounded (file : IniText) : Prop where
  sections : ∀ S e, (IniLine.sect S, e) ∈ file.taken → S.text.length + 2 < 2 ^ 32 - 1
  entries : ∀ x ∈ file.under, x.entry.text.length < 2 ^ 32 - 1

/-! ## Runs of lines -/

/-- What a line does to the state; `none` when the code throws or an `int` overflows. -/
def Analyzeini.effect (a : Analyzeini) : IniLine × LineEnd → Option Analyzeini
  | (.sect S, e) => if S.Defined then some { a with strsect := S.shown e } else none
  | (.entry E, e) =>
      if a.strsect = [] then some a
      else (E.stored e).map fun value => a.stored E.K.text (some value)
  | (.other _, _) => some a

/-- The section that the code is in behind a section line. -/
def shownSect (cur : Option (SectName × LineEnd)) : List UInt8 :=
  cur.elim [] fun s => s.1.shown s.2

/-- What a key line leaves under a section and a key. -/
def Under.leaves (S K : List UInt8) (x : Under) : Option (List UInt8) :=
  if x.sect.shown x.sectEnd = S ∧ x.entry.K.text = K then x.entry.stored x.lineEnd else none

section Runs

variable {S K : List UInt8} {cur : Option (SectName × LineEnd)} {a a' : Analyzeini}
  {l : IniLine × LineEnd} {lines : List (IniLine × LineEnd)}

theorem shownSect_eq_nil : shownSect cur = [] ↔ cur = none := by
  cases cur with
  | none => exact ⟨fun _ => rfl, fun _ => rfl⟩
  | some s => exact ⟨fun h => absurd h SectName.shown_ne_nil, fun h => absurd h (by simp)⟩

/-- The lengths for which a line can be judged. -/
structure Judged (cur : Option (SectName × LineEnd)) (l : IniLine × LineEnd) : Prop where
  sect : ∀ S, l.1 = .sect S → S.Fits ∨ S.text.length + 2 < 2 ^ 32 - 1
  entry : ∀ x ∈ lineUnder cur l, x.entry.Fits x.lineEnd ∨ x.entry.text.length < 2 ^ 32 - 1

/-- **One line** has its effect. -/
theorem operator_line (hcur : a.strsect = shownSect cur) (hl : Judged cur l) :
    (subbuf (l.1.text ++ l.2.returns)).bind a.operator = a.effect l := by
  obtain ⟨line, e⟩ := l
  cases line with
  | sect S =>
      obtain ⟨strini, hsub, hrun⟩ := operator_sect (e := e) (hl.sect S rfl)
      rw [hsub, Option.bind_some, hrun]
      rfl
  | entry E =>
      obtain ⟨strini, hsub, houtside, hinside⟩ := operator_entry (E := E) (e := e)
      rw [IniLine.text, hsub, Option.bind_some, Analyzeini.effect]
      split
      · rename_i hsect
        exact houtside a hsect
      · rename_i hsect
        cases cur with
        | none => exact absurd hcur hsect
        | some s => exact hinside (hl.entry _ rfl) a hsect
  | other text =>
      obtain ⟨strini, hsub, hrun⟩ := operator_otherText (e := e) text
      rw [IniLine.text, hsub, Option.bind_some, hrun]
      rfl

theorem effect_strsect (hcur : a.strsect = shownSect cur) (hrun : a.effect l = some a') :
    a'.strsect = shownSect (sectBehind cur l) := by
  obtain ⟨line, e⟩ := l
  cases line with
  | sect S =>
      rw [Analyzeini.effect, Option.ite_none_right_eq_some] at hrun
      rw [← Option.some.inj hrun.2]
      rfl
  | entry E =>
      rw [Analyzeini.effect] at hrun
      split at hrun
      · rw [← Option.some.inj hrun]
        exact hcur
      · obtain ⟨value, -, rfl⟩ := Option.map_eq_some_iff.mp hrun
        exact hcur
  | other text =>
      rw [← Option.some.inj hrun]
      exact hcur

/-- When a line is defined. -/
theorem effect_defined (hcur : a.strsect = shownSect cur) :
    (∃ a', a.effect l = some a') ↔ (∀ S, l.1 = .sect S → S.Defined) ∧
      ∀ x ∈ lineUnder cur l, ∃ value, x.entry.stored x.lineEnd = some value := by
  obtain ⟨line, e⟩ := l
  cases line with
  | sect S => simp [Analyzeini.effect, lineUnder]
  | entry E =>
      have hinside : a.strsect = [] ↔ cur = none := by rw [hcur, shownSect_eq_nil]
      cases cur with
      | none => simp [Analyzeini.effect, lineUnder, hinside]
      | some s => simp [Analyzeini.effect, lineUnder, hinside]
  | other text => simp [Analyzeini.effect, lineUnder]

/-- What a line leaves in the map. -/
theorem effect_lookup (hcur : a.strsect = shownSect cur) (hrun : a.effect l = some a') :
    a'.pmap.lookup (mapKey S K) =
      ((lineUnder cur l).bind (Under.leaves S K)).or (a.pmap.lookup (mapKey S K)) := by
  obtain ⟨line, e⟩ := l
  cases line with
  | sect S' =>
      rw [Analyzeini.effect, Option.ite_none_right_eq_some] at hrun
      rw [← Option.some.inj hrun.2]
      rfl
  | other text =>
      rw [← Option.some.inj hrun]
      rfl
  | entry E =>
      rw [Analyzeini.effect] at hrun
      cases cur with
      | none =>
          have houtside : a.strsect = [] := hcur
          rw [if_pos houtside] at hrun
          rw [← Option.some.inj hrun]
          rfl
      | some s =>
          have hsect : a.strsect = s.1.shown s.2 := hcur
          rw [if_neg (by rw [hsect]; exact SectName.shown_ne_nil), Option.map_eq_some_iff] at hrun
          obtain ⟨value, hstored, rfl⟩ := hrun
          rw [Analyzeini.stored, hsect, lineUnder, Option.map_some, Option.bind_some,
            Under.leaves, hstored]
          by_cases hkey : s.1.shown s.2 = S ∧ E.K.text = K
          · obtain ⟨rfl, rfl⟩ := hkey
            rw [AList.lookup_insert, if_pos ⟨rfl, rfl⟩]
            rfl
          · have hother : mapKey S K ≠ mapKey (s.1.shown s.2) E.K.text := by
              intro heq
              have hinj := (mapKey_inj SectName.shown_no_star (E.K.plain _ (by decide))).mp heq
              exact hkey ⟨hinj.1.symm, hinj.2.symm⟩
            rw [AList.lookup_insert_ne hother, if_neg hkey]
            rfl

/-- The lengths for which a run of lines can be judged. -/
structure AllJudged (cur : Option (SectName × LineEnd)) (lines : List (IniLine × LineEnd)) :
    Prop where
  sections : ∀ S e, (IniLine.sect S, e) ∈ lines → S.Fits ∨ S.text.length + 2 < 2 ^ 32 - 1
  entries : ∀ x ∈ entriesUnder cur lines,
    x.entry.Fits x.lineEnd ∨ x.entry.text.length < 2 ^ 32 - 1

theorem AllJudged.head (hall : AllJudged cur (l :: lines)) : Judged cur l := by
  constructor
  · intro S hS
    exact hall.sections S l.2 (hS ▸ List.mem_cons_self)
  · intro x hx
    exact hall.entries x (List.mem_append_left _ (Option.mem_toList.mpr hx))

theorem AllJudged.tail (hall : AllJudged cur (l :: lines)) :
    AllJudged (sectBehind cur l) lines :=
  ⟨fun S e hmem => hall.sections S e (List.mem_cons_of_mem l hmem),
    fun x hx => hall.entries x (List.mem_append_right _ hx)⟩

/-- **The lines** have their effects, one after the other. -/
theorem operator_lines (hcur : a.strsect = shownSect cur) (hall : AllJudged cur lines)
    {strvect : List (List UInt8)}
    (hread : (lines.map fun l => l.1.text ++ l.2.returns).mapM subbuf = some strvect) :
    strvect.foldlM Analyzeini.operator a = lines.foldlM Analyzeini.effect a := by
  induction lines generalizing cur a strvect with
  | nil =>
      obtain rfl := Option.some.inj hread
      rfl
  | cons l lines ih =>
      rw [List.map_cons, List.mapM_cons, Option.bind_eq_bind, Option.bind_eq_some_iff] at hread
      obtain ⟨strini, hsub, hread⟩ := hread
      obtain ⟨rest, hrest, hread⟩ := Option.bind_eq_some_iff.mp hread
      obtain rfl := Option.some.inj hread
      have hfirst := operator_line hcur hall.head
      rw [hsub, Option.bind_some] at hfirst
      rw [List.foldlM_cons, List.foldlM_cons, hfirst]
      cases hrun : a.effect l with
      | none => rfl
      | some a₁ => exact ih (effect_strsect hcur hrun) hall.tail hrest

/-- **When a run is defined.** -/
theorem run_defined (hcur : a.strsect = shownSect cur) :
    (∃ a', lines.foldlM Analyzeini.effect a = some a') ↔
      (∀ S e, (IniLine.sect S, e) ∈ lines → S.Defined) ∧
        ∀ x ∈ entriesUnder cur lines, ∃ value, x.entry.stored x.lineEnd = some value := by
  induction lines generalizing cur a with
  | nil => simp [entriesUnder]
  | cons l lines ih =>
      have hfirst := effect_defined (l := l) hcur
      rw [List.foldlM_cons, Option.bind_eq_bind]
      simp only [List.mem_cons, entriesUnder, List.mem_append, Option.mem_toList]
      constructor
      · rintro ⟨a', hrun⟩
        obtain ⟨a₁, hline, hrun⟩ := Option.bind_eq_some_iff.mp hrun
        obtain ⟨hsect, hentry⟩ := hfirst.mp ⟨a₁, hline⟩
        obtain ⟨hsections, hentries⟩ := (ih (effect_strsect hcur hline)).mp ⟨a', hrun⟩
        refine ⟨fun S e hmem => ?_, fun x hx => hx.elim (hentry x) (hentries x)⟩
        rcases hmem with heq | hmem
        · exact hsect S (congrArg Prod.fst heq).symm
        · exact hsections S e hmem
      · rintro ⟨hsections, hentries⟩
        obtain ⟨a₁, hline⟩ := hfirst.mpr
          ⟨fun S hS => hsections S l.2 (Or.inl (by rw [← hS])), fun x hx => hentries x (Or.inl hx)⟩
        obtain ⟨a', hrun⟩ := (ih (effect_strsect hcur hline)).mpr
          ⟨fun S e hmem => hsections S e (Or.inr hmem), fun x hx => hentries x (Or.inr hx)⟩
        exact ⟨a', Option.bind_eq_some_iff.mpr ⟨a₁, hline, hrun⟩⟩

/-- **What a run leaves**: for each section and key the last value that was stored. -/
theorem lookup_run (hcur : a.strsect = shownSect cur)
    (hrun : lines.foldlM Analyzeini.effect a = some a') :
    a'.pmap.lookup (mapKey S K) =
      ((entriesUnder cur lines).filterMap (Under.leaves S K)).getLast?.or
        (a.pmap.lookup (mapKey S K)) := by
  induction lines generalizing cur a with
  | nil =>
      rw [← Option.some.inj hrun]
      rfl
  | cons l lines ih =>
      rw [List.foldlM_cons, Option.bind_eq_bind, Option.bind_eq_some_iff] at hrun
      obtain ⟨a₁, hline, hrun⟩ := hrun
      have htoList : (lineUnder cur l).toList.filterMap (Under.leaves S K) =
          ((lineUnder cur l).bind (Under.leaves S K)).toList := by
        cases lineUnder cur l with
        | none => rfl
        | some x => cases hx : x.leaves S K <;> simp [hx]
      rw [ih (effect_strsect hcur hline) hrun, effect_lookup hcur hline, entriesUnder,
        List.filterMap_append, htoList, List.getLast?_append, Option.or_assoc]
      cases (lineUnder cur l).bind (Under.leaves S K) <;> rfl

/-- The values of the key lines for a key of a section. -/
theorem valuesUnder_eq : valuesUnder S K (cur.map Prod.fst) (lines.map Prod.fst) =
    ((entriesUnder cur lines).filter fun x => x.IsFor S K).map fun x => x.entry.V.text := by
  induction lines generalizing cur with
  | nil => rfl
  | cons l lines ih =>
      obtain ⟨line, e⟩ := l
      cases line with
      | sect S' => exact @ih (some (S', e))
      | other text => exact ih
      | entry E =>
          rw [List.map_cons, valuesUnder, ih]
          cases cur with
          | none => simp [entriesUnder, lineUnder, sectBehind]
          | some s =>
              by_cases hfor : s.1.text = S ∧ E.K.text = K
              · simp [entriesUnder, lineUnder, sectBehind, Under.IsFor, hfor]
              · simp [entriesUnder, lineUnder, sectBehind, Under.IsFor, hfor]

end Runs

/-! ## The whole file -/

section File

variable {S K : List UInt8} {file : IniText}

theorem text_no_feed (l : IniLine) : ch '\n' ∉ l.text := by
  cases l with
  | sect S => exact sect_not_mem (by decide)
  | entry E => exact entry_not_mem (by decide)
  | other text => exact text.no_feed

theorem body_no_feed (l : IniLine) (e : LineEnd) : ch '\n' ∉ l.text ++ e.returns := by
  have hreturns : ch '\n' ∉ e.returns := by
    cases e <;> decide
  simp [text_no_feed l, hreturns]

theorem content_splitOn (file : IniText) : file.content.splitOn (ch '\n') =
    file.taken.map fun l => l.1.text ++ l.2.returns := by
  obtain ⟨ended, last⟩ := file
  have hlast : last.elim [] IniLine.text = (last.getD (.other .empty)).text := by
    cases last <;> rfl
  simp only [IniText.content, IniText.taken, hlast]
  induction ended with
  | nil => simpa [LineEnd.returns] using List.splitOn_eq_singleton (text_no_feed _)
  | cons l ended ih =>
      have hsplit := List.splitOn_append_cons_self_of_not_mem (body_no_feed l.1 l.2)
        (ended.flatMap (fun l => l.1.text ++ l.2.returns ++ [ch '\n']) ++
          (last.getD (.other .empty)).text)
      rw [ih] at hsplit
      simpa using hsplit

/-- Every line comes out of `subbuf`. -/
theorem readLines_eq (lines : List (List UInt8)) :
    ∃ strvect, lines.mapM subbuf = some strvect ∧ strvect.length = lines.length := by
  induction lines with
  | nil => exact ⟨[], rfl, rfl⟩
  | cons line lines ih =>
      obtain ⟨strini, hsub, -⟩ := subbuf_prefix line
      obtain ⟨strvect, hmap, hlen⟩ := ih
      exact ⟨strini :: strvect, by simp [hsub, hmap], congrArg Nat.succ hlen⟩

/-- No section has been set before the first line. -/
theorem strsect_start (pmap : StrMap) : (⟨[], pmap⟩ : Analyzeini).strsect = shownSect none := rfl

/-- **Opening a file** runs over its lines, from no section on. -/
theorem do_open_eq (hall : AllJudged none file.taken) (f : IniFile) :
    f.do_open (some file.content) =
      (file.taken.foldlM Analyzeini.effect ⟨[], f.c_inimap⟩).map fun a =>
        (!a.pmap.entries.isEmpty, ⟨a.pmap⟩) := by
  obtain ⟨strvect, hmap, hlen⟩ := readLines_eq (file.taken.map fun l => l.1.text ++ l.2.returns)
  have hne : strvect ≠ [] := by
    intro hnil
    rw [hnil] at hlen
    simp [IniText.taken] at hlen
  have hrun := operator_lines (strsect_start f.c_inimap) hall hmap
  rw [IniFile.do_open, readLines, content_splitOn, hmap, Option.bind_eq_bind, Option.bind_some,
    if_neg hne, hrun]
  cases file.taken.foldlM Analyzeini.effect ⟨[], f.c_inimap⟩ <;> rfl

theorem values_eq : valuesUnder S K none file.lines =
    (file.linesFor S K).map fun x => x.entry.V.text := by
  have htaken : valuesUnder S K none file.lines =
      valuesUnder S K none (file.taken.map Prod.fst) := by
    obtain ⟨ended, last⟩ := file
    cases last with
    | some l => simp [IniText.lines, IniText.taken]
    | none =>
        simp only [IniText.lines, IniText.taken, Option.toList_none, List.append_nil,
          Option.getD_none, List.map_append, List.map_cons, List.map_nil]
        generalize ended.map Prod.fst = lines
        generalize (none : Option SectName) = cur
        induction lines generalizing cur with
        | nil => rfl
        | cons l lines ih =>
            cases l with
            | sect S' => exact ih _
            | other text => exact ih _
            | entry E => simp only [List.cons_append, valuesUnder, ih]
  have hunder : valuesUnder S K ((none : Option (SectName × LineEnd)).map Prod.fst)
      (file.taken.map Prod.fst) = _ := valuesUnder_eq
  exact htaken.trans hunder

/-- `read` after a run over the lines of a file. -/
theorem read_of_run {a : Analyzeini}
    (hrun : file.taken.foldlM Analyzeini.effect ⟨[], ∅⟩ = some a) (psect pkey : List UInt8) :
    IniFile.read ⟨a.pmap⟩ psect pkey =
      match (file.under.filterMap (Under.leaves (cstr psect) (cstr pkey))).getLast? with
      | none => (-1, [])
      | some V => (0, V) := by
  have hlookup := lookup_run (S := cstr psect) (K := cstr pkey) (strsect_start ∅) hrun
  rw [AList.lookup_empty, Option.or_none] at hlookup
  rw [IniFile.read, hlookup]
  rfl

theorem not_mem_cstr (s : List UInt8) : 0 ∉ cstr s := by
  intro hmem
  have hne := List.mem_takeWhile_imp hmem
  exact absurd rfl (of_decide_eq_true hne)

theorem cstr_eq {s : List UInt8} (hs : 0 ∉ s) : cstr s = s :=
  List.takeWhile_eq_self_iff.mpr fun _ hc => decide_eq_true fun h => hs (h ▸ hc)

theorem mem_linesFor {x : Under} : x ∈ file.linesFor S K ↔ x ∈ file.under ∧ x.IsFor S K := by
  rw [IniText.linesFor, List.mem_filter, decide_eq_true_eq]

theorem Under.stored_some {x : Under}
    (hx : x.entry.Right x.lineEnd ∨ x.entry.Wrong x.lineEnd) :
    ∃ value, x.entry.stored x.lineEnd = some value := by
  rcases hx with hright | hwrong
  · exact ⟨_, KeyLine.stored_right hright⟩
  · obtain ⟨value, hvalue, -⟩ := KeyLine.stored_wrong hwrong
    exact ⟨value, hvalue⟩

theorem IniText.Fits.judged (hfit : file.Fits) : AllJudged none file.taken := by
  constructor
  · intro S e hmem
    exact (hfit.sections S e hmem).imp id And.right
  · intro x hx
    rcases hfit.entries x hx with (hfits | hwhole) | hwrong
    · exact Or.inl hfits
    · exact Or.inr hwhole.2.2.2.2.2
    · exact Or.inr hwrong.2.2.1

/-- Where the code sees the names of the file, the lines for a key leave what they store. -/
theorem leaves_eq
    (hsame : ∀ x ∈ file.under, x.sect.shown x.sectEnd = S ∧ x.entry.K.text = K ↔ x.IsFor S K) :
    file.under.filterMap (Under.leaves S K) =
      (file.linesFor S K).filterMap fun x => x.entry.stored x.lineEnd := by
  rw [IniText.linesFor, List.filterMap_filter]
  refine List.filterMap_congr ?_
  intro x hx
  simp only [Under.leaves, hsame x hx, decide_eq_true_eq]

/-- The last line for a key is the one that counts. -/
theorem getLast?_stored {x : Under} {value : List UInt8}
    (hlast : (file.linesFor S K).getLast? = some x)
    (hstored : x.entry.stored x.lineEnd = some value) :
    ((file.linesFor S K).filterMap fun x => x.entry.stored x.lineEnd).getLast? = some value := by
  obtain ⟨front, hsplit⟩ := List.getLast?_eq_some_iff.mp hlast
  rw [hsplit, List.filterMap_append]
  simp [hstored]

/-- A file without long lines fits. -/
theorem IniText.fits_of_lengths (hsections : ∀ S e, (IniLine.sect S, e) ∈ file.taken → S.Fits)
    (hentries : ∀ x ∈ file.under, x.sect.Fits ∧ x.entry.Fits x.lineEnd) : file.Fits := by
  refine ⟨fun S e hmem => Or.inl (hsections S e hmem),
    fun x hx => Or.inl (Or.inl (hentries x hx).2), ?_⟩
  intro S K _ _ x hx
  obtain ⟨hsect, hfits⟩ := hentries x (mem_linesFor.mp (List.mem_of_getLast? hx)).1
  exact ⟨hsect, Or.inl hfits⟩

/-- Under a name that can be asked for, the section line is the one the code sees. -/
theorem IniText.Fits.sect (hfit : file.Fits) {x : Under} (hx : x ∈ file.under)
    (hS : 0 ∉ x.sect.text) (hK : 0 ∉ x.entry.K.text) : x.sect.Fits := by
  have hmem : x ∈ file.linesFor x.sect.text x.entry.K.text := mem_linesFor.mpr ⟨hx, rfl, rfl⟩
  obtain ⟨y, hy⟩ := Option.isSome_iff_exists.mp
    (List.getLast?_isSome.mpr (List.ne_nil_of_mem hmem))
  have hlast := (hfit.last _ _ hS hK y hy).1
  have hsame := (mem_linesFor.mp (List.mem_of_getLast? hy)).2.1
  rw [SectName.Fits, hsame] at hlast
  exact hlast

/-- The code sees the names that can be asked for. -/
theorem IniText.Fits.shown_iff (hfit : file.Fits) (hS : 0 ∉ S) (hK : 0 ∉ K) {x : Under}
    (hx : x ∈ file.under) :
    x.sect.shown x.sectEnd = S ∧ x.entry.K.text = K ↔ x.IsFor S K := by
  constructor
  · rintro ⟨hshown, hkey⟩
    have hpart : 0 ∉ x.sect.text := by
      intro hmem
      refine hS (hshown ▸ ?_)
      rw [SectName.shown]
      split
      · exact hmem
      · exact List.mem_append_left _ hmem
    have hfits := hfit.sect hx hpart (hkey ▸ hK)
    rw [SectName.shown, if_pos hfits] at hshown
    exact ⟨hshown, hkey⟩
  · rintro ⟨hsect, hkey⟩
    have hfits := hfit.sect hx (hsect ▸ hS) (hkey ▸ hK)
    rw [SectName.shown, if_pos hfits]
    exact ⟨hsect, hkey⟩

/-- **A file that fits** is read as it says. -/
theorem readsLast_of_fits (hfit : file.Fits) : file.ReadsLast := by
  obtain ⟨a, hrun⟩ := (run_defined (strsect_start ∅)).mpr
    ⟨hfit.sections, fun x hx => Under.stored_some (hfit.entries x hx)⟩
  have hopen := do_open_eq hfit.judged {}
  rw [hrun, Option.map_some] at hopen
  refine ⟨_, _, hopen, ?_⟩
  intro S K
  have hS := not_mem_cstr S
  have hK := not_mem_cstr K
  rw [read_of_run hrun, leaves_eq fun x hx => hfit.shown_iff hS hK hx, values_eq,
    List.getLast?_map]
  cases hlast : (file.linesFor (cstr S) (cstr K)).getLast? with
  | none =>
      rw [List.getLast?_eq_none_iff] at hlast
      rw [hlast]
      rfl
  | some x =>
      have hright := (hfit.last _ _ hS hK x hlast).2
      rw [getLast?_stored hlast (KeyLine.stored_right hright)]
      rfl

/-- The name of a section line that fits is seen there only. -/
theorem shown_iff_of_fits {T : SectName} (hT : T.Fits) (x : Under) :
    x.sect.shown x.sectEnd = T.text ∧ x.entry.K.text = K ↔ x.IsFor T.text K := by
  refine and_congr_left fun _ => ?_
  rw [SectName.shown]
  split
  · exact Iff.rfl
  · rename_i hlong
    constructor
    · intro hshown
      have hclose : ch ']' ∈ T.text := by simp [← hshown]
      exact absurd hclose (T.plain _ (by decide))
    · intro hsame
      rw [SectName.Fits, hsame] at hlong
      exact absurd hT hlong

/-- **No other file is**, if its lines are shorter than `2 ^ 32 - 1` bytes. -/
theorem fits_of_readsLast (hbound : file.Bounded) (hreads : file.ReadsLast) : file.Fits := by
  have hsettled : AllJudged none file.taken :=
    ⟨fun S e hmem => Or.inr (hbound.sections S e hmem), fun x hx => Or.inr (hbound.entries x hx)⟩
  obtain ⟨opened, f, hopen, hread⟩ := hreads
  rw [do_open_eq hsettled, Option.map_eq_some_iff] at hopen
  obtain ⟨a, hrun, hf⟩ := hopen
  obtain rfl : ⟨a.pmap⟩ = f := congrArg Prod.snd hf
  obtain ⟨hsections, hstored⟩ := (run_defined (strsect_start ∅)).mp ⟨a, hrun⟩
  have hread' : ∀ S K, 0 ∉ S → 0 ∉ K →
      (file.under.filterMap (Under.leaves S K)).getLast? =
        (file.linesFor S K).getLast?.map fun x => x.entry.V.text := by
    intro S K hS hK
    have hone := hread S K
    rw [read_of_run hrun, values_eq, cstr_eq hS, cstr_eq hK, List.getLast?_map] at hone
    cases hleft : (file.under.filterMap (Under.leaves S K)).getLast? <;>
      cases hlines : (file.linesFor S K).getLast? <;> simp_all
  refine ⟨hsections, ?_, ?_⟩
  · intro x hx
    by_contra hneither
    obtain ⟨value, hvalue⟩ := hstored x hx
    rw [not_or] at hneither
    rw [KeyLine.stored_none (hbound.entries x hx) hneither.1 hneither.2] at hvalue
    exact absurd hvalue (by simp)
  · intro S K hS hK x hx
    obtain ⟨hmem, hsect, hkey⟩ := mem_linesFor.mp (List.mem_of_getLast? hx)
    have hleft := hread' S K hS hK
    rw [hx, Option.map_some] at hleft
    -- some line is kept under the name, so it can not be a long one
    have hfits : x.sect.Fits := by
      obtain ⟨y, -, hy⟩ := List.mem_filterMap.mp (List.mem_of_getLast? hleft)
      rw [Under.leaves, Option.ite_none_right_eq_some] at hy
      have hshown := hy.1.1
      rw [SectName.shown] at hshown
      split at hshown
      · rename_i hfits
        rw [SectName.Fits, hsect, ← hshown]
        exact hfits
      · have hclose : ch ']' ∈ x.sect.text := by simp [hsect, ← hshown]
        exact absurd hclose (x.sect.plain _ (by decide))
    refine ⟨hfits, ?_⟩
    obtain ⟨value, hvalue⟩ := hstored x hmem
    rw [leaves_eq fun y _ => hsect ▸ shown_iff_of_fits hfits y, getLast?_stored hx hvalue,
      Option.some.injEq] at hleft
    by_contra hright
    have hwrong : x.entry.Wrong x.lineEnd := by
      by_contra hwrong
      rw [KeyLine.stored_none (hbound.entries x hmem) hright hwrong] at hvalue
      exact absurd hvalue (by simp)
    obtain ⟨other, hother, hne⟩ := KeyLine.stored_wrong hwrong
    obtain rfl := Option.some.inj (hother.symm.trans hvalue)
    exact hne hleft

/-- **What `read` finds**: a file that fits is read as it says, and no other one whose
lines are shorter than `2 ^ 32 - 1` bytes. -/
theorem read_last_iff (file : IniText) :
    (file.Fits → file.ReadsLast) ∧ (file.Bounded → file.ReadsLast → file.Fits) :=
  ⟨readsLast_of_fits, fits_of_readsLast⟩

/-! ## Witnesses -/

/-- A value of one letter, `n + 1` times. -/
def letters (n : Nat) : IniValue where
  text := List.replicate (n + 1) (ch 'a')
  trimmed := ⟨by simp, by rw [List.head_replicate]; decide, by rw [List.getLast_replicate]; decide⟩
  plain := by
    intro c hc hmem
    rw [List.eq_of_mem_replicate hmem] at hc
    exact absurd hc (by decide +kernel)
  no_comment := by
    intro pat hpat hstands
    obtain ⟨c, hc, hblank⟩ := markers_blank pat hpat
    rw [List.eq_of_mem_replicate (hstands.mem hc)] at hblank
    exact absurd hblank (by decide)

def sectS : SectName := ⟨bytes "s", by decide, by unfold Plain; decide +kernel⟩

def keyK : KeyName :=
  ⟨bytes "k", ⟨by decide, by decide, by decide +kernel⟩, by unfold Plain; decide +kernel, by decide⟩

def noBlanks : Blanks := ⟨[], blank_nil⟩

/-- The line `k=aa…a`. -/
def lettersEntry (n : Nat) : KeyLine := ⟨noBlanks, keyK, noBlanks, noBlanks, letters n, noBlanks⟩

theorem lettersEntry_length (n : Nat) : (lettersEntry n).text.length = n + 3 := by
  have hkey : (bytes "k").length = 1 := by decide
  simp only [lettersEntry, KeyLine.text, KeyLine.head, noBlanks, keyK, letters, List.length_append,
    List.length_cons, List.length_replicate, List.length_nil]
  omega

/-- The line `[s]` and such a line with a carriage return. -/
def twoLines (n : Nat) : IniText :=
  ⟨[(.sect sectS, .lf), (.entry (lettersEntry n), .crlf)], none⟩

/-- Such a line before the section and a short one behind it. -/
def strayLine (n : Nat) : IniText :=
  ⟨[(.entry (lettersEntry n), .lf), (.sect sectS, .lf), (.entry (lettersEntry 2), .crlf)], none⟩

/-- A line of any length may stand before the first section. -/
theorem strayLine_fits (n : Nat) : (strayLine n).Fits := by
  have hunder : (strayLine n).under = [⟨sectS, .lf, lettersEntry 2, .crlf⟩] := rfl
  refine IniText.fits_of_lengths ?_ ?_
  · intro S e hmem
    simp only [IniText.taken, strayLine, List.cons_append, List.nil_append, List.mem_cons,
      Prod.mk.injEq, reduceCtorEq, false_and, false_or, IniLine.sect.injEq, List.not_mem_nil,
      or_false, Option.getD_none] at hmem
    obtain ⟨rfl, -⟩ := hmem
    decide
  · intro x hx
    rw [hunder, List.mem_singleton] at hx
    rw [hx]
    exact ⟨by decide, by decide, by decide, by decide, fun _ => by decide⟩

theorem twoLines_bounded {n : Nat} (hn : n + 3 < 2 ^ 32 - 1) : (twoLines n).Bounded := by
  have hunder : (twoLines n).under = [⟨sectS, .lf, lettersEntry n, .crlf⟩] := rfl
  constructor
  · intro S e hmem
    simp only [IniText.taken, twoLines, List.cons_append, List.nil_append, List.mem_cons,
      Prod.mk.injEq, reduceCtorEq, false_and, IniLine.sect.injEq, List.not_mem_nil,
      or_false, Option.getD_none] at hmem
    obtain ⟨rfl, -⟩ := hmem
    decide
  · intro x hx
    rw [hunder, List.mem_singleton] at hx
    rw [hx, lettersEntry_length]
    exact hn

/-- The carriage return of a line of `2 ^ 31` bytes is no longer found. -/
theorem twoLines_not_fits {n : Nat} (hn : 2 ^ 31 ≤ n + 3) : ¬ (twoLines n).Fits := by
  intro hfit
  have hlast : ((twoLines n).linesFor (bytes "s") (bytes "k")).getLast? =
      some ⟨sectS, .lf, lettersEntry n, .crlf⟩ := rfl
  obtain ⟨-, hfits | hwhole⟩ := hfit.last _ _ (by decide) (by decide) _ hlast
  · have hshort := hfits.2.2.2 rfl
    rw [lettersEntry_length] at hshort
    omega
  · exact absurd (show LineEnd.crlf = .lf from hwhole.1) (by decide)

/-- A line of `2 ^ 32` bytes and more before the first section is passed over; one of
`2 ^ 31` bytes with a carriage return within a section is read with it. -/
theorem read_last_iff_lengths :
    (strayLine 4294967296).ReadsLast ∧ ¬ (twoLines 2147483645).ReadsLast :=
  ⟨(read_last_iff _).1 (strayLine_fits _), fun hreads =>
    twoLines_not_fits (by decide) ((read_last_iff _).2 (twoLines_bounded (by decide)) hreads)⟩

/-- A line of `2 ^ 32` bytes is dropped with its carriage return. -/
theorem readLines_twoLines {n : Nat} (hn : n + 3 = 2 ^ 32) :
    readLines (twoLines n).content = some [(IniLine.sect sectS).text, [], []] := by
  have hsect : subbuf (IniLine.sect sectS).text = some (IniLine.sect sectS).text := by
    decide +kernel
  have hempty : subbuf [] = some [] := by decide +kernel
  have htaken : (twoLines n).taken.map (fun l => l.1.text ++ l.2.returns) =
      [(IniLine.sect sectS).text, (lettersEntry n).text ++ [ch '\r'], []] := by
    simp only [IniText.taken, twoLines, LineEnd.returns, List.cons_append, List.nil_append,
      List.map_cons, List.map_nil, List.append_nil, Option.getD_none]
    rfl
  rw [readLines, content_splitOn, htaken, List.mapM_cons, hsect, List.mapM_cons,
    subbuf_wrapped ((lettersEntry_length n).trans hn), List.mapM_cons, hempty]
  rfl

/-- What is left of the file is a section without keys. -/
theorem not_readsLast_twoLines {n : Nat} (hn : n + 3 = 2 ^ 32) : ¬ (twoLines n).ReadsLast := by
  rintro ⟨opened, f, hopen, hread⟩
  have hrun : [(IniLine.sect sectS).text, [], []].foldlM Analyzeini.operator ⟨[], ∅⟩ =
      some ⟨bytes "s", ∅⟩ := by rfl
  have hmap : f.c_inimap = ∅ := by
    rw [IniFile.do_open, readLines_twoLines hn, Option.bind_eq_bind, Option.bind_some,
      if_neg (List.cons_ne_nil _ _), hrun, Option.bind_eq_bind, Option.bind_some,
      Option.some.injEq, Prod.mk.injEq] at hopen
    rw [← hopen.2]
  have hvalues : valuesUnder (cstr (bytes "s")) (cstr (bytes "k")) none (twoLines n).lines =
      [(letters n).text] := rfl
  have hlost := hread (bytes "s") (bytes "k")
  rw [hvalues, IniFile.read, hmap, AList.lookup_empty] at hlost
  have hresult : (-1 : Int) = 0 := congrArg Prod.fst hlost
  exact absurd hresult (by decide)

/-- **A long line is lost.**  The carriage return of a line of `2 ^ 32` bytes is at
position 0 for the code, which cuts the line there. -/
theorem long_line_lost : ¬ (twoLines 4294967293).ReadsLast :=
  not_readsLast_twoLines (by decide)

end File

end MyGenSvr.Ports
