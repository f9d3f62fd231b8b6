import Mathlib

/-!
# Searching and trimming text

The searches of a string class, on lists: the first and the last position whose
element meets a predicate, the first position at which a pattern stands, and
what is left of a text when a set of elements is trimmed off both ends.  Each
search has a lemma that gives its result on a text written as what stands
before, at and behind the position.

Nothing here mentions a particular alphabet or program.
-/

namespace MyGenSvr.Verified.Text

variable {α : Type*}

/-! ## The first and the last position -/

/-- The first position meets the predicate and those before do not. -/
theorem findIdx?_split {p : α → Bool} {before behind : List α} {x : α} (hx : p x = true)
    (hbefore : ∀ y ∈ before, p y = false) :
    (before ++ x :: behind).findIdx? p = some before.length := by
  have hnone : before.findIdx? p = none := List.findIdx?_eq_none_iff.mpr hbefore
  rw [List.findIdx?_append, hnone, List.findIdx?_cons, if_pos hx]
  simp

/-- The last position that meets a predicate. -/
def lastIdx? (p : α → Bool) (text : List α) : Option Nat :=
  (text.reverse.findIdx? p).map fun i => text.length - 1 - i

theorem lastIdx?_split {p : α → Bool} {before behind : List α} {x : α} (hx : p x = true)
    (hbehind : ∀ y ∈ behind, p y = false) :
    lastIdx? p (before ++ x :: behind) = some before.length := by
  have hrev : (before ++ x :: behind).reverse = behind.reverse ++ x :: before.reverse := by
    simp
  rw [lastIdx?, hrev, findIdx?_split hx (fun y hy => hbehind y (List.mem_reverse.mp hy)),
    Option.map_some, List.length_append, List.length_cons, List.length_reverse]
  congr 1
  omega

theorem lastIdx?_eq_none {p : α → Bool} {text : List α} (hall : ∀ y ∈ text, p y = false) :
    lastIdx? p text = none := by
  have hnone : text.reverse.findIdx? p = none :=
    List.findIdx?_eq_none_iff.mpr fun y hy => hall y (List.mem_reverse.mp hy)
  rw [lastIdx?, hnone, Option.map_none]

theorem findIdx?_lt {p : α → Bool} {text : List α} {i : Nat}
    (hfirst : text.findIdx? p = some i) : i < text.length :=
  (List.findIdx?_eq_some_iff_findIdx_eq.mp hfirst).1

theorem lastIdx?_lt {p : α → Bool} {text : List α} {j : Nat}
    (hlast : lastIdx? p text = some j) : j < text.length := by
  obtain ⟨i, hi, rfl⟩ := Option.map_eq_some_iff.mp hlast
  have hlt := findIdx?_lt hi
  rw [List.length_reverse] at hlt
  omega

/-- A text with an element that meets a predicate, split at the first such. -/
theorem exists_first {p : α → Bool} {text : List α} (hsome : ∃ x ∈ text, p x = true) :
    ∃ before x behind, text = before ++ x :: behind ∧ p x = true ∧
      ∀ y ∈ before, p y = false := by
  induction text with
  | nil =>
      obtain ⟨x, hx, -⟩ := hsome
      exact absurd hx List.not_mem_nil
  | cons a text ih =>
      by_cases ha : p a = true
      · exact ⟨[], a, text, rfl, ha, fun y hy => absurd hy List.not_mem_nil⟩
      · have htail : ∃ x ∈ text, p x = true := by
          obtain ⟨x, hx, hp⟩ := hsome
          rcases List.mem_cons.mp hx with rfl | hx
          · exact absurd hp ha
          · exact ⟨x, hx, hp⟩
        obtain ⟨before, x, behind, rfl, hx, hbefore⟩ := ih htail
        refine ⟨a :: before, x, behind, rfl, hx, ?_⟩
        intro y hy
        rcases List.mem_cons.mp hy with rfl | hy
        · exact Bool.eq_false_of_not_eq_true ha
        · exact hbefore y hy

/-- The same at the last such element. -/
theorem exists_last {p : α → Bool} {text : List α} (hsome : ∃ x ∈ text, p x = true) :
    ∃ before x behind, text = before ++ x :: behind ∧ p x = true ∧
      ∀ y ∈ behind, p y = false := by
  have hrev : ∃ x ∈ text.reverse, p x = true := by
    obtain ⟨x, hx, hp⟩ := hsome
    exact ⟨x, List.mem_reverse.mpr hx, hp⟩
  obtain ⟨before, x, behind, heq, hx, hbefore⟩ := exists_first hrev
  refine ⟨behind.reverse, x, before.reverse, ?_, hx, ?_⟩
  · rw [← List.reverse_reverse text, heq]
    simp
  · intro y hy
    exact hbefore y (List.mem_reverse.mp hy)

/-- The last position that meets the predicate is no earlier than any other. -/
theorem le_lastIdx? {p : α → Bool} {before behind : List α} {x : α} (hx : p x = true) :
    ∃ last, lastIdx? p (before ++ x :: behind) = some last ∧ before.length ≤ last ∧
      last < (before ++ x :: behind).length := by
  obtain ⟨front, y, rest, hsplit, hy, hrest⟩ :=
    exists_last (show ∃ y ∈ x :: behind, p y = true from ⟨x, List.mem_cons_self, hx⟩)
  have hlast : lastIdx? p (before ++ x :: behind) = some (before ++ front).length := by
    rw [hsplit, ← List.append_assoc]
    exact lastIdx?_split hy hrest
  refine ⟨_, hlast, ?_, ?_⟩
  · simp only [List.length_append]
    omega
  · rw [hsplit]
    simp only [List.length_append, List.length_cons]
    omega

/-! ## Patterns -/

section Patterns

variable [DecidableEq α]

/-- The first position at which a pattern stands. -/
def firstMatch (pat : List α) : List α → Option Nat
  | [] => if pat.isPrefixOf [] then some 0 else none
  | x :: text =>
      if pat.isPrefixOf (x :: text) then some 0 else (firstMatch pat text).map (· + 1)

/-- The first position from `pos` on at which a pattern stands. -/
def matchFrom (pat : List α) (pos : Nat) (text : List α) : Option Nat :=
  if pos ≤ text.length then (firstMatch pat (text.drop pos)).map (· + pos) else none

/-- A pattern that stands nowhere is not found. -/
theorem firstMatch_eq_none {pat text : List α} (hpat : ¬ pat <:+: text) :
    firstMatch pat text = none := by
  induction text with
  | nil =>
      have hpre : ¬ pat.isPrefixOf [] = true := fun h =>
        hpat (List.isPrefixOf_iff_prefix.mp h).isInfix
      rw [firstMatch, if_neg hpre]
  | cons x text ih =>
      have hpre : ¬ pat.isPrefixOf (x :: text) = true := fun h =>
        hpat (List.isPrefixOf_iff_prefix.mp h).isInfix
      rw [firstMatch, if_neg hpre, ih (fun h => hpat (h.trans (List.suffix_cons x text).isInfix)),
        Option.map_none]

/-- Where a pattern is found, it stands. -/
theorem firstMatch_spec {pat text : List α} {i : Nat} (hmatch : firstMatch pat text = some i) :
    pat <+: text.drop i := by
  induction text generalizing i with
  | nil =>
      rw [firstMatch] at hmatch
      split at hmatch
      · rename_i hpre
        simpa using hpre
      · exact absurd hmatch (by simp)
  | cons x text ih =>
      rw [firstMatch] at hmatch
      split at hmatch
      · rename_i hpre
        obtain rfl := Option.some.inj hmatch
        exact List.isPrefixOf_iff_prefix.mp hpre
      · obtain ⟨j, hj, rfl⟩ := Option.map_eq_some_iff.mp hmatch
        exact ih hj

/-- A pattern at the start is found there. -/
theorem firstMatch_start {pat text : List α} (hpat : pat <+: text) :
    firstMatch pat text = some 0 := by
  have hpre := List.isPrefixOf_iff_prefix.mpr hpat
  cases text with
  | nil => rw [firstMatch, if_pos hpre]
  | cons x text => rw [firstMatch, if_pos hpre]

/-- A pattern that begins at no position of `before` is looked for behind it. -/
theorem firstMatch_append {pat before behind : List α}
    (hbefore : ∀ a b, before = a ++ b → b ≠ [] → ¬ pat <+: b ++ behind) :
    firstMatch pat (before ++ behind) = (firstMatch pat behind).map (· + before.length) := by
  induction before with
  | nil => simp
  | cons x before ih =>
      have hpre : ¬ pat.isPrefixOf (x :: (before ++ behind)) = true := fun h =>
        hbefore [] (x :: before) rfl (List.cons_ne_nil x before)
          (List.isPrefixOf_iff_prefix.mp h)
      have htail := ih (fun a b hab hb => hbefore (x :: a) b (by rw [hab]; rfl) hb)
      rw [List.cons_append, firstMatch, if_neg hpre, htail, Option.map_map]
      rfl

/-- A pattern that is not in `text`, and that could go on behind it only with an
element it does not have, is looked for behind it. -/
theorem firstMatch_append_of_not_infix {pat text behind : List α} (htext : ¬ pat <:+: text)
    (hbehind : ∀ x ∈ behind.head?, x ∉ pat.tail) :
    firstMatch pat (text ++ behind) = (firstMatch pat behind).map (· + text.length) := by
  refine firstMatch_append ?_
  intro a b hab hb hpre
  have hsuffix : b <:+ text := ⟨a, hab.symm⟩
  have hlong : ¬ pat <+: b := fun h => htext (h.isInfix.trans hsuffix.isInfix)
  obtain ⟨t, rfl, ht⟩ : ∃ t, pat = b ++ t ∧ t <+: behind := by
    rcases List.prefix_or_prefix_of_prefix hpre (List.prefix_append b behind) with h | ⟨t, rfl⟩
    · exact absurd h hlong
    · exact ⟨t, rfl, (List.prefix_append_right_inj b).mp hpre⟩
  cases t with
  | nil => exact hlong (by simp)
  | cons x t =>
      obtain ⟨rest, rfl⟩ := ht
      refine hbehind x rfl ?_
      rw [List.tail_append_of_ne_nil hb]
      exact List.mem_append_right _ List.mem_cons_self

end Patterns

/-! ## Trimming -/

/-- The text without the elements of a set at its two ends. -/
def trim (p : α → Bool) (text : List α) : List α := (text.dropWhile p).rdropWhile p

/-- A text that neither starts nor ends with an element of the set. -/
structure Trimmed (p : α → Bool) (text : List α) : Prop where
  ne_nil : text ≠ []
  head : p (text.head ne_nil) = false
  last : p (text.getLast ne_nil) = false

section Surrounded

variable {p : α → Bool} {left core right : List α}

/-- The first element outside the set stands where the trimmed part starts. -/
theorem findIdx?_surrounded (hleft : ∀ y ∈ left, p y = true) (hcore : Trimmed p core) :
    (left ++ core ++ right).findIdx? (fun y => !p y) = some left.length := by
  obtain ⟨hne, hhead, -⟩ := hcore
  cases core with
  | nil => exact absurd rfl hne
  | cons x core =>
      rw [List.append_assoc, List.cons_append]
      refine findIdx?_split ?_ ?_
      · simpa using hhead
      · intro y hy
        simp [hleft y hy]

/-- The last one stands where it ends. -/
theorem lastIdx?_surrounded (hcore : Trimmed p core) (hright : ∀ y ∈ right, p y = true) :
    lastIdx? (fun y => !p y) (left ++ core ++ right) =
      some (left.length + core.length - 1) := by
  obtain ⟨hne, -, hlast⟩ := hcore
  have hsplit : left ++ core ++ right =
      (left ++ core.dropLast) ++ core.getLast hne :: right := by
    conv_lhs => rw [← List.dropLast_append_getLast hne]
    simp
  rw [hsplit, lastIdx?_split]
  · have hpos := List.length_pos_of_ne_nil hne
    simp only [List.length_append, List.length_dropLast, Option.some.injEq]
    omega
  · simp [hlast]
  · intro y hy
    simp [hright y hy]

/-- What stands before a trimmed text, -/
theorem takeWhile_surrounded (hleft : ∀ y ∈ left, p y = true) (hcore : Trimmed p core) :
    (left ++ core ++ right).takeWhile p = left := by
  obtain ⟨hne, hhead, -⟩ := hcore
  rw [List.append_assoc, List.takeWhile_append_of_pos hleft]
  cases core with
  | nil => exact absurd rfl hne
  | cons x core => simpa using hhead

/-- and what is left without it. -/
theorem dropWhile_surrounded (hleft : ∀ y ∈ left, p y = true) (hcore : Trimmed p core) :
    (left ++ core ++ right).dropWhile p = core ++ right := by
  obtain ⟨hne, hhead, -⟩ := hcore
  rw [List.append_assoc, List.dropWhile_append_of_pos hleft]
  cases core with
  | nil => exact absurd rfl hne
  | cons x core => simpa using hhead

/-- **Trimming** takes off what surrounds a trimmed text. -/
theorem trim_surrounded (hleft : ∀ y ∈ left, p y = true) (hcore : Trimmed p core)
    (hright : ∀ y ∈ right, p y = true) : trim p (left ++ core ++ right) = core := by
  have hfront : (left ++ core ++ right).dropWhile p = core ++ right :=
    dropWhile_surrounded hleft hcore
  obtain ⟨hne, -, hlast⟩ := hcore
  have hback : core.reverse.dropWhile p = core.reverse := by
    rw [List.dropWhile_eq_self_iff]
    intro hpos
    simpa [List.getElem_reverse, List.getLast_eq_getElem] using hlast
  rw [trim, hfront, List.rdropWhile, List.reverse_append, List.dropWhile_append_of_pos
    (fun y hy => hright y (List.mem_reverse.mp hy)), hback, List.reverse_reverse]

/-- A text is no shorter than its trimmed part and what stands before it. -/
theorem length_trim_le (text : List α) :
    (text.takeWhile p).length + (trim p text).length ≤ text.length := by
  have hsum := congrArg List.length (List.takeWhile_append_dropWhile (p := p) (l := text))
  have htrim : (trim p text).length ≤ (text.dropWhile p).length :=
    (List.rdropWhile_prefix p (text.dropWhile p)).length_le
  rw [List.length_append] at hsum
  omega

/-- A text with an element outside the set is its trimmed part, surrounded. -/
theorem exists_surrounded {text : List α} (hsome : ∃ x ∈ text, p x = false) :
    ∃ left right, text = left ++ trim p text ++ right ∧ (∀ y ∈ left, p y = true) ∧
      Trimmed p (trim p text) ∧ ∀ y ∈ right, p y = true := by
  have hfront : text.dropWhile p ≠ [] := by
    obtain ⟨x, hx, hp⟩ := hsome
    intro hnil
    have hall := List.dropWhile_eq_nil_iff.mp hnil x hx
    rw [hp] at hall
    exact Bool.false_ne_true hall
  have hhead : p ((text.dropWhile p).head hfront) = false := List.head_dropWhile_not p hfront
  have hne : trim p text ≠ [] := fun hnil => by
    have hall := List.rdropWhile_eq_nil_iff.mp hnil _ (List.head_mem hfront)
    rw [hhead] at hall
    exact Bool.false_ne_true hall
  have hcore : Trimmed p (trim p text) := by
    refine ⟨hne, ?_, ?_⟩
    · have hsame := List.IsPrefix.head (List.rdropWhile_prefix p (text.dropWhile p)) hne
      exact (congrArg p hsame).trans hhead
    · exact Bool.eq_false_of_not_eq_true (List.rdropWhile_last_not p (text.dropWhile p) hne)
  refine ⟨text.takeWhile p, (text.dropWhile p).rtakeWhile p, ?_, ?_, hcore, ?_⟩
  · rw [List.append_assoc, trim, List.rdropWhile_append_rtakeWhile,
      List.takeWhile_append_dropWhile]
  · intro y hy
    exact List.mem_takeWhile_imp hy
  · intro y hy
    exact List.mem_rtakeWhile_imp hy

end Surrounded

end MyGenSvr.Verified.Text
