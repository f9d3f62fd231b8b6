import Mathlib.Data.List.Induction
import Mathlib.Logic.Function.Basic

/-!
# Stores that are appended to

A store maps names to contents.  Appending under a name creates the contents where there
are none; a sequence of appends leaves under each name what was there, followed by what
was appended under it, in order, and every other name alone.

## Main results

* `replay_apply` — what a sequence of appends leaves under a name.
* `replay_other` — names that nothing was appended under.
-/

namespace MyGenSvr.Verified.AppendStore

variable {κ α : Type*} [DecidableEq κ]

/-- Append under a name. -/
def append (d : κ → Option (List α)) (k : κ) (xs : List α) : κ → Option (List α) :=
  Function.update d k (some ((d k).getD [] ++ xs))

/-- A sequence of appends. -/
def replay (d : κ → Option (List α)) (entries : List (κ × List α)) : κ → Option (List α) :=
  entries.foldl (fun d e => append d e.1 e.2) d

/-- What a sequence of appends puts under a name. -/
def under (k : κ) (entries : List (κ × List α)) : List α :=
  (entries.filter fun e => decide (e.1 = k)).flatMap Prod.snd

variable {d : κ → Option (List α)} {k : κ} {entries : List (κ × List α)}

@[simp] theorem replay_nil : replay d [] = d := rfl

theorem replay_concat (e : κ × List α) :
    replay d (entries ++ [e]) = append (replay d entries) e.1 e.2 := by
  rw [replay, List.foldl_append]
  rfl

theorem under_concat (e : κ × List α) :
    under k (entries ++ [e]) = under k entries ++ if e.1 = k then e.2 else [] := by
  rw [under, List.filter_append, List.flatMap_append]
  by_cases hk : e.1 = k
  · simp [under, hk]
  · simp [under, hk]

/-- Nothing was appended under a name that is not there. -/
theorem under_of_not_mem (hk : k ∉ entries.map Prod.fst) : under k entries = [] := by
  rw [under, List.filter_eq_nil_iff.mpr, List.flatMap_nil]
  intro e he hsame
  exact hk (List.mem_map.mpr ⟨e, he, of_decide_eq_true hsame⟩)

/-- **What a sequence of appends leaves.** -/
theorem replay_apply : replay d entries k =
    if k ∈ entries.map Prod.fst then some ((d k).getD [] ++ under k entries) else d k := by
  induction entries using List.reverseRecOn with
  | nil => rfl
  | append_singleton entries e ih =>
      rw [replay_concat, under_concat, append]
      by_cases hk : k = e.1
      · subst hk
        have hlast : e.1 ∈ (entries ++ [e]).map Prod.fst := by
          rw [List.map_append]
          exact List.mem_append_right _ (List.mem_singleton_self e.1)
        rw [Function.update_self, ih, if_pos rfl, if_pos hlast]
        by_cases hmem : e.1 ∈ entries.map Prod.fst
        · rw [if_pos hmem, Option.getD_some, List.append_assoc]
        · rw [if_neg hmem, under_of_not_mem hmem, List.nil_append]
      · have hmap : k ∈ (entries ++ [e]).map Prod.fst ↔ k ∈ entries.map Prod.fst := by
          simp [hk]
        rw [Function.update_of_ne hk, ih, if_neg (Ne.symm hk), List.append_nil]
        exact if_congr hmap.symm rfl rfl

/-- What is under a name, an empty one where there is none. -/
theorem replay_getD : (replay d entries k).getD [] = (d k).getD [] ++ under k entries := by
  rw [replay_apply]
  by_cases hmem : k ∈ entries.map Prod.fst
  · rw [if_pos hmem, Option.getD_some]
  · rw [if_neg hmem, under_of_not_mem hmem, List.append_nil]

/-- Other names keep their contents. -/
theorem replay_other (hk : k ∉ entries.map Prod.fst) : replay d entries k = d k := by
  rw [replay_apply, if_neg hk]

end MyGenSvr.Verified.AppendStore
