import Mathlib.Data.Option.Basic
import Mathlib.Logic.Function.Basic

/-!
# Partial maps

A map from keys to optional values, with one key set, erased or its value replaced
by `Function.update`.  An entry afterwards is the one at that key or an old one under
another (`update_eq_some_iff` and its siblings), so that a property of all entries
is checked at one key; and what a replaced value agrees on with the old one is the same
for the whole map (`map_update`, `map_alter`).
-/

namespace MyGenSvr.Verified.PartialMap

variable {κ α β : Type*} [DecidableEq κ] {m : κ → Option α} {k k' : κ} {a a' : α}

/-- The entries after a key was set. -/
theorem update_eq_some_iff : Function.update m k (some a) k' = some a' ↔
    (k' = k ∧ a = a') ∨ (k' ≠ k ∧ m k' = some a') := by
  by_cases hkey : k' = k
  · subst hkey
    simp
  · simp [hkey]

/-- The entries after a key was erased. -/
theorem erase_eq_some_iff : Function.update m k none k' = some a' ↔
    k' ≠ k ∧ m k' = some a' := by
  by_cases hkey : k' = k
  · subst hkey
    simp
  · simp [hkey]

/-- The entries after the value at a key, if there is one, was replaced. -/
theorem alter_eq_some_iff {g : α → α} : Function.update m k ((m k).map g) k' = some a' ↔
    (k' = k ∧ ∃ a, m k = some a ∧ g a = a') ∨ (k' ≠ k ∧ m k' = some a') := by
  by_cases hkey : k' = k
  · subst hkey
    simp
  · simp [hkey]

/-- A value replaced by one with the same image. -/
theorem map_update {f : α → β} (hk : m k = some a) (hf : f a' = f a) (k' : κ) :
    (Function.update m k (some a') k').map f = (m k').map f := by
  by_cases hkey : k' = k
  · subst hkey
    rw [Function.update_self, hk, Option.map_some, Option.map_some, hf]
  · rw [Function.update_of_ne hkey]

theorem map_alter {f : α → β} {g : α → α} (hf : ∀ a, f (g a) = f a) (k' : κ) :
    (Function.update m k ((m k).map g) k').map f = (m k').map f := by
  cases hk : m k with
  | none =>
      rw [Option.map_none, ← hk, Function.update_eq_self]
  | some a => exact map_update hk (hf a) k'

/-- The keys after one that is there got another value. -/
theorem isSome_update (hk : (m k).isSome) (k' : κ) :
    (Function.update m k (some a) k').isSome = (m k').isSome := by
  by_cases hkey : k' = k
  · subst hkey
    rw [Function.update_self, hk, Option.isSome_some]
  · rw [Function.update_of_ne hkey]

theorem isSome_alter {g : α → α} (k' : κ) :
    (Function.update m k ((m k).map g) k').isSome = (m k').isSome := by
  have hsame := map_alter (m := m) (k := k) (f := fun _ => ()) (g := g) (fun _ => rfl) k'
  rw [← Option.isSome_map, hsame, Option.isSome_map]

/-- The keys after one was erased. -/
theorem isSome_erase (k' : κ) :
    (Function.update m k none k').isSome ↔ k' ≠ k ∧ (m k').isSome := by
  by_cases hkey : k' = k
  · subst hkey
    simp
  · simp [hkey]

end MyGenSvr.Verified.PartialMap
