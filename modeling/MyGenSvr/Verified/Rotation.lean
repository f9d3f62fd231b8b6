import Mathlib.Data.Set.Function
import Mathlib.Logic.Function.Basic
import Mathlib.Tactic.Common

/-!
# Rotating numbered slots

A partial map with numbered places, the last of which is emptied and the others moved
up by one, from the top down.  `Shifted` describes the map on the way: the places from
`k` on hold what the places below them held, and the ones below `k` are as before.

## Main results

* `Shifted.start`, `Shifted.skip`, `Shifted.move` — the three steps of a rotation.
* `Shifted.placed` — wherever it stops, only the last place has lost its value.
-/

namespace MyGenSvr.Verified.Rotation

variable {κ α : Type*}

/-- The value at `a` moved to `b`, in place of what was there. -/
def move [DecidableEq κ] (m : κ → Option α) (a b : κ) : κ → Option α :=
  Function.update (Function.update m a none) b (m a)

/-- The `N` places of a map, shifted from place `k` on. -/
structure Shifted (slot : Nat → κ) (N k : Nat) (m₀ m : κ → Option α) : Prop where
  moved : ∀ i, k ≤ i → i + 1 < N → m (slot (i + 1)) = m₀ (slot i)
  free : m (slot k) = none
  kept : ∀ i, i < k → m (slot i) = m₀ (slot i)
  others : ∀ key, (∀ i < N, key ≠ slot i) → m key = m₀ key

section Steps

variable [DecidableEq κ] {slot : Nat → κ} (hslot : Function.Injective slot) {N k : Nat}
variable {m₀ m : κ → Option α}
include hslot

/-- The last place is emptied. -/
theorem Shifted.start (m₀ : κ → Option α) (N : Nat) :
    Shifted slot (N + 1) N m₀ (Function.update m₀ (slot N) none) := by
  constructor
  · intro i hlow hhigh
    omega
  · rw [Function.update_self]
  · intro i hi
    rw [Function.update_of_ne (hslot.ne hi.ne)]
  · intro key hkey
    rw [Function.update_of_ne (hkey N N.lt_succ_self)]

/-- A place moved up into the free one above it. -/
theorem Shifted.move (h : Shifted slot N (k + 1) m₀ m) (hk : k + 1 < N) :
    Shifted slot N k m₀ (Rotation.move m (slot k) (slot (k + 1))) := by
  have hbelow : ∀ i, i ≠ k → i ≠ k + 1 →
      Rotation.move m (slot k) (slot (k + 1)) (slot i) = m (slot i) := by
    intro i hik hik'
    rw [Rotation.move, Function.update_of_ne (hslot.ne hik'), Function.update_of_ne (hslot.ne hik)]
  constructor
  · intro i hlow hhigh
    by_cases hik : i = k
    · subst hik
      rw [Rotation.move, Function.update_self]
      exact h.kept i i.lt_succ_self
    · rw [hbelow (i + 1) (by omega) (by omega)]
      exact h.moved i (by omega) hhigh
  · rw [Rotation.move, Function.update_of_ne (hslot.ne k.lt_succ_self.ne), Function.update_self]
  · intro i hi
    rw [hbelow i (by omega) (by omega)]
    exact h.kept i (by omega)
  · intro key hkey
    rw [Rotation.move, Function.update_of_ne (hkey (k + 1) hk),
      Function.update_of_ne (hkey k (by omega))]
    exact h.others key hkey

omit hslot [DecidableEq κ] in
/-- An empty place is passed over. -/
theorem Shifted.skip (h : Shifted slot N (k + 1) m₀ m) (hempty : m (slot k) = none) :
    Shifted slot N k m₀ m := by
  constructor
  · intro i hlow hhigh
    by_cases hik : i = k
    · subst hik
      rw [h.free, ← h.kept i i.lt_succ_self, hempty]
    · exact h.moved i (by omega) hhigh
  · exact hempty
  · intro i hi
    exact h.kept i (by omega)
  · exact h.others

end Steps

/-- Where the value of a place has gone. -/
def place (N k i : Nat) : Nat := if k ≤ i ∧ i + 1 < N then i + 1 else i

/-- Values of different places are still in different places. -/
theorem place_injOn (N k : Nat) : Set.InjOn (place N k) {i | i ≠ N - 1} := by
  intro i hi j hj hsame
  have hi' : i ≠ N - 1 := hi
  have hj' : j ≠ N - 1 := hj
  unfold place at hsame
  split_ifs at hsame <;> omega

/-- **Nothing is lost** but the value of the last place. -/
theorem Shifted.placed {slot : Nat → κ} {N k : Nat} {m₀ m : κ → Option α}
    (h : Shifted slot N k m₀ m) (hbeyond : ∀ i, N ≤ i → m (slot i) = m₀ (slot i)) {i : Nat}
    (hi : i ≠ N - 1) : m (slot (place N k i)) = m₀ (slot i) := by
  unfold place
  by_cases hup : k ≤ i ∧ i + 1 < N
  · rw [if_pos hup]
    exact h.moved i hup.1 hup.2
  · rw [if_neg hup]
    by_cases hlow : i < k
    · exact h.kept i hlow
    · exact hbeyond i (by omega)

end MyGenSvr.Verified.Rotation
