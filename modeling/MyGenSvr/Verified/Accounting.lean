import MyGenSvr.Verified.PartialMap
import Mathlib

/-!
# Ownership ledgers

Objects that are kept under keys.  A ledger is the map from keys to the objects they
own and the set of objects that are live.  It is balanced if the live objects are
those with an owner: then nothing has leaked, and nothing owned is gone.

`Step` lists what can happen between allocation and release: a new object gets a
free key or none, and a key forgets its object.  The second and the third unbalance
a ledger for good, which is `Step.balanced_iff`.
-/

namespace MyGenSvr.Verified.Accounting

open MyGenSvr.Verified.PartialMap

/-- The objects owned, and the objects live. -/
@[ext] structure Ledger (κ ι : Type*) where
  owner : κ → Option ι
  live : Set ι

variable {κ ι : Type*}

/-- What is owned is live, and has one owner. -/
structure Ledger.Valid (l : Ledger κ ι) : Prop where
  live_of_owner : ∀ k i, l.owner k = some i → i ∈ l.live
  owner_unique : ∀ k k' i, l.owner k = some i → l.owner k' = some i → k = k'

/-- What is live is owned, and the other way round. -/
def Ledger.Balanced (l : Ledger κ ι) : Prop := ∀ i, i ∈ l.live ↔ ∃ k, l.owner k = some i

variable [DecidableEq κ]

/-- A new object under a key. -/
def Ledger.enter (l : Ledger κ ι) (k : κ) (i : ι) : Ledger κ ι :=
  ⟨Function.update l.owner k (some i), insert i l.live⟩

/-- A new object under no key. -/
def Ledger.stray (l : Ledger κ ι) (i : ι) : Ledger κ ι := ⟨l.owner, insert i l.live⟩

/-- A key without its object, which stays live. -/
def Ledger.forget (l : Ledger κ ι) (k : κ) : Ledger κ ι :=
  ⟨Function.update l.owner k none, l.live⟩

/-- A step of a ledger, which keeps the balance if it is `good`. -/
inductive Step (good : Prop) (l : Ledger κ ι) : Ledger κ ι → Prop where
  | same : good → Step good l l
  | enter (k : κ) (i : ι) : good → l.owner k = none → i ∉ l.live → Step good l (l.enter k i)
  | stray (i : ι) : ¬ good → i ∉ l.live → Step good l (l.stray i)
  | forget (k : κ) (i : ι) : ¬ good → l.owner k = some i → Step good l (l.forget k)

section Owners

variable {l : Ledger κ ι} {k k' : κ} {i j : ι}

theorem enter_owner_iff (hk : l.owner k = none) :
    (l.enter k i).owner k' = some j ↔ (k' = k ∧ j = i) ∨ l.owner k' = some j := by
  have hother : l.owner k' = some j → k' ≠ k := by
    rintro hold rfl
    rw [hk] at hold
    cases hold
  constructor
  · intro hafter
    rcases update_eq_some_iff.mp hafter with ⟨heq, hij⟩ | ⟨-, hold⟩
    · exact Or.inl ⟨heq, hij.symm⟩
    · exact Or.inr hold
  · rintro (⟨heq, hij⟩ | hold)
    · exact update_eq_some_iff.mpr (Or.inl ⟨heq, hij.symm⟩)
    · exact update_eq_some_iff.mpr (Or.inr ⟨hother hold, hold⟩)

theorem forget_owner_iff : (l.forget k).owner k' = some j ↔ k' ≠ k ∧ l.owner k' = some j :=
  erase_eq_some_iff

end Owners

variable {l l' : Ledger κ ι} {good : Prop}

theorem Step.valid (hl : l.Valid) (h : Step good l l') : l'.Valid := by
  cases h with
  | same _ => exact hl
  | enter k i _ hk hi =>
      have hother : ∀ k', l.owner k' ≠ some i := fun k' hk' => hi (hl.live_of_owner k' i hk')
      constructor
      · intro k' j hk'
        rcases (enter_owner_iff hk).mp hk' with ⟨-, rfl⟩ | hold
        · exact Set.mem_insert _ _
        · exact Set.mem_insert_of_mem _ (hl.live_of_owner k' j hold)
      · intro k₁ k₂ j h₁ h₂
        rcases (enter_owner_iff hk).mp h₁ with ⟨rfl, rfl⟩ | hold₁
        · rcases (enter_owner_iff hk).mp h₂ with ⟨rfl, -⟩ | hold₂
          · rfl
          · exact absurd hold₂ (hother k₂)
        · rcases (enter_owner_iff hk).mp h₂ with ⟨rfl, rfl⟩ | hold₂
          · exact absurd hold₁ (hother k₁)
          · exact hl.owner_unique k₁ k₂ j hold₁ hold₂
  | stray i _ _ =>
      exact ⟨fun k j hk => Set.mem_insert_of_mem _ (hl.live_of_owner k j hk), hl.owner_unique⟩
  | forget k i _ _ =>
      constructor
      · intro k' j hk'
        exact hl.live_of_owner k' j (forget_owner_iff.mp hk').2
      · intro k₁ k₂ j h₁ h₂
        exact hl.owner_unique k₁ k₂ j (forget_owner_iff.mp h₁).2 (forget_owner_iff.mp h₂).2

/-- **A ledger is balanced after a step** exactly if it was before and the step is
good: no later step gives a stray object an owner. -/
theorem Step.balanced_iff (hl : l.Valid) (h : Step good l l') :
    l'.Balanced ↔ l.Balanced ∧ good := by
  cases h with
  | same hgood => exact (and_iff_left hgood).symm
  | enter k i hgood hk hi =>
      rw [and_iff_left hgood]
      have howned : ∀ j, (∃ k', (l.enter k i).owner k' = some j) ↔
          j = i ∨ ∃ k', l.owner k' = some j := by
        intro j
        constructor
        · rintro ⟨k', hk'⟩
          rcases (enter_owner_iff hk).mp hk' with ⟨-, rfl⟩ | hold
          · exact Or.inl rfl
          · exact Or.inr ⟨k', hold⟩
        · rintro (rfl | ⟨k', hold⟩)
          · exact ⟨k, (enter_owner_iff hk).mpr (Or.inl ⟨rfl, rfl⟩)⟩
          · exact ⟨k', (enter_owner_iff hk).mpr (Or.inr hold)⟩
      constructor
      · intro hafter j
        constructor
        · intro hj
          have hlive := ((hafter j).mp (Set.mem_insert_of_mem _ hj))
          rcases (howned j).mp hlive with rfl | hold
          · exact absurd hj hi
          · exact hold
        · rintro ⟨k', hk'⟩
          exact hl.live_of_owner k' j hk'
      · intro hbefore j
        rw [howned, ← hbefore]
        exact Set.mem_insert_iff
  | stray i hbad hi =>
      refine iff_of_false ?_ (fun h => hbad h.2)
      intro hafter
      obtain ⟨k, hk⟩ := (hafter i).mp (Set.mem_insert _ _)
      exact hi (hl.live_of_owner k i hk)
  | forget k i hbad hk =>
      refine iff_of_false ?_ (fun h => hbad h.2)
      intro hafter
      obtain ⟨k', hk'⟩ := (hafter i).mp (hl.live_of_owner k i hk)
      obtain ⟨hne, hold⟩ := forget_owner_iff.mp hk'
      exact hne (hl.owner_unique k' k i hold hk)

end MyGenSvr.Verified.Accounting
