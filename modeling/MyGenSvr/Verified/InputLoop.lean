import Mathlib

/-!
# Loops driven by inputs

A loop whose body takes one input per turn: an answer of the kernel, a message.
The body either goes on in a new state or leaves the loop with a result.  `run`
is the loop over the inputs it is given, with the number of turns it took.

`run_rule` is the induction over the turns: what holds of the inputs taken and the
state before the first turn, and is kept by every turn that goes on, holds where the
loop is left and where it still waits for an input.  A bound on the number of
turns is such a property, with a measure of the state in it.

`nested` is a loop with another in its body, one input of the two together a turn,
and `run_nested_left` says that it runs as the source writes it.  `run_take_left_iff`
is for inputs that never run out.
-/

namespace MyGenSvr.Verified.InputLoop

variable {σ τ ι α ρ : Type*}

/-- The loop over `is`: the number of turns, and the state it waits in or the
result it left with. -/
def run (body : σ → ι → σ ⊕ ρ) : σ → List ι → Nat × (σ ⊕ ρ)
  | s, [] => (0, .inl s)
  | s, i :: is =>
      match body s i with
      | .inl s' => ((run body s' is).1 + 1, (run body s' is).2)
      | .inr r => (1, .inr r)

/-- Every input the loop gets to is one that its state admits. -/
def Admits (body : σ → ι → σ ⊕ ρ) (admits : σ → ι → Prop) : σ → List ι → Prop
  | _, [] => True
  | s, i :: is => admits s i ∧ ∀ s', body s i = .inl s' → Admits body admits s' is

/-- The loop still waits after all of `is`, with `P` of these and its state. -/
def Waits (P : List ι → σ → Prop) (is : List ι) (result : Nat × (σ ⊕ ρ)) : Prop :=
  ∃ s, result = (is.length, .inl s) ∧ P is s

/-- The loop was left at one of `is`, from a state with `P` of the inputs before. -/
def Leaves (body : σ → ι → σ ⊕ ρ) (admits : σ → ι → Prop) (P : List ι → σ → Prop)
    (is : List ι) (result : Nat × (σ ⊕ ρ)) : Prop :=
  ∃ before i after s r, is = before ++ i :: after ∧ P before s ∧ admits s i ∧
    body s i = .inr r ∧ result = (before.length + 1, .inr r)

/-- **The loop rule.** -/
theorem run_rule {body : σ → ι → σ ⊕ ρ} {admits : σ → ι → Prop} {P : List ι → σ → Prop}
    (hstep : ∀ taken s i s', P taken s → admits s i → body s i = .inl s' →
      P (taken ++ [i]) s') (is : List ι) :
    ∀ (taken : List ι) (s : σ), P taken s → Admits body admits s is →
      Waits (fun is => P (taken ++ is)) is (run body s is) ∨
        Leaves body admits (fun is => P (taken ++ is)) is (run body s is) := by
  induction is with
  | nil =>
      intro taken s hs _
      refine Or.inl ⟨s, rfl, ?_⟩
      show P (taken ++ []) s
      rwa [List.append_nil]
  | cons i is ih =>
      rintro taken s hs ⟨hi, hlater⟩
      cases hbody : body s i with
      | inr r =>
          refine Or.inr ⟨[], i, is, s, r, rfl, ?_, hi, hbody, ?_⟩
          · show P (taken ++ []) s
            rwa [List.append_nil]
          · simp only [run, hbody, List.length_nil]
      | inl s' =>
          have hs' := hstep taken s i s' hs hi hbody
          have hjoin : ∀ later, taken ++ [i] ++ later = taken ++ i :: later :=
            fun later => List.append_assoc taken [i] later
          have hrun : run body s (i :: is) = ((run body s' is).1 + 1, (run body s' is).2) := by
            simp only [run, hbody]
          rw [hrun]
          rcases ih (taken ++ [i]) s' hs' (hlater s' hbody) with
            ⟨t, hres, ht⟩ | ⟨before, j, after, t, r, his, ht, hj, hleave, hres⟩
          · refine Or.inl ⟨t, ?_, ?_⟩
            · rw [hres, List.length_cons]
            · show P (taken ++ i :: is) t
              rwa [← hjoin]
          · refine Or.inr ⟨i :: before, j, after, t, r, ?_, ?_, hj, hleave, ?_⟩
            · rw [his, List.cons_append]
            · show P (taken ++ i :: before) t
              rwa [← hjoin]
            · rw [hres, List.length_cons]

/-- Where an invariant admits every input, so does the loop. -/
theorem admits_of_invariant {body : σ → ι → σ ⊕ ρ} {admits : σ → ι → Prop} {I : σ → Prop}
    (hkeep : ∀ s i s', I s → body s i = .inl s' → I s') (hadm : ∀ s i, I s → admits s i)
    (is : List ι) : ∀ s, I s → Admits body admits s is := by
  induction is with
  | nil =>
      intro s _
      trivial
  | cons i is ih =>
      intro s hs
      exact ⟨hadm s i hs, fun s' hbody => ih s' (hkeep s i s' hs hbody)⟩

/-! ## Nested loops -/

/-- A loop that runs another one to its end in every turn, and goes by what this
leaves with. -/
def nested (start : τ) (inner : τ → ι → τ ⊕ α) (outer : σ → α → σ ⊕ ρ) :
    σ × τ → ι → (σ × τ) ⊕ ρ
  | (s, t), i =>
      match inner t i with
      | .inl t' => .inl (s, t')
      | .inr a =>
          match outer s a with
          | .inl s' => .inl (s', start)
          | .inr r => .inr r

section Nested

variable {start : τ} {inner : τ → ι → τ ⊕ α} {outer : σ → α → σ ⊕ ρ}

/-- While the inner loop waits, so does the outer one. -/
theorem run_nested_waits (is : List ι) :
    ∀ {s : σ} {t t' : τ} {n : Nat}, run inner t is = (n, .inl t') →
      run (nested start inner outer) (s, t) is = (n, .inl (s, t')) := by
  induction is with
  | nil =>
      intro s t t' n h
      rw [run, Prod.mk.injEq, Sum.inl.injEq] at h
      rw [run, h.1, h.2]
  | cons i is ih =>
      intro s t t' n h
      cases hinner : inner t i with
      | inl u =>
          simp only [run, hinner, Prod.mk.injEq] at h
          have hrest := ih (s := s) (Prod.ext rfl h.2)
          simp only [run, nested, hinner, hrest, h.1]
      | inr a =>
          simp only [run, hinner, Prod.mk.injEq, reduceCtorEq, and_false] at h

/-- What the inner loop leaves with is the turn of the outer one. -/
theorem run_nested_left (is : List ι) :
    ∀ {s : σ} {t : τ} {n : Nat} {a : α}, run inner t is = (n, .inr a) →
      run (nested start inner outer) (s, t) is =
        match outer s a with
        | .inl s' =>
            let later := run (nested start inner outer) (s', start) (is.drop n)
            (n + later.1, later.2)
        | .inr r => (n, .inr r) := by
  induction is with
  | nil =>
      intro s t n a h
      simp only [run, Prod.mk.injEq, reduceCtorEq, and_false] at h
  | cons i is ih =>
      intro s t n a h
      cases hinner : inner t i with
      | inl u =>
          simp only [run, hinner, Prod.mk.injEq] at h
          have hrest := ih (s := s) (Prod.ext rfl h.2)
          rw [← h.1, List.drop_succ_cons]
          simp only [run, nested, hinner, hrest]
          cases outer s a with
          | inl s' => simp only [Nat.add_right_comm]
          | inr r => rfl
      | inr b =>
          simp only [run, hinner, Prod.mk.injEq, Sum.inr.injEq] at h
          rw [← h.1, ← h.2, List.drop_succ_cons, List.drop_zero]
          simp only [run, nested, hinner]
          cases outer s b with
          | inl s' => simp only [Nat.add_comm]
          | inr r => rfl

end Nested

/-! ## Endless inputs -/

/-- One more input. -/
theorem run_concat {body : σ → ι → σ ⊕ ρ} (is : List ι) (i : ι) :
    ∀ {s s' : σ}, run body s is = (is.length, .inl s') →
      run body s (is ++ [i]) = (is.length + 1, body s' i) := by
  induction is with
  | nil =>
      intro s s' h
      rw [run, Prod.mk.injEq, Sum.inl.injEq] at h
      rw [← h.2]
      cases hbody : body s i with
      | inl t => simp only [List.nil_append, run, hbody, List.length_nil]
      | inr r => simp only [List.nil_append, run, hbody, List.length_nil]
  | cons j is ih =>
      intro s s' h
      cases hbody : body s j with
      | inl t =>
          simp only [run, hbody, List.length_cons, Prod.mk.injEq, Nat.add_right_cancel_iff] at h
          simp only [List.cons_append, run, hbody, ih (Prod.ext h.1 h.2), List.length_cons]
      | inr r =>
          simp only [run, hbody, Prod.mk.injEq, reduceCtorEq, and_false] at h

/-- A loop that is left takes no more inputs. -/
theorem run_append_left {body : σ → ι → σ ⊕ ρ} {r : ρ} (is later : List ι) :
    ∀ {s : σ} {n : Nat}, run body s is = (n, .inr r) → run body s (is ++ later) = (n, .inr r) := by
  induction is with
  | nil =>
      intro s n h
      simp only [run, Prod.mk.injEq, reduceCtorEq, and_false] at h
  | cons i is ih =>
      intro s n h
      cases hbody : body s i with
      | inl t =>
          simp only [run, hbody, Prod.mk.injEq] at h
          have hrest := ih (Prod.ext rfl h.2)
          simp only [List.cons_append, run, hbody, hrest, h.1]
      | inr t =>
          simp only [run, hbody] at h
          simp only [List.cons_append, run, hbody, h]

section Endless

variable {body : σ → ι → σ ⊕ ρ} {inputs : Stream' ι} {leaves : Nat → Prop} {state : Nat → σ}
  {result : Nat → ρ}

/-- Up to the first turn that leaves the loop it waits, in the state of that turn. -/
theorem run_take_waits
    (hgo : ∀ n, ¬leaves n → body (state n) (inputs.get n) = .inl (state (n + 1)))
    (n : Nat) (hbefore : ∀ m < n, ¬leaves m) :
    run body (state 0) (inputs.take n) = (n, .inl (state n)) := by
  induction n with
  | zero => rfl
  | succ n ih =>
      have hrun := ih fun m hm => hbefore m (by omega)
      have hlen := Stream'.length_take n inputs
      have hone := run_concat (inputs.take n) (inputs.get n) (hrun.trans (by rw [hlen]))
      rw [Stream'.take_succ', hone, hgo n (hbefore n (by omega)), hlen]

/-- **The rule for endless inputs.**  `state` and `result` say what the loop is in before
each turn and what it leaves with there; it is left at the first turn that leaves it, and
nowhere else. -/
theorem run_take_left_iff
    (hgo : ∀ n, ¬leaves n → body (state n) (inputs.get n) = .inl (state (n + 1)))
    (hend : ∀ n, leaves n → body (state n) (inputs.get n) = .inr (result n)) {n : Nat} {r : ρ} :
    run body (state 0) (inputs.take n) = (n, .inr r) ↔
      ∃ k, n = k + 1 ∧ leaves k ∧ (∀ m < k, ¬leaves m) ∧ r = result k := by
  classical
  have hfirst : ∀ k, leaves k → (∀ m < k, ¬leaves m) →
      run body (state 0) (inputs.take (k + 1)) = (k + 1, .inr (result k)) := by
    intro k hk hbefore
    have hlen := Stream'.length_take k inputs
    have hone := run_concat (inputs.take k) (inputs.get k)
      ((run_take_waits hgo k hbefore).trans (by rw [hlen]))
    rw [Stream'.take_succ', hone, hend k hk, hlen]
  constructor
  · intro hrun
    have hsome : ∃ m, m < n ∧ leaves m := by
      by_contra hnone
      rw [run_take_waits hgo n fun m hm hleaves => hnone ⟨m, hm, hleaves⟩] at hrun
      simp at hrun
    -- the first turn that leaves the loop
    obtain ⟨hlt, hleaves⟩ := Nat.find_spec hsome
    have hbefore : ∀ m < Nat.find hsome, ¬leaves m :=
      fun m hm hm' => Nat.find_min hsome hm ⟨by omega, hm'⟩
    have hlonger := run_append_left _ ((inputs.drop (Nat.find hsome + 1)).take
      (n - (Nat.find hsome + 1))) (hfirst _ hleaves hbefore)
    rw [← Stream'.take_add, Nat.add_sub_cancel' (by omega), hrun, Prod.mk.injEq,
      Sum.inr.injEq] at hlonger
    exact ⟨_, hlonger.1, hleaves, hbefore, hlonger.2⟩
  · rintro ⟨k, rfl, hleaves, hbefore, rfl⟩
    exact hfirst k hleaves hbefore

end Endless

end MyGenSvr.Verified.InputLoop
