import Mathlib

/-!
# Labelled transition systems

A system is a set of initial states and a step relation labelled by events.
`Run` is a finite execution with its events in order, `Reachable` forgets the
events.  `invariant_of_step` is the one induction every safety proof uses:
a property of the initial states that each step from a reachable state keeps
holds in every reachable state.
-/

namespace MyGenSvr.Verified.Transition

/-- A labelled transition system. -/
structure System (σ ε : Type*) where
  init : σ → Prop
  step : σ → ε → σ → Prop

variable {σ ε : Type*} (S : System σ ε)

/-- A finite execution from one state to another, with its events in order. -/
inductive System.Run : σ → List ε → σ → Prop where
  | nil (s : σ) : System.Run s [] s
  | snoc {s t u : σ} {es : List ε} {e : ε} :
      System.Run s es t → S.step t e u → System.Run s (es ++ [e]) u

/-- Some execution from an initial state ends in `s`. -/
def System.Reachable (s : σ) : Prop := ∃ s₀ es, S.init s₀ ∧ S.Run s₀ es s

variable {S}

theorem System.Reachable.init {s : σ} (h : S.init s) : S.Reachable s :=
  ⟨s, [], h, .nil s⟩

theorem System.Reachable.step {s t : σ} {e : ε} (h : S.Reachable s)
    (hst : S.step s e t) : S.Reachable t := by
  obtain ⟨s₀, es, hinit, hrun⟩ := h
  exact ⟨s₀, es ++ [e], hinit, hrun.snoc hst⟩

/-- Executions compose. -/
theorem System.Run.append {s t u : σ} {es fs : List ε} (h : S.Run s es t)
    (k : S.Run t fs u) : S.Run s (es ++ fs) u := by
  induction k with
  | nil => simpa using h
  | snoc _ hstep ih => rw [← List.append_assoc]; exact ih.snoc hstep

theorem System.Reachable.run {s t : σ} {es : List ε} (h : S.Reachable s)
    (k : S.Run s es t) : S.Reachable t := by
  obtain ⟨s₀, es₀, hinit, hrun⟩ := h
  exact ⟨s₀, es₀ ++ es, hinit, hrun.append k⟩

/-- A single step as an execution. -/
theorem System.Run.single {s t : σ} {e : ε} (h : S.step s e t) :
    S.Run s [e] t := System.Run.snoc (.nil s) h

/-- A system with fewer steps has fewer executions. -/
theorem System.Run.mono {T : System σ ε} (hsub : ∀ s e t, S.step s e t → T.step s e t)
    {s t : σ} {es : List ε} (h : S.Run s es t) : T.Run s es t := by
  induction h with
  | nil => exact .nil _
  | snoc _ hlast ih => exact ih.snoc (hsub _ _ _ hlast)

/-- **The run rule**: what every step preserves, every execution preserves. -/
theorem System.Run.preserves {P : σ → Prop}
    (hstep : ∀ s e t, P s → S.step s e t → P t) {s t : σ} {es : List ε}
    (h : S.Run s es t) (hs : P s) : P t := by
  induction h with
  | nil => exact hs
  | snoc _ hlast ih => exact hstep _ _ _ ih hlast

/-- **The invariant rule.** -/
theorem System.invariant_of_step {P : σ → Prop}
    (hinit : ∀ s, S.init s → P s)
    (hstep : ∀ s e t, S.Reachable s → P s → S.step s e t → P t) {s : σ}
    (h : S.Reachable s) : P s := by
  obtain ⟨s₀, es, hs₀, hrun⟩ := h
  induction hrun with
  | nil => exact hinit _ hs₀
  | snoc hprefix hlast ih => exact hstep _ _ _ ⟨_, _, hs₀, hprefix⟩ ih hlast

/-! ## Executions that are computed -/

/-- The system whose steps a partial function makes. -/
def System.ofNext (init : σ → Prop) (next : σ → ε → Option σ) : System σ ε where
  init := init
  step s e t := next s e = some t

/-- An execution is computed by folding any function that makes steps of the system. -/
theorem System.Run.of_foldlM {next : σ → ε → Option σ}
    (hnext : ∀ s e t, next s e = some t → S.step s e t) (es : List ε) :
    ∀ {s t : σ}, es.foldlM next s = some t → S.Run s es t := by
  induction es with
  | nil =>
      intro s t h
      obtain rfl : s = t := by simpa using h
      exact .nil s
  | cons e es ih =>
      intro s t h
      rw [List.foldlM_cons] at h
      obtain ⟨u, hu, hrest⟩ := Option.bind_eq_some_iff.mp h
      exact (System.Run.single (hnext s e u hu)).append (ih hrest)

/-! ## Steps that meet a condition -/

/-- The system with only those of its steps that meet a condition. -/
def System.restrict (S : System σ ε) (C : σ → ε → Prop) : System σ ε where
  init := S.init
  step s e t := C s e ∧ S.step s e t

/-- The steps that meet a condition are steps. -/
theorem System.Run.of_restrict {C : σ → ε → Prop} {s t : σ} {es : List ε}
    (h : (S.restrict C).Run s es t) : S.Run s es t := by
  induction h with
  | nil => exact .nil _
  | snoc _ hlast ih => exact ih.snoc hlast.2

/-- **The latch rule**: where a step leaves `P` exactly if it was there before and the
step meets `C`, an execution leaves `P` exactly if all its steps meet `C`. -/
theorem System.Run.latch {I P : σ → Prop} {C : σ → ε → Prop}
    (hinv : ∀ s e t, I s → S.step s e t → I t)
    (hstep : ∀ s e t, I s → S.step s e t → (P t ↔ P s ∧ C s e)) {s t : σ} {es : List ε}
    (h : S.Run s es t) (hI : I s) (hP : P s) : P t ↔ (S.restrict C).Run s es t := by
  constructor
  · intro hend
    induction h with
    | nil => exact .nil _
    | snoc hprefix hlast ih =>
        have hbefore := hprefix.preserves hinv hI
        obtain ⟨hmid, hmet⟩ := (hstep _ _ _ hbefore hlast).mp hend
        exact (ih hmid).snoc ⟨hmet, hlast⟩
  · intro hmet
    have hboth : I t ∧ P t := by
      refine hmet.preserves (P := fun s => I s ∧ P s) ?_ ⟨hI, hP⟩
      rintro u e v ⟨hIu, hPu⟩ ⟨hC, hst⟩
      exact ⟨hinv u e v hIu hst, (hstep u e v hIu hst).mpr ⟨hPu, hC⟩⟩
    exact hboth.2

/-- **The rule for every state passed**: where a step from a state with `P` leaves `P`
exactly if it meets `C`, an execution from `P` has `P` in every state exactly if all its
steps meet `C`. -/
theorem System.Run.throughout {I P : σ → Prop} {C : σ → ε → Prop}
    (hinv : ∀ s e t, I s → S.step s e t → I t)
    (hstep : ∀ s e t, I s → P s → S.step s e t → (P t ↔ C s e)) {s t : σ} {es : List ε}
    (h : S.Run s es t) (hI : I s) (hP : P s) :
    ((S.restrict fun s _ => P s).Run s es t ∧ P t) ↔ (S.restrict C).Run s es t := by
  constructor
  · rintro ⟨hall, hend⟩
    induction hall with
    | nil => exact .nil _
    | snoc hprefix hlast ih =>
        have hrun : S.Run _ _ _ := hprefix.of_restrict
        have hbefore := hrun.preserves hinv hI
        exact (ih hrun hlast.1).snoc ⟨(hstep _ _ _ hbefore hlast.1 hlast.2).mp hend, hlast.2⟩
  · intro hmet
    induction hmet with
    | nil => exact ⟨.nil _, hP⟩
    | snoc hprefix hlast ih =>
        have hrun : S.Run _ _ _ := hprefix.of_restrict
        have hbefore := hrun.preserves hinv hI
        obtain ⟨hall, hmid⟩ := ih hrun
        exact ⟨hall.snoc ⟨hmid, hlast.2⟩, (hstep _ _ _ hbefore hmid hlast.2).mpr hlast.1⟩

end MyGenSvr.Verified.Transition
