import Mathlib

/-!
# Deterministic machines

A state and a sequence of operations on it, each with one outcome.  `Always` is a
property of every state along the way, `EachStep` one of every operation together
with the state it is performed in.  A machine may also put something out at every
operation; another one that puts out the same can stand for it.

## Main results

* `always_iff` — the states are good all along exactly when the steps meet a
  condition, where one step out of a good state stays good exactly when it meets it.
* `simulation` — one machine stands for another.
-/

namespace MyGenSvr.Verified.Machine

variable {σ σ' ε ε' ο ο' : Type*} {step : σ → ε → σ}

/-- `P` holds before the first operation and after every one of them. -/
def Always (step : σ → ε → σ) (P : σ → Prop) : σ → List ε → Prop
  | s, [] => P s
  | s, e :: es => P s ∧ Always step P (step s e) es

/-- `C` holds of every operation in the state it is performed in. -/
def EachStep (step : σ → ε → σ) (C : σ → ε → Prop) : σ → List ε → Prop
  | _, [] => True
  | s, e :: es => C s e ∧ EachStep step C (step s e) es

instance decidableEachStep (step : σ → ε → σ) (C : σ → ε → Prop)
    [∀ s e, Decidable (C s e)] : (s : σ) → (es : List ε) → Decidable (EachStep step C s es)
  | _, [] => isTrue trivial
  | s, e :: es =>
      have := decidableEachStep step C (step s e) es
      inferInstanceAs (Decidable (C s e ∧ EachStep step C (step s e) es))

theorem EachStep.of_forall {C : σ → ε → Prop} (h : ∀ s e, C s e) (es : List ε) :
    ∀ s, EachStep step C s es := by
  induction es with
  | nil => intro _; trivial
  | cons e es ih => intro s; exact ⟨h s e, ih _⟩

/-- **The exact condition** for a property of every state, under an invariant. -/
theorem always_iff {I P : σ → Prop} {allowed C : σ → ε → Prop}
    (hinv : ∀ s e, I s → allowed s e → I (step s e))
    (hstep : ∀ s e, I s → P s → allowed s e → (P (step s e) ↔ C s e)) (es : List ε) :
    ∀ s, I s → P s → EachStep step allowed s es →
      (Always step P s es ↔ EachStep step C s es) := by
  induction es with
  | nil =>
      intro s _ hP _
      exact iff_of_true hP trivial
  | cons e es ih =>
      intro s hI hP hall
      have hnext := hinv s e hI hall.1
      have hgood := hstep s e hI hP hall.1
      constructor
      · intro h
        have hP' : P (step s e) := by
          cases es with
          | nil => exact h.2
          | cons e' es => exact h.2.1
        exact ⟨hgood.mp hP', (ih _ hnext hP' hall.2).mp h.2⟩
      · intro h
        have hP' : P (step s e) := hgood.mpr h.1
        exact ⟨hP, (ih _ hnext hP' hall.2).mpr h.2⟩

/-! ## Machines with outputs -/

/-- What is put out. -/
def outputs (step : σ → ε → ο × σ) : σ → List ε → List ο
  | _, [] => []
  | s, e :: es => (step s e).1 :: outputs step (step s e).2 es

/-- The state after all operations. -/
def final (step : σ → ε → ο × σ) : σ → List ε → σ
  | s, [] => s
  | s, e :: es => final step (step s e).2 es

/-- **Simulation.**  If single steps correspond, runs do. -/
theorem simulation {step : σ → ε → ο × σ} {step' : σ' → ε' → ο' × σ'} {R : σ → σ' → Prop}
    {C : σ → ε → Prop} {f : ε → ε'} {g : ο' → ο}
    (hsim : ∀ s t e, R s t → C s e →
      (step s e).1 = g (step' t (f e)).1 ∧ R (step s e).2 (step' t (f e)).2) (es : List ε) :
    ∀ s t, R s t → EachStep (fun s e => (step s e).2) C s es →
      outputs step s es = (outputs step' t (es.map f)).map g ∧
        R (final step s es) (final step' t (es.map f)) := by
  induction es with
  | nil => exact fun s t h _ => ⟨rfl, h⟩
  | cons e es ih =>
      intro s t h hall
      obtain ⟨hout, hnext⟩ := hsim s t e h hall.1
      obtain ⟨houts, hfinal⟩ := ih _ _ hnext hall.2
      refine ⟨?_, hfinal⟩
      rw [outputs, hout, houts]
      rfl

end MyGenSvr.Verified.Machine
