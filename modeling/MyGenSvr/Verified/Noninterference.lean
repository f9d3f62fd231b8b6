import MyGenSvr.Verified.Transition

/-!
# Noninterference

What one party sees of a system that many share.  An `Unwinding` names the part
of the state the party sees and the events that are its own, and says how these
change what it sees; all other events leave it alone.  What a run shows the
party is then a function of its own events.

## Main results

* `Unwinding.view_run` — the view after a run, by the party's own events.
* `Unwinding.noninterference` — two runs with the same own events show the same.
-/

namespace MyGenSvr.Verified.Noninterference

open MyGenSvr.Verified.Transition

variable {σ ε ν α : Type*}

/-- A party's view of a system, and the step conditions that keep it private. -/
structure Unwinding (S : System σ ε) (ν α : Type*) where
  /-- What the party sees of a state. -/
  view : σ → ν
  /-- What an event is to the party; `none` when it is not the party's own. -/
  own : ε → Option α
  /-- How an event of its own changes what the party sees. -/
  react : ν → α → ν
  mine : ∀ s e t a, S.Reachable s → S.step s e t → own e = some a →
    view t = react (view s) a
  others : ∀ s e t, S.Reachable s → S.step s e t → own e = none → view t = view s

variable {S : System σ ε} (U : Unwinding S ν α)

/-- The events of a run that are the party's own. -/
def Unwinding.trace (es : List ε) : List α := es.filterMap U.own

/-- **The view after a run** is computed from the party's own events. -/
theorem Unwinding.view_run {s t : σ} {es : List ε} (hs : S.Reachable s)
    (hrun : S.Run s es t) : U.view t = (U.trace es).foldl U.react (U.view s) := by
  induction hrun with
  | nil => rfl
  | snoc hbefore hlast ih =>
      rename_i t' u es' e
      have hreach : S.Reachable t' := hs.run hbefore
      rw [Unwinding.trace, List.filterMap_append, List.foldl_append]
      cases hown : U.own e with
      | none =>
          rw [List.filterMap_cons_none hown, U.others _ _ _ hreach hlast hown]
          exact ih
      | some a =>
          rw [List.filterMap_cons_some hown, U.mine _ _ _ _ hreach hlast hown, ih]
          rfl

/-- **Noninterference**: runs that start with the same view and have the same own
events end with the same view, whatever the other events are. -/
theorem Unwinding.noninterference {s₁ s₂ t₁ t₂ : σ} {es₁ es₂ : List ε}
    (hs₁ : S.Reachable s₁) (hs₂ : S.Reachable s₂) (hrun₁ : S.Run s₁ es₁ t₁)
    (hrun₂ : S.Run s₂ es₂ t₂) (hview : U.view s₁ = U.view s₂)
    (htrace : U.trace es₁ = U.trace es₂) : U.view t₁ = U.view t₂ := by
  rw [U.view_run hs₁ hrun₁, U.view_run hs₂ hrun₂, hview, htrace]

end MyGenSvr.Verified.Noninterference
