import Mathlib.Init

/-!
# Runs of a transition system

* `Run step s as s'`: the actions `as` lead from `s` to `s'`.
* **`Run.invariant`**: what every step preserves holds after every run.
* `Run.mono`, `Run.append`: a run of a stronger step relation; two runs in a row.
-/

namespace Transition

variable {S A : Type*}

/-- The actions `as`, one step each, lead from `s` to `s'`. -/
inductive Run (step : S → A → S → Prop) : S → List A → S → Prop where
  | nil (s : S) : Run step s [] s
  | cons {s a s' as s''} (head : step s a s') (tail : Run step s' as s'') : Run step s (a :: as) s''

variable {step step' : S → A → S → Prop} {s s' s'' : S} {as bs : List A}

/-- **What every step preserves holds after every run.** -/
theorem Run.invariant {I : S → Prop} (hI : ∀ s a s', I s → step s a s' → I s')
    (h : Run step s as s') (h0 : I s) : I s' := by
  induction h with
  | nil => exact h0
  | cons head _ ih => exact ih (hI _ _ _ h0 head)

theorem Run.mono (hs : ∀ s a s', step s a s' → step' s a s') (h : Run step s as s') :
    Run step' s as s' := by
  induction h with
  | nil => exact .nil _
  | cons head _ ih => exact .cons (hs _ _ _ head) ih

theorem Run.append (h : Run step s as s') (h' : Run step s' bs s'') :
    Run step s (as ++ bs) s'' := by
  induction h with
  | nil => exact h'
  | cons head _ ih => exact .cons head (ih h')

end Transition
