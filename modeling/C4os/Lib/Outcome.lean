import Mathlib.Init

/-!
# Outcomes of programs that fail with their state

`Ends r Q E`: the run `r` returned with `Q` or failed with `E`.

* `bind_ok`, `bind_get`, `bind_error`, `ok_of_bind`: runs of one program after the other.
* **`Ends.bind`**: the rule of sequential composition; `Ends.mono`: weaker conditions;
  `Ends.and`: two facts about one run.
* `Ends.returns`, `Ends.of_ok`: what an outcome says about a result.
* `Relates`: a program relates the states before and after it, also where it fails;
  **`Relates.bind`**: sequential composition, for a transitive relation.
-/

namespace Outcome

universe u

variable {ε σ α β : Type u}

/-- The run returned a result with `Q`, or failed with `E`. -/
def Ends (Q : α → σ → Prop) (E : ε → σ → Prop) : EStateM.Result ε σ α → Prop
  | .ok a s => Q a s
  | .error e s => E e s

variable {x : EStateM ε σ α} {f : α → EStateM ε σ β} {s s' : σ} {a : α} {e : ε}
  {Q Q' : α → σ → Prop} {R : β → σ → Prop} {E E' : ε → σ → Prop}

theorem bind_ok (h : x s = .ok a s') : (x >>= f) s = f a s' := by
  show EStateM.bind x f s = f a s'
  unfold EStateM.bind
  rw [h]

theorem bind_error (h : x s = .error e s') : (x >>= f) s = .error e s' := by
  show EStateM.bind x f s = .error e s'
  unfold EStateM.bind
  rw [h]

/-- Two programs that returned, one after the other. -/
theorem ok_of_bind {b : β} {s'' : σ} (h : (x >>= f) s = .ok b s'') :
    ∃ a s', x s = .ok a s' ∧ f a s' = .ok b s'' := by
  cases hr : x s with
  | ok a s' =>
    rw [bind_ok hr] at h
    exact ⟨a, s', rfl, h⟩
  | error e s' =>
    rw [bind_error hr] at h
    cases h

theorem bind_get {f : σ → EStateM ε σ β} (s : σ) : (get >>= f) s = f s s := rfl

/-- **A program behind another one** starts where that one returned. -/
theorem Ends.bind (hx : Ends Q E (x s)) (hf : ∀ a s', Q a s' → Ends R E (f a s')) :
    Ends R E ((x >>= f) s) := by
  cases hr : x s with
  | ok a s' =>
    rw [hr] at hx
    rw [bind_ok hr]
    exact hf a s' hx
  | error e s' =>
    rw [hr] at hx
    rw [bind_error hr]
    exact hx

theorem Ends.mono {r : EStateM.Result ε σ α} (h : Ends Q E r) (hQ : ∀ a s, Q a s → Q' a s)
    (hE : ∀ e s, E e s → E' e s) : Ends Q' E' r := by
  cases r with
  | ok a s => exact hQ a s h
  | error e s => exact hE e s h

/-- Two facts about one run. -/
theorem Ends.and {r : EStateM.Result ε σ α} (h : Ends Q E r) (h' : Ends Q' E' r) :
    Ends (fun a s => Q a s ∧ Q' a s) (fun e s => E e s ∧ E' e s) r := by
  cases r with
  | ok a s => exact ⟨h, h'⟩
  | error e s => exact ⟨h, h'⟩

/-- A program that cannot fail returns. -/
theorem Ends.returns {r : EStateM.Result ε σ α} (h : Ends Q E r) (hE : ∀ e s, ¬ E e s) :
    ∃ a s, r = .ok a s ∧ Q a s := by
  cases r with
  | ok a s => exact ⟨a, s, rfl, h⟩
  | error e s => exact absurd h (hE e s)

theorem Ends.of_ok {r : EStateM.Result ε σ α} (h : Ends Q E r) (hr : r = .ok a s) : Q a s := by
  subst hr
  exact h

/-! ## Relations that programs keep -/

/-- Every run of the program, also one that fails, ends in a state related to its first one. -/
def Relates (T : σ → σ → Prop) (x : EStateM ε σ α) : Prop :=
  ∀ s, Ends (fun _ s' => T s s') (fun _ s' => T s s') (x s)

section

variable {T : σ → σ → Prop}

theorem Relates.pure (hT : ∀ s, T s s) (a : α) : Relates T (pure a : EStateM ε σ α) := hT

theorem Relates.throw (hT : ∀ s, T s s) (e : ε) : Relates T (throw e : EStateM ε σ α) := hT

theorem Relates.get (hT : ∀ s, T s s) : Relates T (get : EStateM ε σ σ) := hT

theorem Relates.bind (hT : ∀ s s' s'', T s s' → T s' s'' → T s s'') (hx : Relates T x)
    (hf : ∀ a, Relates T (f a)) : Relates T (x >>= f) := by
  intro s
  have h := hx s
  cases hr : x s with
  | ok a s' =>
    rw [hr] at h
    rw [bind_ok hr]
    exact (hf a s').mono (fun _ _ h' => hT _ _ _ h h') fun _ _ h' => hT _ _ _ h h'
  | error e s' =>
    rw [hr] at h
    rw [bind_error hr]
    exact h

end

end Outcome
