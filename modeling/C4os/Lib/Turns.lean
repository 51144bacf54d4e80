import Mathlib.Data.List.Nodup
import C4os.Lib.Run

/-!
# Taking turns

A queue of waiting members; whoever is served goes to its end.

* `Serve p y q q'`: the first member that is ready, `y`, is served.
* `Join t q q'`: a new member comes in, anywhere.
* `Serve.idxOf`, `Join.idxOf`: how the place of a member changes.
* **`Run.served`**: a member that stays ready is served before there were more services than
  members.
-/

namespace Transition

variable {α : Type*} {p : α → Bool} {q q' : List α} {x y t : α}

/-- The first member of the queue that is ready, `y`, is served. -/
def Serve (p : α → Bool) (y : α) (q q' : List α) : Prop :=
  ∃ u v, q = u ++ y :: v ∧ (∀ z ∈ u, p z = false) ∧ q' = v ++ u ++ [y]

/-- The member `t` comes in. -/
def Join (t : α) (q q' : List α) : Prop :=
  ∃ u v, q = u ++ v ∧ q' = u ++ t :: v

theorem Serve.perm (h : Serve p y q q') : q'.Perm q := by
  obtain ⟨u, v, rfl, -, rfl⟩ := h
  rw [List.append_assoc]
  refine List.perm_append_comm.trans ?_
  rw [List.append_assoc]
  exact List.Perm.append_left u (List.Perm.refl _)

theorem Join.perm (h : Join t q q') : q'.Perm (t :: q) := by
  obtain ⟨u, v, rfl, rfl⟩ := h
  exact List.perm_middle

variable [DecidableEq α]

/-- Somebody else's turn brings a member that is ready forward. -/
theorem Serve.idxOf (h : Serve p y q q') (hx : x ∈ q) (hp : p x = true) (hne : y ≠ x) :
    q'.idxOf x + 1 ≤ q.idxOf x := by
  obtain ⟨u, v, rfl, hu, rfl⟩ := h
  have hxu : x ∉ u := fun hmem => by
    rw [hu x hmem] at hp
    exact Bool.noConfusion hp
  have hxv : x ∈ v := by
    rcases List.mem_append.mp hx with hmem | hmem
    · exact absurd hmem hxu
    · exact (List.mem_cons.mp hmem).resolve_left hne.symm
  rw [List.append_assoc, List.idxOf_append_of_mem hxv, List.idxOf_append_of_notMem hxu,
    List.idxOf_cons_ne _ hne]
  omega

/-- A new member takes at most one place. -/
theorem Join.idxOf (h : Join t q q') (hx : x ∈ q) : q'.idxOf x ≤ q.idxOf x + 1 := by
  obtain ⟨u, v, rfl, rfl⟩ := h
  by_cases hxu : x ∈ u
  · rw [List.idxOf_append_of_mem hxu, List.idxOf_append_of_mem hxu]
    omega
  · rw [List.idxOf_append_of_notMem hxu, List.idxOf_append_of_notMem hxu]
    by_cases ht : t = x
    · rw [ht, List.idxOf_cons_self]
      omega
    · rw [List.idxOf_cons_ne _ ht]
      omega

/-! ## Runs -/

/-- What happens to the queue: a member is served, among those that are ready, or one asks to come
in. -/
inductive Turn (α : Type*) where
  | serve (p : α → Bool) (y : α)
  | join (t : α)

/-- What a turn does to the queue. -/
def Turn.step : Turn α → List α → List α → Prop
  | .serve p y, q, q' => Serve p y q q'
  | .join t, q, q' => q' = q ∨ Join t q q'

/-- The turn is a service. -/
def Turn.isServe : Turn α → Bool
  | .serve .. => true
  | .join _ => false

/-- The member `x` is ready whenever one is served. -/
def Turn.Ready (x : α) : Turn α → Prop
  | .serve p _ => p x = true
  | .join _ => True

/-- It is somebody else's turn. -/
def Turn.Passes (x : α) : Turn α → Prop
  | .serve _ y => y ≠ x
  | .join _ => True

variable {as : List (Turn α)}

omit [DecidableEq α] in
theorem Turn.step_mem {a : Turn α} (h : a.step q q') (hx : x ∈ q) : x ∈ q' := by
  cases a with
  | serve p y => exact (Serve.perm h).mem_iff.mpr hx
  | join t =>
    rcases h with rfl | h
    · exact hx
    · exact (Join.perm h).mem_iff.mpr (List.mem_cons_of_mem t hx)

theorem Run.passed (h : Run (fun q a q' => Turn.step a q q') q as q') (hx : x ∈ q)
    (hready : ∀ a ∈ as, a.Ready x) (hpass : ∀ a ∈ as, a.Passes x) :
    q'.idxOf x + as.countP Turn.isServe ≤ q.idxOf x + as.countP (!·.isServe) := by
  induction h with
  | nil => exact Nat.le_refl _
  | @cons q a q₁ as q₂ head tail ih =>
    have hrest := ih (Turn.step_mem head hx) (fun b hb => hready b (List.mem_cons_of_mem _ hb))
      fun b hb => hpass b (List.mem_cons_of_mem _ hb)
    cases a with
    | serve p y =>
      have := Serve.idxOf head hx (hready _ List.mem_cons_self) (hpass _ List.mem_cons_self)
      rw [List.countP_cons_of_pos (by rfl), List.countP_cons_of_neg (by simp [Turn.isServe])]
      omega
    | join t =>
      rw [List.countP_cons_of_neg (by simp [Turn.isServe]), List.countP_cons_of_pos (by rfl)]
      rcases head with rfl | head
      · omega
      · have := Join.idxOf head hx
        omega

/-- **A member that stays ready is served**, before there were more services than members. -/
theorem Run.served (h : Run (fun q a q' => Turn.step a q q') q as q') (hx : x ∈ q)
    (hready : ∀ a ∈ as, a.Ready x)
    (hlen : q.length + as.countP (!·.isServe) ≤ as.countP Turn.isServe) :
    ∃ p, Turn.serve p x ∈ as := by
  by_contra hno
  have hpass : ∀ a ∈ as, a.Passes x := by
    intro a ha
    cases a with
    | serve p y =>
      rintro rfl
      exact hno ⟨p, ha⟩
    | join t => trivial
  have := h.passed hx hready hpass
  have := List.idxOf_lt_length_of_mem hx
  omega

end Transition
