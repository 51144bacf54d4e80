import Mathlib.Logic.Function.Iterate

/-!
# Walks along links

* `Reaches f Mid End s`: the walk from `s` along `f` comes to a place of `End` through places of
  `Mid`.
* **`returns_iff`**: a function with fuel that follows the links returns exactly on such walks.
-/

namespace Walk

variable {S R : Type*}

/-- The walk from `s` along `f` comes to `End` through `Mid`. -/
def Reaches (f : S → S) (Mid End : S → Prop) (s : S) : Prop :=
  ∃ k, (∀ i < k, Mid (f^[i] s)) ∧ End (f^[k] s)

variable {f : S → S} {Mid End : S → Prop} {s : S}

theorem reaches_iff : Reaches f Mid End s ↔ End s ∨ Mid s ∧ Reaches f Mid End (f s) := by
  constructor
  · rintro ⟨k, hmid, hend⟩
    cases k with
    | zero => exact Or.inl hend
    | succ k =>
      exact Or.inr ⟨hmid 0 (Nat.succ_pos k), k, fun i hi => hmid (i + 1) (Nat.succ_lt_succ hi), hend⟩
  · rintro (hend | ⟨hmid, k, hrest, hend⟩)
    · exact ⟨0, fun i hi => absurd hi (Nat.not_lt_zero i), hend⟩
    · refine ⟨k + 1, fun i hi => ?_, hend⟩
      cases i with
      | zero => exact hmid
      | succ i => exact hrest i (Nat.lt_of_succ_lt_succ hi)

/-- **A function with fuel** that returns at once in `End`, follows the link in `Mid`, and does not
return elsewhere. -/
theorem returns_iff {g : Nat → S → Option R} (h0 : ∀ s, g 0 s = none)
    (hs : ∀ n s, (∃ r, g (n + 1) s = some r) ↔ End s ∨ Mid s ∧ ∃ r, g n (f s) = some r) :
    (∃ n r, g n s = some r) ↔ Reaches f Mid End s := by
  constructor
  · rintro ⟨n, r, h⟩
    induction n generalizing s r with
    | zero =>
      rw [h0] at h
      cases h
    | succ n ih =>
      rw [reaches_iff]
      refine ((hs n s).mp ⟨r, h⟩).imp_right fun ⟨hmid, r', h'⟩ => ⟨hmid, ih r' h'⟩
  · rintro ⟨k, hmid, hend⟩
    induction k generalizing s with
    | zero => exact ⟨1, (hs 0 s).mpr (Or.inl hend)⟩
    | succ k ih =>
      obtain ⟨n, r, h⟩ := ih (s := f s) (fun i hi => hmid (i + 1) (Nat.succ_lt_succ hi)) hend
      exact ⟨n + 1, (hs n s).mpr (Or.inr ⟨hmid 0 (Nat.succ_pos k), r, h⟩)⟩

end Walk
