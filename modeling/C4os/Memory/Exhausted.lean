import C4os.Memory.SafeAllocator
import C4os.Memory.VirtCases

/-!
# Without free frames

* `Exhausted A s`: no frame is free; `Exhausted.touch`, `Exhausted.alloc`, `Exhausted.request`: it stays
  so, and requests for pages are not met.
* `Exhausts A`: one frame is refused only when none is free; **`exhausts_safeAllocator`**.
-/

namespace C4os

open Machine

variable {A : PhysAllocator} {flags count r : Nat} {s s' : Machine} {st : VirtState}

/-- No frame is free. -/
structure Exhausted (A : PhysAllocator) (s : Machine) : Prop where
  ok : A.Ok s
  none_free : ∀ p, ¬ A.Free s p

/-- An allocation of one frame fails when no frame is free, and only then. -/
def Exhausts (A : PhysAllocator) : Prop :=
  ∀ s s', A.Ok s → A.alloc 1 s = some (NIL, s') → ∀ p, ¬ A.Free s p

/-- Any store keeps the allocator exhausted. -/
theorem Exhausted.touch {P : Nat → Prop} (h : Exhausted A s) (ht : Touch P s s') :
    Exhausted A s' := by
  obtain ⟨hok, hfree⟩ := A.touch h.ok ht fun q _ => h.none_free q
  exact ⟨hok, fun p hp => h.none_free p ((hfree p).mp hp)⟩

theorem Exhausted.alloc (h : Exhausted A s) (hc : 1 ≤ count) (ha : A.alloc count s = some (r, s')) :
    r = NIL ∧ Exhausted A s' := by
  obtain ⟨hok, -, ⟨hr, hfree⟩ | ⟨-, hwas, -⟩⟩ := A.alloc_spec h.ok hc ha
  · exact ⟨hr, hok, fun p hp => h.none_free p ((hfree p).mp hp)⟩
  · exact absurd (hwas _ (Pages.base_mem_pages hc)) (h.none_free _)

theorem Exhausts.alloc (ha : Exhausts A) (hok : A.Ok s) (h : A.alloc 1 s = some (NIL, s')) :
    Exhausted A s' :=
  (Exhausted.alloc ⟨hok, ha s s' hok h⟩ (Nat.le_refl 1) h).2

/-- Any request for pages that returns. -/
theorem Exhausted.request {sp : Space} {vaddr : Nat} {q : Nat × VirtState}
    (h : Exhausted A st.machine) (hc : 1 ≤ count)
    (hend : AllocEnd A (growTable A sp) sp vaddr NIL count flags st q) :
    Exhausted A q.2.machine ∧ q.2.spaces = st.spaces := by
  have hne : ∀ {p : Nat} {type : VirtMemoryBlockType} {m : Machine},
      takeFrames A NIL count st.machine = some ((p, type), m) → ¬ p ≠ NIL := fun hf hne =>
    hne (h.alloc hc (takeFrames_alloc hf).1).1
  cases hend with
  | noPlace => exact ⟨h, rfl⟩
  | noFrames _ _ frames => exact ⟨(h.alloc hc frames).2, rfl⟩
  | recorded _ frames ne => exact absurd ne (hne frames)
  | notRecorded _ frames ne => exact absurd ne (hne frames)
  | notMapped _ frames ne => exact absurd ne (hne frames)

theorem Machine.allocLocked_ne_NIL {s s' : Machine} {b r fuel : Nat} {l : List Nat}
    (h : s.FreeRing (b :: l)) (hf : (b :: l).length ≤ fuel)
    (ha : allocLocked fuel 1 s = some (r, s')) : r ≠ NIL := by
  have hp : s.freePhysMemoryPointer = b := h.ringAt.1
  have hr := h.ringAt.2
  have hpos := h.pos b List.mem_cons_self
  have hfind : (b :: l).find? (fun y => decide (1 ≤ s.size y)) = some b :=
    List.find?_cons_of_pos (decide_eq_true hpos)
  obtain ⟨bs', ht⟩ := takeFrom_spec h List.mem_cons_self (Nat.le_refl 1) hpos
  have hne : (takeFrom 1 b s).1 ≠ NIL := fun e => by
    have hal := ht.aligned
    rw [e] at hal
    exact absurd hal (by decide)
  rw [allocLocked, if_pos (fun e => by simpa using h.pointer_eq_NIL.mp e), hp,
    allocLoop_found hr.seg hp (List.nodup_cons.mp hr.1).1 (fun y hy => h.frame hy) hfind hf,
    Option.map_some, if_pos hne] at ha
  obtain ⟨rfl, -⟩ := Prod.mk.inj (Option.some.inj ha)
  exact hne

/-- **One page is refused only when none is free.** -/
theorem exhausts_safeAllocator : Exhausts safeAllocator := by
  rintro s s' ⟨bs, h, hnd, hm⟩ ha p hp
  have ha' : allocPhysPages (2 ^ 20) 1 s = some (NIL, s') := ha
  have hp' := (onFreeList_iff h).mp hp
  cases bs with
  | nil => exact List.not_mem_nil hp'
  | cons b l =>
    have hpos := h.pos b List.mem_cons_self
    have hcount : ¬ s.freePageCount < 1 := by
      rw [h.count, List.map_cons, List.sum_cons]
      omega
    unfold allocPhysPages at ha'
    rw [if_neg hcount, mutexGetPhys, hm, if_neg Bool.false_ne_true, Option.bind_some] at ha'
    obtain ⟨⟨q, m⟩, hlocked, he⟩ := Option.map_eq_some_iff.mp ha'
    obtain ⟨rfl, -⟩ := Prod.mk.inj he
    exact allocLocked_ne_NIL (h.setMutex true) h.length_le hlocked rfl
end C4os
