import C4os.Memory.Allocator
import C4os.Memory.Phys

/-!
# Block headers

* `next`, `prev`, `size`: the block headers as functions of the frame.
* What a window operation does to them, and what each branch of the allocator does:
  `unlinkBlock_spec`, `splitBlock_spec`, `firstBlock_spec`, `extendUp_spec`,
  `extendUp_absorb_spec`, `extendDown_spec`, `insertBlock_spec`.
* Which frames a branch writes: `kept_unlinkBlock` and the lemmas after it.
-/

namespace C4os

namespace Machine

/-- `next` of the header in the frame `p`. -/
def next (s : Machine) (p : Nat) : Nat := s.mem p NEXT

/-- `prev` of the header in the frame `p`. -/
def prev (s : Machine) (p : Nat) : Nat := s.mem p PREV

/-- `size` of the header in the frame `p`. -/
def size (s : Machine) (p : Nat) : Nat := s.mem p SIZE

variable (s : Machine) (a p v : Nat)

@[simp] theorem next_tempMapPage : (s.tempMapPage a).next = s.next :=
  funext fun p => mem_tempMapPage s a p (by decide)

@[simp] theorem prev_tempMapPage : (s.tempMapPage a).prev = s.prev :=
  funext fun p => mem_tempMapPage s a p (by decide)

@[simp] theorem size_tempMapPage : (s.tempMapPage a).size = s.size :=
  funext fun p => mem_tempMapPage s a p (by decide)

@[simp] theorem next_tempSet_next :
    (s.tempSet NEXT v).next p = if p = s.window then v else s.next p := by
  simp [next, mem_tempSet]

@[simp] theorem prev_tempSet_prev :
    (s.tempSet PREV v).prev p = if p = s.window then v else s.prev p := by
  simp [prev, mem_tempSet]

@[simp] theorem size_tempSet_size :
    (s.tempSet SIZE v).size p = if p = s.window then v else s.size p := by
  simp [size, mem_tempSet]

@[simp] theorem next_tempSet_prev : (s.tempSet PREV v).next = s.next := by
  funext p; simp [next, mem_tempSet, NEXT, PREV]

@[simp] theorem next_tempSet_size : (s.tempSet SIZE v).next = s.next := by
  funext p; simp [next, mem_tempSet, NEXT, SIZE]

@[simp] theorem prev_tempSet_next : (s.tempSet NEXT v).prev = s.prev := by
  funext p; simp [prev, mem_tempSet, NEXT, PREV]

@[simp] theorem prev_tempSet_size : (s.tempSet SIZE v).prev = s.prev := by
  funext p; simp [prev, mem_tempSet, PREV, SIZE]

@[simp] theorem size_tempSet_next : (s.tempSet NEXT v).size = s.size := by
  funext p; simp [size, mem_tempSet, NEXT, SIZE]

@[simp] theorem size_tempSet_prev : (s.tempSet PREV v).size = s.size := by
  funext p; simp [size, mem_tempSet, PREV, SIZE]

@[simp] theorem window_tempSet_next : (s.tempSet NEXT v).window = s.window :=
  window_tempSet s v (by decide)

@[simp] theorem window_tempSet_prev : (s.tempSet PREV v).window = s.window :=
  window_tempSet s v (by decide)

@[simp] theorem window_tempSet_size : (s.tempSet SIZE v).window = s.window :=
  window_tempSet s v (by decide)

theorem tempGet_next : s.tempGet NEXT = s.next s.window := rfl
theorem tempGet_prev : s.tempGet PREV = s.prev s.window := rfl
theorem tempGet_size : s.tempGet SIZE = s.size s.window := rfl

variable {s a p}

/-! ## The branches, on the headers -/

variable {b base count : Nat}

/-- What an exact fit does to the headers. -/
theorem unlinkBlock_spec (hb : Frame b) (hn : Frame (s.next b)) (hp : Frame (s.prev b)) :
    ((s.tempMapPage b).unlinkBlock b).next =
        (fun q => if q = s.prev b then s.next b else s.next q) ∧
      ((s.tempMapPage b).unlinkBlock b).prev =
        (fun q => if q = s.next b then s.prev b else s.prev q) ∧
      ((s.tempMapPage b).unlinkBlock b).size = s.size ∧
      ((s.tempMapPage b).unlinkBlock b).freePageCount = s.freePageCount ∧
      ((s.tempMapPage b).unlinkBlock b).physMemoryMutex = s.physMemoryMutex ∧
      ((s.tempMapPage b).unlinkBlock b).freePhysMemoryPointer =
        if b = s.freePhysMemoryPointer then if b = s.next b then NIL else s.next b
        else s.freePhysMemoryPointer := by
  set t := (((s.tempMapPage b).tempMapPage (s.next b)).tempSet PREV (s.prev b)).tempMapPage
    (s.prev b) |>.tempSet NEXT (s.next b) with ht
  have he : (s.tempMapPage b).unlinkBlock b = t.unlinkHead b (s.next b) := by
    simp only [unlinkBlock, tempGet_next, tempGet_prev, next_tempMapPage, prev_tempMapPage,
      window_of_frame hb, ← ht]
  have h1 : t.next = fun q => if q = s.prev b then s.next b else s.next q := by
    funext q; simp [ht, window_of_frame hp]
  have h2 : t.prev = fun q => if q = s.next b then s.prev b else s.prev q := by
    funext q; simp [ht, window_of_frame hn]
  have h3 : t.size = s.size := by simp [ht]
  have h4 : t.freePhysMemoryPointer = s.freePhysMemoryPointer := by simp [ht]
  rw [he, unlinkHead, h4]
  split_ifs <;> exact ⟨h1, h2, h3, rfl, rfl, rfl⟩

/-- What a split does to the headers. -/
theorem splitBlock_spec (count : Nat) (hb : Frame b) :
    ((s.tempMapPage b).splitBlock count).next = s.next ∧
      ((s.tempMapPage b).splitBlock count).prev = s.prev ∧
      ((s.tempMapPage b).splitBlock count).size =
        (fun q => if q = b then sub32 (s.size b) count else s.size q) ∧
      ((s.tempMapPage b).splitBlock count).window = b := by
  refine ⟨by simp [splitBlock], by simp [splitBlock], funext fun q => ?_, ?_⟩
  · simp [splitBlock, tempGet_size, window_of_frame hb]
  · simp [splitBlock, window_of_frame hb]

/-- What the first block's header is. -/
theorem firstBlock_spec (count : Nat) (hb : Frame base) :
    (s.firstBlock base count).next base = base ∧ (s.firstBlock base count).prev base = base ∧
      (s.firstBlock base count).size base = count := by
  refine ⟨?_, ?_, ?_⟩
  · change ((((s.tempMapPage base).tempSet NEXT base).tempSet PREV base).tempSet SIZE count).next
      base = base
    simp [window_of_frame hb]
  · change ((((s.tempMapPage base).tempSet NEXT base).tempSet PREV base).tempSet SIZE count).prev
      base = base
    simp [window_of_frame hb]
  · change ((((s.tempMapPage base).tempSet NEXT base).tempSet PREV base).tempSet SIZE count).size
      base = count
    simp [window_of_frame hb]

/-- What growing a block upwards does to the headers. -/
theorem extendUp_spec (hb : Frame b) (hn : s.next b ≠ add32 base (pageShift count)) :
    ((s.tempMapPage b).extendUp base count b).next = s.next ∧
      ((s.tempMapPage b).extendUp base count b).prev = s.prev ∧
      ((s.tempMapPage b).extendUp base count b).size =
        (fun q => if q = b then add32 (s.size b) count else s.size q) := by
  have he : (s.tempMapPage b).extendUp base count b =
      (s.tempMapPage b).tempSet SIZE (add32 (s.size b) count) := by
    simp [extendUp, tempGet_next, tempGet_size, window_of_frame hb, hn]
  rw [he]
  exact ⟨by simp, by simp, funext fun q => by simp [window_of_frame hb]⟩

/-- What growing a block upwards does to the headers when the next block touches the range. -/
theorem extendUp_absorb_spec (hb : Frame b) (hn : s.next b = add32 base (pageShift count))
    (hnb : s.next b ≠ b) (hf₁ : Frame (s.next b)) (hf₂ : Frame (s.next (s.next b))) :
    ((s.tempMapPage b).extendUp base count b).next =
        (fun q => if q = b then s.next (s.next b) else s.next q) ∧
      ((s.tempMapPage b).extendUp base count b).prev =
        (fun q => if q = s.next (s.next b) then b else s.prev q) ∧
      ((s.tempMapPage b).extendUp base count b).size =
        (fun q => if q = b then add32 (add32 (s.size b) count) (s.size (s.next b))
          else s.size q) := by
  have he : (s.tempMapPage b).extendUp base count b =
      ((s.tempMapPage b).tempSet SIZE (add32 (s.size b) count)).absorbNext b := by
    simp [extendUp, tempGet_next, tempGet_size, window_of_frame hb, hn]
  rw [he]
  refine ⟨funext fun q => ?_, funext fun q => ?_, funext fun q => ?_⟩
  · simp [absorbNext, tempGet_next, window_of_frame hb, window_of_frame hf₁]
  · simp [absorbNext, tempGet_next, window_of_frame hb, window_of_frame hf₁, window_of_frame hf₂]
  · simp only [absorbNext, tempGet_next, tempGet_size]
    by_cases hq : q = b <;> simp [hq, window_of_frame hb, window_of_frame hf₁, hnb]

/-- What growing a block downwards does to the headers. -/
theorem extendDown_spec (count : Nat) (hb : Frame b) (hbase : Frame base) (hn : Frame (s.next b))
    (hp : Frame (s.prev b)) :
    ((s.tempMapPage b).extendDown base count).next =
        (fun q => if q = base then s.next b else if q = s.prev b then base else s.next q) ∧
      ((s.tempMapPage b).extendDown base count).prev =
        (fun q => if q = base then s.prev b else if q = s.next b then base else s.prev q) ∧
      ((s.tempMapPage b).extendDown base count).size =
        (fun q => if q = base then add32 count (s.size b) else s.size q) := by
  refine ⟨funext fun q => ?_, funext fun q => ?_, funext fun q => ?_⟩ <;>
    simp [extendDown, tempGet_next, tempGet_prev, tempGet_size, window_of_frame hb,
      window_of_frame hbase, window_of_frame hn, window_of_frame hp]

/-- What an insertion does to the headers. -/
theorem insertBlock_spec (count : Nat) (hb : Frame b) (hbase : Frame base) (hn : Frame (s.next b)) :
    ((s.tempMapPage b).insertBlock base count b).next =
        (fun q => if q = base then b else if q = s.next b then base else s.next q) ∧
      ((s.tempMapPage b).insertBlock base count b).prev =
        (fun q => if q = base then s.next b else if q = b then base else s.prev q) ∧
      ((s.tempMapPage b).insertBlock base count b).size =
        (fun q => if q = base then count else s.size q) := by
  refine ⟨funext fun q => ?_, funext fun q => ?_, funext fun q => ?_⟩ <;>
    simp [insertBlock, tempGet_next, window_of_frame hb, window_of_frame hbase,
      window_of_frame hn]

theorem extendUp_vars : (s.extendUp base count b).freePhysMemoryPointer = s.freePhysMemoryPointer ∧
    (s.extendUp base count b).freePageCount = s.freePageCount ∧
    (s.extendUp base count b).physMemoryMutex = s.physMemoryMutex := by
  unfold extendUp
  dsimp only
  split_ifs <;> exact ⟨rfl, rfl, rfl⟩

/-! ## The frames that a branch writes -/

theorem kept_unlinkHead (P : Nat → Prop) (s : Machine) (cur next : Nat) :
    Kept P s (s.unlinkHead cur next) := by
  unfold unlinkHead
  split_ifs <;> exact ⟨rfl, fun _ _ _ _ => rfl⟩

theorem kept_unlinkBlock (hb : Frame b) (hn : Frame (s.next b)) (hp : Frame (s.prev b)) :
    Kept (fun q => q = s.next b ∨ q = s.prev b) s ((s.tempMapPage b).unlinkBlock b) := by
  unfold unlinkBlock
  simp only [tempGet_next, tempGet_prev, next_tempMapPage, prev_tempMapPage, window_of_frame hb]
  refine Kept.trans (Touch.toKept ?_) (kept_unlinkHead _ _ _ _)
  have h1 := (((Touch.refl (fun q => q = s.next b ∨ q = s.prev b) s).map b).map (s.next b)).set
    (window_of_frame hn) (Or.inl rfl) PREV (s.prev b)
  exact (h1.map (s.prev b)).set (window_of_frame hp) (Or.inr rfl) NEXT (s.next b)

theorem kept_splitBlock (hb : Frame b) :
    Kept (fun q => q = b) s ((s.tempMapPage b).splitBlock count) :=
  (((Touch.refl (fun q => q = b) s).map b).set (window_of_frame hb) rfl _ _).toKept

theorem kept_firstBlock (hb : Frame base) :
    Kept (fun q => q = base) s (s.firstBlock base count) := by
  have h1 := ((Touch.refl (fun q => q = base) s).map base).set (window_of_frame hb) rfl NEXT base
  have h2 := h1.set (by simp [window_of_frame hb]) rfl PREV base
  have h3 := h2.set (by simp [window_of_frame hb]) rfl SIZE count
  exact ⟨h3.kernelPageTable, h3.mem⟩

theorem kept_absorbNext (hb : Frame b) (hn : Frame (s.next s.window))
    (hnn : Frame (s.next (s.next s.window))) :
    Kept (fun q => q = b ∨ q = s.next (s.next s.window)) s (s.absorbNext b) := by
  unfold absorbNext
  simp only [tempGet_next, next_tempMapPage, window_of_frame hn]
  have h1 := (((Touch.refl (fun q => q = b ∨ q = s.next (s.next s.window)) s).map
    (s.next s.window)).map (s.next (s.next s.window))).set (window_of_frame hnn) (Or.inr rfl) PREV b
  have h2 := (h1.map b).set (window_of_frame hb) (Or.inl rfl) NEXT (s.next (s.next s.window))
  exact (h2.set (by simp [window_of_frame hb]) (Or.inl rfl) SIZE _).toKept

theorem kept_extendUp (hb : Frame b) (hn : Frame (s.next b)) (hnn : Frame (s.next (s.next b))) :
    Kept (fun q => q = b ∨ q = s.next (s.next b)) s ((s.tempMapPage b).extendUp base count b) := by
  have hw := window_of_frame (s := s) hb
  have h1 := ((Touch.refl (fun q => q = b ∨ q = s.next (s.next b)) s).map b).set hw (Or.inl rfl)
    SIZE (add32 ((s.tempMapPage b).tempGet SIZE) count)
  unfold extendUp
  dsimp only
  split_ifs
  · refine h1.toKept.trans ?_
    have h2 := kept_absorbNext (s := (s.tempMapPage b).tempSet SIZE
      (add32 ((s.tempMapPage b).tempGet SIZE) count)) hb (by simpa [hw] using hn)
      (by simpa [hw] using hnn)
    simpa [hw] using h2
  · exact h1.toKept

theorem kept_extendDown (hb : Frame b) (hbase : Frame base) (hn : Frame (s.next b))
    (hp : Frame (s.prev b)) : Kept (fun q => q = s.next b ∨ q = s.prev b ∨ q = base) s
      ((s.tempMapPage b).extendDown base count) := by
  unfold extendDown
  simp only [tempGet_next, tempGet_prev, tempGet_size, next_tempMapPage, prev_tempMapPage,
    size_tempMapPage, window_of_frame hb]
  have h1 := (((Touch.refl (fun q => q = s.next b ∨ q = s.prev b ∨ q = base) s).map b).map
    (s.next b)).set (window_of_frame hn) (Or.inl rfl) PREV base
  have h2 := (h1.map (s.prev b)).set (window_of_frame hp) (Or.inr (Or.inl rfl)) NEXT base
  have h3 := (h2.map base).set (window_of_frame hbase) (Or.inr (Or.inr rfl)) NEXT (s.next b)
  have h4 := h3.set (by simp [window_of_frame hbase]) (Or.inr (Or.inr rfl)) PREV (s.prev b)
  exact (h4.set (by simp [window_of_frame hbase]) (Or.inr (Or.inr rfl)) SIZE _).toKept

theorem kept_insertBlock (hb : Frame b) (hbase : Frame base) (hn : Frame (s.next b)) :
    Kept (fun q => q = b ∨ q = s.next b ∨ q = base) s
      ((s.tempMapPage b).insertBlock base count b) := by
  unfold insertBlock
  simp only [tempGet_next, next_tempMapPage, window_of_frame hb]
  have h1 := ((Touch.refl (fun q => q = b ∨ q = s.next b ∨ q = base) s).map b).set
    (window_of_frame hb) (Or.inl rfl) PREV base
  have h2 := (h1.map (s.next b)).set (window_of_frame hn) (Or.inr (Or.inl rfl)) NEXT base
  have h3 := (h2.map base).set (window_of_frame hbase) (Or.inr (Or.inr rfl)) NEXT b
  have h4 := h3.set (by simp [window_of_frame hbase]) (Or.inr (Or.inr rfl)) PREV (s.next b)
  exact (h4.set (by simp [window_of_frame hbase]) (Or.inr (Or.inr rfl)) SIZE count).toKept

end Machine

end C4os
