import C4os.Lib.Pages
import C4os.Lib.Ring
import C4os.Memory.Header

/-!
# The ring of free blocks

* `FreeRing s bs`: the blocks of the free list are `bs`, in ring order; `freePages s bs`: their
  pages.
* **`allocLoop_found`**, **`allocLoop_none`**, **`freeLoop_eq`**: where the search loops stop, and
  with which action.
-/

namespace C4os

open Linked Pages

namespace Machine

/-- The ring from `free_phys_memory_pointer` on is `bs`. -/
def RingAt (s : Machine) : List Nat → Prop
  | [] => s.freePhysMemoryPointer = NIL
  | b :: bs => s.freePhysMemoryPointer = b ∧ Ring s.next s.prev (b :: bs)

/-- The free list is a ring of well-formed blocks, and counts its pages. -/
structure FreeRing (s : Machine) (bs : List Nat) : Prop where
  ringAt : s.RingAt bs
  aligned : ∀ b ∈ bs, 4096 ∣ b
  bound : ∀ b ∈ bs, b + s.size b * 4096 < 2 ^ 32
  pos : ∀ b ∈ bs, 0 < s.size b
  count : s.freePageCount = (bs.map s.size).sum

/-- The pages of the blocks `bs`. -/
def freePages (s : Machine) (bs : List Nat) : List Nat := bs.flatMap fun b => pages 4096 b (s.size b)

variable {s : Machine} {bs : List Nat} {a b base count fuel : Nat}

theorem FreeRing.frame (h : FreeRing s bs) (hb : b ∈ bs) : Frame b :=
  ⟨h.aligned b hb, by have := h.bound b hb; omega⟩

theorem RingAt.ring (h : s.RingAt bs) (hbs : bs ≠ []) : Ring s.next s.prev bs := by
  cases bs with
  | nil => exact absurd rfl hbs
  | cons b bs => exact h.2

theorem FreeRing.ring (h : FreeRing s bs) (hbs : bs ≠ []) : Ring s.next s.prev bs :=
  h.ringAt.ring hbs

theorem FreeRing.nodup (h : FreeRing s bs) : bs.Nodup := by
  cases bs with
  | nil => exact List.nodup_nil
  | cons b bs => exact h.ringAt.2.nodup

theorem length_freePages (s : Machine) (bs : List Nat) :
    (freePages s bs).length = (bs.map s.size).sum := by
  simp [freePages, List.length_flatMap]

theorem mem_freePages_self (h : FreeRing s bs) (hb : b ∈ bs) : b ∈ freePages s bs :=
  List.mem_flatMap.mpr ⟨b, hb, base_mem_pages (h.pos b hb)⟩

theorem freePages_perm {bs' : List Nat} (h : bs.Perm bs') :
    (freePages s bs).Perm (freePages s bs') := h.flatMap_right _

theorem freePages_congr {s' : Machine} (h : ∀ b ∈ bs, s'.size b = s.size b) :
    freePages s' bs = freePages s bs :=
  List.flatMap_congr fun b hb => by rw [h b hb]

theorem mem_freePages (h : FreeRing s bs) {x : Nat} (hx : x ∈ freePages s bs) : Frame x := by
  obtain ⟨b, hb, hx⟩ := List.mem_flatMap.mp hx
  have h1 := lt_of_mem_pages hx
  have h2 := h.bound b hb
  exact ⟨dvd_of_mem_pages (h.aligned b hb) hx, by omega⟩

theorem FreeRing.count_le (h : FreeRing s bs) (hnd : (freePages s bs).Nodup) :
    s.freePageCount ≤ 2 ^ 20 := by
  rw [h.count, ← length_freePages]
  refine length_le_of_nodup (s := 4096) hnd fun x hx => ?_
  have := mem_freePages h hx
  exact ⟨this.1, this.2⟩

/-! ## The search of `alloc_phys_pages` -/

/-- What an allocation takes from the block `b`. -/
def takeFrom (count b : Nat) (s : Machine) : Nat × Machine :=
  if s.size b = count then (b, (s.tempMapPage b).unlinkBlock b)
  else (add32 b (pageShift (sub32 (s.size b) count)), (s.tempMapPage b).splitBlock count)

theorem takeFrom_tempMapPage : takeFrom count b (s.tempMapPage a) = takeFrom count b s := by
  simp [takeFrom, tempMapPage_tempMapPage]

theorem allocLoop_succ (hb : Frame b) :
    allocLoop count (fuel + 1) b s =
      if count ≤ s.size b then some (takeFrom count b s)
      else if s.next b ≠ s.freePhysMemoryPointer then
        allocLoop count fuel (s.next b) (s.tempMapPage b)
      else some (NIL, s.tempMapPage b) := by
  have hw := window_of_frame (s := s) hb
  have hsz := (splitBlock_spec (s := s) count hb).2.2
  simp only [allocLoop, tempGet_next, tempGet_size, hw, hsz, next_tempMapPage, size_tempMapPage,
    pointer_tempMapPage, takeFrom]
  by_cases h1 : s.size b = count
  · simp [h1]
  · by_cases h2 : count < s.size b
    · simp [h1, h2, Nat.le_of_lt h2]
    · simp [h1, h2, show ¬ count ≤ s.size b by omega]

/-- **The search stops at the first block with enough pages.** -/
theorem allocLoop_found {l : List Nat} {h x : Nat} (hs : Seg s.next s.prev a l h)
    (hh : s.freePhysMemoryPointer = h) (hl : h ∉ l) (hfr : ∀ y ∈ a :: l, Frame y)
    (hx : (a :: l).find? (fun y => count ≤ s.size y) = some x) (hf : l.length < fuel) :
    allocLoop count fuel a s = some (takeFrom count x s) := by
  induction l generalizing a s fuel with
  | nil =>
    obtain ⟨fuel, rfl⟩ := Nat.exists_eq_succ_of_ne_zero (Nat.ne_of_gt hf)
    rw [allocLoop_succ (hfr a (by simp))]
    by_cases hc : count ≤ s.size a
    · obtain rfl : a = x := by simpa [hc] using hx
      rw [if_pos hc]
    · simp [hc] at hx
  | cons c l ih =>
    obtain ⟨fuel, rfl⟩ := Nat.exists_eq_succ_of_ne_zero (Nat.ne_of_gt (Nat.zero_lt_of_lt hf))
    rw [allocLoop_succ (hfr a (by simp))]
    by_cases hc : count ≤ s.size a
    · obtain rfl : a = x := by simpa [hc] using hx
      rw [if_pos hc]
    · have hn : s.next a = c := hs.1.1
      have hne : c ≠ s.freePhysMemoryPointer := fun e => hl (by simp [← hh, e])
      rw [if_neg hc, hn, if_pos hne, ih (s := s.tempMapPage a) (by simpa using hs.2) hh
        (fun e => hl (by simp [e])) (fun y hy => hfr y (by simp at hy ⊢; tauto))
        (by simpa [hc] using hx) (by simp at hf; omega), takeFrom_tempMapPage]

/-- **The search fails when no block has enough pages**, and has only moved the window. -/
theorem allocLoop_none {l : List Nat} {h : Nat} (hs : Seg s.next s.prev a l h)
    (hh : s.freePhysMemoryPointer = h) (hl : h ∉ l) (hfr : ∀ y ∈ a :: l, Frame y)
    (hx : ∀ y ∈ a :: l, s.size y < count) (hf : l.length < fuel) :
    ∃ z, allocLoop count fuel a s = some (NIL, s.tempMapPage z) := by
  induction l generalizing a s fuel with
  | nil =>
    obtain ⟨fuel, rfl⟩ := Nat.exists_eq_succ_of_ne_zero (Nat.ne_of_gt hf)
    have hc : ¬ count ≤ s.size a := Nat.not_le.mpr (hx a (by simp))
    have hn : s.next a = h := hs.1
    exact ⟨a, by rw [allocLoop_succ (hfr a (by simp)), if_neg hc, hn, if_neg (by simp [hh])]⟩
  | cons c l ih =>
    obtain ⟨fuel, rfl⟩ := Nat.exists_eq_succ_of_ne_zero (Nat.ne_of_gt (Nat.zero_lt_of_lt hf))
    have hc : ¬ count ≤ s.size a := Nat.not_le.mpr (hx a (by simp))
    have hn : s.next a = c := hs.1.1
    have hne : c ≠ s.freePhysMemoryPointer := fun e => hl (by simp [← hh, e])
    obtain ⟨z, hz⟩ := ih (s := s.tempMapPage a) (by simpa using hs.2) hh
      (fun e => hl (by simp [e])) (fun y hy => hfr y (by simp at hy ⊢; tauto))
      (fun y hy => by simpa using hx y (by simp at hy ⊢; tauto))
      (by simp at hf; omega : l.length < fuel)
    exact ⟨z, by rw [allocLoop_succ (hfr a (by simp)), if_neg hc, hn, if_pos hne, hz,
      tempMapPage_tempMapPage]⟩

/-! ## The search of `free_phys_pages` -/

/-- The branch of the loop of `free_phys_pages`, with the block it is taken at. -/
inductive FreeCase where
  | up (b : Nat)
  | down (b : Nat)
  | new (b : Nat)

/-- The first branch whose test holds, along the blocks of the ring. -/
def freeCase (size : Nat → Nat) (base count : Nat) : List Nat → Option FreeCase
  | [] => none
  | b :: bs =>
    if b + size b * 4096 = base then some (.up b)
    else if base + count * 4096 = b then some (.down b)
    else if base < b ∨ bs = [] then some (.new b)
    else freeCase size base count bs

/-- What `free_phys_pages` does in each case. -/
def freeAction (base count : Nat) (s : Machine) : FreeCase → Machine
  | .up b => (s.tempMapPage b).extendUp base count b
  | .down b => (s.tempMapPage b).extendDown base count
  | .new b => (s.tempMapPage b).insertBlock base count b

theorem freeAction_tempMapPage (c : FreeCase) :
    freeAction base count (s.tempMapPage a) c = freeAction base count s c := by
  cases c <;> simp [freeAction, tempMapPage_tempMapPage]

theorem freeCase_isSome (size : Nat → Nat) (base count : Nat) (hbs : bs ≠ []) :
    ∃ c, freeCase size base count bs = some c := by
  induction bs with
  | nil => exact absurd rfl hbs
  | cons b bs ih =>
    rw [freeCase]
    split_ifs with h1 h2 h3
    · exact ⟨_, rfl⟩
    · exact ⟨_, rfl⟩
    · exact ⟨_, rfl⟩
    · exact ih fun e => h3 (Or.inr e)

theorem freeLoop_step (ha : Frame a) : freeLoop base count (fuel + 1) a s =
    if add32 a (pageShift (s.size a)) = base then some (freeAction base count s (.up a))
    else if add32 base (pageShift count) = a then some (freeAction base count s (.down a))
    else if base < a ∨ s.next a = s.freePhysMemoryPointer then
      some (freeAction base count s (.new a))
    else if s.next a ≠ s.freePhysMemoryPointer then
      freeLoop base count fuel (s.next a) (s.tempMapPage a)
    else some (s.tempMapPage a) := by
  simp only [freeLoop, tempGet_next, tempGet_size, window_of_frame ha, next_tempMapPage,
    size_tempMapPage, pointer_tempMapPage, freeAction, gt_iff_lt]

/-- The tests of the loop at the block `a` do not wrap. -/
def PlainTests (size : Nat → Nat) (base count a : Nat) : Prop :=
  (add32 a (pageShift (size a)) = base ↔ a + size a * 4096 = base) ∧
    (add32 base (pageShift count) = a ↔ base + count * 4096 = a)

theorem plainTests (ha : a + s.size a * 4096 < 2 ^ 32) (hbase : base + count * 4096 < 2 ^ 32) :
    PlainTests s.size base count a := by
  unfold PlainTests
  rw [pageShift_eq (show s.size a * 4096 < 2 ^ 32 by omega),
    pageShift_eq (show count * 4096 < 2 ^ 32 by omega), add32_eq ha, add32_eq hbase]
  exact ⟨Iff.rfl, Iff.rfl⟩

theorem freeLoop_succ (ha : Frame a) (ht : PlainTests s.size base count a) :
    freeLoop base count (fuel + 1) a s =
      if a + s.size a * 4096 = base then some (freeAction base count s (.up a))
      else if base + count * 4096 = a then some (freeAction base count s (.down a))
      else if base < a ∨ s.next a = s.freePhysMemoryPointer then
        some (freeAction base count s (.new a))
      else if s.next a ≠ s.freePhysMemoryPointer then
        freeLoop base count fuel (s.next a) (s.tempMapPage a)
      else some (s.tempMapPage a) := by
  rw [freeLoop_step ha]
  simp only [ht.1, ht.2]

/-- **The search stops at the first branch whose test holds.** -/
theorem freeLoop_eq {l : List Nat} {h : Nat} {c : FreeCase} (hs : Seg s.next s.prev a l h)
    (hh : s.freePhysMemoryPointer = h) (hl : h ∉ l) (hfr : ∀ y ∈ a :: l, Frame y)
    (ht : ∀ y ∈ a :: l, PlainTests s.size base count y)
    (hc : freeCase s.size base count (a :: l) = some c) (hf : l.length < fuel) :
    freeLoop base count fuel a s = some (freeAction base count s c) := by
  induction l generalizing a s fuel with
  | nil =>
    obtain ⟨fuel, rfl⟩ := Nat.exists_eq_succ_of_ne_zero (Nat.ne_of_gt hf)
    have hn : s.next a = s.freePhysMemoryPointer := hs.1.trans hh.symm
    rw [freeLoop_succ (hfr a (by simp)) (ht a (by simp))]
    rw [freeCase] at hc
    simp only [hn, or_true, if_true] at hc ⊢
    rw [← apply_ite some, ← apply_ite some] at hc
    rw [← Option.some.inj hc]
    split_ifs <;> rfl
  | cons d l ih =>
    obtain ⟨fuel, rfl⟩ := Nat.exists_eq_succ_of_ne_zero (Nat.ne_of_gt (Nat.zero_lt_of_lt hf))
    have hn : s.next a = d := hs.1.1
    have hne : d ≠ s.freePhysMemoryPointer := fun e => hl (by simp [← hh, e])
    rw [freeLoop_succ (hfr a (by simp)) (ht a (by simp)), hn]
    rw [freeCase] at hc
    simp only [hne, or_false, reduceCtorEq, ne_eq, not_false_eq_true, if_true] at hc ⊢
    by_cases h1 : a + s.size a * 4096 = base
    · rw [if_pos h1] at hc ⊢
      rw [← Option.some.inj hc]
    by_cases h2 : base + count * 4096 = a
    · rw [if_neg h1, if_pos h2] at hc ⊢
      rw [← Option.some.inj hc]
    by_cases h3 : base < a
    · rw [if_neg h1, if_neg h2, if_pos h3] at hc ⊢
      rw [← Option.some.inj hc]
    · rw [if_neg h1, if_neg h2, if_neg h3] at hc ⊢
      rw [ih (s := s.tempMapPage a) (by simpa using hs.2) hh (fun e => hl (by simp [e]))
        (fun y hy => hfr y (by simp at hy ⊢; tauto))
        (fun y hy => by simpa using ht y (by simp at hy ⊢; tauto)) (by simpa using hc)
        (by simp at hf; omega), freeAction_tempMapPage]

end Machine

end C4os
