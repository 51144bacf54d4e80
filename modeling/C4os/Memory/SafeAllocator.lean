import C4os.Memory.PhysRun

/-!
# The allocator through safe branches

* `FreeRing.unique`: the ring of free blocks is determined by memory.
* `FreeRing.touch`: stores outside free memory do not change it.
* **`safeAllocator`**: `alloc_phys_pages`, with `free_phys_pages` cut down to its safe branches, is
  a correct physical allocator.
-/

namespace C4os

open Linked Pages Machine

variable {s s' : Machine} {bs bs' : List Nat} {p : Nat}

theorem Machine.FreeRing.unique (h : s.FreeRing bs) (h' : s.FreeRing bs') : bs = bs' := by
  cases bs with
  | nil => exact (h'.pointer_eq_NIL.mp (h.pointer_eq_NIL.mpr rfl)).symm
  | cons b l =>
    cases bs' with
    | nil => exact h.pointer_eq_NIL.mp (h'.pointer_eq_NIL.mpr rfl)
    | cons b' l' =>
      obtain rfl : b = b' := h.ringAt.1.symm.trans h'.ringAt.1
      rw [h.ringAt.2.ext h'.ringAt.2]

theorem Machine.FreeRing.touch {P : Nat → Prop} (h : s.FreeRing bs) (ht : Touch P s s')
    (hP : ∀ q, P q → q ∉ s.freePages bs) :
    s'.FreeRing bs ∧ s'.freePages bs = s.freePages bs := by
  have hmem : ∀ b ∈ bs, ∀ i < 3, s'.mem b i = s.mem b i := fun b hb i hi =>
    ht.mem b i (fun hp => hP b hp (mem_freePages_self h hb)) (by omega)
  have hn : ∀ b ∈ bs, s'.next b = s.next b := fun b hb => hmem b hb NEXT (by decide)
  have hp : ∀ b ∈ bs, s'.prev b = s.prev b := fun b hb => hmem b hb PREV (by decide)
  have hs : ∀ b ∈ bs, s'.size b = s.size b := fun b hb => hmem b hb SIZE (by decide)
  refine ⟨⟨?_, h.aligned, fun b hb => ?_, fun b hb => ?_, ?_⟩, freePages_congr hs⟩
  · cases bs with
    | nil => exact ht.pointer.trans h.ringAt
    | cons b l => exact ⟨ht.pointer.trans h.ringAt.1, h.ringAt.2.congr hn hp⟩
  · rw [hs b hb]
    exact h.bound b hb
  · rw [hs b hb]
    exact h.pos b hb
  · rw [ht.count, h.count, List.map_congr_left hs]

theorem Machine.FreeRing.length_le (h : s.FreeRing bs) : bs.length ≤ 2 ^ 20 := by
  refine length_le_of_nodup (s := 4096) h.nodup fun b hb => ?_
  have := h.bound b hb
  exact ⟨h.aligned b hb, by omega⟩

/-! ## The allocator -/

/-- The page `p` is on the free list. -/
def OnFreeList (s : Machine) (p : Nat) : Prop := ∃ bs, s.FreeRing bs ∧ p ∈ s.freePages bs

/-- The free list is a ring of blocks that share no page, and no call is under way. -/
def Consistent (s : Machine) : Prop :=
  ∃ bs, s.FreeRing bs ∧ (s.freePages bs).Nodup ∧ s.physMemoryMutex = false

theorem onFreeList_iff (h : s.FreeRing bs) : OnFreeList s p ↔ p ∈ s.freePages bs := by
  constructor
  · rintro ⟨bs', h', hp⟩
    rwa [h.unique h']
  · exact fun hp => ⟨bs, h, hp⟩

theorem consistent_touch {P : Nat → Prop} (h : Consistent s) (ht : Touch P s s')
    (hP : ∀ q, P q → ¬ OnFreeList s q) :
    Consistent s' ∧ ∀ p, OnFreeList s' p ↔ OnFreeList s p := by
  obtain ⟨bs, hr, hnd, hm⟩ := h
  obtain ⟨hr', he⟩ := hr.touch ht fun q hq hqf => hP q hq ⟨bs, hr, hqf⟩
  refine ⟨⟨bs, hr', by rwa [he], ht.mutex.trans hm⟩, fun p => ?_⟩
  rw [onFreeList_iff hr', onFreeList_iff hr, he]

theorem consistent_alloc {count r : Nat} (h : Consistent s) (hc : 1 ≤ count)
    (ha : allocPhysPages (2 ^ 20) count s = some (r, s')) :
    Consistent s' ∧ Kept (OnFreeList s) s s' ∧
      ((r = NIL ∧ ∀ p, OnFreeList s' p ↔ OnFreeList s p) ∨
        ((⟨r, count⟩ : Range).Valid ∧ (∀ p ∈ (⟨r, count⟩ : Range).pages, OnFreeList s p) ∧
          ∀ p, OnFreeList s' p ↔ OnFreeList s p ∧ p ∉ (⟨r, count⟩ : Range).pages)) := by
  obtain ⟨bs, hr, hnd, hm⟩ := h
  obtain ⟨q, bs', he, hm', hr', hq, hk⟩ := allocPhysPages_spec hr hm hnd hc hr.length_le
  obtain rfl : (r, s') = q := Option.some.inj (ha.symm.trans he)
  have hkept : Kept (OnFreeList s) s s' := hk.mono fun b hb => ⟨bs, hr, mem_freePages_self hr hb⟩
  rcases hq with ⟨rfl, rfl, hp⟩ | ⟨hal, hbd, hperm⟩
  · refine ⟨⟨bs', hr', by rwa [hp], hm'⟩, hkept, Or.inl ⟨rfl, fun p => ?_⟩⟩
    rw [onFreeList_iff hr', onFreeList_iff hr, hp]
  · obtain ⟨-, hnd', hdisj⟩ := List.nodup_append'.mp (hperm.nodup_iff.mp hnd)
    refine ⟨⟨bs', hr', hnd', hm'⟩, hkept, Or.inr ⟨⟨hal, hbd, hc⟩, fun p hp => ?_, fun p => ?_⟩⟩
    · exact ⟨bs, hr, hperm.mem_iff.mpr (List.mem_append_left _ hp)⟩
    · rw [onFreeList_iff hr', onFreeList_iff hr, hperm.mem_iff, List.mem_append]
      constructor
      · exact fun hp => ⟨Or.inr hp, fun hp' => hdisj hp' hp⟩
      · rintro ⟨hp | hp, hn⟩
        · exact absurd hp hn
        · exact hp

theorem consistent_free {r : Range} (h : Consistent s) (hv : r.Valid) (hs : s.SafeFree r)
    (hp : ∀ p ∈ r.pages, ¬ OnFreeList s p)
    (hf : freePhysPages (2 ^ 20) r.base r.count s = some s') :
    Consistent s' ∧ Kept (fun q => OnFreeList s q ∨ q ∈ r.pages) s s' ∧
      ∀ p, OnFreeList s' p ↔ OnFreeList s p ∨ p ∈ r.pages := by
  obtain ⟨bs, hr, hnd, hm⟩ := h
  have hnd' : (r.pages ++ s.freePages bs).Nodup :=
    List.nodup_append'.mpr ⟨nodup_pages (by decide), hnd, fun p hpr hpf => hp p hpr ⟨bs, hr, hpf⟩⟩
  obtain ⟨t, bs', he, hm', hr', hperm, hk⟩ := freePhysPages_spec hr hm
    ⟨hv.aligned, hv.bound, hv.pos, hnd'⟩ (hs.freeCase hr) hr.length_le
  obtain rfl : s' = t := Option.some.inj (hf.symm.trans he)
  refine ⟨⟨bs', hr', hperm.nodup_iff.mpr hnd', hm'⟩, hk.mono ?_, fun p => ?_⟩
  · rintro q (hq | rfl)
    · exact Or.inl ⟨bs, hr, mem_freePages_self hr hq⟩
    · exact Or.inr (base_mem_pages hv.pos)
  · rw [onFreeList_iff hr', onFreeList_iff hr, hperm.mem_iff, List.mem_append]
    exact Or.comm

open Classical in
/-- `free_phys_pages`, where it takes a safe branch. -/
noncomputable def safeFreePhysPages (base count : Nat) (s : Machine) : Option Machine :=
  if s.SafeFree ⟨base, count⟩ then freePhysPages (2 ^ 20) base count s else none

/-- **The allocator through safe branches is a correct physical allocator.** -/
noncomputable def safeAllocator : PhysAllocator where
  alloc := allocPhysPages (2 ^ 20)
  free := safeFreePhysPages
  Ok := Consistent
  Free := OnFreeList
  frame := fun _ ⟨_, h, hp⟩ => mem_freePages h hp
  touch := consistent_touch
  alloc_spec := consistent_alloc
  free_spec := by
    intro s s' r h hv hp hf
    unfold safeFreePhysPages at hf
    split_ifs at hf with hs
    exact consistent_free h hv hs hp hf

end C4os
