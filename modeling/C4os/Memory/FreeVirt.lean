import C4os.Memory.BlockTable
import C4os.Memory.VirtCases

/-!
# What `free_virt_pages` gives back

* `InOrder`: a table of disjoint blocks, highest first; `findBlock_eq`: the search finds the block of
  an address.
* `Frees`: a call that gives the ranges `R` of frames to `free_phys_pages`.
* `Owns`: the frames that the pages of a block are mapped to.
* `FreesBlock`: the block leaves the table, and its frames go back when it is RAM.
* **`freeVirtPages_frees`**: the block must be RAM, and its frames those that follow the frame of the
  address; `device_memory_freed`: a block of device memory.
-/

namespace C4os

open Word Machine Pages

variable {A : PhysAllocator} {as : AddressSpace} {st : VirtState} {sp : Space} {i j k vaddr f : Nat}
  {m : Machine}

/-- The address lies in the block. -/
def VirtMemoryBlock.Holds (b : VirtMemoryBlock) (v : Nat) : Prop :=
  b.base ≤ v ∧ v < b.base + b.length

/-- Disjoint ranges of 32-bit addresses, highest first. -/
structure InOrder (bl : List VirtMemoryBlock) : Prop where
  pairwise : bl.Pairwise fun a b => b.base + b.length ≤ a.base
  le : ∀ b ∈ bl, b.base + b.length ≤ 2 ^ 32

theorem InOrder.below (h : InOrder (blockList as)) (hji : j < i) (hi : i < as.blockCount) :
    (as.blocks i).base + (as.blocks i).length ≤ (as.blocks j).base :=
  pairwise_blocks h.pairwise hji hi

theorem InOrder.unique (h : InOrder (blockList as)) (hi : i < as.blockCount)
    (hj : j < as.blockCount) (hvi : (as.blocks i).Holds vaddr) (hvj : (as.blocks j).Holds vaddr) :
    i = j := by
  unfold VirtMemoryBlock.Holds at hvi hvj
  rcases Nat.lt_trichotomy i j with hlt | heq | hgt
  · have := h.below hlt hj
    omega
  · exact heq
  · have := h.below hgt hi
    omega

/-! ## The search for the block -/

theorem findBlock_mutex (b : Bool) :
    findBlock { as with mutex := b } vaddr k i = findBlock as vaddr k i := by
  induction k generalizing i with
  | zero => rfl
  | succ k ih =>
    unfold findBlock
    rw [ih]

theorem findBlock_le (hi : j ≤ i) (hik : i < j + k) (hlo : (as.blocks i).base ≤ vaddr)
    (hhi : vaddr < add32 (as.blocks i).base (as.blocks i).length) :
    findBlock as vaddr k j ≤ i := by
  induction k generalizing j with
  | zero => omega
  | succ k ih =>
    rw [findBlock]
    split_ifs with hj
    · exact hi
    · have hne : j ≠ i := by
        rintro rfl
        exact hj ⟨hlo, hhi⟩
      exact ih (by omega) (by omega)

theorem findBlock_holds (h : InOrder (blockList as))
    (hlt : findBlock as vaddr as.blockCount 0 < as.blockCount) :
    (as.blocks (findBlock as vaddr as.blockCount 0)).Holds vaddr ∧
      (as.blocks (findBlock as vaddr as.blockCount 0)).base +
        (as.blocks (findBlock as vaddr as.blockCount 0)).length < 2 ^ 32 := by
  have hle := h.le _ (blocks_mem hlt)
  obtain hnone | ⟨-, -, hlo, hhi⟩ := findBlock_spec as vaddr 0 as.blockCount
  · omega
  generalize as.blocks (findBlock as vaddr as.blockCount 0) = b at hle hlo hhi ⊢
  unfold VirtMemoryBlock.Holds
  unfold add32 at hhi
  omega

/-- **The block of an address is found**, unless it ends at `2 ^ 32`. -/
theorem findBlock_lt_iff (h : InOrder (blockList as)) (hi : i < as.blockCount)
    (hv : (as.blocks i).Holds vaddr) :
    findBlock as vaddr as.blockCount 0 < as.blockCount ↔
      (as.blocks i).base + (as.blocks i).length < 2 ^ 32 := by
  constructor
  · intro hlt
    obtain ⟨hholds, hend⟩ := findBlock_holds h hlt
    rwa [← h.unique hi hlt hv hholds] at hend
  · intro hend
    have := findBlock_le (k := as.blockCount) (Nat.zero_le i) (by omega) hv.1
      (by rw [add32_eq hend]; exact hv.2)
    omega

theorem findBlock_eq (h : InOrder (blockList as)) (hi : i < as.blockCount)
    (hv : (as.blocks i).Holds vaddr)
    (hlt : findBlock as vaddr as.blockCount 0 < as.blockCount) :
    findBlock as vaddr as.blockCount 0 = i :=
  (h.unique hi hlt hv (findBlock_holds h hlt).1).symm

/-! ## The call -/

theorem VirtState.setSpace_self : st.setSpace sp (st.spaces sp) = st := by
  unfold VirtState.setSpace
  rw [Function.update_eq_self]

/-- The range of frames that the code frees for the block `i`: it starts at the frame of `vaddr`. -/
def freedRange (as : AddressSpace) (m : Machine) (vaddr i : Nat) : Range :=
  ⟨frameOf (m.getPageInfo as.pageDir vaddr).1, (as.blocks i).length >>> PAGE_OFFSET_BITS⟩

/-- **The call of `free_virt_pages`**, when the mutex is free. -/
theorem freeVirtPages_eq (A : PhysAllocator) (vaddr : Nat) (has : st.spaces sp = as) (hm : as.mutex = false) :
    freeVirtPages A sp vaddr st =
      let i := findBlock as vaddr as.blockCount 0
      if i < as.blockCount then
        (A.free (freedRange as st.machine vaddr i).base (freedRange as st.machine vaddr i).count
          (st.machine.getPageInfo as.pageDir vaddr).2).map fun m =>
            (true, (st.setMachine m).setSpace sp (as.removeBlock i))
      else some (false, st) := by
  have hself : { as with mutex := false } = as := by
    rw [← hm]
  have hremove : ∀ j, { as.removeBlock j with mutex := false } = as.removeBlock j := by
    intro j
    rw [← hm]
    rfl
  unfold freeVirtPages VirtState.mutexGet
  rw [has, if_neg (by rw [hm]; decide), Option.bind_some]
  dsimp only
  rw [VirtState.spaces_setSpace, findBlock_mutex]
  split_ifs with hlt
  · unfold freeBlock freedRange frameOf
    dsimp only
    rw [VirtState.spaces_setSpace, Option.map_map, VirtState.machine_setSpace]
    congr 1
    funext m
    simp only [Function.comp_apply, VirtState.mutexRelease, VirtState.spaces_setSpace,
      VirtState.setMachine_setSpace, VirtState.setSpace_setSpace]
    exact congrArg (fun x => (true, (st.setMachine m).setSpace sp x)) (hremove _)
  · unfold VirtState.mutexRelease
    rw [VirtState.spaces_setSpace, VirtState.setSpace_setSpace]
    show some (false, st.setSpace sp { as with mutex := false }) = _
    rw [hself, ← has, VirtState.setSpace_self]

/-- A call that gives the ranges `R` to `free_phys_pages`, one after the other, and leaves the table
of `as'`, whatever the allocator is. -/
def Frees (st : VirtState) (sp : Space) (vaddr : Nat) (R : List Range) (as' : AddressSpace) : Prop :=
  ∃ m₀, Touch (fun _ => False) st.machine m₀ ∧ ∀ A : PhysAllocator, freeVirtPages A sp vaddr st =
    (R.foldlM (fun m r => A.free r.base r.count m) m₀).map fun m =>
      (true, (st.setMachine m).setSpace sp as')

/-- The frame `f` is mapped to an address of the block. -/
def Owns (as : AddressSpace) (m : Machine) (b : VirtMemoryBlock) (f : Nat) : Prop :=
  ∃ w, b.Holds w ∧ Present (m.getPageInfo as.pageDir w).1 ∧
    frameOf (m.getPageInfo as.pageDir w).1 = f

/-- The block `i` leaves the table and no other does. Its frames are given back when it is RAM, and
nothing is given back when it is not. -/
def FreesBlock (st : VirtState) (sp : Space) (vaddr i : Nat) : Prop :=
  let as := st.spaces sp
  ∃ R as', Frees st sp vaddr R as' ∧ blockList as' = (blockList as).eraseIdx i ∧
    as' = { as with blocks := as'.blocks, blockCount := as'.blockCount } ∧
    if (as.blocks i).type = .memory then
      ∀ f, (∃ r ∈ R, f ∈ r.pages) ↔ Owns as st.machine (as.blocks i) f
    else R = []

theorem touch_getPageInfo (dir vaddr : Nat) :
    Touch (fun _ => False) m (m.getPageInfo dir vaddr).2 := by
  unfold getPageInfo
  dsimp only
  split_ifs
  · exact touch_tempMapPage _ m dir
  · exact (touch_tempMapPage _ m dir).map _

/-- An allocator of which nothing is known but `free`. -/
def anyFree (free : Nat → Nat → Machine → Option Machine) : PhysAllocator where
  alloc := fun _ _ => none
  free := free
  Ok := fun _ => False
  Free := fun _ _ => False
  frame := fun h => h.elim
  touch := fun h => h.elim
  alloc_spec := fun h => h.elim
  free_spec := fun h => h.elim

/-- **One range is given back**, when the call gives one back under every allocator. -/
theorem foldlM_unique {R : List Range} {r : Range} {m₀ m₁ : Machine}
    {F G : Machine → Bool × VirtState} (hcount : m₀.freePageCount = m₁.freePageCount)
    (h : ∀ A : PhysAllocator, (A.free r.base r.count m₁).map F =
      (R.foldlM (fun m r => A.free r.base r.count m) m₀).map G) : R = [r] := by
  cases R with
  | nil =>
    -- an allocator that never returns
    have hA := h (anyFree fun _ _ _ => none)
    change Option.map F none = some _ at hA
    exact absurd hA.symm (Option.some_ne_none _)
  | cons q R =>
    have hq : q = r := by
      by_contra hne
      -- an allocator that does not return from a call with the range `q`
      have hA := h (anyFree fun b c m => if (⟨b, c⟩ : Range) = q then none else some m)
      change (if r = q then none else some m₁).map F = _ at hA
      rw [if_neg (Ne.symm hne), List.foldlM_cons] at hA
      change _ = Option.map G ((if q = q then none else some m₀).bind _) at hA
      rw [if_pos rfl] at hA
      exact absurd hA (Option.some_ne_none _)
    subst hq
    cases R with
    | nil => rfl
    | cons p R =>
      -- an allocator that returns once
      have hA := h (anyFree fun _ _ m => if m.freePageCount = m₁.freePageCount then
        some { m with freePageCount := m₁.freePageCount + 1 } else none)
      change (if m₁.freePageCount = m₁.freePageCount then _ else none).map F = _ at hA
      rw [if_pos rfl, List.foldlM_cons] at hA
      change _ = Option.map G ((if m₀.freePageCount = m₁.freePageCount then _ else none).bind _) at hA
      rw [if_pos hcount, Option.bind_some, List.foldlM_cons] at hA
      change _ = Option.map G ((if m₁.freePageCount + 1 = m₁.freePageCount then _ else none).bind _)
        at hA
      rw [if_neg (Nat.succ_ne_self _)] at hA
      exact absurd hA (Option.some_ne_none _)

/-- The block is RAM, ends below `2 ^ 32`, and its frames are those that follow the frame of
`vaddr`. -/
structure FreeOk (as : AddressSpace) (m : Machine) (vaddr i : Nat) : Prop where
  type : (as.blocks i).type = .memory
  lt : (as.blocks i).base + (as.blocks i).length < 2 ^ 32
  frames : ∀ f, f ∈ (freedRange as m vaddr i).pages ↔ Owns as m (as.blocks i) f

theorem freesBlock_iff (hm : (st.spaces sp).mutex = false) (h : InOrder (blockList (st.spaces sp)))
    (hi : i < (st.spaces sp).blockCount) (hv : ((st.spaces sp).blocks i).Holds vaddr) :
    FreesBlock st sp vaddr i ↔ FreeOk (st.spaces sp) st.machine vaddr i := by
  have hcall := fun A => freeVirtPages_eq A vaddr rfl hm
  dsimp only at hcall
  by_cases hend : ((st.spaces sp).blocks i).base + ((st.spaces sp).blocks i).length < 2 ^ 32
  · have hlt := (findBlock_lt_iff h hi hv).mpr hend
    simp only [findBlock_eq h hi hv hlt, if_pos hi] at hcall
    constructor
    · rintro ⟨R, as', ⟨m₀, htouch, hR⟩, -, -, hown⟩
      obtain rfl : R = [freedRange (st.spaces sp) st.machine vaddr i] :=
        foldlM_unique (htouch.count.trans (touch_getPageInfo _ _).count.symm) fun A =>
          (hcall A).symm.trans (hR A)
      by_cases htype : ((st.spaces sp).blocks i).type = .memory
      · rw [if_pos htype] at hown
        refine ⟨htype, hend, fun f => ?_⟩
        rw [← hown, List.exists_mem_cons_iff]
        simp
      · rw [if_neg htype] at hown
        exact absurd hown (List.cons_ne_nil _ _)
    · intro hok
      refine ⟨[freedRange (st.spaces sp) st.machine vaddr i], (st.spaces sp).removeBlock i,
        ⟨_, touch_getPageInfo (st.spaces sp).pageDir vaddr, fun A => ?_⟩,
        blockList_removeBlock_eq hi, rfl, ?_⟩
      · rw [hcall A]
        simp
      · rw [if_pos hok.type]
        intro f
        rw [← hok.frames, List.exists_mem_cons_iff]
        simp
  · have hge := mt (findBlock_lt_iff h hi hv).mp hend
    simp only [if_neg hge] at hcall
    refine iff_of_false ?_ fun hok => hend hok.lt
    -- the block is not found, and the call returns `false`
    rintro ⟨R, as', ⟨m₀, -, hR⟩, -⟩
    have hA := (hcall (anyFree fun _ _ m => some m)).symm.trans
      (hR (anyFree fun _ _ m => some m))
    obtain ⟨m', -, he⟩ := Option.map_eq_some_iff.mp hA.symm
    exact Bool.noConfusion (Prod.mk.inj he).1

/-! ## Consecutive frames -/

theorem getPageInfo_congr {dir v w : Nat} (hv : v < 2 ^ 32) (hw : w < 2 ^ 32)
    (h : w / 4096 = v / 4096) : m.getPageInfo dir w = m.getPageInfo dir v := by
  obtain ⟨hd, ht⟩ := (same_entry_iff hv hw).mpr h
  unfold getPageInfo
  rw [hd, ht]

/-- The pages of the block are mapped to the frames from `f` on. -/
structure Consecutive (as : AddressSpace) (m : Machine) (b : VirtMemoryBlock) (f : Nat) : Prop where
  base : 4096 ∣ b.base
  length : 4096 ∣ b.length
  entry : ∀ k < b.length / 4096, Present (m.getPageInfo as.pageDir (b.base + k * 4096)).1 ∧
    frameOf (m.getPageInfo as.pageDir (b.base + k * 4096)).1 = f + k * 4096

theorem Consecutive.holds {b : VirtMemoryBlock} {w : Nat} (h : Consecutive as m b f)
    (hb : b.base + b.length ≤ 2 ^ 32) (hw : b.Holds w) :
    Present (m.getPageInfo as.pageDir w).1 ∧
      frameOf (m.getPageInfo as.pageDir w).1 = f + (w - b.base) / 4096 * 4096 := by
  have hbase := h.base
  have hlen := h.length
  unfold VirtMemoryBlock.Holds at hw
  have hk : (w - b.base) / 4096 < b.length / 4096 := by omega
  rw [getPageInfo_congr (v := b.base + (w - b.base) / 4096 * 4096) (by omega) (by omega) (by omega)]
  exact h.entry _ hk

theorem Consecutive.owns_iff {b : VirtMemoryBlock} (h : Consecutive as m b f)
    (hb : b.base + b.length ≤ 2 ^ 32) {q : Nat} :
    Owns as m b q ↔ ∃ k < b.length / 4096, q = f + k * 4096 := by
  have hbase := h.base
  have hlen := h.length
  constructor
  · rintro ⟨w, hw, -, rfl⟩
    refine ⟨(w - b.base) / 4096, ?_, (h.holds hb hw).2⟩
    unfold VirtMemoryBlock.Holds at hw
    omega
  · rintro ⟨k, hk, rfl⟩
    obtain ⟨hp, hf⟩ := h.entry k hk
    refine ⟨b.base + k * 4096, ?_, hp, hf⟩
    unfold VirtMemoryBlock.Holds
    omega

theorem freeOk_iff_first (h : InOrder (blockList as)) (hi : i < as.blockCount)
    (hv : (as.blocks i).Holds vaddr) (hc : Consecutive as m (as.blocks i) f) :
    FreeOk as m vaddr i ↔ (as.blocks i).type = .memory ∧
      (as.blocks i).base + (as.blocks i).length < 2 ^ 32 ∧ vaddr < (as.blocks i).base + 4096 := by
  have hb := h.le _ (blocks_mem hi)
  have hlen := hc.length
  obtain ⟨-, hframe⟩ := hc.holds hb hv
  have hshift : (as.blocks i).length >>> PAGE_OFFSET_BITS = (as.blocks i).length / 4096 :=
    Nat.shiftRight_eq_div_pow _ 12
  have hpages : ∀ q, q ∈ (freedRange as m vaddr i).pages ↔
      ∃ k < (as.blocks i).length / 4096,
        q = f + (vaddr - (as.blocks i).base) / 4096 * 4096 + 4096 * k := fun q => by
    unfold freedRange Range.pages
    rw [mem_pages, hshift, hframe]
  unfold VirtMemoryBlock.Holds at hv
  constructor
  · intro hok
    refine ⟨hok.type, hok.lt, ?_⟩
    by_contra hfar
    -- the frame of the first page is not among those given back
    have hfirst : Owns as m (as.blocks i) f :=
      (hc.owns_iff hb).mpr ⟨0, by omega, by omega⟩
    obtain ⟨k, -, hk⟩ := (hpages f).mp ((hok.frames f).mpr hfirst)
    omega
  · rintro ⟨htype, hend, hfirst⟩
    refine ⟨htype, hend, fun q => ?_⟩
    rw [hpages, hc.owns_iff hb]
    have hzero : (vaddr - (as.blocks i).base) / 4096 = 0 := by omega
    rw [hzero, Nat.zero_mul, Nat.add_zero]
    simp only [Nat.mul_comm 4096]

/-- **What `free_virt_pages` gives back.** For an address in a block of a table in order, the call
frees that block exactly when the block is RAM, does not end at `2 ^ 32`, and its frames are the
`length >> 12` frames from the frame of the address on; when the frames of the block are consecutive,
the address must lie in its first page. For an address in no block, nothing changes. -/
theorem freeVirtPages_frees (st : VirtState) (sp : Space) (vaddr : Nat)
    (hm : (st.spaces sp).mutex = false) (h : InOrder (blockList (st.spaces sp))) :
    (∀ i < (st.spaces sp).blockCount, ((st.spaces sp).blocks i).Holds vaddr →
      (FreesBlock st sp vaddr i ↔ FreeOk (st.spaces sp) st.machine vaddr i) ∧
      ∀ f, Consecutive (st.spaces sp) st.machine ((st.spaces sp).blocks i) f →
        (FreesBlock st sp vaddr i ↔ ((st.spaces sp).blocks i).type = .memory ∧
          ((st.spaces sp).blocks i).base + ((st.spaces sp).blocks i).length < 2 ^ 32 ∧
            vaddr < ((st.spaces sp).blocks i).base + 4096)) ∧
      ((∀ b ∈ blockList (st.spaces sp), ¬ b.Holds vaddr) →
        ∀ A, freeVirtPages A sp vaddr st = some (false, st)) := by
  refine ⟨fun i hi hv => ⟨freesBlock_iff hm h hi hv, fun f hc => ?_⟩, fun hnone A => ?_⟩
  · rw [freesBlock_iff hm h hi hv]
    exact freeOk_iff_first h hi hv hc
  · rw [freeVirtPages_eq _ _ rfl hm]
    apply if_neg
    intro hlt
    exact hnone _ (blocks_mem hlt) (findBlock_holds h hlt).1

/-! ## Device memory -/

/-- A space with one block of device memory: the page `0x100000`, mapped to the text buffer. -/
def deviceSpace : AddressSpace where
  pageDir := 0x2000
  start := 0x100000
  endAddr := 0x7FFFFFFF
  blockTableSize := 341
  blockCount := 1
  blocksAddr := 0x80001000
  blocks := fun _ => ⟨.ioMemory, 0x100000, 0x1000⟩
  mutex := false

/-- The page at `0x100000` shows the screen, and is recorded as device memory. -/
def deviceState : VirtState where
  machine :=
    ⟨fun p i => if p = 0x2000 ∧ i = 0 then 0x3003 else if p = 0x3000 ∧ i = 0x100 then 0xB8003 else 0,
      0x1000, 0, NIL, false⟩
  spaces := fun _ => deviceSpace

theorem inOrder_deviceSpace : InOrder (blockList deviceSpace) := ⟨by decide, by decide⟩

/-- A block of RAM in its place. -/
def ramState : VirtState where
  machine := deviceState.machine
  spaces := fun _ => { deviceSpace with blocks := fun _ => ⟨.memory, 0x100000, 0x1000⟩ }

/-- The block of RAM is freed. -/
theorem freeVirtPages_frees_ram : FreesBlock ramState .kernel 0x100ABC 0 := by
  have h := freeVirtPages_frees ramState .kernel 0x100ABC rfl ⟨by decide, by decide⟩
  apply ((h.1 0 (by decide) ⟨by decide, by decide⟩).2 0xB8000 ⟨by decide, by decide, ?_⟩).mpr
  · decide
  · intro k hk
    obtain rfl : k = 0 := Nat.lt_one_iff.mp hk
    decide +kernel

/-- **The frames of device memory are given to the allocator.** -/
theorem device_memory_freed : (deviceState.spaces .kernel).mutex = false ∧
    InOrder (blockList (deviceState.spaces .kernel)) ∧
    ((deviceState.spaces .kernel).blocks 0).Holds 0x100000 ∧
    ¬ FreesBlock deviceState .kernel 0x100000 0 := by
  have hv : ((deviceState.spaces .kernel).blocks 0).Holds 0x100000 := ⟨by decide, by decide⟩
  refine ⟨rfl, inOrder_deviceSpace, hv, fun h => ?_⟩
  have hok := (freesBlock_iff rfl inOrder_deviceSpace (by decide) hv).mp h
  exact absurd hok.type (by decide)

end C4os
