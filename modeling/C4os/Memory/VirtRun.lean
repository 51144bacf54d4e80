import C4os.Lib.Run
import C4os.Memory.VirtCases

/-!
# Runs of the virtual memory manager

* `VirtStep`: the calls of `alloc_virt_pages` and `free_virt_pages` on one address space.
* `NoOverlap`: what is handed out does not overlap and lies in the address space.
* `VirtOp.Ok`: the request finds a place that is really free, and frames for it.
* **`no_overlap`**: runs of such calls; `overlap_two`: one that is not.
-/

namespace C4os

open Word Machine Transition

/-! ## The first tables -/

/-- The address that the kernel is linked to. -/
def KERNEL_BASE : Nat := 0xFFC00000

/-- The first address of a process. -/
def USER_MEMORY_START : Nat := 0

/-- The last address of a process. -/
def USER_MEMORY_END : Nat := 0x7FFFFFFF

/-- The first address of the kernel's memory. -/
def KERNEL_MEMORY_START : Nat := 0x80000000

/-- The last address of the kernel's memory. -/
def KERNEL_MEMORY_END : Nat := KERNEL_BASE - 1

/-- The address space of the kernel after `init_memory_manager`. -/
def initMemoryManager (dir : Nat) (t : Nat → VirtMemoryBlock) (mutex : Bool) : AddressSpace where
  pageDir := dir
  start := KERNEL_MEMORY_START
  endAddr := KERNEL_MEMORY_END
  blockTableSize := PAGE_SIZE / blockBytes
  blockCount := 1
  blocksAddr := KERNEL_MEMORY_START
  blocks := Function.update t 0 ⟨.reserved, KERNEL_MEMORY_START, PAGE_SIZE⟩
  mutex := mutex

/-- `init_address_space`, with the table at `blocksAddr`. -/
def initAddressSpace (dir blocksAddr : Nat) (t : Nat → VirtMemoryBlock) (mutex : Bool) :
    AddressSpace where
  pageDir := dir
  start := USER_MEMORY_START
  endAddr := USER_MEMORY_END
  blockTableSize := PAGE_SIZE / blockBytes
  blockCount := 0
  blocksAddr := blocksAddr
  blocks := t
  mutex := mutex

/-- A table before the first call. -/
def Initial : Space → AddressSpace → Prop
  | .kernel, as => ∃ dir t mutex, as = initMemoryManager dir t mutex
  | .process _, as => ∃ dir blocksAddr t mutex, as = initAddressSpace dir blocksAddr t mutex

/-! ## Runs -/

/-- The address spaces and the ranges of one of them that are handed out. -/
structure VirtRun where
  state : VirtState
  live : List Range

/-- A call of the memory manager on an address space. -/
inductive VirtOp where
  | alloc (vaddr paddr count flags : Nat)
  | free (vaddr : Nat)

/-- The address `a` is in the range. -/
def Range.Contains (r : Range) (a : Nat) : Prop := r.base ≤ a ∧ a < r.base + r.count * 4096

instance (r : Range) (a : Nat) : Decidable (r.Contains a) := inferInstanceAs (Decidable (_ ∧ _))

/-- The calls of a run on the address space `sp`. -/
def VirtStep (A : PhysAllocator) (sp : Space) (σ : VirtRun) : VirtOp → VirtRun → Prop
  | .alloc vaddr paddr count flags, σ' =>
    1 ≤ count ∧ count * 4096 < 2 ^ 32 ∧ vaddr + count * 4096 ≤ 2 ^ 32 ∧
      ∃ r st, allocVirtPages A sp vaddr paddr count flags σ.state = some (r, st) ∧
        σ' = ⟨st, if r = 0 then σ.live else ⟨r, count⟩ :: σ.live⟩
  | .free vaddr, σ' => ∃ b st, freeVirtPages A sp vaddr σ.state = some (b, st) ∧
      σ' = ⟨st, if b then σ.live.filter fun r => ¬ r.Contains vaddr else σ.live⟩

/-- What is handed out does not overlap, nor the reserved block, and lies in the address space. -/
structure NoOverlap (as : AddressSpace) (live : List Range) : Prop where
  disjoint : live.Pairwise Range.Disjoint
  reserved : ∀ r ∈ live, ∀ b ∈ blockList as, b.type = .reserved →
    r.base + r.count * 4096 ≤ b.base ∨ b.base + b.length ≤ r.base
  inside : ∀ r ∈ live, as.start ≤ r.base ∧ r.base + r.count * 4096 ≤ as.endAddr + 1

/-- The room that an allocation needs above the last block: a page when the table of the kernel
grows. -/
def growRoom (sp : Space) (as : AddressSpace) : Nat := if GrowsKernel sp as then 4096 else 0

/-- A request finds a free place and frames for it. A table that is full moves to pages of the
kernel, so the kernel's request for these is one that finds a free place and frames, too. -/
structure AllocOk (A : PhysAllocator) (sp : Space) (vaddr paddr count flags : Nat)
    (st : VirtState) : Prop where
  request : RequestOk (st.spaces sp) (growRoom sp (st.spaces sp)) vaddr count
  frames : paddr = NIL → (vaddr ≠ 0 → HintFree (st.spaces sp) vaddr count) →
    ∀ m, A.alloc count st.machine ≠ some (NIL, m)
  table : sp ≠ .kernel → (st.spaces sp).blockCount = (st.spaces sp).blockTableSize →
    RequestOk (st.spaces .kernel) (growRoom .kernel (st.spaces .kernel)) 0
      (st.spaces sp).newTablePages ∧
    ∀ m m', AtGrowth A sp vaddr paddr count flags st m →
      A.alloc (st.spaces sp).newTablePages m ≠ some (NIL, m')

/-- A call that keeps the table right; in particular, none that frees the reserved block. -/
def VirtOp.Ok (A : PhysAllocator) (sp : Space) (st : VirtState) : VirtOp → Prop
  | .alloc vaddr paddr count flags => AllocOk A sp vaddr paddr count flags st
  | .free vaddr => ∀ b ∈ blockList (st.spaces sp), b.type = .reserved →
      ¬ (b.base ≤ vaddr ∧ vaddr < b.base + b.length)

/-- The table is sorted and holds what is handed out; the last block of the kernel is the reserved
one. -/
structure VirtInv (sp : Space) (as : AddressSpace) (live : List Range) : Prop where
  end_lt : as.endAddr + 1 < 2 ^ 32
  sorted : Sorted as (blockList as)
  held : ∀ r ∈ live, ∃ b ∈ blockList as, b.type ≠ .reserved ∧ b.base = r.base ∧
    b.length = r.count * 4096
  disjoint : live.Pairwise Range.Disjoint
  reserved : sp = .kernel → 1 ≤ as.blockCount ∧
    (as.blocks (as.blockCount - 1)).type = .reserved ∧
    (as.blocks (as.blockCount - 1)).base = as.start

variable {A : PhysAllocator} {sp : Space} {as as' : AddressSpace} {live : List Range}
  {σ σ' : VirtRun} {count v i room : Nat}

theorem VirtInv.noOverlap (h : VirtInv sp as live) : NoOverlap as live := by
  refine ⟨h.disjoint, fun r hr b hb hres => ?_, fun r hr => ?_⟩
  all_goals obtain ⟨c, hc, htype, hbase, hlen⟩ := h.held r hr
  · rw [← hbase, ← hlen]
    exact h.sorted.disjoint hc hb fun e => htype (e ▸ hres)
  · rw [← hbase, ← hlen]
    exact ⟨h.sorted.start_le c hc, h.sorted.le_end c hc⟩

theorem Initial.virtInv (h : Initial sp as) : VirtInv sp as [] := by
  cases sp with
  | kernel =>
    obtain ⟨dir, t, mutex, rfl⟩ := h
    have hlist : blockList (initMemoryManager dir t mutex) =
        [⟨.reserved, KERNEL_MEMORY_START, PAGE_SIZE⟩] := rfl
    refine ⟨(by decide : KERNEL_MEMORY_END + 1 < 2 ^ 32), ?_, by simp, List.Pairwise.nil, fun _ => ⟨Nat.le_refl 1, rfl, rfl⟩⟩
    rw [hlist]
    refine ⟨List.pairwise_singleton _ _, ?_, ?_, ?_⟩ <;> intro b hb
    all_goals obtain rfl := List.mem_singleton.mp hb
    · decide
    · exact Nat.le_refl _
    · show KERNEL_MEMORY_START + PAGE_SIZE ≤ KERNEL_MEMORY_END + 1
      decide
  | process n =>
    obtain ⟨dir, a, t, mutex, rfl⟩ := h
    have hlist : blockList (initAddressSpace dir a t mutex) = [] := rfl
    refine ⟨(by decide : USER_MEMORY_END + 1 < 2 ^ 32), ?_, by simp, List.Pairwise.nil, fun h => by cases h⟩
    rw [hlist]
    exact ⟨List.Pairwise.nil, by simp, by simp, by simp⟩

/-! ## Growth -/

theorem blockList_last (h : 1 ≤ as.blockCount) :
    blockList as = blocksFrom as 0 (as.blockCount - 1) ++ [as.blocks (as.blockCount - 1)] := by
  rw [blockList_split (i := as.blockCount - 1) (by omega),
    show as.blockCount - (as.blockCount - 1) = 1 by omega]
  rfl

theorem blockList_growLast (h : 1 ≤ as.blockCount) :
    blockList { as with blocks := as.growLast } = blocksFrom as 0 (as.blockCount - 1) ++
        [{ as.blocks (as.blockCount - 1) with
          length := add32 (as.blocks (as.blockCount - 1)).length PAGE_SIZE }] ∧
      blocksFrom { as with blocks := as.growLast } 0 (as.blockCount - 1) =
        blocksFrom as 0 (as.blockCount - 1) := by
  have hfrom : blocksFrom { as with blocks := as.growLast } 0 (as.blockCount - 1) =
      blocksFrom as 0 (as.blockCount - 1) := by
    apply blocksFrom_congr
    intro x hx
    exact Function.update_of_ne (by omega) ..
  refine ⟨?_, hfrom⟩
  have hgrow : 1 ≤ { as with blocks := as.growLast }.blockCount := h
  rw [blockList_last hgrow]
  dsimp only
  rw [hfrom, AddressSpace.growLast, Function.update_self]

theorem VirtInv.index_eq (h : VirtInv .kernel as live) (hp : PlaceOk as room count v i)
    (hc : 1 ≤ count) : i = as.blockCount - 1 := by
  obtain ⟨hpos, -, hbase⟩ := h.reserved rfl
  have := hp.last
  by_contra hi
  have hi : as.blockCount = i := by
    have := hp.index
    omega
  have hmem : as.blocks (as.blockCount - 1) ∈ blocksFrom as 0 i := by
    rw [← hi]
    show _ ∈ blockList as
    rw [blockList_last hpos]
    simp
  have := hp.above _ hmem
  have := hp.start_le
  omega

theorem VirtInv.congr (h : VirtInv sp as live) (hs : as'.start = as.start)
    (he : as'.endAddr = as.endAddr) (hn : as'.blockCount = as.blockCount)
    (hb : as'.blocks = as.blocks) : VirtInv sp as' live := by
  have hlist : blockList as' = blockList as := by
    unfold blockList blocksFrom
    rw [hn, hb]
  refine ⟨he ▸ h.end_lt, ?_, hlist ▸ h.held, h.disjoint, fun hsp => ?_⟩
  · rw [hlist]
    exact ⟨h.sorted.pairwise, h.sorted.pos, hs ▸ h.sorted.start_le, he ▸ h.sorted.le_end⟩
  · rw [hn, hb, hs]
    exact h.reserved hsp

theorem PlaceOk.congr (hp : PlaceOk as room count v i) (hs : as'.start = as.start)
    (he : as'.endAddr = as.endAddr) (hn : as'.blockCount = as.blockCount)
    (hb : as'.blocks = as.blocks) : PlaceOk as' room count v i := by
  have hlist : ∀ x k, blocksFrom as' x k = blocksFrom as x k := fun x k => by
    unfold blocksFrom
    rw [hb]
  refine ⟨hn ▸ hp.index, hn ▸ hp.last, hs ▸ hp.start_le, he ▸ hp.le_end, ?_, ?_⟩
  · rw [hlist]
    exact hp.above
  · rw [hlist, hn]
    exact hp.below

theorem VirtInv.growLast (h : VirtInv .kernel as live) (hp : PlaceOk as 4096 count v i)
    (hc : 1 ≤ count) :
    VirtInv .kernel { as with blocks := as.growLast } live ∧
      PlaceOk { as with blocks := as.growLast } 0 count v i := by
  obtain ⟨hpos, htype, hbase⟩ := h.reserved rfl
  have hi := h.index_eq hp hc
  have hend := h.end_lt
  have hroom : (as.blocks (as.blockCount - 1)).base + (as.blocks (as.blockCount - 1)).length + 4096
      ≤ v := by
    refine hp.below _ ?_
    rw [hi, show as.blockCount - (as.blockCount - 1) = 1 by omega]
    exact mem_blocksFrom_one.mpr rfl
  have hv := hp.le_end
  have habove : ∀ a ∈ blocksFrom as 0 (as.blockCount - 1), v + count * 4096 ≤ a.base := by
    rw [← hi]
    exact hp.above
  have hlen : add32 (as.blocks (as.blockCount - 1)).length PAGE_SIZE =
      (as.blocks (as.blockCount - 1)).length + 4096 := by
    unfold PAGE_SIZE
    exact add32_eq (by omega)
  have hroom' : (as.blocks (as.blockCount - 1)).base +
      ((as.blocks (as.blockCount - 1)).length + 4096) ≤ v := by
    rwa [← Nat.add_assoc]
  have hold := blockList_last hpos
  obtain ⟨hlist, hfrom⟩ := blockList_growLast hpos
  rw [hlen] at hlist
  have hs := h.sorted
  rw [hold] at hs
  have hpw := List.pairwise_append.mp hs.pairwise
  refine ⟨⟨h.end_lt, ?_, fun r hr => ?_, h.disjoint, fun _ => ⟨hpos, ?_, ?_⟩⟩,
    ⟨hp.index, hp.last, hp.start_le, hp.le_end, ?_, fun b hb => ?_⟩⟩
  · rw [hlist]
    refine ⟨List.pairwise_append.mpr ⟨hpw.1, List.pairwise_singleton _ _, fun a ha b hb => ?_⟩,
      fun b hb => ?_, fun b hb => ?_, fun b hb => ?_⟩
    · obtain rfl := List.mem_singleton.mp hb
      show (as.blocks (as.blockCount - 1)).base + _ ≤ a.base
      exact hroom'.trans ((Nat.le_add_right _ _).trans (habove a ha))
    all_goals rcases List.mem_append.mp hb with hb | hb
    · exact hs.pos b (List.mem_append_left _ hb)
    · obtain rfl := List.mem_singleton.mp hb
      exact Nat.succ_pos _
    · exact hs.start_le b (List.mem_append_left _ hb)
    · obtain rfl := List.mem_singleton.mp hb
      exact Nat.le_of_eq hbase.symm
    · exact hs.le_end b (List.mem_append_left _ hb)
    · obtain rfl := List.mem_singleton.mp hb
      show (as.blocks (as.blockCount - 1)).base + _ ≤ as.endAddr + 1
      exact hroom'.trans ((Nat.le_add_right _ _).trans hv)
  · obtain ⟨b, hb, ht, hrest⟩ := h.held r hr
    rw [hold] at hb
    rcases List.mem_append.mp hb with hb | hb
    · refine ⟨b, ?_, ht, hrest⟩
      rw [hlist]
      exact List.mem_append_left _ hb
    · rw [List.mem_singleton.mp hb] at ht
      exact absurd htype ht
  · show (as.growLast (as.blockCount - 1)).type = _
    rw [AddressSpace.growLast, Function.update_self]
    exact htype
  · show (as.growLast (as.blockCount - 1)).base = _
    rw [AddressSpace.growLast, Function.update_self]
    exact hbase
  · rw [hi, hfrom]
    exact habove
  · rw [show as.blockCount - i = 1 by omega, mem_blocksFrom_one, hi] at hb
    rw [hb]
    show (as.growLast (as.blockCount - 1)).base + (as.growLast (as.blockCount - 1)).length + 0 ≤ v
    rw [AddressSpace.growLast, Function.update_self, hlen]
    exact hroom'

/-- **The growth of the table keeps it right**, and the place free. -/
theorem VirtInv.grow (h : VirtInv sp as live) (hp : PlaceOk as (growRoom sp as) count v i)
    (hc : 1 ≤ count) (hg : Grown sp as as') : VirtInv sp as' live ∧ PlaceOk as' 0 count v i := by
  have hblocks := hg.blocks
  by_cases hgrow : GrowsKernel sp as
  · rw [growRoom, if_pos hgrow] at hp
    rw [if_pos hgrow] at hblocks
    obtain rfl := hgrow.1
    obtain ⟨h', hp'⟩ := h.growLast hp hc
    exact ⟨h'.congr hg.start hg.endAddr hg.blockCount hblocks,
      hp'.congr hg.start hg.endAddr hg.blockCount hblocks⟩
  · rw [growRoom, if_neg hgrow] at hp
    rw [if_neg hgrow] at hblocks
    exact ⟨h.congr hg.start hg.endAddr hg.blockCount hblocks,
      hp.congr hg.start hg.endAddr hg.blockCount hblocks⟩

/-! ## The calls -/

theorem VirtInv.insert (h : VirtInv sp as live) (hp : PlaceOk as 0 count v i) (hc : 1 ≤ count)
    {b : VirtMemoryBlock} (hb : b.base = v) (hl : b.length = count * 4096)
    (htype : b.type ≠ .reserved) : VirtInv sp (as.insertBlock i b) (⟨v, count⟩ :: live) := by
  have hsort := hp.sorted h.sorted hc hb hl
  refine ⟨h.end_lt, hsort, fun r hr => ?_, ?_, fun hsp => ?_⟩
  · rcases List.mem_cons.mp hr with rfl | hr
    · exact ⟨b, hp.mem_insertBlock.mpr (Or.inl rfl), htype, hb, hl⟩
    · obtain ⟨c, hc, hrest⟩ := h.held r hr
      exact ⟨c, hp.mem_insertBlock.mpr (Or.inr hc), hrest⟩
  · refine List.pairwise_cons.mpr ⟨fun r hr => ?_, h.disjoint⟩
    obtain ⟨c, hc, -, hbase, hlen⟩ := h.held r hr
    unfold Range.Disjoint
    dsimp only
    rw [← hbase, ← hlen]
    rcases mem_blockList hp.index hc with hc | hc
    · exact Or.inl (hp.above c hc)
    · exact Or.inr (hp.below c hc)
  · subst hsp
    obtain ⟨hpos, ht, hbase⟩ := h.reserved rfl
    have hi := h.index_eq hp hc
    have hlast : (as.insertBlock i b).blocks as.blockCount = as.blocks (as.blockCount - 1) := by
      have hn : as.blockCount = as.blockCount - 1 + 1 := by omega
      rw [blocks_insertBlock, if_neg (by omega), hi, show as.blockCount - (as.blockCount - 1) = 1 by
        omega]
      conv_lhs => rw [hn]
      exact Function.update_self ..
    refine ⟨Nat.succ_pos _, ?_, ?_⟩
    · show ((as.insertBlock i b).blocks as.blockCount).type = _
      rwa [hlast]
    · show ((as.insertBlock i b).blocks as.blockCount).base = _
      rwa [hlast]

theorem VirtInv.remove (h : VirtInv sp as live) (hi : i < as.blockCount) {a : Nat}
    (ha : (as.blocks i).base ≤ a ∧ a < (as.blocks i).base + (as.blocks i).length)
    (htype : (as.blocks i).type ≠ .reserved) :
    VirtInv sp (as.removeBlock i) (live.filter fun r => ¬ r.Contains a) := by
  obtain ⟨hsort, hsub⟩ := h.sorted.removeBlock hi
  refine ⟨h.end_lt, hsort, fun r hr => ?_, h.disjoint.sublist List.filter_sublist, fun hsp => ?_⟩
  · obtain ⟨hr, hout⟩ := List.mem_filter.mp hr
    obtain ⟨b, hb, ht, hbase, hlen⟩ := h.held r hr
    refine ⟨b, mem_removeBlock hi hb ?_, ht, hbase, hlen⟩
    rintro rfl
    rw [hbase, hlen] at ha
    simp [Range.Contains, ha] at hout
  · obtain ⟨hpos, ht, hbase⟩ := h.reserved hsp
    have hne : i ≠ as.blockCount - 1 := fun e => htype (e ▸ ht)
    have hlast : (as.removeBlock i).blocks (as.blockCount - 1 - 1) =
        as.blocks (as.blockCount - 1) := by
      have hx : as.blockCount - 1 - 1 - i < as.blockCount - 1 - i := by omega
      have := memcpyBlocks_down i as.blocks hx
      rwa [show i + (as.blockCount - 1 - 1 - i) = as.blockCount - 1 - 1 by omega,
        show i + 1 + (as.blockCount - 1 - 1 - i) = as.blockCount - 1 by omega] at this
    refine ⟨?_, ?_, ?_⟩
    · show 1 ≤ as.blockCount - 1
      omega
    · show ((as.removeBlock i).blocks (as.blockCount - 1 - 1)).type = _
      rwa [hlast]
    · show ((as.removeBlock i).blocks (as.blockCount - 1 - 1)).base = _
      rwa [hlast]

theorem VirtInv.setMutex (h : VirtInv sp as live) (m : Bool) :
    VirtInv sp { as with mutex := m } live := h.congr rfl rfl rfl rfl

/-- **A request that finds a free place** keeps the table right: nothing is recorded, for lack of a
place or of frames, or the new range. -/
theorem VirtInv.request {vaddr paddr flags r : Nat} {st st' : VirtState}
    (h : VirtInv sp (st.spaces sp) live) (hc : 1 ≤ count) (hc32 : count * 4096 < 2 ^ 32)
    (hreq : RequestOk (st.spaces sp) (growRoom sp (st.spaces sp)) vaddr count)
    (hcall : allocVirtPages A sp vaddr paddr count flags st = some (r, st')) :
    (VirtInv sp (st'.spaces sp) live ∧ (st'.spaces sp).blockCount = (st.spaces sp).blockCount ∧
        (r ≠ 0 → paddr = NIL ∧ (vaddr ≠ 0 → HintFree (st.spaces sp) vaddr count) ∧
          ∃ m, A.alloc count st.machine = some (NIL, m))) ∨
      r ≠ 0 ∧ VirtInv sp (st'.spaces sp) (⟨r, count⟩ :: live) := by
  obtain ⟨st₁, hend, rfl⟩ := allocVirtPages_end hcall
  have htable := hend.table
  rw [VirtState.spaces_locked] at htable
  rw [VirtState.spaces_mutexRelease]
  have hreq' : RequestOk { st.spaces sp with mutex := true } (growRoom sp (st.spaces sp))
      vaddr count := ⟨hreq.anywhere, hreq.hint⟩
  have hinv := h.setMutex true
  have hplace := findPlace_spec hinv.end_lt hinv.sorted hc32 hreq'
  obtain ⟨hs, hr⟩ | ⟨hr, hne, as', type, hg, htype, hs⟩ := htable
  · left
    dsimp only at hs hr
    rw [hs]
    refine ⟨hinv.setMutex false, rfl, fun hr0 => ?_⟩
    obtain ⟨hne, hnil, hm⟩ := hr.resolve_left hr0
    exact ⟨hnil, (hplace hne).2, hm⟩
  · right
    dsimp only at hr hne hs
    rw [hs]
    refine ⟨hne, VirtInv.setMutex ?_ false⟩
    rw [hr] at hne ⊢
    obtain ⟨hinv', hp'⟩ := hinv.grow (hplace hne).1 hc hg
    exact hinv'.insert hp' hc rfl (pageShift_eq hc32) htype

theorem VirtInv.alloc {vaddr paddr flags : Nat}
    (h : VirtInv sp (σ.state.spaces sp) σ.live)
    (hs : VirtStep A sp σ (.alloc vaddr paddr count flags) σ')
    (hok : AllocOk A sp vaddr paddr count flags σ.state) : VirtInv sp (σ'.state.spaces sp) σ'.live := by
  obtain ⟨hc, hc32, -, r, st, halloc, rfl⟩ := hs
  show VirtInv sp (st.spaces sp) (if r = 0 then _ else _)
  obtain ⟨hinv, -, hr⟩ | ⟨hr, hinv⟩ := h.request hc hc32 hok.request halloc
  · have hr0 : r = 0 := by
      by_contra hne
      obtain ⟨hnil, hfree, m, hm⟩ := hr hne
      exact hok.frames hnil hfree m hm
    rwa [if_pos hr0]
  · rwa [if_neg hr]

theorem VirtInv.free {vaddr : Nat} (h : VirtInv sp (σ.state.spaces sp) σ.live)
    (hs : VirtStep A sp σ (.free vaddr) σ')
    (hok : VirtOp.Ok A sp σ.state (.free vaddr)) : VirtInv sp (σ'.state.spaces sp) σ'.live := by
  obtain ⟨b, st, hfree, rfl⟩ := hs
  have hinv := h.setMutex true
  obtain ⟨-, ⟨rfl, rfl⟩ | ⟨rfl, i, hi, hle, hlt, m, -, rfl⟩⟩ := freeVirtPages_cases rfl hfree
  · dsimp only
    rw [VirtState.spaces_setSpace, if_neg Bool.false_ne_true]
    exact hinv.setMutex false
  · dsimp only at hi hle hlt ⊢
    rw [VirtState.spaces_setSpace, if_pos rfl]
    have hmem : (σ.state.spaces sp).blocks i ∈ blockList (σ.state.spaces sp) :=
      List.mem_map.mpr ⟨i, List.mem_range'_1.mpr ⟨Nat.zero_le i, by omega⟩, rfl⟩
    have hend := h.sorted.le_end _ hmem
    have := h.end_lt
    rw [add32_eq (by omega)] at hlt
    have htype : ((σ.state.spaces sp).blocks i).type ≠ .reserved := fun ht =>
      hok _ hmem ht ⟨hle, hlt⟩
    exact (hinv.remove (i := i) hi ⟨hle, hlt⟩ htype).setMutex false

theorem VirtInv.step {op : VirtOp} (h : VirtInv sp (σ.state.spaces sp) σ.live)
    (hs : VirtStep A sp σ op σ') (hok : op.Ok A sp σ.state) :
    VirtInv sp (σ'.state.spaces sp) σ'.live := by
  cases op with
  | alloc vaddr paddr count flags => exact h.alloc hs hok
  | free vaddr => exact h.free hs hok

/-- A run of calls that keep the table right. -/
abbrev OkRun (A : PhysAllocator) (sp : Space) (st : VirtState) (ops : List VirtOp) (σ : VirtRun) :
    Prop :=
  Run (fun σ op σ' => VirtStep A sp σ op σ' ∧ op.Ok A sp σ.state) ⟨st, []⟩ ops σ

/-- **No two live allocations overlap** in a run from the first table whose requests find a place
that is free, and frames for it. -/
theorem no_overlap {st : VirtState} {ops : List VirtOp} (h : Initial sp (st.spaces sp))
    (hrun : OkRun A sp st ops σ) : NoOverlap (σ.state.spaces sp) σ.live :=
  (hrun.invariant (I := fun σ => VirtInv sp (σ.state.spaces sp) σ.live)
    (fun _ _ _ hi hs => hi.step hs.1 hs.2) h.virtInv).noOverlap

/-- An empty user address space over an empty directory, with four free pages. -/
def emptySpaces : VirtState where
  machine := emptyDirectory
  spaces
    | .kernel => initMemoryManager 0x3000 (fun _ => ⟨.memory, 0, 0⟩) false
    | .process _ => initAddressSpace 0x2000 KERNEL_MEMORY_START (fun _ => ⟨.memory, 0, 0⟩) false

/-- Two requests for one page, the second of which lies below the first. -/
theorem no_overlap_pages : ∃ σ, OkRun safeAllocator (.process 0) emptySpaces
      [.alloc 0 NIL 1 3, .alloc 0 NIL 1 3] σ ∧
    σ.live = [⟨0x7FFFE000, 1⟩, ⟨0x7FFFF000, 1⟩] ∧
    NoOverlap (σ.state.spaces (.process 0)) σ.live := by
  have h : (allocVirtPages safeAllocator (.process 0) 0 NIL 1 3 emptySpaces).bind (fun r =>
      (allocVirtPages safeAllocator (.process 0) 0 NIL 1 3 r.2).map fun q =>
        ([r.1, q.1, (r.2.spaces (.process 0)).start, (r.2.spaces (.process 0)).endAddr,
          (r.2.spaces (.process 0)).blockTableSize], blockList (r.2.spaces (.process 0)),
          [(safeAllocator.alloc 1 emptySpaces.machine).map Prod.fst,
            (safeAllocator.alloc 1 r.2.machine).map Prod.fst])) =
      some ([0x7FFFF000, 0x7FFFE000, 0, 0x7FFFFFFF, 341], [⟨.memory, 0x7FFFF000, 0x1000⟩],
        [some 0x13000, some 0x11000]) := by decide +kernel
  obtain ⟨⟨r₁, st₁⟩, h₁, h⟩ := Option.bind_eq_some_iff.mp h
  obtain ⟨⟨r₂, st₂⟩, h₂, h⟩ := Option.map_eq_some_iff.mp h
  simp only [Prod.mk.injEq, List.cons.injEq, and_true] at h
  obtain ⟨⟨rfl, rfl, hstart, hend, hsize⟩, hlist, hf₁, hf₂⟩ := h
  have hcount : (st₁.spaces (.process 0)).blockCount = 1 := by
    rw [← length_blockList, hlist]
    rfl
  have hne : ∀ (m m' : Machine) (x : Nat), (safeAllocator.alloc 1 m).map Prod.fst = some x →
      x ≠ NIL → safeAllocator.alloc 1 m ≠ some (NIL, m') := by
    intro m m' x hx hxn he
    rw [he] at hx
    exact hxn (Option.some.inj hx).symm
  have hok₁ : AllocOk safeAllocator (.process 0) 0 NIL 1 3 emptySpaces := by
    refine ⟨⟨fun _ => ?_, fun h => absurd rfl h⟩, fun _ _ m => hne _ m _ hf₁ (by decide),
      fun _ h => absurd h (by decide)⟩
    show 0 + 1 * 4096 ≤ 0x7FFFFFFF + 1
    decide
  have hok₂ : AllocOk safeAllocator (.process 0) 0 NIL 1 3 st₁ := by
    refine ⟨⟨fun _ => ?_, fun h => absurd rfl h⟩, fun _ _ m => hne _ m _ hf₂ (by decide),
      fun _ h => ?_⟩
    · rw [hlist, hstart, hend]
      simp [SearchOk]
    · rw [hcount, hsize] at h
      exact absurd h (by decide)
  have step₁ : VirtStep safeAllocator (.process 0) ⟨emptySpaces, []⟩ (.alloc 0 NIL 1 3)
      ⟨st₁, [⟨0x7FFFF000, 1⟩]⟩ := ⟨by decide, by decide, by decide, _, _, h₁, rfl⟩
  have step₂ : VirtStep safeAllocator (.process 0) ⟨st₁, [⟨0x7FFFF000, 1⟩]⟩ (.alloc 0 NIL 1 3)
      ⟨st₂, [⟨0x7FFFE000, 1⟩, ⟨0x7FFFF000, 1⟩]⟩ :=
    ⟨by decide, by decide, by decide, _, _, h₂, rfl⟩
  have hrun : OkRun safeAllocator (.process 0) emptySpaces [.alloc 0 NIL 1 3, .alloc 0 NIL 1 3]
      ⟨st₂, [⟨0x7FFFE000, 1⟩, ⟨0x7FFFF000, 1⟩]⟩ :=
    .cons ⟨step₁, hok₁⟩ (.cons ⟨step₂, hok₂⟩ (.nil _))
  exact ⟨_, hrun, rfl, no_overlap ⟨_, _, _, _, rfl⟩ hrun⟩

/-- **A request for two pages after one for one page overlaps it**: the overlap test is given two
bytes instead of two pages. -/
theorem overlap_two : ∃ σ, Initial (.process 0) (emptySpaces.spaces (.process 0)) ∧
    Run (VirtStep safeAllocator (.process 0)) ⟨emptySpaces, []⟩
      [.alloc 0 NIL 1 3, .alloc 0 NIL 2 3] σ ∧
    ¬ NoOverlap (σ.state.spaces (.process 0)) σ.live := by
  have h : (allocVirtPages safeAllocator (.process 0) 0 NIL 1 3 emptySpaces).bind (fun r =>
      (allocVirtPages safeAllocator (.process 0) 0 NIL 2 3 r.2).map fun q => (r.1, q.1)) =
      some (0x7FFFF000, 0x7FFFE000) := by decide +kernel
  obtain ⟨⟨r₁, st₁⟩, h₁, h⟩ := Option.bind_eq_some_iff.mp h
  obtain ⟨⟨r₂, st₂⟩, h₂, h⟩ := Option.map_eq_some_iff.mp h
  obtain ⟨rfl, rfl⟩ := Prod.mk.inj h
  have step₁ : VirtStep safeAllocator (.process 0) ⟨emptySpaces, []⟩ (.alloc 0 NIL 1 3)
      ⟨st₁, [⟨0x7FFFF000, 1⟩]⟩ := ⟨by decide, by decide, by decide, _, _, h₁, rfl⟩
  have step₂ : VirtStep safeAllocator (.process 0) ⟨st₁, [⟨0x7FFFF000, 1⟩]⟩ (.alloc 0 NIL 2 3)
      ⟨st₂, [⟨0x7FFFE000, 2⟩, ⟨0x7FFFF000, 1⟩]⟩ :=
    ⟨by decide, by decide, by decide, _, _, h₂, rfl⟩
  refine ⟨_, ⟨_, _, _, _, rfl⟩, .cons step₁ (.cons step₂ (.nil _)), fun hno => ?_⟩
  have := (List.pairwise_cons.mp hno.disjoint).1 ⟨0x7FFFF000, 1⟩ (by simp)
  unfold Range.Disjoint at this
  exact absurd this (by decide)

end C4os
