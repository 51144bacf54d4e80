import C4os.Memory.Virt

/-!
# The block table of an address space

* `blockList as`: the entries of the table; `Sorted`: no two of them overlap, highest first, and all
  lie in the address space.
* `blockList_insertBlock`, `blockList_removeBlock`: what the copies of the table do.
* `SearchOk`: the downward search meets no block that its overlap test misses;
  **`searchDown_spec`**, **`searchHint_spec`**: then the place that is found is free.
-/

namespace C4os

open Word

variable {as : AddressSpace} {i j n count v hi : Nat} {b : VirtMemoryBlock}

/-- The entries of the table from index `i` on. -/
def blocksFrom (as : AddressSpace) (i k : Nat) : List VirtMemoryBlock :=
  (List.range' i k).map as.blocks

/-- The entries of the table. -/
def blockList (as : AddressSpace) : List VirtMemoryBlock := blocksFrom as 0 as.blockCount

theorem blocksFrom_succ (k : Nat) :
    blocksFrom as i (k + 1) = as.blocks i :: blocksFrom as (i + 1) k := by
  unfold blocksFrom
  rw [List.range'_succ, List.map_cons]

theorem blocksFrom_add (k l : Nat) :
    blocksFrom as i (k + l) = blocksFrom as i k ++ blocksFrom as (i + k) l := by
  unfold blocksFrom
  rw [← List.map_append, ← List.range'_append_1]

@[simp] theorem length_blocksFrom (k : Nat) : (blocksFrom as i k).length = k := by
  simp [blocksFrom]

@[simp] theorem length_blockList : (blockList as).length = as.blockCount := length_blocksFrom _

theorem getElem_blockList (hj : j < (blockList as).length) : (blockList as)[j] = as.blocks j := by
  simp [blockList, blocksFrom]

theorem blocks_mem (hi : i < as.blockCount) : as.blocks i ∈ blockList as := by
  rw [← getElem_blockList (by rwa [length_blockList] : i < (blockList as).length)]
  exact List.getElem_mem _

theorem exists_of_mem_blockList (hb : b ∈ blockList as) : ∃ j < as.blockCount, as.blocks j = b := by
  obtain ⟨j, hj, rfl⟩ := List.getElem_of_mem hb
  rw [length_blockList] at hj
  exact ⟨j, hj, (getElem_blockList _).symm⟩

theorem pairwise_blocks {R : VirtMemoryBlock → VirtMemoryBlock → Prop}
    (h : (blockList as).Pairwise R) (hji : j < i) (hi : i < as.blockCount) :
    R (as.blocks j) (as.blocks i) := by
  have hlen : (blockList as).length = as.blockCount := length_blockList
  have := List.pairwise_iff_getElem.mp h j i (by omega) (by omega) hji
  rwa [getElem_blockList, getElem_blockList] at this

theorem blocksFrom_congr {as' : AddressSpace} {k : Nat} (h : ∀ x < k, as'.blocks (i + x) =
    as.blocks (j + x)) : blocksFrom as' i k = blocksFrom as j k := by
  induction k generalizing i j with
  | zero => rfl
  | succ k ih =>
    rw [blocksFrom_succ, blocksFrom_succ]
    have h0 : as'.blocks i = as.blocks j := h 0 (by omega)
    rw [h0, ih fun x hx => ?_]
    have := h (x + 1) (by omega)
    rwa [← Nat.add_assoc, ← Nat.add_assoc, Nat.add_right_comm i, Nat.add_right_comm j] at this

/-- The blocks lie in the address space, highest first, and do not overlap. -/
structure Sorted (as : AddressSpace) (bl : List VirtMemoryBlock) : Prop where
  pairwise : bl.Pairwise fun a b => b.base + b.length ≤ a.base
  pos : ∀ b ∈ bl, 0 < b.length
  start_le : ∀ b ∈ bl, as.start ≤ b.base
  le_end : ∀ b ∈ bl, b.base + b.length ≤ as.endAddr + 1

/-! ## The copies -/

theorem memcpyBlocks_of_lt {dest src : Nat} {t : Nat → VirtMemoryBlock} (hj : j < dest) :
    memcpyBlocks dest src n t j = t j := by
  induction n generalizing dest src t with
  | zero => rfl
  | succ n ih =>
    rw [memcpyBlocks, ih (by omega), Function.update_of_ne (by omega)]

theorem memcpyBlocks_down (dest : Nat) (t : Nat → VirtMemoryBlock) {x : Nat} (hx : x < n) :
    memcpyBlocks dest (dest + 1) n t (dest + x) = t (dest + 1 + x) := by
  induction n generalizing dest t x with
  | zero => exact absurd hx (Nat.not_lt_zero x)
  | succ n ih =>
    rw [memcpyBlocks]
    cases x with
    | zero =>
      rw [Nat.add_zero, Nat.add_zero, memcpyBlocks_of_lt (by omega)]
      exact Function.update_self ..
    | succ x =>
      have hx' : x < n := by omega
      have h := ih (dest + 1) (Function.update t dest (t (dest + 1))) hx'
      rw [show dest + (x + 1) = dest + 1 + x by omega, h, Function.update_of_ne (by omega),
        show dest + 1 + 1 + x = dest + 1 + (x + 1) by omega]

theorem blockList_split (h : i ≤ as.blockCount) :
    blockList as = blocksFrom as 0 i ++ blocksFrom as i (as.blockCount - i) := by
  unfold blockList
  have : blocksFrom as 0 _ = _ ++ blocksFrom as (0 + i) _ := blocksFrom_add i (as.blockCount - i)
  rwa [Nat.zero_add, Nat.add_sub_cancel' h] at this

theorem blocks_insertBlock (j : Nat) : (as.insertBlock i b).blocks j =
    if j = i then b else memcpyBlocks (i + 1) i (as.blockCount - i) as.blocks j := by
  by_cases hj : j = i
  · rw [if_pos hj, hj]
    exact Function.update_self ..
  · rw [if_neg hj]
    exact Function.update_of_ne hj ..

/-- An insertion before the last entry, or behind it, puts the new block in its place. -/
theorem blockList_insertBlock (hi : i ≤ as.blockCount) (h1 : as.blockCount - i ≤ 1) :
    blockList (as.insertBlock i b) =
      blocksFrom as 0 i ++ b :: blocksFrom as i (as.blockCount - i) := by
  have hle : i ≤ (as.insertBlock i b).blockCount := by
    show i ≤ as.blockCount + 1
    omega
  rw [blockList_split hle]
  congr 1
  · apply blocksFrom_congr
    intro x hx
    rw [blocks_insertBlock, if_neg (by omega), memcpyBlocks_of_lt (by omega)]
  · rw [show (as.insertBlock i b).blockCount - i = (as.blockCount - i) + 1 by
      show as.blockCount + 1 - i = _
      omega, blocksFrom_succ]
    congr 1
    · rw [blocks_insertBlock, if_pos rfl]
    · apply blocksFrom_congr
      intro x hx
      -- at most one entry moves, so the copy reads no entry it has written
      obtain ⟨hx0, hn⟩ : x = 0 ∧ as.blockCount - i = 1 := by omega
      rw [blocks_insertBlock, if_neg (by omega), hn, hx0]
      exact Function.update_self ..

/-- A removal takes one block out of the table. -/
theorem blockList_removeBlock (hi : i < as.blockCount) :
    blockList (as.removeBlock i) =
      blocksFrom as 0 i ++ blocksFrom as (i + 1) (as.blockCount - 1 - i) := by
  have hle : i ≤ (as.removeBlock i).blockCount := by
    show i ≤ as.blockCount - 1
    omega
  rw [blockList_split hle]
  congr 1
  · apply blocksFrom_congr
    intro x hx
    exact memcpyBlocks_of_lt (by omega)
  · apply blocksFrom_congr
    intro x hx
    exact memcpyBlocks_down _ _ hx

/-! ## The overlap test -/

theorem isBlocksOverlapped_iff {a m c k : Nat} (h1 : a + m < 2 ^ 32) (h2 : c + k < 2 ^ 32) :
    isBlocksOverlapped a m c k = true ↔ (c ≤ a ∧ a < c + k) ∨ (a ≤ c ∧ c < a + m) := by
  unfold isBlocksOverlapped
  rw [add32_eq h1, add32_eq h2]
  simp

/-! ## The search downwards -/

/-- The downward search for `count` pages from the address `hi` on finds a place: every block
before the first gap that is large enough starts in the first `count` bytes of the place tried, or
before it; at most one block lies below that gap, with `room` bytes to spare; and when there is no
such gap, there is space below all blocks. -/
def SearchOk (room start count : Nat) : Nat → List VirtMemoryBlock → Prop
  | hi, [] => start + count * 4096 ≤ hi
  | hi, b :: bl =>
    if b.base + b.length + count * 4096 ≤ hi then
      bl = [] ∧ b.base + b.length + room + count * 4096 ≤ hi
    else b.base + count * 4096 < hi + count ∧ SearchOk room start count b.base bl

/-- The place found: at index `i`, above the block there and below the one before. -/
structure PlaceOk (as : AddressSpace) (room count v i : Nat) : Prop where
  index : i ≤ as.blockCount
  last : as.blockCount - i ≤ 1
  start_le : as.start ≤ v
  le_end : v + count * 4096 ≤ as.endAddr + 1
  above : ∀ b ∈ blocksFrom as 0 i, v + count * 4096 ≤ b.base
  below : ∀ b ∈ blocksFrom as i (as.blockCount - i), b.base + b.length + room ≤ v

variable {room : Nat}

theorem SearchOk.le {start : Nat} {bl : List VirtMemoryBlock} (h : SearchOk room start count hi bl)
    (hb : ∀ b ∈ bl, b.base + b.length ≤ hi) (hp : bl.Pairwise fun a b => b.base + b.length ≤ a.base) :
    count * 4096 ≤ hi := by
  induction bl generalizing hi with
  | nil =>
    unfold SearchOk at h
    omega
  | cons b bl ih =>
    unfold SearchOk at h
    split_ifs at h with hfit
    · omega
    · have := ih h.2 (fun c hc => (List.pairwise_cons.mp hp).1 c hc) (List.pairwise_cons.mp hp).2
      have := hb b (by simp)
      omega

theorem Sorted.sublist {bl bl' : List VirtMemoryBlock} (h : Sorted as bl) (hs : bl'.Sublist bl) :
    Sorted as bl' :=
  ⟨h.pairwise.sublist hs, fun b hb => h.pos b (hs.subset hb), fun b hb => h.start_le b (hs.subset hb),
    fun b hb => h.le_end b (hs.subset hb)⟩

theorem forall_blocksFrom_succ {P : VirtMemoryBlock → Prop} (h : ∀ b ∈ blocksFrom as 0 i, P b)
    (hi : P (as.blocks i)) : ∀ b ∈ blocksFrom as 0 (i + 1), P b := by
  intro b hb
  rw [blocksFrom_add, Nat.zero_add, List.mem_append] at hb
  rcases hb with hb | hb
  · exact h b hb
  · obtain rfl : b = as.blocks i := by simpa [blocksFrom] using hb
    exact hi

theorem blocksFrom_zero : blocksFrom as i 0 = [] := rfl

theorem mem_blocksFrom_one : b ∈ blocksFrom as i 1 ↔ b = as.blocks i := by simp [blocksFrom]

theorem placeOk_end (hik : i = as.blockCount) (hstart : as.start ≤ v)
    (hend : v + count * 4096 ≤ as.endAddr + 1)
    (habove : ∀ b ∈ blocksFrom as 0 i, v + count * 4096 ≤ b.base) : PlaceOk as room count v i := by
  refine ⟨by omega, by omega, hstart, hend, habove, fun b hb => ?_⟩
  rw [show as.blockCount - i = 0 by omega, blocksFrom_zero] at hb
  exact absurd hb List.not_mem_nil

theorem placeOk_last (hik : i + 1 = as.blockCount) (hstart : as.start ≤ v)
    (hend : v + count * 4096 ≤ as.endAddr + 1)
    (habove : ∀ b ∈ blocksFrom as 0 i, v + count * 4096 ≤ b.base)
    (hbelow : (as.blocks i).base + (as.blocks i).length + room ≤ v) :
    PlaceOk as room count v i := by
  refine ⟨by omega, by omega, hstart, hend, habove, fun b hb => ?_⟩
  rw [show as.blockCount - i = 1 by omega, mem_blocksFrom_one] at hb
  rwa [hb]

/-- **The downward search finds a free place.** -/
theorem searchDown_spec {k : Nat} (hend : as.endAddr + 1 < 2 ^ 32) (hik : i + k = as.blockCount)
    (hs : Sorted as (blocksFrom as i k))
    (hsearch : SearchOk room as.start count hi (blocksFrom as i k))
    (hhi : hi ≤ as.endAddr + 1) (habove : ∀ b ∈ blocksFrom as 0 i, hi ≤ b.base)
    (hbelow : ∀ b ∈ blocksFrom as i k, b.base + b.length ≤ hi) :
    PlaceOk as room count (searchDown as count k i (hi - count * 4096)).1
      (searchDown as count k i (hi - count * 4096)).2 := by
  have hle := hsearch.le hbelow hs.pairwise
  have hn : hi - count * 4096 + count * 4096 = hi := Nat.sub_add_cancel hle
  induction k generalizing i hi with
  | zero =>
    have hstart : as.start + count * 4096 ≤ hi := hsearch
    rw [searchDown]
    exact placeOk_end hik (by omega) (by rwa [hn]) (by rwa [hn])
  | succ k ih =>
    rw [blocksFrom_succ] at hs hsearch hbelow
    have hb := hbelow (as.blocks i) (by simp)
    have hpos := hs.pos (as.blocks i) (by simp)
    have hpair := List.pairwise_cons.mp hs.pairwise
    have htest := isBlocksOverlapped_iff (a := (as.blocks i).base) (m := (as.blocks i).length)
      (c := hi - count * 4096) (k := count) (by omega) (by omega)
    unfold SearchOk at hsearch
    rw [searchDown]
    by_cases hfit : (as.blocks i).base + (as.blocks i).length + count * 4096 ≤ hi
    · rw [if_pos hfit] at hsearch
      have hk : k = 0 := by simpa using congrArg List.length hsearch.1
      have hstart := hs.start_le (as.blocks i) (by simp)
      rw [if_neg (by rw [htest]; omega)]
      have hbelow : (as.blocks i).base + (as.blocks i).length + room ≤ hi - count * 4096 := by
        omega
      exact placeOk_last (by omega) (by omega) (by rwa [hn]) (by rwa [hn]) hbelow
    · rw [if_neg hfit] at hsearch
      have hle' : count * 4096 ≤ (as.blocks i).base := hsearch.2.le hpair.1 hpair.2
      have hsub : sub32 (as.blocks i).base (pageShift count) =
          (as.blocks i).base - count * 4096 := by
        rw [pageShift_eq (by omega), sub32_eq hle' (by omega)]
      rw [if_pos (by rw [htest]; omega), hsub]
      refine ih (by omega) (hs.sublist (List.sublist_cons_self _ _)) hsearch.2 (by omega) ?_ hpair.1
        hle' (Nat.sub_add_cancel hle')
      exact forall_blocksFrom_succ (fun b hb' => by have := habove b hb'; omega) (Nat.le_refl _)

/-- The range is asked for inside the address space and meets no block. -/
def HintFree (as : AddressSpace) (v count : Nat) : Prop :=
  as.start ≤ v ∧ v + count * 4096 < as.endAddr ∧
    ∀ b ∈ blockList as, v + count * 4096 ≤ b.base ∨ b.base + b.length ≤ v

/-- Only the last block may lie below the address `v`, with `room` bytes to spare. -/
def HintOk (as : AddressSpace) (room v : Nat) : Prop :=
  (∀ b ∈ (blockList as).dropLast, v ≤ b.base) ∧
    ∀ b ∈ blockList as, b.base < v → b.base + b.length + room ≤ v

theorem mem_blockList (h : i ≤ as.blockCount) (hb : b ∈ blockList as) :
    b ∈ blocksFrom as 0 i ∨ b ∈ blocksFrom as i (as.blockCount - i) := by
  rw [blockList_split h] at hb
  exact List.mem_append.mp hb

/-- **The search for a given address** returns `NULL`, or the address when it is free. -/
theorem searchHint_spec {k : Nat} (hend : as.endAddr + 1 < 2 ^ 32) (hik : i + k = as.blockCount)
    (hs : Sorted as (blocksFrom as i k)) (hstart : as.start ≤ v)
    (hv : v + count * 4096 < as.endAddr)
    (habove : ∀ b ∈ blocksFrom as 0 i, v + count * 4096 ≤ b.base)
    (hok : HintFree as v count → HintOk as room v) :
    (searchHint as v count k i).1 = 0 ∨ (searchHint as v count k i).1 = v ∧ HintFree as v count ∧
      PlaceOk as room count v (searchHint as v count k i).2 := by
  induction k generalizing i with
  | zero =>
    right
    refine ⟨rfl, ⟨hstart, hv, fun b hb => ?_⟩, placeOk_end hik hstart (by omega) habove⟩
    rcases mem_blockList (i := i) (by omega) hb with hb | hb
    · exact Or.inl (habove b hb)
    · rw [show as.blockCount - i = 0 by omega] at hb
      exact absurd hb List.not_mem_nil
  | succ k ih =>
    rw [blocksFrom_succ] at hs
    have hb := hs.le_end (as.blocks i) (by simp)
    have htest := isBlocksOverlapped_iff (a := (as.blocks i).base) (m := (as.blocks i).length)
      (c := v) (k := count * 4096) (by omega) (by omega)
    have hpair := List.pairwise_cons.mp hs.pairwise
    have hpos := hs.pos (as.blocks i) (by simp)
    rw [searchHint, pageShift_eq (by omega)]
    by_cases hover : isBlocksOverlapped (as.blocks i).base (as.blocks i).length v (count * 4096)
    · left
      rw [if_pos hover]
    rw [if_neg hover]
    rw [htest] at hover
    by_cases hlt : (as.blocks i).base < v
    · rw [if_pos hlt]
      right
      -- the blocks behind lie lower still
      have hlow : ∀ b ∈ blocksFrom as i (as.blockCount - i), b.base + b.length ≤ v := by
        intro b hb'
        rw [show as.blockCount - i = k + 1 by omega, blocksFrom_succ] at hb'
        rcases List.mem_cons.mp hb' with rfl | hb'
        · omega
        · have := hpair.1 b hb'
          omega
      have hfree : HintFree as v count := by
        refine ⟨hstart, hv, fun b hb' => ?_⟩
        exact (mem_blockList (by omega) hb').imp (habove b) (hlow b)
      obtain ⟨hone, hroom⟩ := hok hfree
      have hsplit : blockList as = blocksFrom as 0 i ++ as.blocks i :: blocksFrom as (i + 1) k := by
        rw [blockList_split (i := i) (by omega), show as.blockCount - i = k + 1 by omega,
          blocksFrom_succ]
      have hmem : as.blocks i ∈ blockList as := by simp [hsplit]
      have hk : k = 0 := by
        by_contra hk
        refine absurd hlt (Nat.not_lt.mpr (hone _ ?_))
        rw [hsplit, List.dropLast_append_of_ne_nil (List.cons_ne_nil _ _),
          List.dropLast_cons_of_ne_nil]
        · simp
        · exact fun h => hk (by simpa using congrArg List.length h)
      exact ⟨rfl, hfree, placeOk_last (by omega) hstart (by omega) habove (hroom _ hmem hlt)⟩
    · rw [if_neg hlt]
      exact ih (by omega) (hs.sublist (List.sublist_cons_self _ _))
        (forall_blocksFrom_succ habove (by omega))

/-- The request for `count` pages, at `v` or anywhere, finds a free place, or none. -/
structure RequestOk (as : AddressSpace) (room v count : Nat) : Prop where
  anywhere : v = 0 → SearchOk room as.start count (as.endAddr + 1) (blockList as)
  hint : v ≠ 0 → v + count * 4096 < 2 ^ 32 ∧ (HintFree as v count → HintOk as room v)

theorem first_place {e c : Nat} (he : e + 1 < 2 ^ 32) (hc : c ≤ e + 1) :
    add32 (sub32 e c) 1 = e + 1 - c := by
  unfold add32 sub32
  omega

/-- **The place found is free.** -/
theorem findPlace_spec (hend : as.endAddr + 1 < 2 ^ 32) (hs : Sorted as (blockList as))
    (hc : count * 4096 < 2 ^ 32) (hr : RequestOk as room v count)
    (hne : (findPlace as v count).1 ≠ 0) :
    PlaceOk as room count (findPlace as v count).1 (findPlace as v count).2 ∧
      (v ≠ 0 → HintFree as v count) := by
  unfold findPlace at hne ⊢
  by_cases hv : v = 0
  · rw [if_pos hv] at hne ⊢
    have hsearch := hr.anywhere hv
    have hbelow : ∀ b ∈ blockList as, b.base + b.length ≤ as.endAddr + 1 := hs.le_end
    have hle := hsearch.le hbelow hs.pairwise
    rw [pageShift_eq hc, first_place hend hle]
    refine ⟨searchDown_spec hend (Nat.zero_add _) hs hsearch (Nat.le_refl _) ?_ hbelow,
      fun h => absurd hv h⟩
    intro b hb
    exact absurd hb List.not_mem_nil
  · rw [if_neg hv] at hne ⊢
    obtain ⟨hv32, hhint⟩ := hr.hint hv
    rw [pageShift_eq hc, add32_eq hv32] at hne ⊢
    split_ifs at hne ⊢ with hin
    · have habove : ∀ b ∈ blocksFrom as 0 0, v + count * 4096 ≤ b.base := fun b hb =>
        absurd hb List.not_mem_nil
      obtain h | ⟨h, hfree, hplace⟩ := searchHint_spec hend (Nat.zero_add _) hs hin.1 hin.2 habove
        hhint
      · exact absurd h hne
      · rw [h]
        exact ⟨hplace, fun _ => hfree⟩
    · exact absurd rfl hne

/-! ## Insertion, growth and removal -/

theorem Sorted.disjoint {bl : List VirtMemoryBlock} (hs : Sorted as bl) {a b : VirtMemoryBlock}
    (ha : a ∈ bl) (hb : b ∈ bl) (hab : a ≠ b) :
    a.base + a.length ≤ b.base ∨ b.base + b.length ≤ a.base := by
  have hsymm : Std.Symm fun a b : VirtMemoryBlock =>
      a.base + a.length ≤ b.base ∨ b.base + b.length ≤ a.base := ⟨fun _ _ => Or.symm⟩
  have hpw : bl.Pairwise fun a b : VirtMemoryBlock =>
      a.base + a.length ≤ b.base ∨ b.base + b.length ≤ a.base := hs.pairwise.imp Or.inr
  exact hpw.forall ha hb hab

theorem PlaceOk.mem_insertBlock (hp : PlaceOk as room count v i) {x : VirtMemoryBlock} :
    x ∈ blockList (as.insertBlock i b) ↔ x = b ∨ x ∈ blockList as := by
  rw [blockList_insertBlock hp.index hp.last, blockList_split hp.index]
  simp only [List.mem_append, List.mem_cons]
  exact or_left_comm

theorem PlaceOk.sorted (hp : PlaceOk as room count v i) (hs : Sorted as (blockList as))
    (hc : 1 ≤ count) (hb : b.base = v) (hl : b.length = count * 4096) :
    Sorted (as.insertBlock i b) (blockList (as.insertBlock i b)) := by
  have hbelow : ∀ a ∈ blocksFrom as i (as.blockCount - i), a.base + a.length ≤ b.base := by
    intro a ha
    have := hp.below a ha
    omega
  have habove : ∀ a ∈ blocksFrom as 0 i, b.base + b.length ≤ a.base := by
    intro a ha
    have := hp.above a ha
    omega
  have hpw := hs.pairwise
  rw [blockList_split hp.index, List.pairwise_append] at hpw
  refine ⟨?_, fun a ha => ?_, fun a ha => ?_, fun a ha => ?_⟩
  · rw [blockList_insertBlock hp.index hp.last, List.pairwise_append, List.pairwise_cons]
    refine ⟨hpw.1, ⟨hbelow, hpw.2.1⟩, fun a ha c hc => ?_⟩
    rcases List.mem_cons.mp hc with rfl | hc
    · exact habove a ha
    · exact hpw.2.2 a ha c hc
  all_goals rcases hp.mem_insertBlock.mp ha with rfl | ha
  · omega
  · exact hs.pos a ha
  · exact hb ▸ hp.start_le
  · exact hs.start_le a ha
  · have := hp.le_end
    show _ ≤ as.endAddr + 1
    omega
  · exact hs.le_end a ha

theorem mem_removeBlock {x : VirtMemoryBlock} (hi : i < as.blockCount)
    (hx : x ∈ blockList as) (hne : x ≠ as.blocks i) : x ∈ blockList (as.removeBlock i) := by
  rw [blockList_removeBlock hi, List.mem_append]
  rw [blockList_split (Nat.le_of_lt hi), List.mem_append,
    show as.blockCount - i = as.blockCount - 1 - i + 1 by omega, blocksFrom_succ,
    List.mem_cons] at hx
  rcases hx with hx | rfl | hx
  · exact Or.inl hx
  · exact absurd rfl hne
  · exact Or.inr hx

theorem Sorted.removeBlock (hs : Sorted as (blockList as)) (hi : i < as.blockCount) :
    Sorted (as.removeBlock i) (blockList (as.removeBlock i)) ∧
      (blockList (as.removeBlock i)).Sublist (blockList as) := by
  have hsub : (blockList (as.removeBlock i)).Sublist (blockList as) := by
    rw [blockList_removeBlock hi, blockList_split (Nat.le_of_lt hi),
      show as.blockCount - i = as.blockCount - 1 - i + 1 by omega, blocksFrom_succ]
    exact (List.Sublist.refl _).append (List.sublist_cons_self _ _)
  have h := hs.sublist hsub
  exact ⟨⟨h.pairwise, h.pos, h.start_le, h.le_end⟩, hsub⟩

end C4os
