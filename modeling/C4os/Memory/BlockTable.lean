import C4os.Memory.VirtTable
import Mathlib.Data.List.InsertIdx

/-!
# The updates of the block table

* `TableAt m a t n`: the bytes of memory from `a` on are the `n` entries of the table `t`.
* `insertBytes`, `removeBytes`: what `alloc_virt_pages` and `free_virt_pages` do to them;
  `tableAt_insert`, `tableAt_remove`: they are the updates of `AddressSpace`.
* **`blockTable_updates`**: an insertion keeps the other entries exactly when those behind it are
  equal, a removal always does; `entry_lost`: an insertion in front of two entries.
-/

namespace C4os

open Word

variable {as : AddressSpace} {i j k n a : Nat} {b : VirtMemoryBlock} {m : Bytes}
  {t : Nat → VirtMemoryBlock}

/-! ## The entries in memory -/

/-- The bytes from `a` on are the first `n` entries of `t`. -/
def TableAt (m : Bytes) (a : Nat) (t : Nat → VirtMemoryBlock) (n : Nat) : Prop :=
  ∀ j < n, ∀ k < blockBytes, m (a + j * blockBytes + k) = entryByte (t j) k

/-- The three stores to an entry. -/
def storeEntry (a : Nat) (b : VirtMemoryBlock) (m : Bytes) : Bytes :=
  store32 (a + 8) b.length (store32 (a + 4) b.base (store32 a b.type.value m))

/-- The update of `alloc_virt_pages`: `memcpy(blocks + i + 1, blocks + i, …)`, then the entry. -/
def insertBytes (a i count : Nat) (b : VirtMemoryBlock) (m : Bytes) : Bytes :=
  storeEntry (a + i * blockBytes) b
    (memcpy (a + (i + 1) * blockBytes) (a + i * blockBytes) ((count - i) * blockBytes) m)

/-- The update of `free_virt_pages`: `memcpy(blocks + i, blocks + i + 1, …)`. -/
def removeBytes (a i count : Nat) (m : Bytes) : Bytes :=
  memcpy (a + i * blockBytes) (a + (i + 1) * blockBytes) ((count - 1 - i) * blockBytes) m

theorem storeEntry_apply (x : Nat) : storeEntry a b m x =
    if a ≤ x ∧ x < a + blockBytes then entryByte b (x - a) else m x := by
  have h12 : blockBytes = 12 := rfl
  unfold storeEntry store32 entryByte
  rw [h12]
  by_cases hx : a ≤ x ∧ x < a + 12
  · obtain ⟨k, rfl⟩ := Nat.exists_eq_add_of_le hx.1
    rw [if_pos hx, Nat.add_sub_cancel_left]
    by_cases h4 : k < 4
    · rw [if_neg (by omega), if_neg (by omega), if_pos (by omega), if_pos h4]
    by_cases h8 : k < 8
    · rw [if_neg (by omega), if_pos (by omega), if_neg h4, if_pos h8,
        show a + k - (a + 4) = k - 4 by omega]
    · rw [if_pos (by omega), if_neg h4, if_neg h8, show a + k - (a + 8) = k - 8 by omega]
  · rw [if_neg hx, if_neg (by omega), if_neg (by omega), if_neg (by omega)]

theorem memcpyBlocks_up (i : Nat) (t : Nat → VirtMemoryBlock) {x : Nat} (hx : x < n) :
    memcpyBlocks (i + 1) i n t (i + 1 + x) = t i := by
  induction n generalizing i t x with
  | zero => exact absurd hx (Nat.not_lt_zero x)
  | succ n ih =>
    rw [memcpyBlocks]
    cases x with
    | zero =>
      rw [Nat.add_zero, memcpyBlocks_of_lt (by omega)]
      exact Function.update_self ..
    | succ x =>
      rw [show i + 1 + (x + 1) = i + 1 + 1 + x by omega, ih (i + 1) _ (by omega)]
      exact Function.update_self ..

theorem insertBlock_blocks (hj : j ≤ as.blockCount) : (as.insertBlock i b).blocks j =
    if j = i then b else if j < i then as.blocks j else as.blocks i := by
  rw [blocks_insertBlock]
  by_cases hji : j = i
  · rw [if_pos hji, if_pos hji]
  rw [if_neg hji, if_neg hji]
  by_cases hlt : j < i
  · rw [if_pos hlt, memcpyBlocks_of_lt (by omega)]
  · obtain ⟨x, rfl⟩ := Nat.exists_eq_add_of_lt (Nat.lt_of_le_of_ne (Nat.not_lt.mp hlt) (Ne.symm hji))
    rw [if_neg hlt, show i + x + 1 = i + 1 + x by omega, memcpyBlocks_up i as.blocks (by omega)]

theorem mem_insertBlock_self (hi : i ≤ as.blockCount) : b ∈ blockList (as.insertBlock i b) := by
  have hmem := blocks_mem (show i < (as.insertBlock i b).blockCount from Nat.lt_succ_of_le hi)
  rwa [insertBlock_blocks hi, if_pos rfl] at hmem

theorem of_mem_insertBlock {c : VirtMemoryBlock} (hi : i ≤ as.blockCount)
    (hc : c ∈ blockList (as.insertBlock i b)) :
    c = b ∨ c ∈ blockList as := by
  obtain ⟨j, hj, rfl⟩ := exists_of_mem_blockList hc
  have hj' : j ≤ as.blockCount := Nat.lt_succ_iff.mp hj
  rw [insertBlock_blocks hj']
  split_ifs
  · exact Or.inl rfl
  · exact Or.inr (blocks_mem (by omega))
  · exact Or.inr (blocks_mem (by omega))

/-- **The insertion in bytes is the insertion in the table.** -/
theorem tableAt_insert (h : TableAt m a as.blocks as.blockCount) (hi : i ≤ as.blockCount) :
    TableAt (insertBytes a i as.blockCount b m) a (as.insertBlock i b).blocks
      (as.insertBlock i b).blockCount := by
  intro j hj k hk
  have h12 : blockBytes = 12 := rfl
  have hj' : j ≤ as.blockCount := Nat.lt_succ_iff.mp hj
  rw [h12] at hk
  rw [insertBlock_blocks hj', insertBytes, storeEntry_apply, h12, Nat.succ_mul, ← Nat.add_assoc,
    memcpy_up (by decide)]
  by_cases hji : j = i
  · subst hji
    rw [if_pos (by omega), if_pos rfl, Nat.add_sub_cancel_left]
  rw [if_neg (by omega), if_neg hji]
  by_cases hlt : j < i
  · rw [if_neg (by omega), if_pos hlt]
    exact h j (by omega) k hk
  · rw [if_pos (by omega), if_neg hlt,
      show (a + j * 12 + k - (a + i * 12 + 12)) % 12 = k by omega]
    exact h i (by omega) k hk

/-- **The removal in bytes is the removal from the table.** -/
theorem tableAt_remove (h : TableAt m a as.blocks as.blockCount) (hi : i < as.blockCount) :
    TableAt (removeBytes a i as.blockCount m) a (as.removeBlock i).blocks
      (as.removeBlock i).blockCount := by
  intro j hj k hk
  have h12 : blockBytes = 12 := rfl
  have hj' : j < as.blockCount - 1 := hj
  rw [h12] at hk
  rw [removeBytes, h12, memcpy_apply (by omega)]
  show _ = entryByte (memcpyBlocks i (i + 1) (as.blockCount - 1 - i) as.blocks j) k
  by_cases hlt : j < i
  · rw [if_neg (by omega), memcpyBlocks_of_lt hlt]
    exact h j (by omega) k hk
  · obtain ⟨x, rfl⟩ := Nat.exists_eq_add_of_le (Nat.not_lt.mp hlt)
    rw [if_pos (by omega), memcpyBlocks_down i as.blocks (by omega)]
    rw [← h (i + 1 + x) (by omega) k hk]
    congr 1
    rw [h12]
    omega

/-! ## The lists of entries -/

/-- **An insertion keeps the other entries** exactly when those from its index on are equal. -/
theorem blockList_insertBlock_iff (hi : i ≤ as.blockCount) :
    blockList (as.insertBlock i b) = (blockList as).insertIdx i b ↔
      ∀ j, i ≤ j → j < as.blockCount → as.blocks j = as.blocks i := by
  have hlen : (blockList (as.insertBlock i b)).length = as.blockCount + 1 := length_blockList
  have hlen' : ((blockList as).insertIdx i b).length = as.blockCount + 1 := by
    rw [List.length_insertIdx, length_blockList, if_pos hi]
  constructor
  · intro h j hij hj
    have hj₁ : j + 1 < (blockList (as.insertBlock i b)).length := by omega
    have hj₂ : j + 1 < ((blockList as).insertIdx i b).length := by omega
    have hget : (blockList (as.insertBlock i b))[j + 1] = ((blockList as).insertIdx i b)[j + 1] := by
      simp only [h]
    rw [getElem_blockList, insertBlock_blocks (by omega), if_neg (by omega), if_neg (by omega),
      List.getElem_insertIdx_of_gt (by omega), getElem_blockList, Nat.add_sub_cancel] at hget
    exact hget.symm
  · intro h
    refine List.ext_getElem (hlen.trans hlen'.symm) fun j h1 h2 => ?_
    rw [getElem_blockList, insertBlock_blocks (by omega)]
    rcases Nat.lt_trichotomy j i with hlt | rfl | hgt
    · rw [if_neg (by omega), if_pos hlt, List.getElem_insertIdx_of_lt hlt, getElem_blockList]
    · rw [if_pos rfl, List.getElem_insertIdx_self]
    · rw [if_neg (by omega), if_neg (by omega), List.getElem_insertIdx_of_gt hgt, getElem_blockList,
        h (j - 1) (by omega) (by omega)]

/-- **A removal keeps the other entries.** -/
theorem blockList_removeBlock_eq (hi : i < as.blockCount) :
    blockList (as.removeBlock i) = (blockList as).eraseIdx i := by
  have hlen : (blocksFrom as 0 i).length = i := length_blocksFrom i
  rw [blockList_removeBlock hi, blockList_split (Nat.le_of_lt hi),
    show as.blockCount - i = as.blockCount - 1 - i + 1 by omega, blocksFrom_succ,
    List.eraseIdx_append_of_length_le (Nat.le_of_eq hlen), hlen, Nat.sub_self]
  rfl

theorem recordBlock_spare {grow : Space → VirtState → Option (Bool × VirtState)} {sp : Space}
    {st : VirtState} (h : (st.spaces sp).blockCount < (st.spaces sp).blockTableSize) :
    recordBlock grow sp i b st = some (true, st.setSpace sp ((st.spaces sp).insertBlock i b)) := by
  unfold recordBlock
  exact if_neg (Nat.ne_of_lt h)

/-- **The updates of the block table.** With spare capacity, an insertion at index `i` yields the old
entries with the new one at `i` exactly when the entries from `i` on are all equal; a removal always
yields the old entries without the one at `i`. -/
theorem blockTable_updates (as : AddressSpace) (m : Bytes) (a : Nat)
    (h : TableAt m a as.blocks as.blockCount) :
    (∀ grow sp st b i, st.spaces sp = as → as.blockCount < as.blockTableSize → i ≤ as.blockCount →
      ∃ as', recordBlock grow sp i b st = some (true, st.setSpace sp as') ∧
        TableAt (insertBytes a i as.blockCount b m) a as'.blocks as'.blockCount ∧
        (blockList as' = (blockList as).insertIdx i b ↔
          ∀ j, i ≤ j → j < as.blockCount → as.blocks j = as.blocks i)) ∧
      ∀ i < as.blockCount,
        TableAt (removeBytes a i as.blockCount m) a (as.removeBlock i).blocks
          (as.removeBlock i).blockCount ∧
        blockList (as.removeBlock i) = (blockList as).eraseIdx i := by
  refine ⟨fun grow sp st b i hsp hspare hi => ?_, fun i hi => ?_⟩
  · subst hsp
    exact ⟨_, recordBlock_spare hspare, tableAt_insert h hi, blockList_insertBlock_iff hi⟩
  · exact ⟨tableAt_remove h hi, blockList_removeBlock_eq hi⟩

/-- The bytes of a table. -/
def tableBytes (a : Nat) (t : Nat → VirtMemoryBlock) : Bytes :=
  fun x => entryByte (t ((x - a) / blockBytes)) ((x - a) % blockBytes)

theorem tableAt_tableBytes (a : Nat) (t : Nat → VirtMemoryBlock) (n : Nat) :
    TableAt (tableBytes a t) a t n := by
  intro j _ k hk
  have h12 : blockBytes = 12 := rfl
  rw [h12] at hk
  rw [tableBytes, h12, show (a + j * 12 + k - a) / 12 = j by omega,
    show (a + j * 12 + k - a) % 12 = k by omega]

/-- A table of two blocks of user memory. -/
def twoEntries : AddressSpace where
  pageDir := 0
  start := 0
  endAddr := 0x7FFFFFFF
  blockTableSize := 341
  blockCount := 2
  blocksAddr := 0x80001000
  blocks := fun j => if j = 0 then ⟨.memory, 0x200000, 0x1000⟩ else ⟨.memory, 0x100000, 0x1000⟩
  mutex := true

/-- The memory manager with the table of two entries. -/
def twoState : VirtState := ⟨⟨fun _ _ => 0, 0x1000, 0, NIL, false⟩, fun _ => twoEntries⟩

/-- A block at `0x180000` gets between the two, and the first entry leaves that table. -/
theorem blockTable_updates_two :
    (∃ as', recordBlock (fun _ _ => none) (.process 0) 1 ⟨.memory, 0x180000, 0x1000⟩ twoState =
        some (true, twoState.setSpace (.process 0) as') ∧
      blockList as' = [⟨.memory, 0x200000, 0x1000⟩, ⟨.memory, 0x180000, 0x1000⟩,
        ⟨.memory, 0x100000, 0x1000⟩]) ∧
    blockList (twoEntries.removeBlock 0) = [⟨.memory, 0x100000, 0x1000⟩] := by
  obtain ⟨hinsert, hremove⟩ := blockTable_updates twoEntries _ 0x80001000
    (tableAt_tableBytes _ twoEntries.blocks 2)
  obtain ⟨as', hrecord, -, hiff⟩ := hinsert (fun _ _ => none) (.process 0) twoState
    ⟨.memory, 0x180000, 0x1000⟩ 1 rfl (by decide) (by decide)
  refine ⟨⟨as', hrecord, hiff.mpr fun j hlo hhi => ?_⟩, (hremove 0 (by decide)).2⟩
  have hj : j = 1 := Nat.le_antisymm (Nat.le_of_lt_succ hhi) hlo
  rw [hj]

/-- **An entry is lost** when a block at `0x300000` gets in front of them. -/
theorem entry_lost : twoEntries.blockCount < twoEntries.blockTableSize ∧
    ¬ blockList (twoEntries.insertBlock 0 ⟨.memory, 0x300000, 0x1000⟩) =
      (blockList twoEntries).insertIdx 0 ⟨.memory, 0x300000, 0x1000⟩ := by
  decide

end C4os
