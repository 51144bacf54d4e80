import C4os.Memory.VirtTable

/-!
# Where the search stops

* `findPlace_lt`: a place is an address.
* `candidate`, `Stops`: the addresses that the search tries, and the one at which it stops;
  **`findPlace_stops`**, `findPlace_of_stops`.
* `findPlace_new`: the place is the base of no block of that length.
-/

namespace C4os

open Word

variable {as : AddressSpace} {vaddr count : Nat}

/-- A place is an address. -/
theorem findPlace_lt (as : AddressSpace) (count : Nat) (hv : vaddr < 2 ^ 32) :
    (findPlace as vaddr count).1 < 2 ^ 32 := by
  have hdown : ∀ k i v, v < 2 ^ 32 → (searchDown as count k i v).1 < 2 ^ 32 := by
    intro k
    induction k with
    | zero => exact fun _ _ h => h
    | succ k ih =>
      intro i v h
      rw [searchDown]
      split_ifs
      · exact ih _ _ (sub32_lt _ _)
      · exact h
  have hhint : ∀ k i, (searchHint as vaddr count k i).1 < 2 ^ 32 := by
    intro k
    induction k with
    | zero => exact fun _ => hv
    | succ k ih =>
      intro i
      rw [searchHint]
      split_ifs
      · exact Nat.two_pow_pos 32
      · exact hv
      · exact ih _
  unfold findPlace
  split_ifs
  · exact hdown _ _ _ (add32_lt _ _)
  · exact hhint _ _
  · exact Nat.two_pow_pos 32

theorem findPlace_index_le (as : AddressSpace) (vaddr count : Nat) :
    (findPlace as vaddr count).2 ≤ as.blockCount := by
  have hdown : ∀ k i v, i + k = as.blockCount → (searchDown as count k i v).2 ≤ as.blockCount := by
    intro k
    induction k with
    | zero => exact fun i _ h => Nat.le_of_eq h
    | succ k ih =>
      intro i v h
      rw [searchDown]
      split_ifs
      · exact ih _ _ (by omega)
      · show i ≤ _
        omega
  have hhint : ∀ k i, i + k = as.blockCount → (searchHint as vaddr count k i).2 ≤ as.blockCount := by
    intro k
    induction k with
    | zero => exact fun i h => Nat.le_of_eq h
    | succ k ih =>
      intro i h
      rw [searchHint]
      split_ifs
      · show i ≤ _
        omega
      · show i ≤ _
        omega
      · exact ih _ (by omega)
  unfold findPlace
  split_ifs
  · exact hdown _ _ _ (Nat.zero_add _)
  · exact hhint _ _ (Nat.zero_add _)
  · exact Nat.zero_le _

/-- The addresses that the search tries without a hint. -/
def candidate (as : AddressSpace) (count : Nat) : Nat → Nat
  | 0 => add32 (sub32 as.endAddr (pageShift count)) 1
  | i + 1 => sub32 (as.blocks i).base (pageShift count)

/-- The search for `count` pages stops at the address `v`: without a hint, at the first candidate
that does not overlap the block at its index; with one, at the hint, when it overlaps no block up to
the first one below it. -/
def Stops (as : AddressSpace) (vaddr count v : Nat) : Prop :=
  if vaddr = 0 then
    ∃ i ≤ as.blockCount, v = candidate as count i ∧
      (∀ j < i, isBlocksOverlapped (as.blocks j).base (as.blocks j).length
        (candidate as count j) count) ∧
      (i < as.blockCount → ¬ isBlocksOverlapped (as.blocks i).base (as.blocks i).length v count)
  else
    v = vaddr ∧ as.start ≤ vaddr ∧ add32 vaddr (pageShift count) < as.endAddr ∧
      ∀ i < as.blockCount, (∀ j < i, vaddr ≤ (as.blocks j).base) →
        ¬ isBlocksOverlapped (as.blocks i).base (as.blocks i).length vaddr (pageShift count)

theorem Stops.eq {v v' : Nat} (h : Stops as vaddr count v) (h' : Stops as vaddr count v') :
    v = v' := by
  unfold Stops at h h'
  split_ifs at h h'
  · obtain ⟨i, hi, rfl, hover, hstop⟩ := h
    obtain ⟨i', hi', rfl, hover', hstop'⟩ := h'
    rcases Nat.lt_trichotomy i i' with hlt | rfl | hgt
    · exact absurd (hover' i hlt) (hstop (by omega))
    · rfl
    · exact absurd (hover i' hgt) (hstop' (by omega))
  · exact h.1.trans h'.1.symm

theorem searchDown_stops (as : AddressSpace) (count : Nat) {k i : Nat}
    (hk : i + k = as.blockCount)
    (hover : ∀ j < i, isBlocksOverlapped (as.blocks j).base (as.blocks j).length
      (candidate as count j) count) :
    Stops as 0 count (searchDown as count k i (candidate as count i)).1 := by
  induction k generalizing i with
  | zero =>
    unfold Stops
    rw [if_pos rfl]
    exact ⟨i, by omega, rfl, hover, fun h => absurd h (by omega)⟩
  | succ k ih =>
    rw [searchDown]
    split_ifs with h
    · refine ih (by omega) fun j hj => ?_
      rcases Nat.lt_succ_iff_lt_or_eq.mp hj with hj | rfl
      · exact hover j hj
      · exact h
    · unfold Stops
      rw [if_pos rfl]
      exact ⟨i, by omega, rfl, hover, fun _ => h⟩

theorem searchHint_stops (as : AddressSpace) (vaddr count : Nat) {k i : Nat}
    (hk : i + k = as.blockCount) (hbefore : ∀ j < i, vaddr ≤ (as.blocks j).base)
    (hne : (searchHint as vaddr count k i).1 ≠ 0) (hover : ∀ j < i,
      ¬ isBlocksOverlapped (as.blocks j).base (as.blocks j).length vaddr (pageShift count)) :
    (searchHint as vaddr count k i).1 = vaddr ∧
      ∀ i < as.blockCount, (∀ j < i, vaddr ≤ (as.blocks j).base) →
        ¬ isBlocksOverlapped (as.blocks i).base (as.blocks i).length vaddr (pageShift count) := by
  induction k generalizing i with
  | zero => exact ⟨rfl, fun j hj _ => hover j (by omega)⟩
  | succ k ih =>
    have hover' : ¬ isBlocksOverlapped (as.blocks i).base (as.blocks i).length vaddr
        (pageShift count) → ∀ j < i + 1, ¬ isBlocksOverlapped (as.blocks j).base
          (as.blocks j).length vaddr (pageShift count) := fun h j hj => by
      rcases Nat.lt_succ_iff_lt_or_eq.mp hj with hj | rfl
      · exact hover j hj
      · exact h
    rw [searchHint] at hne ⊢
    split_ifs at hne ⊢ with h1 h2
    · exact absurd rfl hne
    · refine ⟨rfl, fun j hj hle => ?_⟩
      by_cases hji : j < i + 1
      · exact hover' h1 j hji
      · exact absurd (hle i (by omega)) (Nat.not_le.mpr h2)
    · refine ih (by omega) (fun j hj => ?_) hne (hover' h1)
      rcases Nat.lt_succ_iff_lt_or_eq.mp hj with hj | rfl
      · exact hbefore j hj
      · exact Nat.not_lt.mp h2

/-- **The place found is where the search stops.** -/
theorem findPlace_stops {as : AddressSpace} (h : (findPlace as vaddr count).1 ≠ 0) :
    Stops as vaddr count (findPlace as vaddr count).1 := by
  unfold findPlace at h ⊢
  split_ifs at h ⊢ with h1 h2
  · subst h1
    exact searchDown_stops as count (Nat.zero_add _) fun j hj => absurd hj (Nat.not_lt_zero j)
  · unfold Stops
    rw [if_neg h1]
    obtain ⟨he, hover⟩ := searchHint_stops as vaddr count (Nat.zero_add _)
      (fun j hj => absurd hj (Nat.not_lt_zero j)) h fun j hj => absurd hj (Nat.not_lt_zero j)
    exact ⟨he, h2.1, h2.2, hover⟩
  · exact absurd rfl h

theorem searchHint_eq {k i : Nat} (hk : i + k = as.blockCount)
    (hbefore : ∀ j < i, vaddr ≤ (as.blocks j).base)
    (hfree : ∀ i < as.blockCount, (∀ j < i, vaddr ≤ (as.blocks j).base) →
      ¬ isBlocksOverlapped (as.blocks i).base (as.blocks i).length vaddr (pageShift count)) :
    (searchHint as vaddr count k i).1 = vaddr := by
  induction k generalizing i with
  | zero => rfl
  | succ k ih =>
    rw [searchHint, if_neg (hfree i (by omega) hbefore)]
    split_ifs with h
    · rfl
    · refine ih (by omega) fun j hj => ?_
      rcases Nat.lt_succ_iff_lt_or_eq.mp hj with hj | rfl
      · exact hbefore j hj
      · exact Nat.not_lt.mp h

/-- **The search finds the address where it stops.** -/
theorem findPlace_of_stops {v : Nat} (h : Stops as vaddr count v) : (findPlace as vaddr count).1 = v := by
  unfold findPlace
  by_cases hv : vaddr = 0
  · rw [if_pos hv]
    subst hv
    exact (searchDown_stops as count (Nat.zero_add _) fun j hj => absurd hj (Nat.not_lt_zero j)).eq h
  · unfold Stops at h
    rw [if_neg hv] at h ⊢
    obtain ⟨rfl, hstart, hend, hfree⟩ := h
    rw [if_pos ⟨hstart, hend⟩]
    exact searchHint_eq (Nat.zero_add _) (fun j hj => absurd hj (Nat.not_lt_zero j)) hfree

/-- **The place found is the base of no block of the same length.** -/
theorem findPlace_new (hend : as.endAddr + 1 < 2 ^ 32) (hs : Sorted as (blockList as))
    (hc : 1 ≤ count) (hne : (findPlace as vaddr count).1 ≠ 0) {b : VirtMemoryBlock}
    (hb : b ∈ blockList as) (hbase : b.base = (findPlace as vaddr count).1) :
    b.length ≠ count * 4096 := by
  intro hlen
  obtain ⟨j, hj, rfl⟩ := exists_of_mem_blockList hb
  have hle := hs.le_end _ hb
  have hpos := hs.pos _ hb
  have hstops := findPlace_stops hne
  have hshift := pageShift_eq (show count * 4096 < 2 ^ 32 by omega)
  generalize (findPlace as vaddr count).1 = v at hbase hstops
  unfold Stops at hstops
  split_ifs at hstops with hv
  · obtain ⟨i, hi, rfl, -, hstop⟩ := hstops
    -- the block is not before the place where the search stops
    have hij : i ≤ j := by
      by_contra hji
      cases i with
      | zero => omega
      | succ i =>
        have hprev := hs.le_end _ (blocks_mem (show i < as.blockCount by omega))
        have hbelow : (as.blocks i).base ≤ (as.blocks j).base := by
          rcases Nat.lt_or_eq_of_le (show j ≤ i by omega) with hlt | rfl
          · have := pairwise_blocks hs.pairwise hlt (by omega)
            omega
          · exact Nat.le_refl _
        rw [candidate, hshift] at hbase
        unfold sub32 at hbase
        omega
    have hup : (as.blocks j).base + (as.blocks j).length ≤ (as.blocks i).base ∨ i = j := by
      rcases Nat.lt_or_eq_of_le hij with hlt | heq
      · exact Or.inl (pairwise_blocks hs.pairwise hlt hj)
      · exact Or.inr heq
    rcases hup with hup | rfl
    · -- the block that stops the search leaves no room for it
      have hicount : i < as.blockCount := by
        by_contra h
        omega
      have hi' := hs.le_end _ (blocks_mem hicount)
      have hipos := hs.pos _ (blocks_mem hicount)
      cases i with
      | zero =>
        rw [candidate, hshift, first_place hend (by omega)] at hbase
        omega
      | succ i =>
        have hprev := pairwise_blocks hs.pairwise (show i < i + 1 by omega) hicount
        have hprev' := hs.le_end _ (blocks_mem (show i < as.blockCount by omega))
        rw [candidate, hshift] at hbase
        unfold sub32 at hbase
        omega
    · apply hstop hj
      rw [← hbase, isBlocksOverlapped_iff (by omega) (by omega)]
      omega
  · obtain ⟨rfl, -, -, hover⟩ := hstops
    apply hover j hj
    · intro k hk
      have := pairwise_blocks hs.pairwise hk hj
      omega
    · rw [hshift, ← hbase, isBlocksOverlapped_iff (by omega) (by omega)]
      omega

end C4os
