import C4os.Memory.BlockTable
import C4os.Memory.VirtRun

/-!
# The place of a block at a given address

The search of `alloc_virt_pages` for a given address stops at the first block below it.

* `Descending`: a table of disjoint blocks, highest first.
* `searchHint_cases`: where the search stops.
* `PlacedRight`: the address is kept exactly when no block of the table meets its range, and the
  index is the only one that keeps the table in order.
* **`findPlace_hint`**: when it is, for ranges that end at `2 ^ 32` too; `last_page_placed`: one that
  is kept outside the address space.
-/

namespace C4os

open Word

section Insertion

variable {α : Type*} {R : α → α → Prop} {l₁ l₂ : List α} {x : α}

theorem insertIdx_length_append : (l₁ ++ l₂).insertIdx l₁.length x = l₁ ++ x :: l₂ := by
  induction l₁ with
  | nil => rfl
  | cons a l₁ ih =>
    show a :: (l₁ ++ l₂).insertIdx l₁.length x = _
    rw [ih]
    rfl

/-- **The place of an element in an ordered list** is behind the elements before it. -/
theorem pairwise_insertIdx_iff [Std.Asymm R] (hl : (l₁ ++ l₂).Pairwise R)
    (h₁ : ∀ a ∈ l₁, R a x) (h₂ : ∀ a ∈ l₂, R x a) {j : Nat} (hj : j ≤ (l₁ ++ l₂).length) :
    ((l₁ ++ l₂).insertIdx j x).Pairwise R ↔ j = l₁.length := by
  constructor
  · intro h
    rw [List.pairwise_iff_getElem] at h
    have hlen : ((l₁ ++ l₂).insertIdx j x).length = (l₁ ++ l₂).length + 1 := by
      rw [List.length_insertIdx, if_pos hj]
    rw [List.length_append] at hlen hj
    rcases Nat.lt_trichotomy j l₁.length with hlt | heq | hgt
    · -- an element that belongs before `x` got behind it
      have hR := h j (j + 1) (by omega) (by omega) (by omega)
      rw [List.getElem_insertIdx_self, List.getElem_insertIdx_of_gt (by omega)] at hR
      simp only [Nat.add_sub_cancel] at hR
      rw [List.getElem_append_left hlt] at hR
      exact absurd hR (Std.Asymm.asymm _ _ (h₁ _ (List.getElem_mem _)))
    · exact heq
    · have hR := h l₁.length j (by omega) (by omega) hgt
      rw [List.getElem_insertIdx_self, List.getElem_insertIdx_of_lt hgt,
        List.getElem_append_right (Nat.le_refl _)] at hR
      exact absurd hR (Std.Asymm.asymm _ _ (h₂ _ (List.getElem_mem _)))
  · rintro rfl
    rw [insertIdx_length_append]
    rw [List.pairwise_append] at hl ⊢
    refine ⟨hl.1, List.pairwise_cons.mpr ⟨h₂, hl.2.1⟩, fun a ha b hb => ?_⟩
    rcases List.mem_cons.mp hb with rfl | hb
    · exact h₁ a ha
    · exact hl.2.2 a ha b hb

end Insertion

variable {as : AddressSpace} {i k v count : Nat} {bl : List VirtMemoryBlock}

/-- `a` stands before `b`. -/
def Above (a b : VirtMemoryBlock) : Prop := b.base < a.base

instance : Std.Asymm Above := ⟨fun _ _ => Nat.lt_asymm⟩

/-- The ranges of two blocks share no address. -/
def BlocksApart (a b : VirtMemoryBlock) : Prop :=
  a.base + a.length ≤ b.base ∨ b.base + b.length ≤ a.base

/-- Disjoint blocks, highest first, that end at `2 ^ 32` or below. -/
structure Descending (bl : List VirtMemoryBlock) : Prop where
  above : bl.Pairwise Above
  apart : bl.Pairwise BlocksApart
  pos : ∀ b ∈ bl, 0 < b.length
  le : ∀ b ∈ bl, b.base + b.length ≤ 2 ^ 32

theorem Descending.tail {b : VirtMemoryBlock} (h : Descending (b :: bl)) : Descending bl :=
  ⟨(List.pairwise_cons.mp h.above).2, (List.pairwise_cons.mp h.apart).2,
    fun c hc => h.pos c (List.mem_cons_of_mem _ hc), fun c hc => h.le c (List.mem_cons_of_mem _ hc)⟩

theorem Descending.end_le {b : VirtMemoryBlock} (h : Descending (b :: bl)) :
    ∀ c ∈ bl, c.base + c.length ≤ b.base := by
  intro c hc
  have hlt : c.base < b.base := (List.pairwise_cons.mp h.above).1 c hc
  rcases (List.pairwise_cons.mp h.apart).1 c hc with hle | hle
  · omega
  · exact hle

/-- The range of `count` pages from `v` on meets no block of the list. -/
def Unused (bl : List VirtMemoryBlock) (v count : Nat) : Prop :=
  ∀ b ∈ bl, v + count * 4096 ≤ b.base ∨ b.base + b.length ≤ v

/-- The search stops at index `i`: the blocks before it lie above the range, the others below. -/
structure StopsAt (as : AddressSpace) (v count i : Nat) : Prop where
  index : i ≤ as.blockCount
  above : ∀ b ∈ blocksFrom as 0 i, v + count * 4096 ≤ b.base
  below : ∀ b ∈ blocksFrom as i (as.blockCount - i), b.base + b.length ≤ v

theorem StopsAt.unused (h : StopsAt as v count i) : Unused (blockList as) v count := by
  intro b hb
  exact (mem_blockList h.index hb).imp (h.above b) (h.below b)

/-- The address `v` is kept exactly when its range lies in the address space and meets no block of
the table; the index is then the only one at which a block with that base keeps the table in
order. -/
structure PlacedRight (as : AddressSpace) (v count : Nat) : Prop where
  kept : (findPlace as v count).1 = v ↔
    as.start ≤ v ∧ v + count * 4096 < as.endAddr ∧ Unused (blockList as) v count
  index : (findPlace as v count).1 = v → (findPlace as v count).2 ≤ as.blockCount ∧
    ∀ b : VirtMemoryBlock, b.base = v → ∀ j ≤ as.blockCount,
      (((blockList as).insertIdx j b).Pairwise Above ↔ j = (findPlace as v count).2)

/-- A 32-bit sum of the tests is zero, because a range ends at `2 ^ 32`, and the address is kept: the
range at `v` itself ends there, and every block at or below `v` that ends lower ends by `v`; or the
range lies in the address space and a block that starts below `v` ends there. -/
def EndsWrap (as : AddressSpace) (v count : Nat) : Prop :=
  as.start ≤ v ∧
    ((v + count * 4096 = 2 ^ 32 ∧ 0 < as.endAddr ∧ ∀ b ∈ blockList as, b.base ≤ v →
        b.base + b.length ≤ v ∨ b.base + b.length = 2 ^ 32) ∨
      (v + count * 4096 < as.endAddr ∧
        ∃ b ∈ blockList as, b.base < v ∧ b.base + b.length = 2 ^ 32))

/-! ## Ranges that end below `2 ^ 32` -/

theorem overlapped_iff {a m n : Nat} (hn : 0 < n) (ha : a + m ≤ 2 ^ 32) (hv : v + n < 2 ^ 32)
    (hw : a < v → a + m < 2 ^ 32) :
    isBlocksOverlapped a m v n = true ↔ (v ≤ a ∧ a < v + n) ∨ (a ≤ v ∧ v < a + m) := by
  by_cases hlt : a + m < 2 ^ 32
  · exact isBlocksOverlapped_iff hlt hv
  · have hva : v ≤ a := by
      by_contra hva
      exact hlt (hw (Nat.not_le.mp hva))
    unfold isBlocksOverlapped
    rw [add32_eq hv]
    have hzero : add32 a m = 0 := by
      unfold add32
      rw [show a + m = 2 ^ 32 by omega, Nat.mod_self]
    rw [hzero]
    simp only [Bool.or_eq_true, Bool.and_eq_true, decide_eq_true_eq]
    omega

/-- **The search for a given address** finds an overlap, or stops at the place of the range, when no
block below it ends at `2 ^ 32`. -/
theorem searchHint_cases (hik : i + k = as.blockCount) (hs : Descending (blocksFrom as i k))
    (hc : 1 ≤ count) (hv : v + count * 4096 < 2 ^ 32)
    (hw : ∀ b ∈ blocksFrom as i k, b.base < v → b.base + b.length < 2 ^ 32)
    (habove : ∀ b ∈ blocksFrom as 0 i, v + count * 4096 ≤ b.base) :
    ((searchHint as v count k i).1 = 0 ∧ ¬ Unused (blockList as) v count) ∨
      ((searchHint as v count k i).1 = v ∧ StopsAt as v count (searchHint as v count k i).2) := by
  induction k generalizing i with
  | zero =>
    right
    rw [searchHint]
    refine ⟨rfl, Nat.le_of_eq hik, habove, fun b hb => ?_⟩
    rw [show as.blockCount - i = 0 by omega] at hb
    exact absurd hb List.not_mem_nil
  | succ k ih =>
    rw [blocksFrom_succ] at hs hw
    have hb := hs.le (as.blocks i) List.mem_cons_self
    have hpos := hs.pos (as.blocks i) List.mem_cons_self
    have htest := overlapped_iff (by omega : 0 < count * 4096) hb hv
      (hw (as.blocks i) List.mem_cons_self)
    have hrest : blocksFrom as i (as.blockCount - i) = as.blocks i :: blocksFrom as (i + 1) k := by
      rw [show as.blockCount - i = k + 1 by omega, blocksFrom_succ]
    rw [searchHint, pageShift_eq (by omega)]
    by_cases hover : isBlocksOverlapped (as.blocks i).base (as.blocks i).length v (count * 4096)
    · left
      rw [if_pos hover]
      refine ⟨rfl, fun h => ?_⟩
      have hmem : as.blocks i ∈ blockList as := by
        rw [blockList_split (i := i) (by omega), hrest]
        exact List.mem_append_right _ List.mem_cons_self
      have := htest.mp hover
      have := h _ hmem
      omega
    rw [if_neg hover]
    rw [htest] at hover
    by_cases hlt : (as.blocks i).base < v
    · -- the first block below the range; those behind it lie lower still
      right
      rw [if_pos hlt]
      refine ⟨rfl, by omega, habove, fun b hb' => ?_⟩
      rw [hrest] at hb'
      rcases List.mem_cons.mp hb' with rfl | hb'
      · omega
      · have := hs.end_le b hb'
        omega
    · rw [if_neg hlt]
      apply ih (by omega) hs.tail (fun b hb => hw b (List.mem_cons_of_mem _ hb))
      exact forall_blocksFrom_succ habove (by omega)

theorem StopsAt.unique (h : StopsAt as v count i) (hs : Descending (blockList as)) (hc : 1 ≤ count)
    {b : VirtMemoryBlock} (hb : b.base = v) {j : Nat} (hj : j ≤ as.blockCount) :
    ((blockList as).insertIdx j b).Pairwise Above ↔ j = i := by
  have hsplit := blockList_split h.index
  have hlen : (blocksFrom as 0 i).length = i := length_blocksFrom i
  have hall := hs.above
  rw [hsplit] at hall ⊢
  rw [pairwise_insertIdx_iff hall, hlen]
  · intro c hc'
    have := h.above c hc'
    unfold Above
    omega
  · intro c hc'
    have hmem : c ∈ blockList as := hsplit ▸ List.mem_append_right _ hc'
    have hpos := hs.pos c hmem
    have := h.below c hc'
    unfold Above
    omega
  · rwa [← hsplit, length_blockList]

theorem placedRight_of_lt (hs : Descending (blockList as)) (hv0 : v ≠ 0) (hc : 1 ≤ count)
    (hv : v + count * 4096 < 2 ^ 32)
    (hw : ∀ b ∈ blockList as, b.base < v → b.base + b.length < 2 ^ 32) :
    PlacedRight as v count := by
  have hplace : findPlace as v count = if as.start ≤ v ∧ v + count * 4096 < as.endAddr then
      searchHint as v count as.blockCount 0 else (0, 0) := by
    unfold findPlace
    rw [if_neg hv0, pageShift_eq (by omega), add32_eq hv]
  by_cases hin : as.start ≤ v ∧ v + count * 4096 < as.endAddr
  · rw [if_pos hin] at hplace
    have hnone : ∀ b ∈ blocksFrom as 0 0, v + count * 4096 ≤ b.base := fun b hb =>
      absurd hb List.not_mem_nil
    rcases searchHint_cases (i := 0) (Nat.zero_add _) hs hc hv hw hnone with ⟨hz, hused⟩ | ⟨heq, hstop⟩
    all_goals rw [← hplace] at *
    · have hne : (findPlace as v count).1 ≠ v := fun h => hv0 (h.symm.trans hz)
      exact ⟨⟨fun h => absurd h hne, fun h => absurd h.2.2 hused⟩, fun h => absurd h hne⟩
    · refine ⟨⟨fun _ => ⟨hin.1, hin.2, hstop.unused⟩, fun _ => heq⟩, fun _ => ?_⟩
      exact ⟨hstop.index, fun b hb j hj => hstop.unique hs hc hb hj⟩
  · rw [if_neg hin] at hplace
    have hne : (findPlace as v count).1 ≠ v := fun h => hv0 (h.symm.trans (by rw [hplace]))
    exact ⟨⟨fun h => absurd h hne, fun h => absurd ⟨h.1, h.2.1⟩ hin⟩, fun h => absurd h hne⟩

/-! ## Ranges that end at `2 ^ 32` -/

theorem add32_top {a n : Nat} (h : a + n = 2 ^ 32) : add32 a n = 0 := by
  unfold add32
  rw [h, Nat.mod_self]

theorem Descending.first {b : VirtMemoryBlock} (hs : Descending bl) (hb : b ∈ bl)
    (he : b.base + b.length = 2 ^ 32) : ∃ l, bl = b :: l := by
  cases bl with
  | nil => exact absurd hb List.not_mem_nil
  | cons c l =>
    rcases List.mem_cons.mp hb with rfl | hb'
    · exact ⟨l, rfl⟩
    · -- the first block would start where this one ends
      have hend := hs.end_le b hb'
      have hpos := hs.pos c List.mem_cons_self
      have hle := hs.le c List.mem_cons_self
      omega

theorem searchHint_first {b : VirtMemoryBlock} {l : List VirtMemoryBlock}
    (hl : blockList as = b :: l) (he : b.base + b.length = 2 ^ 32) (hlt : b.base < v) :
    (searchHint as v count as.blockCount 0).1 = v := by
  have hlen : as.blockCount = l.length + 1 := by
    rw [← length_blockList, hl, List.length_cons]
  have hfirst : as.blocks 0 = b := by
    unfold blockList at hl
    rw [hlen, blocksFrom_succ] at hl
    exact (List.cons.inj hl).1
  rw [hlen, searchHint, hfirst, if_neg, if_pos hlt]
  unfold isBlocksOverlapped
  rw [add32_top he]
  simp only [Bool.or_eq_true, Bool.and_eq_true, decide_eq_true_eq]
  omega

theorem searchHint_top (hs : Descending (blocksFrom as i k)) (hv0 : v ≠ 0) (hc : 1 ≤ count)
    (hv : v + count * 4096 = 2 ^ 32) : (searchHint as v count k i).1 = v ↔
      ∀ b ∈ blocksFrom as i k, b.base ≤ v →
        b.base + b.length ≤ v ∨ b.base + b.length = 2 ^ 32 := by
  induction k generalizing i with
  | zero => exact iff_of_true rfl fun b hb => absurd hb List.not_mem_nil
  | succ k ih =>
    rw [blocksFrom_succ] at hs ⊢
    have hle := hs.le (as.blocks i) List.mem_cons_self
    have htest : isBlocksOverlapped (as.blocks i).base (as.blocks i).length v (count * 4096) = true ↔
        ¬ ((as.blocks i).base ≤ v → (as.blocks i).base + (as.blocks i).length ≤ v ∨
          (as.blocks i).base + (as.blocks i).length = 2 ^ 32) := by
      unfold isBlocksOverlapped
      rw [add32_top hv]
      simp only [Bool.or_eq_true, Bool.and_eq_true, decide_eq_true_eq]
      rcases Nat.lt_or_eq_of_le hle with hlt | heq
      · rw [add32_eq hlt]
        omega
      · rw [add32_top heq]
        omega
    rw [searchHint, pageShift_eq (by omega), List.forall_mem_cons]
    by_cases hover : isBlocksOverlapped (as.blocks i).base (as.blocks i).length v (count * 4096)
    · rw [if_pos hover]
      exact iff_of_false (Ne.symm hv0) fun h => htest.mp hover h.1
    rw [if_neg hover]
    have hblock := not_not.mp (mt htest.mpr hover)
    by_cases hlt : (as.blocks i).base < v
    · rw [if_pos hlt]
      refine iff_of_true rfl ⟨hblock, fun b hb _ => Or.inl ?_⟩
      have := hs.end_le b hb
      omega
    · rw [if_neg hlt, ih hs.tail]
      exact (and_iff_right hblock).symm

/-- **Placement at a given address.** The address is kept and its index found as they should be,
unless a range ends at `2 ^ 32` and the 32-bit sums of the tests hide it. -/
theorem findPlace_hint (as : AddressSpace) (v count : Nat) (hs : Descending (blockList as))
    (hend : as.endAddr < 2 ^ 32) (hv0 : v ≠ 0) (hc : 1 ≤ count) (hv : v + count * 4096 ≤ 2 ^ 32) :
    PlacedRight as v count ↔ ¬ EndsWrap as v count := by
  have hshift : pageShift count = count * 4096 := pageShift_eq (by omega)
  rcases Nat.lt_or_eq_of_le hv with hlt | htop
  · -- the range ends lower
    constructor
    · rintro hp ⟨hstart, ⟨htop, -⟩ | ⟨hin, b, hb, hbv, hbe⟩⟩
      · exact absurd htop (Nat.ne_of_lt hlt)
      · obtain ⟨l, hl⟩ := hs.first hb hbe
        have hkept : (findPlace as v count).1 = v := by
          unfold findPlace
          rw [if_neg hv0, hshift, add32_eq hlt, if_pos ⟨hstart, hin⟩]
          exact searchHint_first hl hbe hbv
        have := (hp.kept.mp hkept).2.2 b hb
        omega
    · intro hno
      by_cases hin : as.start ≤ v ∧ v + count * 4096 < as.endAddr
      · refine placedRight_of_lt hs hv0 hc hlt fun b hb hbv => ?_
        apply Nat.lt_of_le_of_ne (hs.le b hb)
        exact fun hbe => hno ⟨hin.1, Or.inr ⟨hin.2, b, hb, hbv, hbe⟩⟩
      · have hne : (findPlace as v count).1 ≠ v := by
          unfold findPlace
          rw [if_neg hv0, hshift, add32_eq hlt, if_neg hin]
          exact Ne.symm hv0
        exact ⟨⟨fun h => absurd h hne, fun h => absurd ⟨h.1, h.2.1⟩ hin⟩, fun h => absurd h hne⟩
  · -- its end is zero in the tests
    have hout : ¬ (as.start ≤ v ∧ v + count * 4096 < as.endAddr ∧ Unused (blockList as) v count) := by
      rintro ⟨-, hin, -⟩
      omega
    have hkept : (findPlace as v count).1 = v ↔ EndsWrap as v count := by
      unfold findPlace EndsWrap
      rw [if_neg hv0, hshift, add32_top htop]
      by_cases hin : as.start ≤ v ∧ 0 < as.endAddr
      · rw [if_pos hin, searchHint_top hs hv0 hc htop]
        refine ⟨fun h => ⟨hin.1, Or.inl ⟨htop, hin.2, h⟩⟩, ?_⟩
        rintro ⟨-, ⟨-, -, h⟩ | ⟨hlt, -⟩⟩
        · exact h
        · omega
      · rw [if_neg hin]
        refine iff_of_false (Ne.symm hv0) ?_
        rintro ⟨hstart, ⟨-, hpos, -⟩ | ⟨hlt, -⟩⟩
        · exact hin ⟨hstart, hpos⟩
        · omega
    constructor
    · exact fun hp hw => hout (hp.kept.mp (hkept.mpr hw))
    · intro hno
      have hne : (findPlace as v count).1 ≠ v := fun h => hno (hkept.mp h)
      exact ⟨⟨fun h => absurd h hne, fun h => absurd h hout⟩, fun h => absurd h hne⟩

theorem descending_twoEntries : Descending (blockList twoEntries) := by
  refine ⟨?_, ?_, ?_, ?_⟩
  · unfold Above
    decide
  · unfold BlocksApart
    decide
  · decide
  · decide

/-- A block at `0x180000` goes between the two blocks of that table. -/
theorem findPlace_hint_two : (findPlace twoEntries 0x180000 3).1 = 0x180000 ∧
    ∀ j ≤ 2, (((blockList twoEntries).insertIdx j ⟨.memory, 0x180000, 0x3000⟩).Pairwise Above ↔
      j = (findPlace twoEntries 0x180000 3).2) := by
  have hno : ¬ EndsWrap twoEntries 0x180000 3 := by
    unfold EndsWrap
    decide
  have h := (findPlace_hint twoEntries 0x180000 3 descending_twoEntries (by decide) (by decide)
    (by decide) (by decide)).mpr hno
  have hk : (findPlace twoEntries 0x180000 3).1 = 0x180000 := by
    apply h.kept.mpr
    refine ⟨by decide, by decide, ?_⟩
    unfold Unused
    decide
  exact ⟨hk, (h.index hk).2 ⟨.memory, 0x180000, 0x3000⟩ rfl⟩

/-- **The last page of memory is placed in the address space of the kernel**, which ends below it. -/
theorem last_page_placed :
    Descending (blockList (initMemoryManager 0x1000 (fun _ => ⟨.memory, 0, 0⟩) false)) ∧
      0xFFFFF000 + 1 * 4096 = 2 ^ 32 ∧
      ¬ PlacedRight (initMemoryManager 0x1000 (fun _ => ⟨.memory, 0, 0⟩) false) 0xFFFFF000 1 := by
  have hs : Descending (blockList (initMemoryManager 0x1000 (fun _ => ⟨.memory, 0, 0⟩) false)) := by
    refine ⟨List.pairwise_singleton _ _, List.pairwise_singleton _ _, ?_, ?_⟩
    all_goals decide
  refine ⟨hs, rfl, fun hp => ?_⟩
  have hkept : (findPlace (initMemoryManager 0x1000 (fun _ => ⟨.memory, 0, 0⟩) false)
      0xFFFFF000 1).1 = 0xFFFFF000 := by
    decide +kernel
  exact absurd (hp.kept.mp hkept).2.1 (by decide)

end C4os
