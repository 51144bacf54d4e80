import C4os.Memory.Failed
import Mathlib.Data.Set.Card

/-!
# How many frames a request takes

* `freeCount A s`: the number of free frames; `freeCount_takeFrames`: after the frames of a request.
* `missing s dir v n`: the page tables that the first `n` pages from `v` on need and that are not
  there.
* **`MapRun.freeCount_eq`**: `map_pages` takes one frame for each of them;
  **`MapRun.hasTables_iff`**: how far it comes with the frames that are free.
-/

namespace C4os

open Machine Pages Word

variable {A : PhysAllocator} {s s' m : Machine} {dir v p i j n n' paddr flags count : Nat}
  {type : VirtMemoryBlockType} {ok : Bool}

/-! ## Free frames -/

/-- The number of free frames. -/
noncomputable def freeCount (A : PhysAllocator) (s : Machine) : Nat := {q | A.Free s q}.ncard

theorem finite_free (hok : A.Ok s) : {q | A.Free s q}.Finite :=
  (Set.finite_lt_nat (2 ^ 32)).subset fun _ hq => (A.frame hok hq).2

theorem freeCount_congr (h : ∀ q, A.Free s' q ↔ A.Free s q) : freeCount A s' = freeCount A s :=
  congrArg Set.ncard (Set.ext h)

theorem freeCount_eq_zero (hok : A.Ok s) : freeCount A s = 0 ↔ ∀ q, ¬ A.Free s q := by
  unfold freeCount
  rw [Set.ncard_eq_zero (finite_free hok), Set.eq_empty_iff_forall_notMem]
  rfl

theorem ncard_list {l : List Nat} (h : l.Nodup) : {q | q ∈ l}.ncard = l.length := by
  rw [← List.toFinset_card_of_nodup h, ← Set.ncard_coe_finset, List.coe_toFinset]

theorem FreeFrames.freeCount (h : FreeFrames A s n) : freeCount A s = n := by
  obtain ⟨l, hnodup, rfl, hfree⟩ := h
  exact (congrArg Set.ncard (Set.ext hfree)).trans (ncard_list hnodup)

/-- The frames that are left for page tables when a request has its own. -/
noncomputable def framesLeft (A : PhysAllocator) (s : Machine) (paddr count : Nat) : Nat :=
  freeCount A s - if paddr = NIL then count else 0

theorem freeCount_takeFrames (hd : Directory A s dir) (hc : 1 ≤ count)
    (hf : FramesOk A s dir paddr count) (h : takeFrames A paddr count s = some ((p, type), m))
    (hp : p ≠ NIL) : freeCount A m = framesLeft A s paddr count := by
  obtain ⟨-, -, hap⟩ := takeFrames_apart hd hc hf h hp
  have hfree := takeFrames_free hd hc hf h hp
  unfold framesLeft
  split_ifs with hnil
  · have hsub : {q | q ∈ (⟨p, count⟩ : Range).pages} ⊆ {q | A.Free s q} := fun q hq =>
      (hap q hq).2.resolve_right fun h => h.1 hnil
    have hset : {q | A.Free m q} = {q | A.Free s q} \ {q | q ∈ (⟨p, count⟩ : Range).pages} :=
      Set.ext hfree
    unfold freeCount
    have hpages : (⟨p, count⟩ : Range).pages.Nodup := nodup_pages (by decide)
    rw [hset, Set.ncard_sdiff' hsub (finite_free hd.ok), ncard_list hpages]
    exact congrArg (freeCount A s - ·) length_pages
  · refine (freeCount_congr fun q => (hfree q).trans ⟨And.left, fun hq => ⟨hq, fun hin => ?_⟩⟩).trans
      (Nat.sub_zero _).symm
    obtain rfl := (takeFrames_mapped hd hc h).2.2 hnil
    exact ((hf hnil).2 q hin).not_free hq

theorem takeFrames_dir (hd : Directory A s dir) (hc : 1 ≤ count)
    (h : takeFrames A paddr count s = some ((p, type), m)) : m.mem dir i = s.mem dir i := by
  by_cases hnil : paddr = NIL
  · subst hnil
    obtain ⟨-, hk, -⟩ := A.alloc_spec hd.ok hc (takeFrames_alloc h).1
    exact hk.mem dir i hd.dir_used fun he => hd.dir_ne he.1
  · unfold takeFrames at h
    rw [if_neg hnil] at h
    obtain ⟨-, rfl⟩ := Prod.mk.inj (Option.some.inj h)
    rfl

/-! ## Page tables that are not there -/

/-- The page tables that the first `n` pages from `v` on need and that are not there. -/
def missing (s : Machine) (dir v n : Nat) : Finset Nat :=
  ((Finset.range n).image fun i => getPageDirectoryIndex (pageAt v i)).filter fun k =>
    ¬ Present (s.mem dir k)

theorem mem_missing {k : Nat} : k ∈ missing s dir v n ↔
    (∃ i < n, getPageDirectoryIndex (pageAt v i) = k) ∧ ¬ Present (s.mem dir k) := by
  simp [missing]

theorem missing_congr (h : ∀ k, s'.mem dir k = s.mem dir k) :
    missing s' dir v n = missing s dir v n := by
  ext k
  rw [mem_missing, mem_missing, h]

theorem missing_mono (h : n ≤ n') : missing s dir v n ⊆ missing s dir v n' := by
  intro k hk
  obtain ⟨⟨i, hi, he⟩, hp⟩ := mem_missing.mp hk
  exact mem_missing.mpr ⟨⟨i, Nat.lt_of_lt_of_le hi h, he⟩, hp⟩

/-- **`map_pages` takes one frame for each page table that is not there.** -/
theorem MapRun.freeCount_eq (h : MapRun A s s' dir v p flags count j ok) (hd : Directory A s dir) :
    freeCount A s = freeCount A s' + (missing s dir v j).card := by
  have hpresent : ∀ k ∈ missing s dir v j, k < 1024 ∧ Present (s'.mem dir k) := by
    intro k hk
    obtain ⟨⟨i, hi, rfl⟩, -⟩ := mem_missing.mp hk
    exact ⟨dirIndex_lt _, h.tables i hi⟩
  -- the frames of the new page tables
  have himage : {q | A.Free s q} \ {q | A.Free s' q} =
      (fun k => frameOf (s'.mem dir k)) '' (missing s dir v j : Set Nat) := by
    ext q
    constructor
    · rintro ⟨hq, hq'⟩
      obtain ⟨k, hk, hp, rfl⟩ : IsTable s' dir q := by
        by_contra ht
        exact hq' ((h.spent q).mpr ⟨hq, ht⟩)
      refine ⟨k, ?_, rfl⟩
      have hold : ¬ Present (s.mem dir k) := fun hps => by
        rw [h.mapped.old k hk hps] at hq
        exact hd.table_used k hk hps hq
      obtain ⟨i, hi, he⟩ := (h.new k hk hp).resolve_left hold
      exact Finset.mem_coe.mpr (mem_missing.mpr ⟨⟨i, hi, he.symm⟩, hold⟩)
    · rintro ⟨k, hk, rfl⟩
      obtain ⟨hlt, hp⟩ := hpresent k hk
      obtain ⟨-, hold⟩ := mem_missing.mp hk
      exact ⟨(h.mapped.present_or_free hlt hp).resolve_left hold,
        h.mapped.directory.table_used k hlt hp⟩
  have hinj : Set.InjOn (fun k => frameOf (s'.mem dir k)) (missing s dir v j : Set Nat) := by
    intro k hk l hl he
    obtain ⟨hlt, hp⟩ := hpresent k hk
    obtain ⟨hlt', hp'⟩ := hpresent l hl
    exact (h.mapped.directory.tables k hlt hp).2 l hlt' hp' he
  have hsub : {q | A.Free s' q} ⊆ {q | A.Free s q} := h.mapped.free
  have hcard := Set.ncard_sdiff_add_ncard_of_subset hsub (finite_free hd.ok)
  rw [himage, hinj.ncard_image, Set.ncard_coe_finset] at hcard
  unfold freeCount
  omega

/-- **How far `map_pages` comes** with the frames that are free. -/
theorem MapRun.hasTables_iff (h : MapRun A s s' dir v p flags count j ok) (hd : Directory A s dir)
    (hi : i < count) : HasTables s' dir v (i + 1) ↔ (missing s dir v (i + 1)).card ≤ freeCount A s := by
  have hcount := h.freeCount_eq hd
  by_cases hij : i < j
  · refine iff_of_true (fun k hk => h.tables k (by omega)) ?_
    have hle : i + 1 ≤ j := hij
    have hcard : (missing s dir v (i + 1)).card ≤ (missing s dir v j).card :=
      Finset.card_le_card (missing_mono hle)
    omega
  · -- it stops at the page `j`, without a frame
    have hok : ok = false := by
      cases ok with
      | false => rfl
      | true => exact absurd (h.done rfl ▸ hi) hij
    obtain ⟨-, hstop, hex⟩ := h.stop hok
    refine iff_of_false (fun ht => hstop (ht j (by omega))) ?_
    have hempty : freeCount A s' = 0 := (freeCount_eq_zero hex.ok).mpr hex.none_free
    have hnot : getPageDirectoryIndex (pageAt v j) ∉ missing s dir v j := by
      intro hin
      obtain ⟨⟨k, hk, he⟩, -⟩ := mem_missing.mp hin
      exact hstop (he ▸ h.tables k hk)
    have hsub : insert (getPageDirectoryIndex (pageAt v j)) (missing s dir v j) ⊆
        missing s dir v (i + 1) := by
      refine Finset.insert_subset (mem_missing.mpr ⟨⟨j, by omega, rfl⟩, fun hp => ?_⟩)
        (missing_mono (by omega))
      rw [← h.mapped.old _ (dirIndex_lt _) hp] at hp
      exact hstop hp
    have hcard := Finset.card_le_card hsub
    rw [Finset.card_insert_of_notMem hnot] at hcard
    omega

theorem MapRun.ok_iff (h : MapRun A s s' dir v p flags count j ok) (hd : Directory A s dir)
    (hc : 1 ≤ count) : ok = true ↔ (missing s dir v count).card ≤ freeCount A s := by
  obtain ⟨n, rfl⟩ : ∃ n, count = n + 1 := ⟨count - 1, by omega⟩
  rw [← h.hasTables_iff hd (Nat.lt_succ_self n)]
  cases ok with
  | false =>
    obtain ⟨hlt, hstop, -⟩ := h.stop rfl
    exact iff_of_false Bool.noConfusion fun ht => hstop (ht j hlt)
  | true => exact iff_of_true rfl fun k hk => h.tables k (h.done rfl ▸ hk)

end C4os
