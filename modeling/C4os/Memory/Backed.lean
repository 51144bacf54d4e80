import C4os.Memory.FreeVirt
import C4os.Memory.MoveTable
import C4os.Memory.VirtMapping

/-!
# Which allocations are backed

* `Backed`: the pages of an allocation translate to consecutive frames, and the table has an entry.
* `VirtRequest`: a request for pages of an address space in order.
* `BackedOk`: there are frames for the request, and nothing else is mapped at its pages.
* **`allocVirtPages_backed`**: under that condition the call is backed; `unbacked_address`: a call
  without frames.
-/

namespace C4os

open Linked Machine Pages Word

variable {A : PhysAllocator} {sp : Space} {st st' : VirtState} {dir v i j p count vaddr paddr flags : Nat}
  {m₁ m₂ : Machine} {type : VirtMemoryBlockType} {b : VirtMemoryBlock}

/-- The pages of an allocation translate to consecutive frames, from the frame of `paddr` on when one
was given, and the table has an entry for it. -/
def Backed (st : VirtState) (sp : Space) (paddr count r : Nat) : Prop :=
  (∃ f, (paddr ≠ NIL → f = frameOf paddr) ∧ ∀ i < count,
    Shows (st.machine.getPageInfo (st.spaces sp).pageDir (pageAt r i)).1 ((f + i * 4096) % 2 ^ 32)) ∧
  ∃ b ∈ blockList (st.spaces sp), b.base = r ∧ b.length = count * 4096

/-- A request for pages of an address space in order. The pages of the window are none of its
pages. -/
structure VirtRequest (A : PhysAllocator) (sp : Space) (st : VirtState)
    (vaddr count flags : Nat) : Prop where
  directory : Directory A st.machine (st.spaces sp).pageDir
  sorted : Sorted (st.spaces sp) (blockList (st.spaces sp))
  end_lt : (st.spaces sp).endAddr + 1 < 2 ^ 32
  vaddr_lt : vaddr < 2 ^ 32
  count_pos : 1 ≤ count
  flags_lt : flags < 4096
  window : ∀ v, v ≠ 0 → Stops (st.spaces sp) vaddr count v → ∀ i < count, ∀ k, 1022 ≤ k →
    ¬ SharesEntry st.machine (st.spaces sp).pageDir (pageAt v i) k

/-- The frames that the caller gives are in use. -/
def GivenUsed (A : PhysAllocator) (s : Machine) (paddr count : Nat) : Prop :=
  paddr ≠ NIL → ∀ i < count, ¬ A.Free s ((frameOf paddr + i * 4096) % 2 ^ 32)

/-- The pages from the address where the search stops. -/
def Place (as : AddressSpace) (vaddr count w : Nat) : Prop :=
  ∃ v, v ≠ 0 ∧ Stops as vaddr count v ∧ InPages v count w

/-- The condition under which an allocation is backed. -/
structure BackedOk (A : PhysAllocator) (sp : Space) (st : VirtState)
    (vaddr paddr count flags : Nat) : Prop where
  frames : paddr = NIL → ∀ m, A.alloc count st.machine ≠ some (NIL, m)
  count_lt : count < 2 ^ 20
  grow : GrowsKernel sp (st.spaces sp) → Place (st.spaces sp) vaddr count (growPage (st.spaces sp)) →
    paddr = NIL ∧ count = 1
  move : ¬ Stays sp (st.spaces sp) →
    MoveOk A (st.spaces .kernel) st.machine (st.spaces sp).pageDir (st.spaces sp).blocksAddr
      (st.spaces sp).newTablePages ∧
    Foreign A st.machine (st.spaces .kernel).pageDir (st.spaces sp).pageDir
      (Place (st.spaces sp) vaddr count) ∧ (st.spaces sp).TableFits ∧
    ∀ m, AtGrowth A sp vaddr paddr count flags st m →
      TableFrames A (st.spaces .kernel) (st.spaces sp).newTablePages m

theorem moved_info (h : VirtRequest A sp st vaddr count flags) (hsp : sp ≠ .kernel)
    (hok : BackedOk A sp st vaddr paddr count flags) (hs : ¬ Stays sp (st.spaces sp))
    (htable : TableFrames A (st.spaces .kernel) (st.spaces sp).newTablePages m₂) (hv : v ≠ 0)
    (hstops : Stops (st.spaces sp) vaddr count v) (hv32 : v < 2 ^ 32)
    (frames : takeFrames A paddr count st.machine = some ((p, type), m₁))
    (mapped : mapPages (A.alloc 1) (st.spaces sp).pageDir v p count flags m₁ = some (true, m₂))
    (entry : recordBlock (growTable A sp) sp j b (st.setMachine m₂) = some (true, st')) :
    ∀ i < count, (st'.machine.getPageInfo (st.spaces sp).pageDir (pageAt v i)).1 =
      andNot (p + i * 4096) PAGE_OFFSET_BITS ||| flags := by
  obtain ⟨hmove, hforeign, hfits, -⟩ := hok.move hs
  have hfull : (st.spaces sp).blockCount = (st.spaces sp).blockTableSize := by
    by_contra hne
    exact hs (Or.inr hne)
  have hm₁ := (takeFrames_mapped h.directory h.count_pos frames).1
  have hm₁' := (takeFrames_mapped hforeign.directory h.count_pos frames).1
  have hplace : ∀ i < count, Place (st.spaces sp) vaddr count (pageAt v i) := fun i hi =>
    ⟨v, hv, hstops, i, hi, rfl⟩
  obtain ⟨hu, hf₂⟩ := (hforeign.kept hm₁' hm₁).mapPages hv32 hplace mapped
  have hm₂ := mapPages_mapped hm₁.directory hv32 mapped
  have hmove₂ := (hmove.unseen hm₁'.unseen fun q hq => (hm₁.apart hq).1).unseen hu
    fun q hq => (hm₂.apart hq).1
  have hshow := mapPages_shows hm₁.directory hv32 (Nat.le_of_lt hok.count_lt)
    (fun i hi hs => h.window v hv hstops i hi 1023 (by decide) ((hm₁.shares _ _).mp hs)) mapped
  obtain ⟨hspare, -⟩ | ⟨-, st₁, hgrow, rfl⟩ := recordBlock_cases entry
  · exact absurd hfull hspare
  rw [growTable, if_neg hsp] at hgrow
  have hserves := growProcess_serves (by exact hf₂.directory) (by exact hmove₂) (by exact hfits)
    (by exact htable) hgrow rfl
  intro i hi
  rw [← hshow i hi, ← hf₂.pageInfo (hplace i hi)]
  exact hserves.pageInfo hf₂ (fun _ hq => hq) (hplace i hi)

theorem recorded_entry (hj : j ≤ (st.spaces sp).blockCount)
    (entry : recordBlock (growTable A sp) sp j b st = some (true, st')) :
    b ∈ blockList (st'.spaces sp) := by
  obtain ⟨h, -⟩ | ⟨-, as', hg, hs⟩ := recordBlock_table entry
  · exact absurd h Bool.noConfusion
  · dsimp only at hs
    rw [hs]
    apply mem_insertBlock_self
    rw [hg.blockCount]
    exact hj

variable {q : Nat × VirtState}

/-- **An allocation is backed** under that condition. -/
theorem AllocEnd.backed (h : VirtRequest A sp st vaddr count flags)
    (hp : flags &&& PAGE_PRESENT ≠ 0) (hok : BackedOk A sp st vaddr paddr count flags)
    (hend : AllocEnd A (growTable A sp) sp vaddr paddr count flags st q) (hq : q.1 ≠ 0) :
    Backed q.2 sp paddr count q.1 := by
  have hdir := hend.pageDir
  have hlt := findPlace_lt (st.spaces sp) count h.vaddr_lt
  cases hend with
  | noPlace => exact absurd rfl hq
  | noFrames _ nil frames => exact absurd frames (hok.frames nil _)
  | notRecorded => exact absurd rfl hq
  | notMapped => exact absurd rfl hq
  | @recorded p type m₁ m₂ st' place frames ne mapped entry =>
    have hstops := findPlace_stops place
    have hidx := findPlace_index_le (st.spaces sp) vaddr count
    have htable := fun hs => (hok.move hs).2.2.2 m₂ ⟨p, type, m₁, frames, mapped⟩
    generalize (findPlace (st.spaces sp) vaddr count).2 = j at *
    generalize (findPlace (st.spaces sp) vaddr count).1 = v at *
    dsimp only at hdir ⊢
    have hmem := recorded_entry (by exact hidx) entry
    refine ⟨?_, _, hmem, rfl, pageShift_eq (by have := hok.count_lt; omega)⟩
    rw [hdir]
    -- the entries that were written show the frames that were taken
    have hshows : ∀ i, Shows (andNot (p + i * 4096) PAGE_OFFSET_BITS ||| flags)
        ((frameOf p + i * 4096) % 2 ^ 32) := fun i => by
      rw [← frameOf_page]
      exact shows_entry h.flags_lt hp
    have hgiven := (takeFrames_mapped h.directory h.count_pos frames).2.2
    by_cases hs : Stays sp (st.spaces sp)
    · obtain ⟨hd, hshares, hinfo⟩ := recorded_info h.directory rfl h.count_pos
        (Nat.le_of_lt hok.count_lt) hs hlt
        (fun i hi => h.window v place hstops i hi 1023 (by decide)) frames mapped entry
      have hread : ∀ i < count, (st'.machine.getPageInfo (st.spaces sp).pageDir (pageAt v i)).1 =
          st'.machine.info (st.spaces sp).pageDir (pageAt v i) := fun i hi =>
        getPageInfo_eq hd.frame hd.dir_ne fun hw =>
          h.window v place hstops i hi 1023 (by decide) ((hshares _ _).mp hw)
      by_cases hgrow : GrowsKernel sp (st.spaces sp) ∧ InPages v count (growPage (st.spaces sp))
      · obtain ⟨rfl, rfl⟩ := hok.grow hgrow.1 ⟨v, place, hstops, hgrow.2⟩
        have hpage := (inPages_one hlt).mp hgrow.2
        have hw : ¬ SharesEntry st.machine (st.spaces sp).pageDir v 1023 := by
          have := h.window v place hstops 0 Nat.one_pos 1023 (by decide)
          rwa [pageAt_zero hlt] at this
        have hm₁ := (takeFrames_mapped h.directory h.count_pos frames).1
        have hm₂ := mapPages_mapped hm₁.directory hlt mapped
        obtain ⟨p', -, -, hgrown⟩ := recorded_grow hm₂.directory hgrow.1 hlt hpage
          (fun hs => hw ((hm₁.shares _ _).mp ((hm₂.shares _ _).mp hs))) entry
        refine ⟨p', fun hne => absurd rfl hne, fun i hi => ?_⟩
        obtain rfl : i = 0 := by omega
        have hp' : (p' + 0 * 4096) % 2 ^ 32 = p' := by
          rw [← hgrown.2, Nat.zero_mul, Nat.add_zero]
          exact Nat.mod_eq_of_lt (frame_frameOf _).2
        rw [hread 0 hi, pageAt_zero hlt, hp']
        exact hgrown
      · refine ⟨frameOf p, fun hne => by rw [hgiven hne], fun i hi => ?_⟩
        rw [hread i hi, hinfo i hi]
        · exact hshows i
        · rintro ⟨hg, hpage⟩
          exact hgrow ⟨hg, i, hi, ((inPages_one (growPage_lt _)).mp hpage).symm⟩
    · have hsp : sp ≠ .kernel := fun he => hs (Or.inl he)
      have hinfo := moved_info h hsp hok hs (htable hs) place hstops hlt frames mapped
        entry
      refine ⟨frameOf p, fun hne => by rw [hgiven hne], fun i hi => ?_⟩
      rw [hinfo i hi]
      exact hshows i

theorem length_lt_of_mem (h : AllocEnd A (growTable A sp) sp vaddr paddr count flags st q)
    (hs : Sorted (st.spaces sp) (blockList (st.spaces sp))) (he : (st.spaces sp).endAddr + 1 < 2 ^ 32)
    (hb : b ∈ blockList (q.2.spaces sp)) : b.length < 2 ^ 32 := by
  rcases h.of_mem hb with hb | ⟨-, rfl⟩ | ⟨-, -, -, hlen, -⟩
  · have := hs.le_end b hb
    omega
  · unfold AddressSpace.growLast
    rw [Function.update_self]
    exact add32_lt _ _
  · rw [hlen]
    exact pageShift_lt _

/-- **The condition is needed**, when the table does not move. -/
theorem AllocEnd.backedOk (h : VirtRequest A sp st vaddr count flags)
    (hgiv : GivenUsed A st.machine paddr count) (hpres : flags &&& PAGE_PRESENT ≠ 0)
    (hs : Stays sp (st.spaces sp))
    (hend : AllocEnd A (growTable A sp) sp vaddr paddr count flags st q) (hq : q.1 ≠ 0)
    (hb : Backed q.2 sp paddr count q.1) : BackedOk A sp st vaddr paddr count flags := by
  have hdir := hend.pageDir
  have hlt := findPlace_lt (st.spaces sp) count h.vaddr_lt
  obtain ⟨⟨f, hf, hshows⟩, b, hmem, hbase, hlen⟩ := hb
  have hcount : count < 2 ^ 20 := by
    have := length_lt_of_mem hend h.sorted h.end_lt hmem
    omega
  cases hend with
  | noPlace => exact absurd rfl hq
  | noFrames => exact absurd hlen (findPlace_new h.end_lt h.sorted h.count_pos hq hmem hbase)
  | notRecorded => exact absurd rfl hq
  | notMapped => exact absurd rfl hq
  | @recorded p type m₁ m₂ st' place frames ne mapped entry =>
    have hstops := findPlace_stops place
    generalize (findPlace (st.spaces sp) vaddr count).2 = j at *
    generalize (findPlace (st.spaces sp) vaddr count).1 = v at *
    dsimp only at hdir hshows
    rw [hdir] at hshows
    obtain ⟨hm₁, hnew, hgiven⟩ := takeFrames_mapped h.directory h.count_pos frames
    refine ⟨fun hnil m he => ?_, hcount, fun hg hplace => ?_, fun hn => absurd hs hn⟩
    · exact ne (Prod.mk.inj (Option.some.inj ((hnew hnil).symm.trans he))).1
    obtain ⟨v', hv', hstops', i, hi, hpage⟩ := hplace
    obtain rfl := hstops'.eq hstops
    -- the page that the table grows into shows a frame that was free
    have hw : ∀ k < count, ¬ SharesEntry st.machine (st.spaces sp).pageDir (pageAt v' k) 1023 :=
      fun k hk => h.window v' place hstops k hk 1023 (by decide)
    have hm₂ := mapPages_mapped hm₁.directory hlt mapped
    obtain ⟨p', hfree, -, hgrown⟩ := recorded_grow hm₂.directory hg (pageAt_lt v' i) hpage
      (fun hs => hw i hi ((hm₁.shares _ _).mp ((hm₂.shares _ _).mp hs))) entry
    obtain ⟨hd, hshares, hinfo⟩ := recorded_info h.directory rfl h.count_pos
      (Nat.le_of_lt hcount) hs hlt hw frames mapped entry
    have hread : ∀ k < count, (st'.machine.getPageInfo (st.spaces sp).pageDir (pageAt v' k)).1 =
        st'.machine.info (st.spaces sp).pageDir (pageAt v' k) := fun k hk =>
      getPageInfo_eq hd.frame hd.dir_ne fun hs => hw k hk ((hshares _ _).mp hs)
    have hp' : p' = (f + i * 4096) % 2 ^ 32 := by
      have := (hshows i hi).2
      rw [hread i hi] at this
      exact hgrown.2.symm.trans this
    have hnil : paddr = NIL := by
      by_contra hne
      apply hgiv hne i hi
      rw [← hf hne, ← hp']
      exact hm₁.free _ (hm₂.free _ hfree)
    refine ⟨hnil, ?_⟩
    by_contra hne
    -- another page shows which frames they are
    have hpos := h.count_pos
    obtain ⟨k, hk, hki⟩ : ∃ k < count, k ≠ i := ⟨if i = 0 then 1 else 0, by split_ifs <;> omega,
      by split_ifs <;> omega⟩
    have hfk : frameOf (p + k * 4096) = (f + k * 4096) % 2 ^ 32 := by
      have := (hshows k hk).2
      rw [hread k hk, hinfo k hk] at this
      · rwa [(shows_entry h.flags_lt hpres).2] at this
      · rintro ⟨-, hin⟩
        have := (inPages_one (growPage_lt _)).mp hin
        exact hki (pageAt_inj (by omega) (by omega) (this.trans hpage))
    obtain ⟨hvalid, hap, -⟩ := apart_alloc_range h.directory h.count_pos (hnew hnil) ne
    have hpi : p' ∈ (⟨p, count⟩ : Range).pages := by
      have hbound := hvalid.bound
      dsimp only at hbound
      have hpf : frameOf p = p := andNot_mask_of_aligned (by omega) hvalid.aligned
      rw [frameOf_page, hpf] at hfk
      refine mem_pages.mpr ⟨i, hi, ?_⟩
      show p' = p + 4096 * i
      omega
    exact (hap p' hpi).2.not_free (hm₂.free _ hfree)

/-! ## With the mutex -/

theorem VirtRequest.locked (h : VirtRequest A sp st vaddr count flags) :
    VirtRequest A sp (st.locked sp) vaddr count flags := by
  obtain ⟨h1, h2, h3, h4, h5, h6, h7⟩ := h
  refine ⟨?_, ?_, ?_, h4, h5, h6, ?_⟩ <;> rw [VirtState.spaces_locked]
  · exact h1
  · exact ⟨h2.pairwise, h2.pos, h2.start_le, h2.le_end⟩
  · exact h3
  · exact h7

theorem backedOk_locked : BackedOk A sp (st.locked sp) vaddr paddr count flags ↔
    BackedOk A sp st vaddr paddr count flags := by
  have hkernel : ¬ Stays sp (st.spaces sp) → (st.locked sp).spaces .kernel = st.spaces .kernel :=
    fun hs => VirtState.spaces_setSpace_of_ne _ _ fun he => hs (Or.inl he.symm)
  constructor
  · rintro ⟨h1, h2, h3, h4⟩
    rw [VirtState.spaces_locked] at h3 h4
    refine ⟨h1, h2, h3, fun hs => ?_⟩
    have := h4 hs
    simp only [hkernel hs, atGrowth_locked] at this
    exact this
  · rintro ⟨h1, h2, h3, h4⟩
    refine ⟨h1, h2, ?_, ?_⟩ <;> rw [VirtState.spaces_locked]
    · exact h3
    · intro hs
      simp only [hkernel hs, atGrowth_locked]
      exact h4 hs

theorem backed_mutexRelease {r : Nat} :
    Backed (st.mutexRelease sp) sp paddr count r ↔ Backed st sp paddr count r := by
  unfold Backed
  rw [VirtState.spaces_mutexRelease]
  exact Iff.rfl

theorem VirtRequest.backed {r : Nat} (h : VirtRequest A sp st vaddr count flags)
    (hp : flags &&& PAGE_PRESENT ≠ 0) (hok : BackedOk A sp st vaddr paddr count flags)
    (hcall : allocVirtPages A sp vaddr paddr count flags st = some (r, st')) (hr : r ≠ 0) :
    Backed st' sp paddr count r := by
  obtain ⟨st₁, hend, rfl⟩ := allocVirtPages_end hcall
  rw [backed_mutexRelease]
  exact AllocEnd.backed (q := (r, st₁)) h.locked hp (backedOk_locked.mpr hok) hend hr

/-- **Which allocations are backed.** When the call returns an address, its pages are mapped to
consecutive frames and recorded under the condition `BackedOk`, and only then when the table does not
move. -/
theorem allocVirtPages_backed (A : PhysAllocator) (sp : Space) (st st' : VirtState)
    (vaddr paddr count flags r : Nat) (h : VirtRequest A sp st vaddr count flags)
    (hp : flags &&& PAGE_PRESENT ≠ 0)
    (hcall : allocVirtPages A sp vaddr paddr count flags st = some (r, st')) (hr : r ≠ 0) :
    (BackedOk A sp st vaddr paddr count flags → Backed st' sp paddr count r) ∧
      (Stays sp (st.spaces sp) → GivenUsed A st.machine paddr count →
        Backed st' sp paddr count r → BackedOk A sp st vaddr paddr count flags) := by
  refine ⟨fun hok => h.backed hp hok hcall hr, fun hs hgiv hb => ?_⟩
  obtain ⟨st₁, hend, rfl⟩ := allocVirtPages_end hcall
  rw [backed_mutexRelease] at hb
  refine backedOk_locked.mp (AllocEnd.backedOk (q := (r, st₁)) h.locked hgiv hp ?_ hend hr hb)
  rw [VirtState.spaces_locked]
  exact hs

theorem virtRequest_emptySpaces {vaddr count : Nat} (hv : vaddr < 2 ^ 32) (hc : 1 ≤ count) :
    VirtRequest safeAllocator (.process 0) emptySpaces vaddr count 3 := by
  refine ⟨directory_emptyDirectory, ⟨List.Pairwise.nil, ?_, ?_, ?_⟩, by decide, hv, hc,
    by decide, fun v _ _ i _ k _ hs => ?_⟩
  · exact fun b hb => absurd hb List.not_mem_nil
  · exact fun b hb => absurd hb List.not_mem_nil
  · exact fun b hb => absurd hb List.not_mem_nil
  · exact emptySpaces_empty.empty _ (dirIndex_lt _) hs.1

/-- One page, which is backed. -/
theorem allocVirtPages_backed_page : ∃ st',
    allocVirtPages safeAllocator (.process 0) 0 NIL 1 3 emptySpaces = some (0x7FFFF000, st') ∧
      Backed st' (.process 0) NIL 1 0x7FFFF000 := by
  have h : (allocVirtPages safeAllocator (.process 0) 0 NIL 1 3 emptySpaces).bind (fun r =>
      (safeAllocator.alloc 1 emptySpaces.machine).map fun q => (r.1, q.1)) =
      some (0x7FFFF000, 0x13000) := by decide +kernel
  obtain ⟨⟨r, st'⟩, hcall, h⟩ := Option.bind_eq_some_iff.mp h
  obtain ⟨⟨p, m⟩, halloc, h⟩ := Option.map_eq_some_iff.mp h
  obtain ⟨rfl, rfl⟩ := Prod.mk.inj h
  refine ⟨st', hcall, (allocVirtPages_backed safeAllocator (.process 0) emptySpaces st' 0 NIL 1 3 _
    (virtRequest_emptySpaces (by decide) (Nat.le_refl 1)) (by decide) hcall (by decide)).1 ⟨?_, by decide, ?_, ?_⟩⟩
  · intro _ m' he
    exact absurd (Prod.mk.inj (Option.some.inj (halloc.symm.trans he))).1 (by decide)
  · rintro ⟨h, -⟩
    cases h
  · exact fun hs => absurd (Or.inr (by decide)) hs

/-- **Without frames, an address is returned** that is mapped to none, and that no entry of the table
records. -/
theorem unbacked_address : ∃ st', VirtRequest safeAllocator (.process 0) emptySpaces 0 5 3 ∧
    allocVirtPages safeAllocator (.process 0) 0 NIL 5 3 emptySpaces = some (0x7FFFB000, st') ∧
      ¬ Backed st' (.process 0) NIL 5 0x7FFFB000 := by
  have h : (allocVirtPages safeAllocator (.process 0) 0 NIL 5 3 emptySpaces).map (fun r =>
      (r.1, (r.2.spaces (.process 0)).blockCount)) = some (0x7FFFB000, 0) := by decide +kernel
  obtain ⟨⟨r, st'⟩, hcall, h⟩ := Option.map_eq_some_iff.mp h
  obtain ⟨rfl, hcount⟩ := Prod.mk.inj h
  refine ⟨st', virtRequest_emptySpaces (by decide) (by decide), hcall, ?_⟩
  rintro ⟨-, b, hb, -⟩
  have := List.length_pos_of_mem hb
  rw [length_blockList, hcount] at this
  exact absurd this (Nat.lt_irrefl 0)

end C4os
