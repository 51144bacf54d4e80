import C4os.Memory.Mapped
import C4os.Memory.Search
import C4os.Memory.VirtRun

/-!
# What the virtual memory manager does to the tables

* `AllocEnd.of_met`: an allocation that adds a block has frames for it, and maps them.
* `growKernel_mapped`, `recordBlock_mapped`: the tables while an entry is recorded.
* **`allocVirt_mapped`**: an allocation of the kernel that adds a block.
-/

namespace C4os

open Machine

variable {A : PhysAllocator} {sp : Space} {vaddr paddr count flags i : Nat} {st : VirtState}
  {q : Nat × VirtState}

/-- The table of `sp` is not moved by a new entry; that of the kernel never is. -/
def Stays (sp : Space) (as : AddressSpace) : Prop :=
  sp = .kernel ∨ as.blockCount ≠ as.blockTableSize

/-- The page behind the last block, into which the table of the kernel grows. -/
def growPage (as : AddressSpace) : Nat :=
  add32 (as.blocks (as.blockCount - 1)).base (as.blocks (as.blockCount - 1)).length

theorem growPage_lt (as : AddressSpace) : growPage as < 2 ^ 32 := add32_lt _ _

/-- **An allocation that adds a block has frames for it, and maps them.** -/
theorem AllocEnd.of_met (h : AllocEnd A (growTable A sp) sp vaddr NIL count flags st q)
    (hm : (q.2.spaces sp).blockCount = (st.spaces sp).blockCount + 1) :
    ∃ p m₁ m₂, q.1 ≠ 0 ∧ q.1 = (findPlace (st.spaces sp) vaddr count).1 ∧
      A.alloc count st.machine = some (p, m₁) ∧ p ≠ NIL ∧
      mapPages (A.alloc 1) (st.spaces sp).pageDir q.1 p count flags m₁ = some (true, m₂) ∧
      recordBlock (growTable A sp) sp (findPlace (st.spaces sp) vaddr count).2
        ⟨.memory, q.1, pageShift count⟩ (st.setMachine m₂) = some (true, q.2) := by
  cases h with
  | noPlace => exact absurd hm (Nat.ne_of_lt (Nat.lt_succ_self _))
  | noFrames => exact absurd hm (Nat.ne_of_lt (Nat.lt_succ_self _))
  | recorded place frames ne mapped entry =>
    obtain ⟨halloc, rfl⟩ := takeFrames_alloc frames
    exact ⟨_, _, _, place, rfl, halloc, ne, mapped, entry⟩
  | notRecorded _ _ _ _ entry =>
    obtain ⟨-, hs⟩ | ⟨h, -⟩ := recordBlock_table entry
    · dsimp only at hs hm
      rw [VirtState.spaces_setMachine, hs] at hm
      exact absurd hm (Nat.ne_of_lt (Nat.lt_succ_self _))
    · exact absurd h Bool.noConfusion
  | notMapped => exact absurd hm (Nat.ne_of_lt (Nat.lt_succ_self _))

/-- The table of the kernel grows by mapping one more page. -/
theorem growKernel_mapped {r : Bool × VirtState}
    (hd : Directory A st.machine (st.spaces sp).pageDir) (h : growKernel A sp st = some r) :
    Mapped A st.machine r.2.machine (st.spaces sp).pageDir
      (InPages (growPage (st.spaces sp)) 1) := by
  unfold growKernel at h
  dsimp only at h
  obtain ⟨⟨p, m⟩, halloc, h⟩ := Option.bind_eq_some_iff.mp h
  have hm := Mapped.alloc hd (Nat.le_refl 1) halloc
  dsimp only at h
  split_ifs at h
  · obtain rfl := Option.some.inj h
    exact hm.mono fun _ _ hf => hf.elim
  · obtain ⟨⟨ok, m'⟩, hmap, h⟩ := Option.bind_eq_some_iff.mp h
    have hm' := mapPages_mapped hm.directory (add32_lt _ _) hmap
    dsimp only at h
    split_ifs at h
    obtain rfl := Option.some.inj h
    exact (hm.trans hm').mono fun _ _ h => h.elim False.elim id

/-- A new entry maps the page that the table grows into, when it is full and does not move. -/
theorem recordBlock_mapped {b : VirtMemoryBlock} {r : Bool × VirtState}
    (hd : Directory A st.machine (st.spaces sp).pageDir) (hs : Stays sp (st.spaces sp))
    (h : recordBlock (growTable A sp) sp i b st = some r) :
    Mapped A st.machine r.2.machine (st.spaces sp).pageDir
      fun w => GrowsKernel sp (st.spaces sp) ∧ InPages (growPage (st.spaces sp)) 1 w := by
  unfold recordBlock at h
  dsimp only at h
  split_ifs at h with hfull
  · have hk := hs.resolve_right (not_not.mpr hfull)
    obtain ⟨⟨ok, st₁⟩, hgrow, rfl⟩ := Option.map_eq_some_iff.mp h
    rw [growTable, if_pos hk] at hgrow
    have hm := growKernel_mapped hd hgrow
    cases ok with
    | true => exact hm.mono fun _ _ hw => ⟨⟨hk, hfull⟩, hw⟩
    | false => exact hm.mono fun _ _ hw => ⟨⟨hk, hfull⟩, hw⟩
  · obtain rfl := Option.some.inj h
    exact .refl hd _

/-- **An allocation of the kernel that adds a block** works on the kernel's tables. -/
theorem allocVirt_mapped (hd : Directory A st.machine (st.spaces .kernel).pageDir)
    (h : allocVirtPages A .kernel 0 NIL 1 flags st = some q)
    (hm : (q.2.spaces .kernel).blockCount = (st.spaces .kernel).blockCount + 1) :
    Mapped A st.machine q.2.machine (st.spaces .kernel).pageDir (fun _ => True) ∧
      (q.2.spaces .kernel).pageDir = (st.spaces .kernel).pageDir ∧ q.1 ≠ 0 := by
  obtain ⟨st₁, hend, he⟩ := allocVirtPages_end h
  rw [he, VirtState.spaces_mutexRelease] at hm ⊢
  obtain ⟨p, m₁, m₂, hne, heq, halloc, -, hmap, hrec⟩ := hend.of_met (by
    rw [VirtState.spaces_locked]
    exact hm)
  rw [VirtState.spaces_locked] at hmap
  have hm₁ := Mapped.alloc hd (Nat.le_refl 1) halloc
  have hlt : q.1 < 2 ^ 32 := by
    rw [heq]
    exact findPlace_lt _ _ (Nat.two_pow_pos 32)
  have hm₂ := mapPages_mapped hm₁.directory hlt hmap
  have hm₃ := recordBlock_mapped (by
    rw [VirtState.spaces_setMachine, VirtState.spaces_locked]
    exact hm₂.directory) (Or.inl rfl) hrec
  rw [VirtState.spaces_setMachine, VirtState.spaces_locked] at hm₃
  refine ⟨((hm₁.trans hm₂).trans hm₃).mono fun _ _ _ => trivial, ?_, hne⟩
  have hdir := hend.pageDir
  rwa [VirtState.spaces_locked] at hdir

end C4os
