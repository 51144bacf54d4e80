import C4os.Memory.Keeps
import C4os.Memory.VirtMapping
import C4os.Sched.Isolation

/-!
# The TSS of a process

* `TssAt`: the TSS is where it was installed; `TssAt.call`: a call that spares it.
* **`tss_stays`**: runs on the address space of a new process whose calls spare its TSS;
  `tss_displaced`: one that does not.
-/

namespace C4os

open Machine Pages Word Transition

variable {A : PhysAllocator} {s s' s'' : Machine} {dir v vaddr paddr count flags i k : Nat}
  {R R' : Nat → Prop} {sp : Space} {st st' : VirtState}

/-- The address of the TSS. -/
def tssAddress : Nat := USER_MEMORY_END - PAGE_SIZE * 3 + 1

/-- A call that spares the page of the TSS: the pages that it may map are others. The table has room,
and the frames that are returned, by `free_virt_pages` or at the label `fail`, are whole pages in use
that belong to no page table. -/
def VirtOp.SparesTss (A : PhysAllocator) (sp : Space) (st : VirtState) : VirtOp → Prop
  | .alloc vaddr paddr count _ => vaddr < 2 ^ 32 ∧ 1 ≤ count ∧
      (st.spaces sp).blockCount ≠ (st.spaces sp).blockTableSize ∧
      FramesOk A st.machine (st.spaces sp).pageDir paddr count ∧
      ¬ Reached A (st.spaces sp) st.machine vaddr paddr count tssAddress
  | .free vaddr => ∀ i < (st.spaces sp).blockCount, ((st.spaces sp).blocks i).base ≤ vaddr →
      vaddr < add32 ((st.spaces sp).blocks i).base ((st.spaces sp).blocks i).length →
      (⟨andNot (st.machine.getPageInfo (st.spaces sp).pageDir vaddr).1 PAGE_OFFSET_MASK,
        ((st.spaces sp).blocks i).length >>> PAGE_OFFSET_BITS⟩ : Range).Valid ∧
      ∀ p ∈ (⟨andNot (st.machine.getPageInfo (st.spaces sp).pageDir vaddr).1 PAGE_OFFSET_MASK,
        ((st.spaces sp).blocks i).length >>> PAGE_OFFSET_BITS⟩ : Range).pages,
        Apart A st.machine (st.spaces sp).pageDir p

/-- The TSS of the process is where it was installed. -/
structure TssAt (A : PhysAllocator) (dir entry : Nat) (as : AddressSpace) (s : Machine) : Prop where
  directory : Directory A s dir
  unshared : ¬ SharesEntry s dir tssAddress 1023
  pageDir : as.pageDir = dir
  info : s.info dir tssAddress = entry

theorem TssAt.keeps {entry : Nat} {as as' : AddressSpace} (h : TssAt A dir entry as s)
    (hk : Keeps A s s' dir R) (hr : ¬ R tssAddress) (has : as'.pageDir = as.pageDir) :
    TssAt A dir entry as' s' :=
  ⟨hk.directory, fun hs => h.unshared ((hk.shares _ _).mp hs), has.trans h.pageDir,
    (hk.info _ (by decide) h.unshared hr).trans h.info⟩

/-- One call. -/
theorem TssAt.call {entry : Nat} {op : VirtOp}
    (h : TssAt A dir entry (st.spaces sp) st.machine) (hop : op.SparesTss A sp st)
    (hc : VirtCall A sp st op st') : TssAt A dir entry (st'.spaces sp) st'.machine := by
  cases op with
  | alloc vaddr paddr count flags =>
    obtain ⟨hv, hcount, hroom, hframes, hspares⟩ := hop
    obtain ⟨r, hr⟩ := hc
    obtain ⟨st₁, hend, rfl⟩ := allocVirtPages_end hr
    have hdir := hend.pageDir
    obtain rfl := h.pageDir
    have hk := (AllocEnd.spares (by rw [VirtState.spaces_locked]; exact h.directory) hv hcount
      (Or.inr (by rwa [VirtState.spaces_locked])) (by rwa [VirtState.spaces_locked]) hend).toKeeps
    rw [VirtState.spaces_locked] at hdir hk
    have hspares' : ¬ (st.spaces sp).Touched A sp st.machine vaddr paddr count tssAddress :=
      fun ht => ht.elim hspares fun hg => hroom hg.1.2
    rw [VirtState.spaces_mutexRelease]
    exact h.keeps hk hspares' hdir
  | free vaddr =>
    obtain ⟨b, hb⟩ := hc
    obtain ⟨-, ⟨-, he⟩ | ⟨-, i, hi, h1, h2, m, hm, he⟩⟩ := freeVirtPages_cases rfl hb
    · dsimp only at he
      rw [he, VirtState.spaces_setSpace]
      exact ⟨h.directory, h.unshared, h.pageDir, h.info⟩
    · dsimp only at he hm
      rw [he, VirtState.spaces_setSpace]
      obtain ⟨hvalid, hap⟩ := hop i hi h1 h2
      obtain rfl := h.pageDir
      have hg := getPageInfo_mapped h.directory vaddr
      have hf := spares_free hg.directory hvalid (fun p hp => (hg.apart (hap p hp)).1) hm
      exact h.keeps (hg.spares.trans hf).toKeeps id rfl

/-! ## The page directory of a new process -/

variable {start : Nat} {s₀ : Machine} {qs : List Nat} {kernel : Kernel}

/-- The frame of the new page directory holds no present entry when it is handed out, the entries
apart that are written. -/
def PageTables.Fresh (T : PageTables A dir start s₀) : Prop :=
  ∀ i < 1024, i ≠ 0 → i ≠ 511 → i ≠ 1022 → i ≠ 1023 → ¬ Present (T.s₃.mem T.pageDir i)

/-- A present entry of the new page directory points to a table of the process, or is one of the
kernel's. -/
theorem PageTables.Built.entry_cases {T : PageTables A dir start s₀} (h : T.Built qs s)
    (hf : T.Fresh) (hi : i < 1024) (hp : Present (s.mem T.pageDir i)) :
    i = 0 ∧ frameOf (s.mem T.pageDir i) = T.first ∨
      i = 511 ∧ frameOf (s.mem T.pageDir i) = T.tss ∨ s.mem T.pageDir i = s.mem dir i := by
  have he := h.dirEntry i
  unfold PageTables.dirEntry at he
  by_cases h0 : i = 0
  · subst h0
    exact Or.inl ⟨rfl, h.dir_zero.2.1⟩
  by_cases h1 : i = 511
  · subst h1
    have htss := (h.held.apart T.tss (by simp [PageTables.frames])).frame
    refine Or.inr (Or.inl ⟨rfl, ?_⟩)
    rw [he]
    exact frameOf_or htss (by decide)
  refine Or.inr (Or.inr ?_)
  by_cases h2 : i = 1022
  · subst h2
    rw [he] at hp ⊢
    exact (h.kernelEntry 1022 hi hp).symm
  by_cases h3 : i = 1023
  · subst h3
    rw [he] at hp ⊢
    exact (h.kernelEntry 1023 hi hp).symm
  rw [if_neg h3, if_neg h2, if_neg h1, if_neg h0] at he
  rw [he] at hp
  exact absurd hp (hf i hi h0 h1 h2 h3)

/-- **The page directory of a new process** is one, when its frame held no present entries. -/
theorem PageTables.Built.directory {T : PageTables A dir start s₀} (h : T.Built qs s)
    (hf : T.Fresh) : Directory A s T.pageDir := by
  have hmem : ∀ q ∈ [T.pageDir, T.tss, T.first], q ∈ T.frames ++ qs := by
    simp +contextual [PageTables.frames]
  have hdir := h.held.apart T.pageDir (hmem _ (by simp))
  have htss := h.held.apart T.tss (hmem _ (by simp))
  have hfirst := h.held.apart T.first (hmem _ (by simp))
  have hnd := h.held.nodup
  simp only [PageTables.frames, List.cons_append, List.nil_append, List.nodup_cons, List.mem_cons,
    not_or] at hnd
  obtain ⟨-, ⟨hdt, hdf, -⟩, ⟨htf, -⟩, -⟩ := hnd
  -- a frame of the process is no table of the kernel
  have hown : ∀ {q j}, Apart A s dir q → j < 1024 → Present (s.mem T.pageDir j) →
      s.mem T.pageDir j = s.mem dir j → frameOf (s.mem T.pageDir j) ≠ q := by
    rintro q j hq hj hp he rfl
    exact hq.not_owned (Or.inr (Or.inr ⟨j, hj, he ▸ hp, by rw [he]⟩))
  refine ⟨h.held.directory.ok, hdir.frame, fun i hi hp => ⟨?_, fun j hj hp' he => ?_⟩, hdir.not_free,
    h.held.directory.window_used, fun i hi hp => ?_, hdir.ne_window⟩
  · obtain ⟨-, hi'⟩ | ⟨-, hi'⟩ | hi' := h.entry_cases hf hi hp
    · rw [hi']
      exact fun e => hdf e.symm
    · rw [hi']
      exact fun e => hdt e.symm
    · exact hown hdir hi hp hi'
  · obtain ⟨hi0, hi'⟩ | ⟨hi0, hi'⟩ | hi' := h.entry_cases hf hi hp <;>
      obtain ⟨hj0, hj'⟩ | ⟨hj0, hj'⟩ | hj' := h.entry_cases hf hj hp'
    · rw [hi0, hj0]
    · exact absurd (hj'.symm.trans (he.symm.trans hi')) htf
    · exact absurd (he.symm.trans hi') (hown hfirst hj hp' hj')
    · exact absurd (hi'.symm.trans (he.trans hj')) htf
    · rw [hi0, hj0]
    · exact absurd (he.symm.trans hi') (hown htss hj hp' hj')
    · exact absurd (he.trans hj') (hown hfirst hi hp hi')
    · exact absurd (he.trans hj') (hown htss hi hp hi')
    · rw [hi'] at hp he
      rw [hj'] at hp' he
      exact (h.held.directory.tables i hi hp).2 j hj hp' he
  · obtain ⟨-, hi'⟩ | ⟨-, hi'⟩ | hi' := h.entry_cases hf hi hp
    · rw [hi']
      exact hfirst.not_free
    · rw [hi']
      exact htss.not_free
    · rw [hi'] at hp ⊢
      exact h.held.directory.table_used i hi hp

theorem directory_imageMachine (dirty : Bool) :
    Directory safeAllocator (imageMachine dirty) 0x2000 :=
  ((smallNewProcess dirty).copied (directory_smallMachine dirty)).1.directory

end C4os
