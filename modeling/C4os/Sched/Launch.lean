import C4os.ListFs.Kernel
import C4os.Memory.VirtRun
import C4os.Sched.Switch
import C4os.Sched.Tables

/-!
# Launching a process (`multitasking.c`, `kernel.c`)

* `createThread`, `runImage`, `runNewProcess`: the functions. A kernel object lies
  in a page of its own; its fields start as the words that the page's frame holds.
* `Requests`: what the requests of `run_image` behind the page tables return; `Requests.Clean`: the
  fields of the new objects that are read before they are written start as zero.
* `Attempt`: a run, whatever its allocations return; `Attempt.runImage_eq`: how it ends. `Launch`: a
  run whose allocations all succeed.
* **`runImage_iff`**: which launches end with the process and its thread on their lists.
-/

namespace C4os

open Machine LittleEndian Linked

/-- Where a program is loaded. -/
def USER_PROGRAM_BASE : Nat := 0x100000

/-! ## The kernel's objects -/

/-- The fields of `Process` behind its list item and its address space. -/
structure ProcessRecord where
  suspend : Bool
  threadCount : Nat

/-- The fields of `Thread` behind its list item. -/
structure ThreadRecord where
  process : Nat
  suspend : Bool
  stackBase : Nat
  stackSize : Nat
  state : Registers

/-- The memory managers and the objects of multitasking. The address space of the process at `p` is
`.process p`. -/
structure Kernel where
  virt : VirtState
  heap : ListHeap
  processes : Nat → ProcessRecord
  threads : Nat → ThreadRecord
  /-- `&process_list`. -/
  processList : Nat
  /-- `&thread_list`. -/
  threadList : Nat

/-- The word `i` of the kernel's page `v`. -/
def VirtState.word (st : VirtState) (v i : Nat) : Nat :=
  st.machine.mem (frameOf (st.machine.info (st.spaces .kernel).pageDir v)) i

/-- A list item whose words are those of the page `v`. -/
def VirtState.staleItem (st : VirtState) (v : Nat) : ListItem :=
  ⟨st.word v 0, st.word v 1, st.word v 2⟩

/-- An `AddressSpace` whose words are `w`. -/
def AddressSpace.ofWords (w : Nat → Nat) : AddressSpace where
  pageDir := w 0
  start := w 1
  endAddr := w 2
  blockTableSize := w 3
  blockCount := w 4
  blocksAddr := w 5
  blocks := fun _ => ⟨.reserved, 0, 0⟩
  mutex := w 6 ≠ 0

/-- A `Registers` whose words are `w`. -/
def Registers.ofWords (w : Nat → Nat) : Registers where
  gs := .ofNat (w 0)
  fs := .ofNat (w 1)
  es := .ofNat (w 2)
  ds := .ofNat (w 3)
  ebp := .ofNat (w 4)
  edi := .ofNat (w 5)
  esi := .ofNat (w 6)
  edx := .ofNat (w 7)
  ecx := .ofNat (w 8)
  ebx := .ofNat (w 9)
  eax := .ofNat (w 10)
  eip := .ofNat (w 11)
  cs := .ofNat (w 12)
  eflags := .ofNat (w 13)
  esp := .ofNat (w 14)
  ss := .ofNat (w 15)

/-- `memset(&thread->state, 0, sizeof(Registers))`. -/
def Registers.zero : Registers := .ofWords fun _ => 0

namespace Kernel

/-- The list item `i` becomes `item`. -/
def setItem (i : Nat) (item : ListItem) (k : Kernel) : Kernel :=
  { k with heap := k.heap.setItem i item }

/-- The process `p` becomes `r`. -/
def setProcess (p : Nat) (r : ProcessRecord) (k : Kernel) : Kernel :=
  { k with processes := Function.update k.processes p r }

/-- The thread `t` becomes `r`. -/
def setThread (t : Nat) (r : ThreadRecord) (k : Kernel) : Kernel :=
  { k with threads := Function.update k.threads t r }

/-- The address space of the process `p` becomes `as`. -/
def setSpace (p : Nat) (as : AddressSpace) (k : Kernel) : Kernel :=
  { k with virt := k.virt.setSpace (.process p) as }

/-- The page `p`, seen as a `Process`. -/
def asProcess (p : Nat) (k : Kernel) : Kernel :=
  (k.setItem p (k.virt.staleItem p)).setSpace p (.ofWords fun i => k.virt.word p (3 + i)) |>.setProcess p
    { suspend := k.virt.word p 10 ≠ 0, threadCount := k.virt.word p 11 }

/-- The page `t`, seen as a `Thread`. -/
def asThread (t : Nat) (k : Kernel) : Kernel :=
  (k.setItem t (k.virt.staleItem t)).setThread t
    { process := k.virt.word t 3
      suspend := k.virt.word t 4 ≠ 0
      stackBase := k.virt.word t 5
      stackSize := k.virt.word t 6
      state := .ofWords fun i => k.virt.word t (8 + i) }

end Kernel

/-- The request of the kernel for one page of its own address space. -/
def allocKernelPage (A : PhysAllocator) (flags : Nat) (k : Kernel) : Option (Nat × Kernel) :=
  (allocVirtPages A .kernel 0 NIL 1 flags k.virt).map fun r => (r.1, { k with virt := r.2 })

/-! ## The functions of a launch -/

/-- `init_address_space`, for the process at `p`. It does not write the mutex. -/
def initAddressSpaceOf (A : PhysAllocator) (p pageDir : Nat) (k : Kernel) : Option Kernel :=
  let k := k.setSpace p { k.virt.spaces (.process p) with
    pageDir := pageDir
    start := USER_MEMORY_START
    endAddr := USER_MEMORY_END
    blockTableSize := PAGE_SIZE / blockBytes }
  (allocKernelPage A (PAGE_PRESENT ||| PAGE_WRITABLE ||| PAGE_GLOBAL) k).map fun r =>
    r.2.setSpace p { r.2.virt.spaces (.process p) with blocksAddr := r.1, blockCount := 0 }

/-- The registers of a new thread. -/
def entryState (entryPoint esp : Nat) (kernel : Bool) : Registers :=
  let dataSelector : UInt32 := if kernel then 16 else 35
  { Registers.zero with
    eflags := 0x202
    cs := if kernel then 8 else 27
    eip := .ofNat entryPoint
    ss := dataSelector
    esp := .ofNat esp
    ds := dataSelector
    es := dataSelector
    fs := dataSelector
    gs := dataSelector }

/-- The stack of a new thread. -/
def allocStack (A : PhysAllocator) (process pages : Nat) (kernel : Bool) (k : Kernel) :
    Option (Nat × Kernel) :=
  (allocVirtPages A (.process process) 0x200000 NIL pages
    (PAGE_PRESENT ||| PAGE_WRITABLE ||| if kernel then 0 else PAGE_USER) k.virt).map fun r =>
      (r.1, { k with virt := r.2 })

/-- `create_thread`. -/
def createThread (A : PhysAllocator) (process entryPoint stackSizeInPages : Nat)
    (kernel suspend : Bool) (k : Kernel) : Option (Nat × Kernel) :=
  (allocKernelPage A (PAGE_PRESENT ||| PAGE_WRITABLE) k).bind fun r =>
    let thread := r.1
    let k := r.2.asThread thread
    let k := k.setThread thread { k.threads thread with
      process := process, suspend := suspend, stackSize := pageShift stackSizeInPages }
    (allocStack A process stackSizeInPages kernel k).bind fun q =>
      let k := q.2.setThread thread { q.2.threads thread with
        stackBase := q.1
        state := entryState entryPoint (add32 q.1 (pageShift stackSizeInPages)) kernel }
      (listAppend k.threadList thread k.heap).map fun heap =>
        let k := { k with heap := heap }
        (thread, k.setProcess process { k.processes process with
          threadCount := add32 (k.processes process).threadCount 1 })

/-- `run_image` from the page for the new process on. -/
def initProcess (A : PhysAllocator) (p pageDir : Nat) (k : Kernel) : Option Kernel :=
  (initAddressSpaceOf A p pageDir k).bind fun k =>
    let k := k.setProcess p { suspend := false, threadCount := 0 }
    (listAppend k.processList p k.heap).bind fun heap =>
      (createThread A p USER_PROGRAM_BASE 1 false false { k with heap := heap }).map Prod.snd

/-- `run_image`. -/
def runImage (A : PhysAllocator) (start : Nat) (k : Kernel) : Option Kernel :=
  (initPageTables A (k.virt.spaces .kernel).pageDir start k.virt.machine).bind fun r =>
    let k := { k with virt := k.virt.setMachine r.2 }
    (allocKernelPage A (PAGE_PRESENT ||| PAGE_WRITABLE) k).bind fun q =>
      initProcess A q.1 r.1 (q.2.asProcess q.1)

/-- The word `i` of a sector. -/
def Sector.word (sector : Sector) (i : Nat) : Nat := decode ((sector.bytes.drop (4 * i)).take 4)

/-- `memcpy(TEMP_PAGE, dma_buffer, floppy_sector_size)`. -/
def Machine.tempCopy (sector : Sector) (s : Machine) : Machine :=
  { s with mem := fun q j => if q = s.window ∧ j < 512 / 4 then sector.word j else s.mem q j }

/-- `run_new_process`. -/
def runNewProcess (A : PhysAllocator) (disk : Disk) (rest fileName : List UInt8) (fuel s : Nat)
    (k : Kernel) : Option Kernel :=
  (findFile disk rest fileName fuel s).bind fun sector =>
    (A.alloc 1 k.virt.machine).bind fun image =>
      let m := (image.2.tempMapPage image.1).tempCopy (disk sector)
      runImage A image.1 { k with virt := k.virt.setMachine m }

/-! ## What the allocations of a launch return -/

/-- A request of the kernel for a page that returns, met or not. -/
structure Returned (A : PhysAllocator) (flags : Nat) (st : VirtState) where
  page : Nat
  after : VirtState
  eq : allocVirtPages A .kernel 0 NIL 1 flags st = some (page, after)

section

variable {A : PhysAllocator} {flags start : Nat} {st : VirtState}

/-- The request added a block. -/
def Returned.Met (r : Returned A flags st) : Prop :=
  (r.after.spaces .kernel).blockCount = (st.spaces .kernel).blockCount + 1

/-- The process at the returned page, when `init_address_space` asks for the block table. -/
def Returned.openSpace (r : Returned A flags st) (pageDir : Nat) : VirtState :=
  r.after.setSpace (.process r.page)
    { AddressSpace.ofWords fun i => r.after.word r.page (3 + i) with
      pageDir := pageDir
      start := USER_MEMORY_START
      endAddr := USER_MEMORY_END
      blockTableSize := PAGE_SIZE / blockBytes }

/-- The process at `p`, when `init_address_space` has the block table. -/
def Returned.closeSpace (r : Returned A flags st) (p : Nat) : VirtState :=
  r.after.setSpace (.process p)
    { r.after.spaces (.process p) with blocksAddr := r.page, blockCount := 0 }

/-- With the mutex of the process held. -/
def Returned.lockSpace (r : Returned A flags st) (p : Nat) : VirtState :=
  r.after.setSpace (.process p) { r.after.spaces (.process p) with mutex := true }

/-- The requests of `run_image` behind the page tables, up to the appends, whatever they return: the
pages for the process, its block table and its thread, and the stack, once the mutex of the process is
taken. -/
structure Requests (A : PhysAllocator) (k : Kernel) (pageDir : Nat) (m : Machine) where
  process : Returned A (PAGE_PRESENT ||| PAGE_WRITABLE) (k.virt.setMachine m)
  space : Returned A (PAGE_PRESENT ||| PAGE_WRITABLE ||| PAGE_GLOBAL) (process.openSpace pageDir)
  thread : Returned A (PAGE_PRESENT ||| PAGE_WRITABLE) (space.closeSpace process.page)
  stack : Nat
  afterStack : VirtState
  stack_eq : allocLockedVirt A (growProcess A) (.process process.page) 0x200000 NIL 1
    (PAGE_PRESENT ||| PAGE_WRITABLE ||| PAGE_USER) (thread.lockSpace process.page) =
      some (stack, afterStack)

/-- The fields that `run_image` reads before it writes them start as zero: the list tags of both
objects and the mutex of the process. -/
structure Requests.Clean {k : Kernel} {pageDir : Nat} {m : Machine} (R : Requests A k pageDir m) :
    Prop where
  processList : R.process.after.word R.process.page 2 = 0
  processMutex : R.process.after.word R.process.page 9 = 0
  threadList : R.thread.after.word R.thread.page 2 = 0

/-- A call of `init_page_tables` that returns. -/
structure TableCall (A : PhysAllocator) (start : Nat) (k : Kernel) where
  pageDir : Nat
  m : Machine
  tables : initPageTables A (k.virt.spaces .kernel).pageDir start k.virt.machine = some (pageDir, m)

/-- A run of `run_image`, up to the appends: what its allocations return. `run_image` checks none of
it. -/
structure Attempt (A : PhysAllocator) (start : Nat) (k : Kernel) extends TableCall A start k,
    Requests A k pageDir m

/-- The page tables of a launch. -/
structure NewTables (A : PhysAllocator) (start : Nat) (k : Kernel) where
  tables : PageTables A (k.virt.spaces .kernel).pageDir start k.virt.machine

/-- A launch of the image at `start` whose allocations succeed: the page tables, and the pages for the
process, its block table and its thread. The request for the stack returns; with a `StackFrame` it is
met. -/
structure Launch (A : PhysAllocator) (start : Nat) (k : Kernel) extends NewTables A start k,
    Requests A k tables.pageDir tables.final where
  process_met : process.Met
  space_met : space.Met
  thread_met : thread.Met

/-- The frame of the stack. -/
structure Launch.StackFrame {k : Kernel} (L : Launch A start k) where
  frame : Nat
  m : Machine
  alloc_frame : A.alloc 1 L.thread.after.machine = some (frame, m)
  frame_ne : frame ≠ NIL

/-- The lists before a run; the pages `p` and `t` hold none of their items. -/
structure ListsBefore (k : Kernel) (ps ts : List Nat) (p t : Nat) : Prop where
  processes : OnRing k.heap k.processList ps
  threads : OnRing k.heap k.threadList ts
  processes_free : (k.heap.lists k.processList).mutex = false
  threads_free : (k.heap.lists k.threadList).mutex = false
  lists_ne : k.threadList ≠ k.processList
  disjoint : ps.Disjoint ts
  process_new : p ∉ ps ∧ p ∉ ts
  thread_new : t ∉ ps ∧ t ∉ ts

/-- The lists before a launch, with two new pages. -/
structure ListsReady (k : Kernel) (ps ts : List Nat) (p t : Nat) : Prop extends
    ListsBefore k ps ts p t where
  ne : t ≠ p

/-- The process and its thread are on their lists once, and the process counts its thread. -/
structure Launched (k : Kernel) (p t : Nat) : Prop where
  process : ∃ r, OnRing k.heap k.processList r ∧ r.count p = 1
  thread : ∃ r, OnRing k.heap k.threadList r ∧ r.count t = 1
  threadCount : (k.processes p).threadCount = 1

/-! ## What `run_image` does -/

variable {k : Kernel} {pageDir : Nat} {m : Machine}

theorem Returned.kernel_eq (r : Returned A flags st) (k : Kernel) :
    allocKernelPage A flags { k with virt := st } = some (r.page, { k with virt := r.after }) := by
  unfold allocKernelPage
  rw [r.eq]
  rfl

theorem Returned.others (r : Returned A flags st) : Others .kernel st r.after :=
  allocVirt_others (fun _ _ => growKernel_others) r.eq

theorem Requests.space_eq (R : Requests A k pageDir m) :
    R.thread.after.spaces (.process R.process.page) =
      initAddressSpace pageDir R.space.page (fun _ => ⟨.reserved, 0, 0⟩)
        (decide (R.process.after.word R.process.page 9 ≠ 0)) := by
  have hne : Space.process R.process.page ≠ .kernel := Space.noConfusion
  have hopen : R.space.after.spaces (.process R.process.page) = _ :=
    (R.space.others _ hne).trans (VirtState.spaces_setSpace ..)
  rw [R.thread.others _ hne]
  unfold Returned.closeSpace
  rw [VirtState.spaces_setSpace, hopen]
  rfl

theorem Requests.stack_request (R : Requests A k pageDir m) :
    allocVirtPages A (.process R.process.page) 0x200000 NIL 1
        (PAGE_PRESENT ||| PAGE_WRITABLE ||| PAGE_USER) R.thread.after =
      if R.process.after.word R.process.page 9 ≠ 0 then none
      else some (R.stack, R.afterStack.mutexRelease (.process R.process.page)) := by
  have hne : Space.process R.process.page ≠ .kernel := Space.noConfusion
  have hmutex : (R.thread.after.spaces (.process R.process.page)).mutex =
      decide (R.process.after.word R.process.page 9 ≠ 0) := by
    rw [R.space_eq]
    rfl
  unfold allocVirtPages allocVirt VirtState.mutexGet
  rw [if_neg hne, hmutex]
  by_cases h : R.process.after.word R.process.page 9 ≠ 0
  · rw [if_pos (by simpa using h), if_pos h]
    rfl
  · rw [if_neg (by simpa using h), if_neg h, Option.bind_some]
    show (allocLockedVirt A (growProcess A) _ _ _ _ _ (R.thread.lockSpace R.process.page)).map _ = _
    rw [R.stack_eq]
    rfl

/-- The kernel when `init_address_space` has returned. -/
def Requests.initialised (R : Requests A k pageDir m) : Kernel :=
  { ({ k with virt := R.process.after } : Kernel).asProcess R.process.page with
    virt := R.space.closeSpace R.process.page }

theorem Requests.initAddressSpaceOf_eq (R : Requests A k pageDir m) :
    initAddressSpaceOf A R.process.page pageDir
        (({ k with virt := R.process.after } : Kernel).asProcess R.process.page) =
      some R.initialised := by
  have hopen : (({ k with virt := R.process.after } : Kernel).asProcess R.process.page).virt.setSpace
      (.process R.process.page) { AddressSpace.ofWords fun i => R.process.after.word R.process.page
        (3 + i) with
          pageDir := pageDir
          start := USER_MEMORY_START
          endAddr := USER_MEMORY_END
          blockTableSize := PAGE_SIZE / blockBytes } = R.process.openSpace pageDir :=
    VirtState.setSpace_setSpace ..
  have has : (({ k with virt := R.process.after } : Kernel).asProcess R.process.page).virt.spaces
      (.process R.process.page) = .ofWords fun i => R.process.after.word R.process.page (3 + i) :=
    VirtState.spaces_setSpace ..
  unfold initAddressSpaceOf Kernel.setSpace
  dsimp only
  rw [has, hopen, R.space.kernel_eq]
  rfl

/-- The kernel before `create_thread`, by its list heap. -/
def Requests.beforeThread (R : Requests A k pageDir m) (h : ListHeap) : Kernel :=
  { R.initialised.setProcess R.process.page ⟨false, 0⟩ with heap := h }

/-- The kernel after the run, by its list heap. -/
def Requests.done (R : Requests A k pageDir m) (h : ListHeap) : Kernel where
  virt := R.afterStack.mutexRelease (.process R.process.page)
  heap := h
  processes := Function.update k.processes R.process.page ⟨false, 1⟩
  threads := Function.update k.threads R.thread.page ⟨R.process.page, false, R.stack, pageShift 1,
    entryState USER_PROGRAM_BASE (add32 R.stack (pageShift 1)) false⟩
  processList := k.processList
  threadList := k.threadList

theorem Requests.allocStack_eq (R : Requests A k pageDir m) {k₁ : Kernel} (hk : k₁.virt = R.thread.after) :
    allocStack A R.process.page 1 false k₁ =
      if R.process.after.word R.process.page 9 ≠ 0 then none
      else some (R.stack, { k₁ with
        virt := R.afterStack.mutexRelease (.process R.process.page) }) := by
  unfold allocStack
  rw [hk, if_neg Bool.false_ne_true]
  show (allocVirtPages A _ _ _ 1 (PAGE_PRESENT ||| PAGE_WRITABLE ||| PAGE_USER) _).map _ = _
  rw [R.stack_request]
  split_ifs <;> rfl

/-- `create_thread` waits for ever when the mutex of the process is held, or appends the thread to
its list. -/
theorem Requests.createThread_eq (R : Requests A k pageDir m) (h : ListHeap) :
    createThread A R.process.page USER_PROGRAM_BASE 1 false false (R.beforeThread h) =
      if R.process.after.word R.process.page 9 ≠ 0 then none
      else (listAppend k.threadList R.thread.page
        (h.setItem R.thread.page (R.thread.after.staleItem R.thread.page))).map fun h' =>
          (R.thread.page, R.done h') := by
  have hpage : allocKernelPage A (PAGE_PRESENT ||| PAGE_WRITABLE) (R.beforeThread h) =
      some (R.thread.page, { R.beforeThread h with virt := R.thread.after }) :=
    R.thread.kernel_eq (R.beforeThread h)
  unfold createThread
  rw [hpage, Option.bind_some]
  dsimp only
  rw [R.allocStack_eq rfl]
  split_ifs with hm
  · rfl
  · rw [Option.bind_some]
    congr 1
    funext h'
    have hone : add32 0 1 = 1 := add32_eq (by decide)
    simp [Requests.done, Requests.beforeThread, Requests.initialised, Kernel.setProcess,
      Kernel.setThread, Kernel.asThread, Kernel.asProcess, Kernel.setItem, Kernel.setSpace, hone]

/-- **`run_image`, when its allocations return**: it waits for ever, or appends the process and its
thread to their lists. -/
theorem Attempt.runImage_eq (X : Attempt A start k) :
    runImage A start k = (listAppend k.processList X.process.page
      (k.heap.setItem X.process.page (X.process.after.staleItem X.process.page))).bind fun h =>
        if X.process.after.word X.process.page 9 ≠ 0 then none
        else (listAppend k.threadList X.thread.page
          (h.setItem X.thread.page (X.thread.after.staleItem X.thread.page))).map X.done := by
  have hrun : runImage A start k = (listAppend k.processList X.process.page
      (k.heap.setItem X.process.page (X.process.after.staleItem X.process.page))).bind fun h =>
        (createThread A X.process.page USER_PROGRAM_BASE 1 false false (X.beforeThread h)).map
          Prod.snd := by
    unfold runImage
    rw [X.tables, Option.bind_some]
    dsimp only
    rw [X.process.kernel_eq, Option.bind_some]
    unfold initProcess
    rw [X.initAddressSpaceOf_eq, Option.bind_some]
    rfl
  rw [hrun]
  congr 1
  funext h
  rw [X.createThread_eq]
  split_ifs
  · rfl
  · rw [Option.map_map]
    rfl

/-- A launch is a run. -/
def Launch.attempt (L : Launch A start k) : Attempt A start k where
  pageDir := L.tables.pageDir
  m := L.tables.final
  tables := L.tables.eq
  toRequests := L.toRequests

/-- **`run_image`, when its allocations succeed**: it waits for ever, or appends the process and its
thread to their lists. -/
theorem Launch.runImage_eq (L : Launch A start k) :
    runImage A start k = (listAppend k.processList L.process.page
      (k.heap.setItem L.process.page (L.process.after.staleItem L.process.page))).bind fun h =>
        if L.process.after.word L.process.page 9 ≠ 0 then none
        else (listAppend k.threadList L.thread.page
          (h.setItem L.thread.page (L.thread.after.staleItem L.thread.page))).map L.done :=
  L.attempt.runImage_eq

theorem Returned.page_ne {r : Returned A flags st} (hm : r.Met) : r.page ≠ 0 := by
  obtain ⟨st₁, hend, he⟩ := allocVirtPages_end r.eq
  unfold Met at hm
  rw [he, VirtState.spaces_mutexRelease] at hm
  obtain ⟨hs, -⟩ | ⟨-, hne, -⟩ := hend.table
  · dsimp only at hs
    rw [hs, VirtState.spaces_locked] at hm
    exact absurd hm (Nat.ne_of_lt (Nat.lt_succ_self _))
  · exact hne

variable {ps ts : List Nat}

theorem ListsBefore.of_virt {p t : Nat} {virt : VirtState} (hl : ListsBefore k ps ts p t) :
    ListsBefore { k with virt := virt } ps ts p t :=
  ⟨hl.processes, hl.threads, hl.processes_free, hl.threads_free, hl.lists_ne, hl.disjoint,
    hl.process_new, hl.thread_new⟩

theorem ListsBefore.ne_process {p t x : Nat} (hl : ListsBefore k ps ts p t) (hx : x ∈ ts) :
    x ≠ p ∧ x ∉ ps :=
  ⟨fun e => hl.process_new.2 (e ▸ hx), fun hx' => hl.disjoint hx' hx⟩

theorem ListsBefore.ne_thread {p t x : Nat} (hl : ListsBefore k ps ts p t) (hx : x ∈ ps) :
    x ≠ t ∧ x ∉ ts :=
  ⟨fun e => hl.thread_new.1 (e ▸ hx), fun hx' => hl.disjoint hx hx'⟩

theorem list_setItem (h : ListHeap) (i : Nat) (item : ListItem) :
    ((h.setItem i item).items i).list = item.list := by simp [ListHeap.setItem]

theorem Launch.clean (L : Launch A start k)
    (hl : ListsReady k ps ts L.process.page L.thread.page) {k' : Kernel}
    (hrun : runImage A start k = some k') (hk' : Launched k' L.process.page L.thread.page) :
    L.Clean := by
  rw [L.runImage_eq] at hrun
  have hps₀ := hl.processes.setItem hl.process_new.1 (L.process.after.staleItem L.process.page)
  have hts₀ := hl.threads.setItem hl.process_new.2 (L.process.after.staleItem L.process.page)
  obtain ⟨h₁, happ, hrun⟩ := Option.bind_eq_some_iff.mp hrun
  split_ifs at hrun with hm
  obtain ⟨h₂, happ', rfl⟩ := Option.map_eq_some_iff.mp hrun
  obtain ⟨hts₁, -⟩ := listAppend_other hps₀ hts₀ hl.lists_ne (fun _ => hl.ne_process) happ
  refine ⟨?_, not_not.mp hm, ?_⟩
  · -- a tagged process is not appended, and the append of the thread leaves its list alone
    by_contra hne
    rw [listAppend, if_neg (by rwa [list_setItem])] at happ
    obtain rfl := Option.some.inj happ
    obtain ⟨r, hr, hcount⟩ := hk'.process
    obtain ⟨hps₂, -⟩ := listAppend_other (hts₁.setItem hl.thread_new.2 _)
      (hps₀.setItem hl.thread_new.1 _) hl.lists_ne.symm (fun _ => hl.ne_thread) happ'
    obtain rfl : r = ps := hr.ext hps₂
    rw [List.count_eq_zero_of_not_mem hl.process_new.1] at hcount
    exact absurd hcount Nat.zero_ne_one
  · by_contra hne
    rw [listAppend, if_neg (by rwa [list_setItem])] at happ'
    obtain rfl := Option.some.inj happ'
    obtain ⟨r, hr, hcount⟩ := hk'.thread
    obtain rfl : r = ts := hr.ext (hts₁.setItem hl.thread_new.2 _)
    rw [List.count_eq_zero_of_not_mem hl.thread_new.2] at hcount
    exact absurd hcount Nat.zero_ne_one

theorem Launch.rings (L : Launch A start k) (hc : L.Clean)
    (hl : ListsReady k ps ts L.process.page L.thread.page) :
    ∃ h, runImage A start k = some (L.done h) ∧ OnRing h k.processList (ps ++ [L.process.page]) ∧
      OnRing h k.threadList (ts ++ [L.thread.page]) := by
  have hps₀ := hl.processes.setItem hl.process_new.1 (L.process.after.staleItem L.process.page)
  have hts₀ := hl.threads.setItem hl.process_new.2 (L.process.after.staleItem L.process.page)
  obtain ⟨h₁, happ, hps₁, -, -⟩ := listAppend_onRing hps₀ hl.processes_free
    ((list_setItem ..).trans hc.processList) hl.process_new.1 (Returned.page_ne L.process_met)
  obtain ⟨hts₁, hlist₁⟩ := listAppend_other hps₀ hts₀ hl.lists_ne (fun _ => hl.ne_process) happ
  have hfree₁ : (h₁.lists k.threadList).mutex = false := by
    rw [hlist₁]
    exact hl.threads_free
  obtain ⟨h₂, happ', hts₂, -, -⟩ := listAppend_onRing
    (hts₁.setItem hl.thread_new.2 (L.thread.after.staleItem L.thread.page)) hfree₁
    ((list_setItem ..).trans hc.threadList) hl.thread_new.2 (Returned.page_ne L.thread_met)
  have hnew : L.thread.page ∉ ps ++ [L.process.page] := by
    simp [hl.thread_new.1, hl.ne]
  have hps' : ∀ x ∈ ps ++ [L.process.page], x ≠ L.thread.page ∧ x ∉ ts := by
    intro x hx
    rcases List.mem_append.mp hx with hx | hx
    · exact hl.ne_thread hx
    · obtain rfl := List.mem_singleton.mp hx
      exact ⟨hl.ne.symm, hl.process_new.2⟩
  obtain ⟨hps₂, -⟩ := listAppend_other (hts₁.setItem hl.thread_new.2 _)
    (hps₁.setItem hnew _) hl.lists_ne.symm hps' happ'
  refine ⟨h₂, ?_, hps₂, hts₂⟩
  rw [L.runImage_eq, happ, Option.bind_some, if_neg (not_not.mpr hc.processMutex), happ']
  rfl

theorem Launch.launched (L : Launch A start k) (hc : L.Clean)
    (hl : ListsReady k ps ts L.process.page L.thread.page) :
    ∃ k', runImage A start k = some k' ∧ Launched k' L.process.page L.thread.page := by
  obtain ⟨h, hrun, hps, hts⟩ := L.rings hc hl
  refine ⟨L.done h, hrun, ⟨_, hps, ?_⟩, ⟨_, hts, ?_⟩, ?_⟩
  · rw [List.count_append, List.count_eq_zero_of_not_mem hl.process_new.1]
    simp
  · rw [List.count_append, List.count_eq_zero_of_not_mem hl.thread_new.2]
    simp
  · simp [Requests.done]

/-- **A launch whose allocations succeed ends with the process and its thread on their lists exactly
when the fields read before they are written start as zero.** -/
theorem runImage_iff (L : Launch A start k)
    (hl : ListsReady k ps ts L.process.page L.thread.page) :
    (∃ k', runImage A start k = some k' ∧ Launched k' L.process.page L.thread.page) ↔ L.Clean :=
  ⟨fun ⟨_, hrun, hk'⟩ => L.clean hl hrun hk', fun hc => L.launched hc hl⟩

end

/-! ## A small launch

The free frames hold zeros. Dirty ones hold ones in the word that was the size of a free block, and in
the words behind the first 512 bytes. -/

/-- The machine after `alloc_phys_pages(1)`. -/
def afterAlloc (s : Machine) : Machine := ((allocPhysPages (2 ^ 20) 1 s).getD (NIL, s)).2

theorem alloc_afterAlloc {s : Machine} {p : Nat}
    (h : (allocPhysPages (2 ^ 20) 1 s).map Prod.fst = some p) :
    safeAllocator.alloc 1 s = some (p, afterAlloc s) := by
  obtain ⟨⟨q, s'⟩, hs, rfl⟩ := Option.map_eq_some_iff.mp h
  show allocPhysPages (2 ^ 20) 1 s = _
  unfold afterAlloc
  rw [hs]
  rfl

/-- A request of the kernel, by evaluation. -/
noncomputable def Returned.eval {flags : Nat} {st : VirtState} (page : Nat)
    (h : (allocVirtPages safeAllocator .kernel 0 NIL 1 flags st).map Prod.fst = some page) :
    Returned safeAllocator flags st where
  page := page
  after := ((allocVirtPages safeAllocator .kernel 0 NIL 1 flags st).getD (0, st)).2
  eq := by
    obtain ⟨⟨q, st'⟩, hs, rfl⟩ := Option.map_eq_some_iff.mp h
    rw [hs]
    rfl

/-- The frames of `init_page_tables`, by evaluation. -/
def PageTables.eval {dir start : Nat} {m : Machine} (first tss pageDir page : Nat)
    (hfirst : (allocPhysPages (2 ^ 20) 1 m).map Prod.fst = some first)
    (htss : (allocPhysPages (2 ^ 20) 1 (afterAlloc m)).map Prod.fst = some tss)
    (hpageDir : (allocPhysPages (2 ^ 20) 1
      (((afterAlloc (afterAlloc m)).tempMapPage dir).tempMapPage dir)).map Prod.fst = some pageDir)
    (hpage : (allocPhysPages (2 ^ 20) 1
      (((afterAlloc (((afterAlloc (afterAlloc m)).tempMapPage dir).tempMapPage dir)).linkTables
        pageDir first tss (((afterAlloc (afterAlloc m)).tempMapPage dir).tempGet 1022)
        ((((afterAlloc (afterAlloc m)).tempMapPage dir).tempMapPage dir).tempGet 1023)).filled first
          start)).map Prod.fst = some page)
    (hframe : Frame first ∧ start < 2 ^ 32)
    (hne : first ≠ NIL ∧ tss ≠ NIL ∧ pageDir ≠ NIL ∧ page ≠ NIL) :
    PageTables safeAllocator dir start m :=
  let s := afterAlloc (afterAlloc m)
  let s' := afterAlloc ((s.tempMapPage dir).tempMapPage dir)
  { first, tss, pageDir, page
    s₁ := afterAlloc m
    s₂ := s
    s₃ := s'
    s₄ := afterAlloc ((s'.linkTables pageDir first tss ((s.tempMapPage dir).tempGet 1022)
      (((s.tempMapPage dir).tempMapPage dir).tempGet 1023)).filled first start)
    alloc_first := alloc_afterAlloc hfirst
    alloc_tss := alloc_afterAlloc htss
    alloc_pageDir := alloc_afterAlloc hpageDir
    alloc_page := by
      rw [fillFirst_filled hframe.1 hframe.2]
      exact alloc_afterAlloc hpage
    first_ne := hne.1
    tss_ne := hne.2.1
    pageDir_ne := hne.2.2.1
    page_ne := hne.2.2.2 }

/-- The directory of the kernel at `0x2000`, and 32 free pages at `0x10000`. -/
def smallMachine (dirty : Bool) : Machine :=
  ⟨fun p i => if p = 0x2000 then if i = 1023 then 0x1003 else 0
    else if p = 0x10000 ∧ i < 3 then if i = SIZE then 32 else 0x10000
    else if dirty ∧ 0x10000 ≤ p ∧ p < 0x30000 ∧ (i = SIZE ∨ 128 ≤ i) then 1 else 0,
    0x1000, 32, 0x10000, false⟩

/-- A kernel without processes, on clean or on dirty frames. -/
def smallKernel (dirty : Bool) : Kernel where
  virt := ⟨smallMachine dirty, fun _ => initMemoryManager 0x2000 (fun _ => ⟨.reserved, 0, 0⟩) false⟩
  heap := ⟨fun _ => ⟨0, 0, 0⟩, fun _ => ⟨0, 0, false⟩⟩
  processes := fun _ => ⟨false, 0⟩
  threads := fun _ => ⟨0, false, 0, 0, .zero⟩
  processList := 1
  threadList := 2

/-- The file `a`: its header in sector 1, its list in sector 2, its data in sector 3. -/
def programDisk : Disk := fun s =>
  if s = 1 then .ofBytes (97 :: List.replicate 287 0 ++ encode 8 2)
  else if s = 2 then .ofBytes (encode 8 3 ++ encode 8 COMMON_INDICATOR_64)
  else .ofBytes [0xEB, 0xFE]

/-- The image of the program is in memory. -/
def imageMachine (dirty : Bool) : Machine :=
  ((afterAlloc (smallMachine dirty)).tempMapPage 0x2F000).tempCopy (programDisk 3)

/-- The same when the image has its frame. -/
def imageKernel (dirty : Bool) : Kernel :=
  { smallKernel dirty with virt := (smallKernel dirty).virt.setMachine (imageMachine dirty) }

theorem frame_small : Frame 0x2E000 ∧ 0x2F000 < 2 ^ 32 := by
  unfold Frame
  decide

theorem small_ne : 0x2E000 ≠ NIL ∧ 0x2D000 ≠ NIL ∧ 0x2C000 ≠ NIL ∧ 0x2B000 ≠ NIL := by decide

/-- The page tables of a process. -/
def smallTables (dirty : Bool) : PageTables safeAllocator 0x2000 0x2F000 (imageMachine dirty) :=
  .eval 0x2E000 0x2D000 0x2C000 0x2B000 (by revert dirty; decide +kernel)
    (by revert dirty; decide +kernel) (by revert dirty; decide +kernel)
    (by revert dirty; decide +kernel) frame_small small_ne

/-- The page of its record. -/
noncomputable def smallProcess (dirty : Bool) : Returned safeAllocator
    (PAGE_PRESENT ||| PAGE_WRITABLE)
    ((imageKernel dirty).virt.setMachine (smallTables dirty).final) :=
  .eval 0xFFBFF000 (by revert dirty; decide +kernel)

/-- The page of its block table. -/
noncomputable def smallSpace (dirty : Bool) : Returned safeAllocator
    (PAGE_PRESENT ||| PAGE_WRITABLE ||| PAGE_GLOBAL)
    ((smallProcess dirty).openSpace (smallTables dirty).pageDir) :=
  .eval 0xFFBFE000 (by revert dirty; decide +kernel)

/-- The page of its thread. -/
noncomputable def smallThread (dirty : Bool) : Returned safeAllocator
    (PAGE_PRESENT ||| PAGE_WRITABLE) ((smallSpace dirty).closeSpace (smallProcess dirty).page) :=
  .eval 0xFFBFD000 (by revert dirty; decide +kernel)

theorem small_met : ∀ dirty,
    (smallProcess dirty).Met ∧ (smallSpace dirty).Met ∧ (smallThread dirty).Met := by
  unfold Returned.Met
  decide +kernel

/-- The request for its stack. -/
noncomputable def smallStack (dirty : Bool) : Option (Nat × VirtState) :=
  allocLockedVirt safeAllocator (growProcess safeAllocator)
    (.process (smallProcess dirty).page) 0x200000 NIL 1
    (PAGE_PRESENT ||| PAGE_WRITABLE ||| PAGE_USER)
    ((smallThread dirty).lockSpace (smallProcess dirty).page)

theorem smallStack_eq : ∀ dirty, (smallStack dirty).map Prod.fst = some 0x200000 := by
  decide +kernel

/-- The launch with these requests. -/
noncomputable def smallLaunch (dirty : Bool) :
    Launch safeAllocator 0x2F000 (imageKernel dirty) where
  tables := smallTables dirty
  process := smallProcess dirty
  space := smallSpace dirty
  thread := smallThread dirty
  stack := 0x200000
  afterStack := ((smallStack dirty).getD (0, (imageKernel dirty).virt)).2
  stack_eq := by
    obtain ⟨⟨q, st'⟩, hs, rfl⟩ := Option.map_eq_some_iff.mp (smallStack_eq dirty)
    show smallStack dirty = _
    rw [hs]
    rfl
  process_met := (small_met dirty).1
  space_met := (small_met dirty).2.1
  thread_met := (small_met dirty).2.2

theorem imageKernel_ready (dirty : Bool) :
    ListsReady (imageKernel dirty) [] [] 0xFFBFF000 0xFFBFD000 := by
  refine ⟨⟨rfl, rfl, rfl, rfl, ?_, ?_, ?_, ?_⟩, ?_⟩ <;>
    simp [imageKernel, smallKernel]

theorem smallLaunch_clean : (smallLaunch false).Clean :=
  ⟨by decide +kernel, by decide +kernel, by decide +kernel⟩

theorem smallLaunch_stale :
    (smallLaunch true).process.after.word (smallLaunch true).process.page 2 = 1 ∧
      (smallLaunch true).process.after.word (smallLaunch true).process.page 9 = 0 ∧
      (smallLaunch true).thread.after.word (smallLaunch true).thread.page 2 = 1 := by
  refine ⟨?_, ?_, ?_⟩ <;> decide +kernel

/-- On frames of zeros. -/
theorem runImage_iff_small :
    ∃ k', runImage safeAllocator 0x2F000 (imageKernel false) = some k' ∧
      Launched k' 0xFFBFF000 0xFFBFD000 :=
  (runImage_iff (smallLaunch false) (imageKernel_ready false)).mpr smallLaunch_clean

/-- On dirty frames, the process and its thread seem to be on a list already. -/
theorem stale_launch_lost :
    ¬ ∃ k', runImage safeAllocator 0x2F000 (imageKernel true) = some k' ∧
      Launched k' (smallLaunch true).process.page (smallLaunch true).thread.page := by
  rintro ⟨k', hrun, hk'⟩
  have hc := (smallLaunch true).clean (imageKernel_ready true) hrun hk'
  exact absurd (smallLaunch_stale.1.symm.trans hc.processList) Nat.one_ne_zero

theorem smallLaunch_returns (dirty : Bool) :
    ∃ k', runImage safeAllocator 0x2F000 (imageKernel dirty) = some k' := by
  cases dirty with
  | false =>
    obtain ⟨k', hrun, -⟩ := (smallLaunch false).launched smallLaunch_clean (imageKernel_ready false)
    exact ⟨k', hrun⟩
  | true =>
    obtain ⟨h1, h2, h3⟩ := smallLaunch_stale
    rw [(smallLaunch true).runImage_eq, listAppend, list_setItem,
      if_neg (by unfold VirtState.staleItem; rw [h1]; decide), Option.bind_some,
      if_neg (not_not.mpr h2), listAppend, list_setItem,
      if_neg (by unfold VirtState.staleItem; rw [h3]; decide)]
    exact ⟨_, rfl⟩

end C4os
