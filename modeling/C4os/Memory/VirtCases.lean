import C4os.Memory.VirtTable

/-!
# The calls of the virtual memory manager, case by case

* `AllocEnd`: the ways in which `alloc_virt_pages` ends; `allocLockedVirt_end`.
* `Others sp st st'`: only the address space `sp` changes; `allocVirt_others`,
  `freeVirtPages_others`.
* `AtGrowth`: memory when a table grows; `Grown`: what that does to the table; `growProcess_cases`:
  how the table of a process moves; `AllocEnd.table`: what an allocation does to a table.
* `freeVirtPages_cases`: what `free_virt_pages` does.
-/

namespace C4os

open Word Machine

/-- How `alloc_virt_pages` ends, from the state `st` with the mutex held. -/
inductive AllocEnd (A : PhysAllocator) (grow : Space → VirtState → Option (Bool × VirtState))
    (sp : Space) (vaddr paddr count flags : Nat) (st : VirtState) : Nat × VirtState → Prop where
  | noPlace (place : (findPlace (st.spaces sp) vaddr count).1 = 0) :
      AllocEnd A grow sp vaddr paddr count flags st (0, st)
  | noFrames {m : Machine} (place : (findPlace (st.spaces sp) vaddr count).1 ≠ 0)
      (nil : paddr = NIL) (frames : A.alloc count st.machine = some (NIL, m)) :
      AllocEnd A grow sp vaddr paddr count flags st
        ((findPlace (st.spaces sp) vaddr count).1, st.setMachine m)
  | recorded {p : Nat} {type : VirtMemoryBlockType} {m₁ m₂ : Machine} {st' : VirtState}
      (place : (findPlace (st.spaces sp) vaddr count).1 ≠ 0)
      (frames : takeFrames A paddr count st.machine = some ((p, type), m₁)) (ne : p ≠ NIL)
      (mapped : mapPages (A.alloc 1) (st.spaces sp).pageDir
        (findPlace (st.spaces sp) vaddr count).1 p count flags m₁ = some (true, m₂))
      (entry : recordBlock grow sp (findPlace (st.spaces sp) vaddr count).2
        ⟨type, (findPlace (st.spaces sp) vaddr count).1, pageShift count⟩ (st.setMachine m₂) =
          some (true, st')) :
      AllocEnd A grow sp vaddr paddr count flags st
        ((findPlace (st.spaces sp) vaddr count).1, st')
  | notRecorded {p : Nat} {type : VirtMemoryBlockType} {m₁ m₂ m₃ : Machine} {st' : VirtState}
      (place : (findPlace (st.spaces sp) vaddr count).1 ≠ 0)
      (frames : takeFrames A paddr count st.machine = some ((p, type), m₁)) (ne : p ≠ NIL)
      (mapped : mapPages (A.alloc 1) (st.spaces sp).pageDir
        (findPlace (st.spaces sp) vaddr count).1 p count flags m₁ = some (true, m₂))
      (entry : recordBlock grow sp (findPlace (st.spaces sp) vaddr count).2
        ⟨type, (findPlace (st.spaces sp) vaddr count).1, pageShift count⟩ (st.setMachine m₂) =
          some (false, st'))
      (fail : failAlloc A (st'.spaces sp).pageDir (findPlace (st.spaces sp) vaddr count).1 p count
        st'.machine = some m₃) :
      AllocEnd A grow sp vaddr paddr count flags st (0, st'.setMachine m₃)
  | notMapped {p : Nat} {type : VirtMemoryBlockType} {m₁ m₂ m₃ : Machine}
      (place : (findPlace (st.spaces sp) vaddr count).1 ≠ 0)
      (frames : takeFrames A paddr count st.machine = some ((p, type), m₁)) (ne : p ≠ NIL)
      (mapped : mapPages (A.alloc 1) (st.spaces sp).pageDir
        (findPlace (st.spaces sp) vaddr count).1 p count flags m₁ = some (false, m₂))
      (fail : failAlloc A (st.spaces sp).pageDir (findPlace (st.spaces sp) vaddr count).1 p count
        m₂ = some m₃) :
      AllocEnd A grow sp vaddr paddr count flags st (0, st.setMachine m₃)

variable {A : PhysAllocator} {grow : Space → VirtState → Option (Bool × VirtState)} {sp : Space}
  {vaddr paddr count flags : Nat} {st st' st'' : VirtState} {q : Nat × VirtState}

theorem takeFrames_alloc {p : Nat} {type : VirtMemoryBlockType} {m m' : Machine}
    (h : takeFrames A NIL count m = some ((p, type), m')) :
    A.alloc count m = some (p, m') ∧ type = .memory := by
  obtain ⟨⟨r, m₁⟩, hr, he⟩ := Option.map_eq_some_iff.mp h
  simp only [Prod.mk.injEq] at he
  obtain ⟨⟨rfl, rfl⟩, rfl⟩ := he
  exact ⟨hr, rfl⟩

theorem takeFrames_nil {type : VirtMemoryBlockType} {m m' : Machine}
    (h : takeFrames A paddr count m = some ((NIL, type), m')) :
    paddr = NIL ∧ A.alloc count m = some (NIL, m') := by
  by_cases hp : paddr = NIL
  · subst hp
    exact ⟨rfl, (takeFrames_alloc h).1⟩
  · unfold takeFrames at h
    rw [if_neg hp] at h
    exact absurd (Prod.mk.inj (Prod.mk.inj (Option.some.inj h)).1).1 hp

/-- **How an allocation ends.** -/
theorem allocLockedVirt_end (h : allocLockedVirt A grow sp vaddr paddr count flags st = some q) :
    AllocEnd A grow sp vaddr paddr count flags st q := by
  unfold allocLockedVirt at h
  dsimp only at h
  by_cases hplace : (findPlace (st.spaces sp) vaddr count).1 = 0
  · rw [if_neg (not_not.mpr hplace)] at h
    obtain rfl := Option.some.inj h
    exact .noPlace hplace
  rw [if_pos hplace] at h
  obtain ⟨⟨⟨p, type⟩, m₁⟩, hf, h⟩ := Option.bind_eq_some_iff.mp h
  by_cases hp : p = NIL
  · dsimp only at h
    rw [if_neg (not_not.mpr hp)] at h
    obtain rfl := Option.some.inj h
    obtain ⟨hnil, ha⟩ := takeFrames_nil (hp ▸ hf)
    exact .noFrames hplace hnil ha
  dsimp only at h
  rw [if_pos hp] at h
  unfold mapBlock at h
  obtain ⟨⟨ok, m₂⟩, hm, h⟩ := Option.bind_eq_some_iff.mp h
  cases ok with
  | false =>
    obtain ⟨m₃, hfail, rfl⟩ := Option.map_eq_some_iff.mp h
    exact .notMapped hplace hf hp hm hfail
  | true =>
    obtain ⟨⟨ok', st'⟩, hrec, h⟩ := Option.bind_eq_some_iff.mp h
    cases ok' with
    | true =>
      obtain rfl := Option.some.inj h
      exact .recorded hplace hf hp hm hrec
    | false =>
      obtain ⟨m₃, hfail, rfl⟩ := Option.map_eq_some_iff.mp h
      exact .notRecorded hplace hf hp hm hrec hfail

/-! ## The other address spaces -/

/-- Only the address space `sp` changes. -/
def Others (sp : Space) (st st' : VirtState) : Prop :=
  ∀ sp', sp' ≠ sp → st'.spaces sp' = st.spaces sp'

theorem Others.refl : Others sp st st := fun _ _ => rfl

theorem Others.trans (h : Others sp st st') (h' : Others sp st' st'') : Others sp st st'' :=
  fun sp' hsp => (h' sp' hsp).trans (h sp' hsp)

theorem Others.setSpace (h : Others sp st st') (as : AddressSpace) :
    Others sp st (st'.setSpace sp as) :=
  h.trans fun _ hsp => VirtState.spaces_setSpace_of_ne _ _ hsp

theorem Others.setMachine (h : Others sp st st') (m : Machine) : Others sp st (st'.setMachine m) := h

theorem mutexGet_eq (h : st.mutexGet sp = some st') :
    (st.spaces sp).mutex = false ∧ st' = st.setSpace sp { st.spaces sp with mutex := true } := by
  unfold VirtState.mutexGet at h
  split_ifs at h with hm
  exact ⟨by simpa using hm, (Option.some.inj h).symm⟩

theorem recordBlock_others {i : Nat} {b : VirtMemoryBlock} {r : Bool × VirtState}
    (hg : ∀ st r, grow sp st = some r → Others sp st r.2)
    (h : recordBlock grow sp i b st = some r) : Others sp st r.2 := by
  unfold recordBlock at h
  dsimp only at h
  split_ifs at h
  · obtain ⟨⟨ok, st₁⟩, hgrow, rfl⟩ := Option.map_eq_some_iff.mp h
    cases ok with
    | true => exact Others.setSpace (hg _ _ hgrow) _
    | false => exact hg _ _ hgrow
  · obtain rfl := Option.some.inj h
    exact Others.refl.setSpace _

theorem AllocEnd.others (hg : ∀ st r, grow sp st = some r → Others sp st r.2)
    (h : AllocEnd A grow sp vaddr paddr count flags st q) : Others sp st q.2 := by
  cases h with
  | noPlace => exact Others.refl
  | noFrames => exact Others.refl.setMachine _
  | recorded _ _ _ _ entry => exact recordBlock_others hg entry
  | notRecorded _ _ _ _ entry => exact (recordBlock_others hg entry).setMachine _
  | notMapped => exact Others.refl.setMachine _

theorem allocVirt_others (hg : ∀ st r, grow sp st = some r → Others sp st r.2)
    (h : allocVirt A grow sp vaddr paddr count flags st = some q) : Others sp st q.2 := by
  unfold allocVirt at h
  obtain ⟨st₁, hget, h⟩ := Option.bind_eq_some_iff.mp h
  obtain ⟨-, rfl⟩ := mutexGet_eq hget
  obtain ⟨r, hr, rfl⟩ := Option.map_eq_some_iff.mp h
  exact ((Others.refl.setSpace _).trans ((allocLockedVirt_end hr).others hg)).setSpace _

theorem growKernel_others {r : Bool × VirtState} (h : growKernel A sp st = some r) :
    Others sp st r.2 := by
  unfold growKernel at h
  dsimp only at h
  obtain ⟨⟨p, m⟩, -, h⟩ := Option.bind_eq_some_iff.mp h
  split_ifs at h
  · obtain rfl := Option.some.inj h
    exact Others.refl.setMachine _
  · obtain ⟨⟨ok, m'⟩, -, h⟩ := Option.bind_eq_some_iff.mp h
    dsimp only at h
    split_ifs at h
    obtain rfl := Option.some.inj h
    exact (Others.refl.setMachine _).setSpace _

theorem freeVirtPages_others {r : Bool × VirtState} (h : freeVirtPages A sp vaddr st = some r) :
    Others sp st r.2 := by
  unfold freeVirtPages at h
  obtain ⟨st₁, hget, h⟩ := Option.bind_eq_some_iff.mp h
  obtain ⟨-, rfl⟩ := mutexGet_eq hget
  dsimp only at h
  split_ifs at h
  · obtain ⟨st₂, hfree, rfl⟩ := Option.map_eq_some_iff.mp h
    unfold freeBlock at hfree
    obtain ⟨m, -, rfl⟩ := Option.map_eq_some_iff.mp hfree
    exact (((Others.refl.setSpace _).setMachine _).setSpace _).setSpace _
  · obtain rfl := Option.some.inj h
    exact (Others.refl.setSpace _).setSpace _

/-! ## The table -/

/-- The last block, one page longer. -/
def AddressSpace.growLast (as : AddressSpace) : Nat → VirtMemoryBlock :=
  Function.update as.blocks (as.blockCount - 1)
    { as.blocks (as.blockCount - 1) with
      length := add32 (as.blocks (as.blockCount - 1)).length PAGE_SIZE }

/-- With the size that `alloc_virt_pages` gives to a larger table. -/
def AddressSpace.larger (as : AddressSpace) : AddressSpace :=
  { as with blockTableSize := pageShift as.newTablePages / blockBytes }

/-- The table of the kernel is full, so that an allocation grows it. -/
def GrowsKernel (sp : Space) (as : AddressSpace) : Prop :=
  sp = .kernel ∧ as.blockCount = as.blockTableSize

instance (sp : Space) (as : AddressSpace) : Decidable (GrowsKernel sp as) :=
  inferInstanceAs (Decidable (_ ∧ _))

/-- The table before the new entry: the last block of the kernel has grown when the table was
full. -/
structure Grown (sp : Space) (as as' : AddressSpace) : Prop where
  pageDir : as'.pageDir = as.pageDir
  start : as'.start = as.start
  endAddr : as'.endAddr = as.endAddr
  blockCount : as'.blockCount = as.blockCount
  blocks : as'.blocks = if GrowsKernel sp as then as.growLast else as.blocks

/-- The growth of the table that `alloc_virt_pages` uses. -/
def growTable (A : PhysAllocator) (sp : Space) : Space → VirtState → Option (Bool × VirtState) :=
  if sp = .kernel then growKernel A else growProcess A

/-- Memory when the table of `sp` grows: the frames of the request are taken, and its pages are
mapped. -/
def AtGrowth (A : PhysAllocator) (sp : Space) (vaddr paddr count flags : Nat) (st : VirtState)
    (m : Machine) : Prop :=
  ∃ p type m₁, takeFrames A paddr count st.machine = some ((p, type), m₁) ∧
    mapPages (A.alloc 1) (st.spaces sp).pageDir (findPlace (st.spaces sp) vaddr count).1 p count
      flags m₁ = some (true, m)

/-- **How a table moves**: there are no pages for the larger one, or it is copied and the old one is
freed. -/
theorem growProcess_cases {r : Bool × VirtState} (h : growProcess A sp st = some r) :
    ∃ a st₁, allocVirtPages A .kernel 0 NIL (st.spaces sp).newTablePages
        (PAGE_PRESENT ||| PAGE_WRITABLE) st = some (a, st₁) ∧
      (a = 0 ∧ r = (false, st₁) ∨ a ≠ 0 ∧ ∃ m q,
        copyTable (st₁.spaces .kernel).pageDir a (st.spaces sp).blocks
          ((st.spaces sp).blockTableSize * blockBytes % 2 ^ 32) 0 st₁.machine = some m ∧
        freeVirtPages A .kernel (st.spaces sp).blocksAddr (st₁.setMachine m) = some q ∧
        r = (true, q.2.setSpace sp { q.2.spaces sp with blocksAddr := a })) := by
  unfold growProcess at h
  obtain ⟨⟨a, st₁⟩, halloc, h⟩ := Option.bind_eq_some_iff.mp h
  refine ⟨a, st₁, halloc, ?_⟩
  dsimp only at h
  split_ifs at h with ha
  · exact Or.inl ⟨ha, (Option.some.inj h).symm⟩
  · obtain ⟨m, hcopy, h⟩ := Option.bind_eq_some_iff.mp h
    obtain ⟨q, hfree, rfl⟩ := Option.map_eq_some_iff.mp h
    exact Or.inr ⟨ha, m, q, hcopy, hfree, rfl⟩

theorem growProcess_spaces {r : Bool × VirtState} (hsp : sp ≠ .kernel)
    (h : growProcess A sp st = some r) :
    r.2.spaces sp = st.spaces sp ∧ r.1 = false ∨
      ∃ a, r.2.spaces sp = { st.spaces sp with blocksAddr := a } ∧ r.1 = true := by
  obtain ⟨a, st₁, halloc, h⟩ := growProcess_cases h
  have h₁ : st₁.spaces sp = st.spaces sp :=
    allocVirt_others (fun _ _ => growKernel_others) halloc sp hsp
  rcases h with ⟨-, rfl⟩ | ⟨-, m, q, -, hfree, rfl⟩
  · exact Or.inl ⟨h₁, rfl⟩
  · have h₂ : q.2.spaces sp = st.spaces sp := (freeVirtPages_others hfree sp hsp).trans h₁
    exact Or.inr ⟨a, by simp [h₂], rfl⟩

theorem growKernel_spaces {r : Bool × VirtState} (h : growKernel A sp st = some r) :
    r.2.spaces sp = st.spaces sp ∧ r.1 = false ∨
      r.2.spaces sp = { st.spaces sp with blocks := (st.spaces sp).growLast } ∧ r.1 = true := by
  unfold growKernel at h
  dsimp only at h
  obtain ⟨⟨p, m⟩, -, h⟩ := Option.bind_eq_some_iff.mp h
  split_ifs at h
  · obtain rfl := Option.some.inj h
    exact Or.inl ⟨rfl, rfl⟩
  · obtain ⟨⟨ok, m'⟩, -, h⟩ := Option.bind_eq_some_iff.mp h
    dsimp only at h
    split_ifs at h
    obtain rfl := Option.some.inj h
    exact Or.inr ⟨by simp [AddressSpace.growLast], rfl⟩

theorem recordBlock_table {i : Nat} {b : VirtMemoryBlock} {r : Bool × VirtState}
    (h : recordBlock (growTable A sp) sp i b st = some r) :
    r.1 = false ∧ r.2.spaces sp = st.spaces sp ∨
      r.1 = true ∧ ∃ as', Grown sp (st.spaces sp) as' ∧ r.2.spaces sp = as'.insertBlock i b := by
  unfold recordBlock at h
  dsimp only at h
  by_cases hfull : (st.spaces sp).blockCount = (st.spaces sp).blockTableSize
  · rw [if_pos hfull] at h
    obtain ⟨⟨ok, st₁⟩, hgrow, rfl⟩ := Option.map_eq_some_iff.mp h
    by_cases hsp : sp = .kernel
    · rw [growTable, if_pos hsp] at hgrow
      obtain ⟨hs, rfl⟩ | ⟨hs, rfl⟩ := growKernel_spaces hgrow
      · exact Or.inl ⟨rfl, hs⟩
      · refine Or.inr ⟨rfl, _, ?_, VirtState.spaces_setSpace ..⟩
        dsimp only at hs
        rw [hs]
        exact ⟨rfl, rfl, rfl, rfl, (if_pos ⟨hsp, hfull⟩).symm⟩
    · rw [growTable, if_neg hsp] at hgrow
      obtain ⟨hs, rfl⟩ | ⟨a, hs, rfl⟩ := growProcess_spaces hsp hgrow
      · exact Or.inl ⟨rfl, hs⟩
      · refine Or.inr ⟨rfl, _, ?_, VirtState.spaces_setSpace ..⟩
        dsimp only at hs
        rw [hs]
        exact ⟨rfl, rfl, rfl, rfl, (if_neg fun h => hsp h.1).symm⟩
  · rw [if_neg hfull] at h
    obtain rfl := Option.some.inj h
    exact Or.inr ⟨rfl, _, ⟨rfl, rfl, rfl, rfl, (if_neg fun h => hfull h.2).symm⟩,
      VirtState.spaces_setSpace ..⟩

theorem recordBlock_failed {i : Nat} {b : VirtMemoryBlock}
    (h : recordBlock grow sp i b st = some (false, st')) :
    (st.spaces sp).blockCount = (st.spaces sp).blockTableSize ∧ grow sp st = some (false, st') := by
  unfold recordBlock at h
  dsimp only at h
  split_ifs at h with hfull
  · obtain ⟨⟨ok, st₁⟩, hgrow, h⟩ := Option.map_eq_some_iff.mp h
    cases ok with
    | true => exact absurd (Prod.mk.inj h).1 Bool.noConfusion
    | false => exact ⟨hfull, (Prod.mk.inj h).2 ▸ hgrow⟩
  · exact absurd (Prod.mk.inj (Option.some.inj h)).1 Bool.noConfusion

/-- **How an entry is added**: to the table, or to the one that it grew to. -/
theorem recordBlock_cases {i : Nat} {b : VirtMemoryBlock}
    (h : recordBlock grow sp i b st = some (true, st')) :
    (st.spaces sp).blockCount ≠ (st.spaces sp).blockTableSize ∧
        st' = st.setSpace sp ((st.spaces sp).insertBlock i b) ∨
      (st.spaces sp).blockCount = (st.spaces sp).blockTableSize ∧ ∃ st₁,
        grow sp st = some (true, st₁) ∧ st' = st₁.setSpace sp
          ({ st₁.spaces sp with
            blockTableSize := (st.spaces sp).larger.blockTableSize }.insertBlock i b) := by
  unfold recordBlock at h
  dsimp only at h
  split_ifs at h with hfull
  · obtain ⟨⟨ok, st₁⟩, hgrow, h⟩ := Option.map_eq_some_iff.mp h
    cases ok with
    | false => exact absurd (Prod.mk.inj h).1 Bool.noConfusion
    | true => exact Or.inr ⟨hfull, st₁, hgrow, (Prod.mk.inj h).2.symm⟩
  · exact Or.inl ⟨hfull, (Prod.mk.inj (Option.some.inj h)).2.symm⟩

theorem takeFrames_type {p : Nat} {type : VirtMemoryBlockType} {m m' : Machine}
    (h : takeFrames A paddr count m = some ((p, type), m')) : type ≠ .reserved := by
  unfold takeFrames at h
  split_ifs at h
  · obtain ⟨r, -, he⟩ := Option.map_eq_some_iff.mp h
    rw [← (Prod.mk.inj (Prod.mk.inj he).1).2]
    decide
  · rw [← (Prod.mk.inj (Prod.mk.inj (Option.some.inj h)).1).2]
    decide

/-- **What an allocation does to the table**: nothing, or it adds an entry. -/
theorem AllocEnd.table (h : AllocEnd A (growTable A sp) sp vaddr paddr count flags st q) :
    q.2.spaces sp = st.spaces sp ∧ (q.1 = 0 ∨ (findPlace (st.spaces sp) vaddr count).1 ≠ 0 ∧
        paddr = NIL ∧ ∃ m, A.alloc count st.machine = some (NIL, m)) ∨
      q.1 = (findPlace (st.spaces sp) vaddr count).1 ∧ q.1 ≠ 0 ∧
        ∃ as' type, Grown sp (st.spaces sp) as' ∧ type ≠ .reserved ∧
          q.2.spaces sp = as'.insertBlock (findPlace (st.spaces sp) vaddr count).2
            ⟨type, q.1, pageShift count⟩ := by
  cases h with
  | noPlace => exact Or.inl ⟨rfl, Or.inl rfl⟩
  | noFrames place nil frames => exact Or.inl ⟨rfl, Or.inr ⟨place, nil, _, frames⟩⟩
  | recorded place frames _ _ entry =>
    obtain ⟨h, -⟩ | ⟨-, as', hg, hs⟩ := recordBlock_table entry
    · exact absurd h Bool.noConfusion
    · exact Or.inr ⟨rfl, place, as', _, hg, takeFrames_type frames, hs⟩
  | notRecorded _ _ _ _ entry =>
    obtain ⟨-, hs⟩ | ⟨h, -⟩ := recordBlock_table entry
    · exact Or.inl ⟨hs, Or.inl rfl⟩
    · exact absurd h Bool.noConfusion
  | notMapped => exact Or.inl ⟨rfl, Or.inl rfl⟩

theorem AllocEnd.pageDir (h : AllocEnd A (growTable A sp) sp vaddr paddr count flags st q) :
    (q.2.spaces sp).pageDir = (st.spaces sp).pageDir := by
  obtain ⟨hs, -⟩ | ⟨-, -, as', type, hg, -, hs⟩ := h.table
  · rw [hs]
  · rw [hs]
    exact hg.pageDir

/-- With the mutex of `sp` held. -/
def VirtState.locked (sp : Space) (st : VirtState) : VirtState :=
  st.setSpace sp { st.spaces sp with mutex := true }

@[simp] theorem VirtState.spaces_locked :
    (st.locked sp).spaces sp = { st.spaces sp with mutex := true } := spaces_setSpace ..

@[simp] theorem VirtState.machine_locked : (st.locked sp).machine = st.machine := rfl

@[simp] theorem VirtState.spaces_mutexRelease :
    (st.mutexRelease sp).spaces sp = { st.spaces sp with mutex := false } := spaces_setSpace ..

@[simp] theorem VirtState.machine_mutexRelease : (st.mutexRelease sp).machine = st.machine := rfl

theorem searchDown_setMutex (as : AddressSpace) (b : Bool) (k i v : Nat) :
    searchDown { as with mutex := b } count k i v = searchDown as count k i v := by
  induction k generalizing i v with
  | zero => rfl
  | succ k ih => rw [searchDown, searchDown, ih]

theorem searchHint_setMutex (as : AddressSpace) (b : Bool) (k i : Nat) :
    searchHint { as with mutex := b } vaddr count k i = searchHint as vaddr count k i := by
  induction k generalizing i with
  | zero => rfl
  | succ k ih => rw [searchHint, searchHint, ih]

theorem findPlace_setMutex (as : AddressSpace) (b : Bool) :
    findPlace { as with mutex := b } vaddr count = findPlace as vaddr count := by
  unfold findPlace
  rw [searchDown_setMutex, searchHint_setMutex]

theorem atGrowth_locked {m : Machine} : AtGrowth A sp vaddr paddr count flags (st.locked sp) m ↔
    AtGrowth A sp vaddr paddr count flags st m := by
  unfold AtGrowth
  rw [VirtState.spaces_locked, VirtState.machine_locked, findPlace_setMutex]

/-- **How `alloc_virt_pages` ends**, with the mutex taken and released. -/
theorem allocVirtPages_end {r : Nat}
    (h : allocVirtPages A sp vaddr paddr count flags st = some (r, st')) :
    ∃ st₁, AllocEnd A (growTable A sp) sp vaddr paddr count flags (st.locked sp) (r, st₁) ∧
      st' = st₁.mutexRelease sp := by
  unfold allocVirtPages at h
  rw [show (if sp = .kernel then growKernel A else growProcess A) = growTable A sp from rfl] at h
  unfold allocVirt at h
  obtain ⟨st₁, hget, h⟩ := Option.bind_eq_some_iff.mp h
  obtain ⟨-, rfl⟩ := mutexGet_eq hget
  obtain ⟨q, hq, he⟩ := Option.map_eq_some_iff.mp h
  obtain ⟨rfl, rfl⟩ := Prod.mk.inj he
  exact ⟨q.2, allocLockedVirt_end hq, rfl⟩

/-! ## `free_virt_pages` -/

theorem findBlock_spec (as : AddressSpace) (vaddr i k : Nat) :
    findBlock as vaddr k i = i + k ∨ i ≤ findBlock as vaddr k i ∧ findBlock as vaddr k i < i + k ∧
      (as.blocks (findBlock as vaddr k i)).base ≤ vaddr ∧
      vaddr < add32 (as.blocks (findBlock as vaddr k i)).base
        (as.blocks (findBlock as vaddr k i)).length := by
  induction k generalizing i with
  | zero => exact Or.inl rfl
  | succ k ih =>
    rw [findBlock]
    split_ifs with h
    · exact Or.inr ⟨Nat.le_refl i, by omega, h⟩
    · rcases ih (i := i + 1) with h | ⟨h1, h2, h3⟩
      · exact Or.inl (by omega)
      · exact Or.inr ⟨by omega, by omega, h3⟩

/-- **What `free_virt_pages` does**, with the mutex held in `as`. -/
theorem freeVirtPages_cases {as : AddressSpace} {r : Bool × VirtState}
    (has : as = { st.spaces sp with mutex := true }) (h : freeVirtPages A sp vaddr st = some r) :
    (st.spaces sp).mutex = false ∧
      ((r.1 = false ∧ r.2 = st.setSpace sp { as with mutex := false }) ∨
        r.1 = true ∧ ∃ i < as.blockCount, (as.blocks i).base ≤ vaddr ∧
          vaddr < add32 (as.blocks i).base (as.blocks i).length ∧ ∃ m,
          A.free (andNot (st.machine.getPageInfo as.pageDir vaddr).1 PAGE_OFFSET_MASK)
            ((as.blocks i).length >>> PAGE_OFFSET_BITS)
            (st.machine.getPageInfo as.pageDir vaddr).2 = some m ∧
          r.2 = (st.setMachine m).setSpace sp { as.removeBlock i with mutex := false }) := by
  unfold freeVirtPages at h
  obtain ⟨st₁, hget, h⟩ := Option.bind_eq_some_iff.mp h
  obtain ⟨hm, rfl⟩ := mutexGet_eq hget
  refine ⟨hm, ?_⟩
  dsimp only at h
  rw [VirtState.spaces_setSpace, ← has] at h
  split_ifs at h with hi
  · right
    obtain ⟨st₂, hfree, rfl⟩ := Option.map_eq_some_iff.mp h
    unfold freeBlock at hfree
    dsimp only at hfree
    rw [VirtState.spaces_setSpace] at hfree
    obtain ⟨m, hm, rfl⟩ := Option.map_eq_some_iff.mp hfree
    obtain hnone | ⟨-, -, hle, hlt⟩ := findBlock_spec as vaddr 0 as.blockCount
    · omega
    · refine ⟨rfl, _, hi, hle, hlt, m, hm, ?_⟩
      simp [VirtState.mutexRelease]
  · left
    obtain rfl := Option.some.inj h
    refine ⟨rfl, ?_⟩
    simp [VirtState.mutexRelease, has]

theorem freeVirtPages_found {as : AddressSpace} {m : Machine}
    (has : as = { st.spaces sp with mutex := true }) (hmutex : (st.spaces sp).mutex = false)
    (hi : findBlock as vaddr as.blockCount 0 < as.blockCount)
    (hm : A.free (andNot (st.machine.getPageInfo as.pageDir vaddr).1 PAGE_OFFSET_MASK)
      ((as.blocks (findBlock as vaddr as.blockCount 0)).length >>> PAGE_OFFSET_BITS)
      (st.machine.getPageInfo as.pageDir vaddr).2 = some m) :
    freeVirtPages A sp vaddr st = some (true, (st.setMachine m).setSpace sp
      { as.removeBlock (findBlock as vaddr as.blockCount 0) with mutex := false }) := by
  unfold freeVirtPages VirtState.mutexGet
  rw [if_neg (by rw [hmutex]; decide), Option.bind_some, ← has]
  dsimp only
  rw [VirtState.spaces_setSpace, if_pos hi]
  unfold freeBlock
  dsimp only
  rw [VirtState.spaces_setSpace, VirtState.machine_setSpace, hm]
  simp [VirtState.mutexRelease]

end C4os
