import C4os.Memory.VirtMapped
import C4os.Sched.Launch

/-!
# What a new process sees (`multitasking.c`, `kernel.c`)

* `Launch.built`: the page tables of the process when `run_image` returns; `Launch.stack_frame`: the
  frame of its stack.
* `NewProcess`: a call of `run_new_process` that creates a process.
* `Isolated`: the user pages of the process from `USER_PROGRAM_BASE` on are its image and its stack.
* **`newProcess_not_isolated`**: no new process is.
-/

namespace C4os

open Machine Word Linked

variable {A : PhysAllocator} {flags start : Nat} {st : VirtState} {k : Kernel} {qs : List Nat}

/-! ## The rest of the launch -/

theorem Returned.mapped {r : Returned A flags st} (hm : r.Met)
    (hd : Directory A st.machine (st.spaces .kernel).pageDir) :
    Mapped A st.machine r.after.machine (st.spaces .kernel).pageDir (fun _ => True) ∧
      (r.after.spaces .kernel).pageDir = (st.spaces .kernel).pageDir := by
  obtain ⟨hmapped, hp, -⟩ := allocVirt_mapped hd r.eq hm
  exact ⟨hmapped, hp⟩

theorem PageTables.Built.request {dir : Nat} {s₀ : Machine} {T : PageTables A dir start s₀}
    (h : T.Built qs st.machine) (hdir : (st.spaces .kernel).pageDir = dir)
    {r : Returned A flags st} (hm : r.Met) :
    T.Built qs r.after.machine ∧ (r.after.spaces .kernel).pageDir = dir := by
  obtain ⟨hmapped, hp⟩ := Returned.mapped hm (hdir ▸ h.held.directory)
  rw [hdir] at hmapped
  exact ⟨h.mapped hmapped, hp.trans hdir⟩

theorem Launch.built_thread (L : Launch A start k)
    (h₀ : Held A k.virt.machine (k.virt.spaces .kernel).pageDir qs) (hs : start < 2 ^ 32) :
    L.tables.Built qs L.thread.after.machine := by
  have hne : ∀ p, Space.kernel ≠ .process p := fun _ => Space.noConfusion
  obtain ⟨h₁, d₁⟩ := (L.tables.built h₀ hs).request rfl L.process_met
  have d₁' : ((L.process.openSpace L.tables.pageDir).spaces .kernel).pageDir =
      (k.virt.spaces .kernel).pageDir := by
    unfold Returned.openSpace
    rw [VirtState.spaces_setSpace_of_ne _ _ (hne _)]
    exact d₁
  have h₁' : L.tables.Built qs (L.process.openSpace L.tables.pageDir).machine := h₁
  obtain ⟨h₂, d₂⟩ := h₁'.request d₁' L.space_met
  have d₂' : ((L.space.closeSpace L.process.page).spaces .kernel).pageDir =
      (k.virt.spaces .kernel).pageDir := by
    unfold Returned.closeSpace
    rw [VirtState.spaces_setSpace_of_ne _ _ (hne _)]
    exact d₂
  have h₂' : L.tables.Built qs (L.space.closeSpace L.process.page).machine := h₂
  exact (h₂'.request d₂' L.thread_met).1

theorem findPlace_stack (dir a : Nat) (t : Nat → VirtMemoryBlock) (m : Bool) :
    findPlace (initAddressSpace dir a t m) 0x200000 1 = (0x200000, 0) := by
  have hshift : pageShift 1 = 0x1000 := pageShift_eq (by decide)
  have hend : add32 0x200000 0x1000 = 0x201000 := add32_eq (by decide)
  unfold findPlace
  rw [if_neg (by decide), hshift, hend,
    if_pos ⟨Nat.zero_le _, (by decide : 0x201000 < USER_MEMORY_END)⟩]
  rfl

theorem PageTables.Built.dir_zero {dir : Nat} {s s₀ : Machine} {T : PageTables A dir start s₀}
    (h : T.Built qs s) : Present (s.mem T.pageDir 0) ∧ frameOf (s.mem T.pageDir 0) = T.first ∧
      s.mem T.pageDir 0 &&& PAGE_USER ≠ 0 := by
  have he : s.mem T.pageDir 0 = T.first ||| userModePteSettings := h.dirEntry 0
  have hf : Frame T.first := (h.held.apart T.first (by simp [PageTables.frames])).frame
  rw [he]
  refine ⟨?_, frameOf_or hf (by decide), ?_⟩
  · unfold Present
    rw [flags_or hf (by decide)]
    decide
  · rw [flags_or hf (by decide)]
    decide

/-- **The request for one page in an empty address space** at the place of a stack, when the
directory `dir` has a page table there: it finds no frame, or maps the page and records it. -/
theorem stackRequest {dir a p r : Nat} {t : Nat → VirtMemoryBlock} {st st' : VirtState}
    (hs : st.spaces (.process p) = initAddressSpace dir a t true)
    (hd : ∀ f m, A.alloc 1 st.machine = some (f, m) →
      Frame dir ∧ dir ≠ m.kernelPageTable ∧ Present (m.mem dir 0))
    (h : allocLockedVirt A (growProcess A) (.process p) 0x200000 NIL 1 flags st = some (r, st')) :
    r = 0x200000 ∧ (st'.spaces (.process p)).pageDir = dir ∧
      ((∃ m, A.alloc 1 st.machine = some (NIL, m) ∧ st' = st.setMachine m) ∨
        ∃ f m, A.alloc 1 st.machine = some (f, m) ∧ f ≠ NIL ∧
          st'.machine = ((m.tempMapPage dir).tempMapPage (m.mem dir 0)).tempSet 512
            (andNot f PAGE_OFFSET_BITS ||| flags) ∧
          st'.spaces (.process p) =
            (initAddressSpace dir a t true).insertBlock 0 ⟨.memory, 0x200000, pageShift 1⟩) := by
  have hgrow : growProcess A = growTable A (.process p) := (if_neg Space.noConfusion).symm
  have hplace : findPlace (st.spaces (.process p)) 0x200000 1 = (0x200000, 0) := by
    rw [hs]
    exact findPlace_stack ..
  have hpageDir : (st.spaces (.process p)).pageDir = dir := by
    rw [hs]
    rfl
  -- one page is mapped without a new page table
  have hmap : ∀ {f q : Nat} {m : Machine}, A.alloc 1 st.machine = some (f, m) →
      mapPages (A.alloc 1) (st.spaces (.process p)).pageDir 0x200000 q 1 flags m =
        some (true, ((m.tempMapPage dir).tempMapPage (m.mem dir 0)).tempSet 512
          (andNot q PAGE_OFFSET_BITS ||| flags)) := by
    intro f q m halloc
    obtain ⟨hframe, hne, hp⟩ := hd f m halloc
    rw [hpageDir]
    exact mapPages_present hframe hne hp
  -- and the table has room for its entry
  have hrecord : ∀ {i : Nat} {b : VirtMemoryBlock} {m : Machine} {r : Bool × VirtState},
      recordBlock (growTable A (.process p)) (.process p) i b (st.setMachine m) = some r →
      r.1 = true ∧ r.2.machine = m ∧
        r.2.spaces (.process p) = (initAddressSpace dir a t true).insertBlock i b := by
    intro i b m r h
    unfold recordBlock at h
    dsimp only at h
    have hroom : ¬ (initAddressSpace dir a t true).blockCount = PAGE_SIZE / blockBytes :=
      (by decide : ¬ 0 = PAGE_SIZE / blockBytes)
    rw [VirtState.spaces_setMachine, hs,
      show (initAddressSpace _ _ _ _).blockTableSize = PAGE_SIZE / blockBytes from rfl,
      if_neg hroom] at h
    obtain rfl := Option.some.inj h
    exact ⟨rfl, rfl, VirtState.spaces_setSpace ..⟩
  rw [hgrow] at h
  have hend := allocLockedVirt_end h
  generalize hq : (r, st') = q at hend
  cases hend with
  | noPlace place =>
    rw [hplace] at place
    exact absurd place (by decide)
  | noFrames _ _ frames =>
    obtain ⟨rfl, rfl⟩ := Prod.mk.inj hq
    rw [hplace]
    exact ⟨rfl, hpageDir, Or.inl ⟨_, frames, rfl⟩⟩
  | recorded _ frames ne mapped entry =>
    obtain ⟨rfl, rfl⟩ := Prod.mk.inj hq
    obtain ⟨halloc, rfl⟩ := takeFrames_alloc frames
    obtain ⟨-, hmachine, hspace⟩ := hrecord entry
    rw [hplace] at mapped hspace ⊢
    refine ⟨rfl, ?_, Or.inr ⟨_, _, halloc, ne, ?_, ?_⟩⟩
    · rw [hspace]
      rfl
    · rw [hmachine]
      exact (congrArg Prod.snd (Option.some.inj ((hmap halloc).symm.trans mapped))).symm
    · exact hspace
  | notRecorded _ _ _ _ entry =>
    exact absurd (hrecord entry).1 Bool.noConfusion
  | notMapped _ frames _ mapped =>
    obtain ⟨halloc, -⟩ := takeFrames_alloc frames
    rw [hplace] at mapped
    exact absurd (congrArg Prod.fst (Option.some.inj ((hmap halloc).symm.trans mapped)))
      Bool.noConfusion

theorem Requests.lock_space {pageDir : Nat} {m : Machine} (R : Requests A k pageDir m) :
    (R.thread.lockSpace R.process.page).spaces (.process R.process.page) =
      initAddressSpace pageDir R.space.page (fun _ => ⟨.reserved, 0, 0⟩) true := by
  unfold Returned.lockSpace
  rw [VirtState.spaces_setSpace, R.space_eq]
  rfl

/-- How the request for the stack ends. -/
inductive Launch.StackEnd (L : Launch A start k) : Prop where
  | noFrame {m : Machine} (frame : A.alloc 1 L.thread.after.machine = some (NIL, m))
      (machine : L.afterStack.machine = m)
  | mapped {f : Nat} {m : Machine} (frame : A.alloc 1 L.thread.after.machine = some (f, m))
      (ne : f ≠ NIL) (machine : L.afterStack.machine =
        ((m.tempMapPage L.tables.pageDir).tempMapPage (m.mem L.tables.pageDir 0)).tempSet 512
          (andNot f PAGE_OFFSET_BITS ||| userModePteSettings))

theorem PageTables.Built.stack_table {dir f : Nat} {s s₀ m : Machine} {T : PageTables A dir start s₀}
    (h : T.Built qs s) (halloc : A.alloc 1 s = some (f, m)) :
    Frame T.pageDir ∧ T.pageDir ≠ m.kernelPageTable ∧ Present (m.mem T.pageDir 0) := by
  have hm := h.mapped (.alloc h.held.directory (Nat.le_refl 1) halloc)
  have hdir := hm.held.apart T.pageDir (by simp [PageTables.frames])
  exact ⟨hdir.frame, hdir.ne_window, hm.dir_zero.1⟩

theorem Launch.stackEnd (L : Launch A start k) (hb : L.tables.Built qs L.thread.after.machine) :
    L.StackEnd ∧ L.stack = 0x200000 ∧
      (L.afterStack.spaces (.process L.process.page)).pageDir = L.tables.pageDir := by
  obtain ⟨hstack, hdir, hcase⟩ := stackRequest L.lock_space (fun _ _ => hb.stack_table) L.stack_eq
  refine ⟨?_, hstack, hdir⟩
  rcases hcase with ⟨m, hfail, he⟩ | ⟨f, m, halloc, hne, hmachine, -⟩
  · exact .noFrame hfail (congrArg VirtState.machine he)
  · exact .mapped halloc hne hmachine

theorem touch_entry (s : Machine) (dir v e x : Nat) :
    Touch (· = frameOf v) s (((s.tempMapPage dir).tempMapPage v).tempSet e x) := by
  have h := touch_tempMapPage (· = frameOf v) s dir
  exact (h.map v).set (window_tempMapPage ..) rfl e x

theorem PageTables.Built.touch {dir e x : Nat} {s s₀ : Machine} {T : PageTables A dir start s₀}
    (h : T.Built qs s) : Touch (· = T.first) s
      (((s.tempMapPage T.pageDir).tempMapPage (s.mem T.pageDir 0)).tempSet e x) := by
  have htouch := touch_entry s T.pageDir (s.mem T.pageDir 0) e x
  rwa [h.dir_zero.2.1] at htouch

theorem PageTables.Built.setStack {dir f x : Nat} {s s₀ : Machine} {T : PageTables A dir start s₀}
    (h : T.Built qs s) (hf : Held A s dir (f :: (T.frames ++ qs))) {s' : Machine}
    (hs' : s' = ((s.tempMapPage T.pageDir).tempMapPage (s.mem T.pageDir 0)).tempSet 512 x) :
    T.Built qs s' ∧ Held A s' dir (f :: (T.frames ++ qs)) ∧ s'.mem T.first 512 = x ∧
      ∀ j, s'.mem f j = s.mem f j := by
  have hw : ((s.tempMapPage T.pageDir).tempMapPage (s.mem T.pageDir 0)).window = T.first :=
    (window_tempMapPage ..).trans h.dir_zero.2.1
  have hfirst := h.held.apart T.first (by simp [PageTables.frames])
  have htouch : Touch (· = T.first) s s' := hs' ▸ h.touch
  obtain ⟨hheld, hmem, hdir⟩ := h.held.store htouch (by simp [PageTables.frames])
  obtain ⟨hheld', hmem', -⟩ := hf.store htouch (by simp [PageTables.frames])
  have hnd := hf.nodup
  simp only [PageTables.frames, List.cons_append, List.nil_append, List.nodup_cons, List.mem_cons,
    not_or] at hnd
  obtain ⟨⟨-, -, -, hff, -⟩, ⟨-, -, hpf, -⟩, ⟨-, hdf, -⟩, ⟨htf, -⟩, hfq, -⟩ := hnd
  have hval : ∀ j, s'.mem T.first j = if j = 512 then x else s.mem T.first j := by
    intro j
    rw [hs', mem_tempSet, hw]
    by_cases hj : j = 512
    · rw [if_pos ⟨rfl, hj⟩, if_pos hj]
    · rw [if_neg fun h => hj h.2, if_neg hj,
        mem_of_ne_window (s := s.tempMapPage T.pageDir) _ fun h => hfirst.ne_window h.1,
        mem_of_ne_window _ fun h => hfirst.ne_window h.1]
  refine ⟨⟨hheld, fun i => ?_, fun j hj hne => ?_, ?_, fun i hi hp => ?_, fun q hq j => ?_⟩, hheld',
    ?_, ?_⟩
  · rw [hmem _ (by simp [PageTables.frames]) hdf]
    exact h.dirEntry i
  · rw [hval, if_neg hne]
    exact h.firstEntry j hj hne
  · rw [hmem _ (by simp [PageTables.frames]) htf]
    exact h.tssEntry
  · rw [hdir]
    exact h.kernelEntry i hi hp
  · rw [hmem q (by simp [hq]) fun e => hfq (e ▸ hq)]
    exact h.others q hq j
  · rw [hval, if_pos rfl]
  · exact hmem' f (by simp) hff

/-- **The page tables of the process when `run_image` returns.** -/
theorem Launch.built (L : Launch A start k)
    (h₀ : Held A k.virt.machine (k.virt.spaces .kernel).pageDir qs) (hs : start < 2 ^ 32) :
    L.tables.Built qs L.afterStack.machine ∧
      (L.afterStack.spaces (.process L.process.page)).pageDir = L.tables.pageDir := by
  have hb := L.built_thread h₀ hs
  obtain ⟨hend, -, hdir⟩ := L.stackEnd hb
  refine ⟨?_, hdir⟩
  cases hend with
  | noFrame frame machine =>
    rw [machine]
    exact hb.mapped (.alloc hb.held.directory (Nat.le_refl 1) frame)
  | mapped frame ne machine =>
    obtain ⟨hf, -⟩ := hb.held.alloc frame ne
    have hm := hb.mapped (.alloc hb.held.directory (Nat.le_refl 1) frame)
    exact (hm.setStack hf machine).1

theorem Launch.run_virt (L : Launch A start k) {k' : Kernel} (hrun : runImage A start k = some k') :
    k'.virt = L.afterStack.mutexRelease (.process L.process.page) := by
  rw [L.runImage_eq] at hrun
  obtain ⟨h₁, -, hrun⟩ := Option.bind_eq_some_iff.mp hrun
  split_ifs at hrun
  obtain ⟨h₂, -, rfl⟩ := Option.map_eq_some_iff.mp hrun
  rfl

/-- **The stack of the new thread** is the page at `0x200000`, in a frame of its own. -/
theorem Launch.stack_frame (L : Launch A start k) (S : L.StackFrame)
    (h₀ : Held A k.virt.machine (k.virt.spaces .kernel).pageDir qs) (hs : start < 2 ^ 32) :
    L.stack = 0x200000 ∧ Frame S.frame ∧
      L.afterStack.machine.mem L.tables.first 512 = S.frame ||| userModePteSettings ∧
      ∀ j, L.afterStack.machine.mem S.frame j = S.m.mem S.frame j := by
  have hb := L.built_thread h₀ hs
  obtain ⟨hend, hstack, -⟩ := L.stackEnd hb
  obtain ⟨hf, -⟩ := hb.held.alloc S.alloc_frame S.frame_ne
  have hframe := (hf.apart _ List.mem_cons_self).frame
  refine ⟨hstack, hframe, ?_⟩
  cases hend with
  | noFrame frame _ =>
    have he := Prod.mk.inj (Option.some.inj (frame.symm.trans S.alloc_frame))
    exact absurd he.1.symm S.frame_ne
  | mapped frame ne machine =>
    obtain ⟨rfl, rfl⟩ := Prod.mk.inj (Option.some.inj (frame.symm.trans S.alloc_frame))
    have hmapped := hb.mapped (.alloc hb.held.directory (Nat.le_refl 1) frame)
    obtain ⟨-, -, hentry, hmem⟩ := hmapped.setStack hf machine
    refine ⟨?_, hmem⟩
    rw [hentry, andNot_eq_self (k := 12) hframe.2 hframe.1 (by decide)]

/-! ## A call of `run_new_process` -/

variable {disk : Disk} {rest fileName : List UInt8} {fuel n : Nat}

/-- A call of `run_new_process` that creates a process: the sector of the program and the frame of
its image are there, and the launch succeeds. -/
structure NewProcess (A : PhysAllocator) (disk : Disk) (rest fileName : List UInt8) (fuel n : Nat)
    (k : Kernel) where
  sector : Nat
  image : Nat
  m : Machine
  find : findFile disk rest fileName fuel n = some sector
  alloc_image : A.alloc 1 k.virt.machine = some (image, m)
  image_ne : image ≠ NIL
  launch : Launch A image { k with
    virt := k.virt.setMachine ((m.tempMapPage image).tempCopy (disk sector)) }

theorem NewProcess.eq (N : NewProcess A disk rest fileName fuel n k) :
    runNewProcess A disk rest fileName fuel n k = runImage A N.image { k with
      virt := k.virt.setMachine ((N.m.tempMapPage N.image).tempCopy (disk N.sector)) } := by
  unfold runNewProcess
  rw [N.find, Option.bind_some, N.alloc_image]
  rfl

theorem touch_tempCopy (sector : Sector) (s : Machine) :
    Touch (· = s.window) s (s.tempCopy sector) :=
  ⟨⟨rfl, fun _ _ hq _ => if_neg fun h => hq h.1⟩, rfl, rfl, rfl⟩

/-- A sector copied to a new frame: the frame was free and belongs to nobody else, and holds the sector
and what it held before. -/
theorem copied_to {image : Nat} {s m : Machine} {dir : Nat} (sector : Sector)
    (hd : Directory A s dir) (halloc : A.alloc 1 s = some (image, m)) (hne : image ≠ NIL) :
    Held A ((m.tempMapPage image).tempCopy sector) dir [image] ∧
      (∀ q, A.Free ((m.tempMapPage image).tempCopy sector) q → A.Free s q) ∧ A.Free s image ∧
      ∀ j, ((m.tempMapPage image).tempCopy sector).mem image j =
        if j < 128 then sector.word j else m.mem image j := by
  have h₀ : Held A s dir [] := ⟨hd, by simp, List.nodup_nil⟩
  obtain ⟨h₁, -⟩ := h₀.alloc halloc hne
  have himage := h₁.apart image List.mem_cons_self
  have hw : (m.tempMapPage image).window = image := window_of_frame himage.frame
  have htouch : Touch (· = image) m ((m.tempMapPage image).tempCopy sector) :=
    (touch_tempMapPage _ _ _).trans ((touch_tempCopy _ _).mono fun q hq => hq.trans hw)
  have hfree := (A.touch h₁.directory.ok htouch fun q hq => hq ▸ himage.not_free).2
  have hback := (Mapped.alloc hd (Nat.le_refl 1) halloc).free
  refine ⟨(h₁.store htouch List.mem_cons_self).1, fun q hq => hback q ((hfree q).mp hq),
    (apart_alloc hd halloc hne).1, fun j => ?_⟩
  show (if image = (m.tempMapPage image).window ∧ j < 512 / 4 then _ else _) = _
  rw [hw, mem_of_ne_window image fun h => himage.ne_window h.1]
  simp

theorem NewProcess.copied (N : NewProcess A disk rest fileName fuel n k)
    (hd : Directory A k.virt.machine (k.virt.spaces .kernel).pageDir) :
    Held A ((N.m.tempMapPage N.image).tempCopy (disk N.sector)) (k.virt.spaces .kernel).pageDir
        [N.image] ∧
      ∀ j, ((N.m.tempMapPage N.image).tempCopy (disk N.sector)).mem N.image j =
        if j < 128 then (disk N.sector).word j else N.m.mem N.image j := by
  obtain ⟨hheld, -, -, hmem⟩ := copied_to (disk N.sector) hd N.alloc_image N.image_ne
  exact ⟨hheld, hmem⟩

/-! ## Isolation -/

/-- User code may access the page of the address `v`: both levels have `PAGE_USER`. -/
def UserPresent (s : Machine) (dir v : Nat) : Prop :=
  Present (s.mem dir (getPageDirectoryIndex v)) ∧
    s.mem dir (getPageDirectoryIndex v) &&& PAGE_USER ≠ 0 ∧
    Present (s.info dir v) ∧ s.info dir v &&& PAGE_USER ≠ 0

/-- From `USER_PROGRAM_BASE` on, user code sees the frames of the image and the stack only. -/
def Isolated (s : Machine) (dir image stack : Nat) : Prop :=
  ∀ v < 2 ^ 32, USER_PROGRAM_BASE ≤ v → UserPresent s dir v →
    frameOf (s.info dir v) = image ∨ frameOf (s.info dir v) = stack

theorem firstEntry_image {image j : Nat} (hi : Frame image) (hj : 256 ≤ j) :
    firstEntry image j = (image + (j - 256) * 4096) % 2 ^ 32 ||| userModePteSettings ∧
      Frame ((image + (j - 256) * 4096) % 2 ^ 32) := by
  obtain ⟨⟨c, rfl⟩, -⟩ := hi
  have h7 : userModePteSettings = 7 := rfl
  have hframe : Frame ((4096 * c + (j - 256) * 4096) % 2 ^ 32) := by
    refine ⟨?_, Nat.mod_lt _ (by decide)⟩
    omega
  refine ⟨?_, hframe⟩
  rw [firstEntry, if_neg (by omega), or_low (k := 12) hframe.1 (by decide),
    or_low (a := 4096 * c) (k := 12) ⟨c, rfl⟩ (by decide), h7]
  omega

theorem PageTables.Built.info_first {dir j : Nat} {s s₀ : Machine} {T : PageTables A dir start s₀}
    (h : T.Built qs s) (hj : j < 1024) :
    getPageDirectoryIndex (j * 4096) = 0 ∧ s.info T.pageDir (j * 4096) = s.mem T.first j := by
  have hdi : getPageDirectoryIndex (j * 4096) = 0 := by
    unfold getPageDirectoryIndex PAGE_TABLE_INDEX_MASK
    rw [Nat.shiftRight_eq_div_pow, Nat.div_eq_of_lt (by omega)]
    rfl
  have hti : getPageTableIndex (j * 4096) = j := by
    unfold getPageTableIndex PAGE_TABLE_INDEX_MASK
    rw [Nat.shiftRight_eq_div_pow, Nat.mul_div_cancel _ (by decide),
      show (0x3FF : Nat) = 2 ^ 10 - 1 from rfl, Nat.and_two_pow_sub_one_eq_mod]
    exact Nat.mod_eq_of_lt hj
  obtain ⟨hp, hf, -⟩ := h.dir_zero
  refine ⟨hdi, ?_⟩
  unfold Machine.info
  dsimp only
  rw [hdi, if_pos hp, hf, hti]

theorem PageTables.Built.user_page {dir j : Nat} {s s₀ : Machine} {T : PageTables A dir start s₀}
    (h : T.Built qs s) (hs : Frame start) (hj : 256 ≤ j) (hj' : j < 512) :
    UserPresent s T.pageDir (j * 4096) ∧
      frameOf (s.info T.pageDir (j * 4096)) = (start + (j - 256) * 4096) % 2 ^ 32 := by
  obtain ⟨hp, -, hu⟩ := h.dir_zero
  obtain ⟨hdi, hinfo⟩ := h.info_first (show j < 1024 by omega)
  obtain ⟨he, hframe⟩ := firstEntry_image hs hj
  rw [h.firstEntry j (by omega) (by omega), he] at hinfo
  refine ⟨⟨by rwa [hdi], by rwa [hdi], ?_, ?_⟩, ?_⟩
  · unfold Present
    rw [hinfo, flags_or hframe (by decide)]
    decide
  · rw [hinfo, flags_or hframe (by decide)]
    decide
  · rw [hinfo, frameOf_or hframe (by decide)]

theorem NewProcess.built (N : NewProcess A disk rest fileName fuel n k)
    (hd : Directory A k.virt.machine (k.virt.spaces .kernel).pageDir) {k' : Kernel}
    (hrun : runNewProcess A disk rest fileName fuel n k = some k') :
    N.launch.tables.Built [N.image] k'.virt.machine ∧ Frame N.image ∧
      k'.virt.machine = N.launch.afterStack.machine ∧
      (k'.virt.spaces (.process N.launch.process.page)).pageDir = N.launch.tables.pageDir := by
  obtain ⟨hheld, -⟩ := N.copied hd
  have himage := (hheld.apart N.image List.mem_cons_self).frame
  obtain ⟨hb, hdir⟩ := N.launch.built hheld himage.2
  rw [N.eq] at hrun
  rw [N.launch.run_virt hrun, VirtState.machine_mutexRelease, VirtState.spaces_mutexRelease]
  exact ⟨hb, himage, rfl, hdir⟩

/-- **No new process is isolated**: two of its user pages behind the image cannot both be its
stack. -/
theorem newProcess_not_isolated (N : NewProcess A disk rest fileName fuel n k)
    (hd : Directory A k.virt.machine (k.virt.spaces .kernel).pageDir) (stack : Nat) {k' : Kernel}
    (hrun : runNewProcess A disk rest fileName fuel n k = some k') :
    ¬ Isolated k'.virt.machine (k'.virt.spaces (.process N.launch.process.page)).pageDir N.image
      stack := by
  intro hiso
  obtain ⟨hb, himage, -, hdir⟩ := N.built hd hrun
  rw [hdir] at hiso
  obtain ⟨h1, f1⟩ := hb.user_page himage (show 256 ≤ 257 by decide) (by decide)
  obtain ⟨h2, f2⟩ := hb.user_page himage (show 256 ≤ 258 by decide) (by decide)
  have himage32 := himage.2
  have hs1 := hiso _ (by decide) (by decide) h1
  have hs2 := hiso _ (by decide) (by decide) h2
  rw [f1] at hs1
  rw [f2] at hs2
  omega

/-! ## Residue -/

/-- The word `j` of the page of `v`. -/
def pageWord (s : Machine) (dir v j : Nat) : Nat := s.mem (frameOf (s.info dir v)) j

theorem NewProcess.image_word (N : NewProcess A disk rest fileName fuel n k)
    (hd : Directory A k.virt.machine (k.virt.spaces .kernel).pageDir) {k' : Kernel}
    (hrun : runNewProcess A disk rest fileName fuel n k = some k') (j : Nat) :
    pageWord k'.virt.machine (k'.virt.spaces (.process N.launch.process.page)).pageDir
        USER_PROGRAM_BASE j =
      if j < 128 then (disk N.sector).word j else N.m.mem N.image j := by
  obtain ⟨hb, himage, -, hdir⟩ := N.built hd hrun
  obtain ⟨-, hf⟩ := hb.user_page himage (Nat.le_refl 256) (by decide)
  have hframe : frameOf (k'.virt.machine.info N.launch.tables.pageDir USER_PROGRAM_BASE) = N.image :=
    hf.trans (Nat.mod_eq_of_lt himage.2)
  unfold pageWord
  rw [hdir, hframe, hb.others N.image List.mem_cons_self j]
  exact (N.copied hd).2 j

theorem NewProcess.stack_word (N : NewProcess A disk rest fileName fuel n k)
    (S : N.launch.StackFrame)
    (hd : Directory A k.virt.machine (k.virt.spaces .kernel).pageDir) {k' : Kernel}
    (hrun : runNewProcess A disk rest fileName fuel n k = some k') (j : Nat) :
    pageWord k'.virt.machine (k'.virt.spaces (.process N.launch.process.page)).pageDir
        N.launch.stack j = S.m.mem S.frame j := by
  obtain ⟨hb, himage, hmachine, hdir⟩ := N.built hd hrun
  obtain ⟨hstack, hframe, hentry, hmem⟩ := N.launch.stack_frame S (N.copied hd).1 himage.2
  obtain ⟨-, hinfo⟩ := hb.info_first (show 512 < 1024 by decide)
  have hf : frameOf (k'.virt.machine.info N.launch.tables.pageDir 0x200000) = S.frame := by
    rw [show 0x200000 = 512 * 4096 from rfl, hinfo, hmachine, hentry,
      frameOf_or hframe (by decide)]
  unfold pageWord
  rw [hdir, hstack, hf, hmachine]
  exact hmem j

/-- **The image and the stack of two new processes hold the same exactly when their frames did**, the
first 512 bytes of the image apart. -/
theorem residue_iff {k₁ k₂ k₁' k₂' : Kernel} (N₁ : NewProcess A disk rest fileName fuel n k₁)
    (N₂ : NewProcess A disk rest fileName fuel n k₂) (S₁ : N₁.launch.StackFrame)
    (S₂ : N₂.launch.StackFrame)
    (hd₁ : Directory A k₁.virt.machine (k₁.virt.spaces .kernel).pageDir)
    (hd₂ : Directory A k₂.virt.machine (k₂.virt.spaces .kernel).pageDir)
    (hrun₁ : runNewProcess A disk rest fileName fuel n k₁ = some k₁')
    (hrun₂ : runNewProcess A disk rest fileName fuel n k₂ = some k₂') :
    (∀ j < 1024,
      pageWord k₁'.virt.machine (k₁'.virt.spaces (.process N₁.launch.process.page)).pageDir
          USER_PROGRAM_BASE j =
        pageWord k₂'.virt.machine (k₂'.virt.spaces (.process N₂.launch.process.page)).pageDir
          USER_PROGRAM_BASE j ∧
      pageWord k₁'.virt.machine (k₁'.virt.spaces (.process N₁.launch.process.page)).pageDir
          N₁.launch.stack j =
        pageWord k₂'.virt.machine (k₂'.virt.spaces (.process N₂.launch.process.page)).pageDir
          N₂.launch.stack j) ↔
      ∀ j < 1024, (128 ≤ j → N₁.m.mem N₁.image j = N₂.m.mem N₂.image j) ∧
        S₁.m.mem S₁.frame j = S₂.m.mem S₂.frame j := by
  have hsector : N₁.sector = N₂.sector := Option.some.inj (N₁.find.symm.trans N₂.find)
  refine forall₂_congr fun j _ => ?_
  rw [N₁.image_word hd₁ hrun₁, N₂.image_word hd₂ hrun₂, N₁.stack_word S₁ hd₁ hrun₁,
    N₂.stack_word S₂ hd₂ hrun₂]
  refine and_congr_left fun _ => ?_
  by_cases hj : j < 128
  · rw [if_pos hj, if_pos hj]
    exact iff_of_true (by rw [hsector]) fun h => absurd hj (Nat.not_lt.mpr h)
  · rw [if_neg hj, if_neg hj]
    exact ⟨fun h _ => h, fun h => h (Nat.not_lt.mp hj)⟩

/-- Two states that differ in the contents of free frames only. -/
structure AgreeOutsideFree (A : PhysAllocator) (k₁ k₂ : Kernel) : Prop where
  others : k₂ = { k₁ with
    virt := k₁.virt.setMachine { k₁.virt.machine with mem := k₂.virt.machine.mem } }
  free : ∀ p, A.Free k₁.virt.machine p ↔ A.Free k₂.virt.machine p
  mem : ∀ p, Frame p → ¬ A.Free k₁.virt.machine p →
    ∀ i, k₁.virt.machine.mem p i = k₂.virt.machine.mem p i

/-! ### The small launch -/

theorem freeRing_smallMachine (dirty : Bool) : (smallMachine dirty).FreeRing [0x10000] := by
  refine ⟨⟨rfl, ring_singleton.mpr ⟨rfl, rfl⟩⟩, ?_, ?_, ?_, rfl⟩
  · simp
  · intro b hb
    obtain rfl := List.mem_singleton.mp hb
    exact (by decide : 0x10000 + 32 * 4096 < 2 ^ 32)
  · intro b hb
    obtain rfl := List.mem_singleton.mp hb
    exact (by decide : 1 ≤ 32)

theorem onFreeList_smallMachine {dirty : Bool} {p : Nat} (h : OnFreeList (smallMachine dirty) p) :
    0x10000 ≤ p ∧ p < 0x30000 := by
  rw [onFreeList_iff (freeRing_smallMachine dirty)] at h
  obtain ⟨b, hb, hp⟩ := List.mem_flatMap.mp h
  obtain rfl := List.mem_singleton.mp hb
  have hsize : (smallMachine dirty).size 0x10000 = 32 := rfl
  have := Pages.lt_of_mem_pages hp
  omega

theorem directory_smallMachine (dirty : Bool) :
    Directory safeAllocator (smallMachine dirty) 0x2000 := by
  have hfree : ∀ {p}, p < 0x10000 → ¬ OnFreeList (smallMachine dirty) p := fun hp h =>
    absurd (onFreeList_smallMachine h).1 (by omega)
  have hpres : ∀ i, Present ((smallMachine dirty).mem 0x2000 i) → i = 1023 := by
    intro i hp
    by_contra hi
    simp [smallMachine, Present, hi] at hp
  refine ⟨⟨_, freeRing_smallMachine dirty, ?_, rfl⟩, by unfold Frame; decide, fun i _ hp => ?_,
    hfree (by decide), hfree (by decide : 0x1000 < 0x10000), fun i _ hp => ?_,
    (by decide : 0x2000 ≠ 0x1000)⟩
  · have hpages : (smallMachine dirty).freePages [0x10000] = Pages.pages 4096 0x10000 32 := rfl
    rw [hpages]
    exact Pages.nodup_pages (by decide)
  · obtain rfl := hpres i hp
    refine ⟨?_, fun j _ hj _ => (hpres j hj).symm⟩
    show frameOf 0x1003 ≠ 0x2000
    decide +kernel
  · obtain rfl := hpres i hp
    refine hfree ?_
    show frameOf 0x1003 < 0x10000
    decide +kernel

theorem find_program : findFile programDisk [] [97, 0] 3 1 = some 3 := by decide +kernel

/-- The new process of the small program. -/
noncomputable def smallNewProcess (dirty : Bool) :
    NewProcess safeAllocator programDisk [] [97, 0] 3 1 (smallKernel dirty) where
  sector := 3
  image := 0x2F000
  m := afterAlloc (smallMachine dirty)
  find := find_program
  alloc_image := alloc_afterAlloc (by revert dirty; decide +kernel)
  image_ne := by decide
  launch := smallLaunch dirty

theorem smallNewProcess_returns (dirty : Bool) :
    ∃ k', runNewProcess safeAllocator programDisk [] [97, 0] 3 1 (smallKernel dirty) = some k' := by
  rw [(smallNewProcess dirty).eq]
  exact smallLaunch_returns dirty

theorem newProcess_not_isolated_small : ∃ k',
    runNewProcess safeAllocator programDisk [] [97, 0] 3 1 (smallKernel false) = some k' ∧
      ∀ stack, ¬ Isolated k'.virt.machine (k'.virt.spaces (.process 0xFFBFF000)).pageDir 0x2F000
        stack := by
  obtain ⟨k', hrun⟩ := smallNewProcess_returns false
  exact ⟨k', hrun, fun stack => newProcess_not_isolated (smallNewProcess false)
    (directory_smallMachine false) stack hrun⟩

/-- The process may write to the frame behind its image, which was not free. -/
theorem foreign_frame_visible : ∃ k' dir,
    runNewProcess safeAllocator programDisk [] [97, 0] 3 1 (smallKernel false) = some k' ∧
      (k'.virt.spaces (.process 0xFFBFF000)).pageDir = dir ∧
      UserPresent k'.virt.machine dir 0x101000 ∧
      frameOf (k'.virt.machine.info dir 0x101000) = 0x30000 ∧
      ¬ OnFreeList (smallMachine false) 0x30000 := by
  obtain ⟨k', hrun⟩ := smallNewProcess_returns false
  obtain ⟨hb, himage, -, hdir⟩ := (smallNewProcess false).built (directory_smallMachine false) hrun
  obtain ⟨hu, hf⟩ := hb.user_page himage (show 256 ≤ 257 by decide) (by decide)
  refine ⟨k', _, hrun, hdir, hu, hf, fun h => ?_⟩
  exact absurd (onFreeList_smallMachine h).2 (by decide)

/-- The stack of its thread has a frame. -/
noncomputable def smallStackFrame (dirty : Bool) : (smallLaunch dirty).StackFrame where
  frame := 0x26000
  m := afterAlloc (smallLaunch dirty).thread.after.machine
  alloc_frame := alloc_afterAlloc (by revert dirty; decide +kernel)
  frame_ne := by decide

theorem smallKernel_agree : AgreeOutsideFree safeAllocator (smallKernel false) (smallKernel true) := by
  have hfree : ∀ p, OnFreeList (smallMachine false) p ↔ OnFreeList (smallMachine true) p := fun p => by
    rw [onFreeList_iff (freeRing_smallMachine _), onFreeList_iff (freeRing_smallMachine _)]
    rfl
  refine ⟨rfl, hfree, fun p hframe hp i => ?_⟩
  have hout : ¬ (0x10000 ≤ p ∧ p < 0x30000) := fun h => hp <| by
    show OnFreeList (smallMachine false) p
    rw [onFreeList_iff (freeRing_smallMachine _)]
    exact List.mem_flatMap.mpr ⟨0x10000, List.mem_cons_self,
      Pages.mem_pages_of_le (by decide) hframe.1 h.1 h.2⟩
  show (smallMachine false).mem p i = (smallMachine true).mem p i
  simp only [smallMachine, Bool.false_eq_true, false_and, if_false, true_and]
  have hclean : ¬ (0x10000 ≤ p ∧ p < 0x30000 ∧ (i = SIZE ∨ 128 ≤ i)) := fun h => hout ⟨h.1, h.2.1⟩
  rw [if_neg hclean]

theorem residue_iff_small : ∃ k₁' k₂',
    runNewProcess safeAllocator programDisk [] [97, 0] 3 1 (smallKernel false) = some k₁' ∧
    runNewProcess safeAllocator programDisk [] [97, 0] 3 1 (smallKernel true) = some k₂' ∧
    ¬ ∀ j < 1024,
      pageWord k₁'.virt.machine (k₁'.virt.spaces (.process 0xFFBFF000)).pageDir
          USER_PROGRAM_BASE j =
        pageWord k₂'.virt.machine (k₂'.virt.spaces (.process 0xFFBFF000)).pageDir
          USER_PROGRAM_BASE j ∧
      pageWord k₁'.virt.machine (k₁'.virt.spaces (.process 0xFFBFF000)).pageDir 0x200000 j =
        pageWord k₂'.virt.machine (k₂'.virt.spaces (.process 0xFFBFF000)).pageDir 0x200000 j := by
  obtain ⟨k₁', hrun₁⟩ := smallNewProcess_returns false
  obtain ⟨k₂', hrun₂⟩ := smallNewProcess_returns true
  refine ⟨k₁', k₂', hrun₁, hrun₂, fun h => ?_⟩
  have hiff := residue_iff (smallNewProcess false) (smallNewProcess true) (smallStackFrame false)
    (smallStackFrame true) (directory_smallMachine false) (directory_smallMachine true) hrun₁ hrun₂
  have hword : (afterAlloc (smallMachine false)).mem 0x2F000 128 =
      (afterAlloc (smallMachine true)).mem 0x2F000 128 :=
    (hiff.mp h 128 (by decide)).1 (Nat.le_refl 128)
  exact absurd hword (by decide +kernel)

/-- The page of the program ends with what the frame held. -/
theorem residue_visible : ∃ k₁' k₂',
    AgreeOutsideFree safeAllocator (smallKernel false) (smallKernel true) ∧
    runNewProcess safeAllocator programDisk [] [97, 0] 3 1 (smallKernel false) = some k₁' ∧
    runNewProcess safeAllocator programDisk [] [97, 0] 3 1 (smallKernel true) = some k₂' ∧
    pageWord k₁'.virt.machine (k₁'.virt.spaces (.process 0xFFBFF000)).pageDir
      USER_PROGRAM_BASE 128 = 0 ∧
    pageWord k₂'.virt.machine (k₂'.virt.spaces (.process 0xFFBFF000)).pageDir
      USER_PROGRAM_BASE 128 = 1 := by
  obtain ⟨k₁', hrun₁⟩ := smallNewProcess_returns false
  obtain ⟨k₂', hrun₂⟩ := smallNewProcess_returns true
  have h₁ := (smallNewProcess false).image_word (directory_smallMachine false) hrun₁ 128
  have h₂ := (smallNewProcess true).image_word (directory_smallMachine true) hrun₂ 128
  refine ⟨k₁', k₂', smallKernel_agree, hrun₁, hrun₂, h₁.trans ?_, h₂.trans ?_⟩
  · show (afterAlloc (smallMachine false)).mem 0x2F000 128 = 0
    decide +kernel
  · show (afterAlloc (smallMachine true)).mem 0x2F000 128 = 1
    decide +kernel

end C4os
