import C4os.Memory.Exhausted
import C4os.Memory.Keeps
import C4os.Sched.Isolation

/-!
# Process creation, all or nothing (`kernel.c`, `multitasking.c`)

* `runNewProcessRead`: `run_new_process`, by the outcome of the read of the sector.
* `initPageTables_cases`: the page tables are there, or no frame is left.
* `Attempt.Allocated`: every allocation of a run succeeds; `Attempt.held`, `Attempt.safe`: the frames
  that a run leaves alone.
* `Created`, `Unchanged`: all, and nothing.
* **`runNewProcess_allOrNothing`**.
-/

namespace C4os

open Machine LittleEndian Linked

/-- `run_new_process`, by the outcome of `flpydsk_read_sector`. When it returns 0, the DMA buffer holds
what it held before. -/
def runNewProcessRead (A : PhysAllocator) (disk : Disk) (ok : Bool) (buffer : Sector)
    (rest fileName : List UInt8) (fuel s : Nat) (k : Kernel) : Option Kernel :=
  (findFile disk rest fileName fuel s).bind fun sector =>
    (A.alloc 1 k.virt.machine).bind fun image =>
      let m := (image.2.tempMapPage image.1).tempCopy (if ok then disk sector else buffer)
      runImage A image.1 { k with virt := k.virt.setMachine m }

variable {A : PhysAllocator} {flags start dir count r : Nat} {s s' : Machine} {st st' : VirtState}
  {k : Kernel} {qs : List Nat}

theorem runNewProcess_eq_read (disk : Disk) (buffer : Sector) (rest fileName : List UInt8)
    (fuel n : Nat) : runNewProcess A disk rest fileName fuel n k =
      runNewProcessRead A disk true buffer rest fileName fuel n k := rfl

/-! ## The page tables -/

theorem touch_fillEntries (n i e : Nat) (s : Machine) :
    Touch (fun _ => True) s (fillEntries n i e s) := by
  induction n generalizing i e s with
  | zero => exact Touch.refl _ s
  | succ n ih => exact ((touch_tempSet s i e).mono fun _ _ => trivial).trans (ih _ _ _)

theorem touch_linkTables_any (p a b c d : Nat) (s : Machine) :
    Touch (fun _ => True) s (s.linkTables p a b c d) :=
  ((((touch_tempMapPage _ s p).set rfl trivial _ _).set rfl trivial _ _).set rfl trivial _ _).set rfl
    trivial _ _

theorem touch_fillFirst_any (first : Nat) (s : Machine) :
    Touch (fun _ => True) s (s.fillFirst first start) := by
  rw [fillFirst_eq]
  exact ((touch_tempMapPage _ s first).trans (touch_fillEntries _ _ _ _)).trans
    (touch_fillEntries _ _ _ _)

/-- **The page tables of a new process**: every allocation succeeds, or no frame is left. -/
theorem initPageTables_cases {q : Nat × Machine} (ha : Exhausts A) (h₀ : Held A s dir qs)
    (hs : start < 2 ^ 32) (h : initPageTables A dir start s = some q) :
    Exhausted A q.2 ∨ ∃ T : PageTables A dir start s, q = (T.pageDir, T.final) := by
  unfold initPageTables at h
  obtain ⟨⟨first, s₁⟩, a₁, h⟩ := Option.bind_eq_some_iff.mp h
  obtain ⟨⟨tss, s₂⟩, a₂, h⟩ := Option.bind_eq_some_iff.mp h
  obtain ⟨⟨pageDir, s₃⟩, a₃, h⟩ := Option.bind_eq_some_iff.mp h
  obtain ⟨⟨page, s₄⟩, a₄, rfl⟩ := Option.map_eq_some_iff.mp h
  dsimp only [getKernelPageTableAddr, getLastPageTableAddr] at a₂ a₃ a₄ ⊢
  -- from the first failure on, no frame is left
  have r₄ : Exhausted A s₄ → Exhausted A (s₄.installTss tss page) := fun e =>
    e.touch ((touch_tempMapPage (fun _ => True) s₄ tss).set rfl trivial 1021 _)
  have r₃ : Exhausted A s₃ → Exhausted A s₄ := fun e =>
    (((e.touch (touch_linkTables_any ..)).touch (touch_fillFirst_any ..)).alloc (Nat.le_refl 1) a₄).2
  have r₂ : Exhausted A s₂ → Exhausted A s₃ := fun e =>
    (((e.touch (touch_tempMapPage (fun _ => True) s₂ dir)).touch
      (touch_tempMapPage (fun _ => True) _ dir)).alloc (Nat.le_refl 1) a₃).2
  have r₁ : Exhausted A s₁ → Exhausted A s₂ := fun e => (e.alloc (Nat.le_refl 1) a₂).2
  by_cases n₁ : first = NIL
  · exact Or.inl (r₄ (r₃ (r₂ (r₁ (ha.alloc h₀.directory.ok (n₁ ▸ a₁))))))
  obtain ⟨h₁, -⟩ := h₀.alloc a₁ n₁
  by_cases n₂ : tss = NIL
  · exact Or.inl (r₄ (r₃ (r₂ (ha.alloc h₁.directory.ok (n₂ ▸ a₂)))))
  obtain ⟨h₂, -⟩ := h₁.alloc a₂ n₂
  obtain ⟨hw, -⟩ := h₂.mapped (Mapped.tempMapPage h₂.directory dir)
  obtain ⟨hw', -⟩ := hw.mapped (Mapped.tempMapPage hw.directory dir)
  by_cases n₃ : pageDir = NIL
  · exact Or.inl (r₄ (r₃ (ha.alloc hw'.directory.ok (n₃ ▸ a₃))))
  obtain ⟨h₃, -⟩ := hw'.alloc a₃ n₃
  obtain ⟨h₃', -⟩ := h₃.store (touch_linkTables (h₃.apart pageDir (by simp)).frame) (by simp)
  obtain ⟨h₃'', -⟩ := h₃'.store (touch_fillFirst (h₃'.apart first (by simp)).frame hs) (by simp)
  by_cases n₄ : page = NIL
  · exact Or.inl (r₄ (ha.alloc h₃''.directory.ok (n₄ ▸ a₄)))
  exact Or.inr ⟨⟨first, tss, pageDir, page, s₁, s₂, s₃, s₄, a₁, a₂, a₃, a₄, n₁, n₂, n₃, n₄⟩, rfl⟩

/-! ## What the allocations of a run return -/

namespace Attempt

/-- Every allocation succeeds. -/
structure Allocated (X : Attempt A start k) : Prop where
  tables : Nonempty (PageTables A (k.virt.spaces .kernel).pageDir start k.virt.machine)
  process : X.process.Met
  space : X.space.Met
  thread : X.thread.Met
  stack : ∃ f m, A.alloc 1 X.thread.after.machine = some (f, m) ∧ f ≠ NIL

theorem Allocated.launch {X : Attempt A start k} (h : X.Allocated) :
    ∃ L : Launch A start k, L.attempt = X ∧ Nonempty L.StackFrame := by
  obtain ⟨⟨pageDir, m, tables⟩, R⟩ := X
  obtain ⟨⟨T⟩, hp, hs, ht, f, m', hf, hne⟩ := h
  obtain ⟨rfl, rfl⟩ := Prod.mk.inj (Option.some.inj (T.eq.symm.trans tables))
  exact ⟨⟨⟨T⟩, R, hp, hs, ht⟩, rfl, ⟨⟨f, m', hf, hne⟩⟩⟩

end Attempt

theorem AllocEnd.met_cases {sp : Space} {vaddr : Nat} {q : Nat × VirtState} (ha : Exhausts A)
    (hok : A.Ok st.machine) (hend : AllocEnd A (growTable A sp) sp vaddr NIL 1 flags st q) :
    q.1 = 0 ∨ Exhausted A q.2.machine ∨
      (q.2.spaces sp).blockCount = (st.spaces sp).blockCount + 1 := by
  cases hend with
  | noPlace => exact Or.inl rfl
  | noFrames _ _ frames => exact Or.inr (Or.inl (ha.alloc hok frames))
  | recorded _ _ _ _ entry =>
    obtain ⟨h, -⟩ | ⟨-, as', hg, hs⟩ := recordBlock_table entry
    · exact absurd h Bool.noConfusion
    · refine Or.inr (Or.inr ?_)
      dsimp only at hs ⊢
      rw [hs]
      exact congrArg (· + 1) hg.blockCount
  | notRecorded => exact Or.inl rfl
  | notMapped => exact Or.inl rfl

theorem Returned.cases (q : Returned A flags st) (ha : Exhausts A) (hok : A.Ok st.machine) :
    q.page = 0 ∨ Exhausted A q.after.machine ∨ q.Met := by
  obtain ⟨st₁, hend, he⟩ := allocVirtPages_end q.eq
  have h := hend.met_cases ha (by exact hok)
  rw [VirtState.spaces_locked] at h
  unfold Returned.Met
  rw [he, VirtState.spaces_mutexRelease, VirtState.machine_mutexRelease]
  exact h

theorem Returned.exhausted (q : Returned A flags st) (h : Exhausted A st.machine) :
    Exhausted A q.after.machine := by
  obtain ⟨st₁, hend, he⟩ := allocVirtPages_end q.eq
  rw [he]
  exact (Exhausted.request (by exact h) (Nat.le_refl 1) hend).1

theorem Returned.held (q : Returned A flags st) (h : Held A st.machine dir qs)
    (hdir : (st.spaces .kernel).pageDir = dir) :
    Held A q.after.machine dir qs ∧ (q.after.spaces .kernel).pageDir = dir ∧
      ∀ p ∈ qs, ∀ j, q.after.machine.mem p j = st.machine.mem p j := by
  subst hdir
  obtain ⟨st₁, hend, he⟩ := allocVirtPages_end q.eq
  have hpageDir := hend.pageDir
  have hspares := AllocEnd.spares (by rw [VirtState.spaces_locked]; exact h.directory)
    (Nat.two_pow_pos 32) (Nat.le_refl 1) (Or.inl rfl) (fun hne => absurd rfl hne) hend
  rw [VirtState.spaces_locked] at hspares hpageDir
  rw [he, VirtState.spaces_mutexRelease]
  have hgiven : ∀ p, ¬ Given NIL 1 p := fun p hp => hp.1 rfl
  exact ⟨⟨hspares.directory, fun p hp => (hspares.apart p (h.apart p hp) (hgiven p)).1, h.nodup⟩,
    hpageDir, fun p hp => (hspares.apart p (h.apart p hp) (hgiven p)).2⟩

namespace Attempt

theorem held (X : Attempt A start k)
    (T : PageTables A (k.virt.spaces .kernel).pageDir start k.virt.machine)
    (hT : (X.pageDir, X.m) = (T.pageDir, T.final))
    (h₀ : Held A k.virt.machine (k.virt.spaces .kernel).pageDir qs) (hs : start < 2 ^ 32) :
    Held A X.m (k.virt.spaces .kernel).pageDir (T.frames ++ qs) ∧
      Held A X.process.after.machine (k.virt.spaces .kernel).pageDir (T.frames ++ qs) ∧
      Held A X.space.after.machine (k.virt.spaces .kernel).pageDir (T.frames ++ qs) ∧
      Held A X.thread.after.machine (k.virt.spaces .kernel).pageDir (T.frames ++ qs) ∧
      X.thread.after.machine.mem T.pageDir 0 = T.first ||| userModePteSettings := by
  obtain ⟨-, hm⟩ := Prod.mk.inj hT
  have hne : ∀ p, Space.kernel ≠ .process p := fun _ => Space.noConfusion
  have hb := T.built h₀ hs
  have hmem : T.pageDir ∈ T.frames ++ qs := by simp [PageTables.frames]
  rw [← hm] at hb
  obtain ⟨h₁, d₁, m₁⟩ := X.process.held hb.held rfl
  obtain ⟨h₂, d₂, m₂⟩ := X.space.held (by exact h₁) (by
    unfold Returned.openSpace
    rw [VirtState.spaces_setSpace_of_ne _ _ (hne _)]
    exact d₁)
  obtain ⟨h₃, -, m₃⟩ := X.thread.held (by exact h₂) (by
    unfold Returned.closeSpace
    rw [VirtState.spaces_setSpace_of_ne _ _ (hne _)]
    exact d₂)
  refine ⟨hb.held, h₁, h₂, h₃, ?_⟩
  rw [m₃ _ hmem]
  show X.space.after.machine.mem T.pageDir 0 = _
  rw [m₂ _ hmem]
  show X.process.after.machine.mem T.pageDir 0 = _
  rw [m₁ _ hmem]
  exact hb.dirEntry 0

theorem thread_exhausted (X : Attempt A start k) (h : Exhausted A X.m) :
    Exhausted A X.thread.after.machine :=
  X.thread.exhausted (by exact X.space.exhausted (by exact X.process.exhausted h))

theorem stackEnd (X : Attempt A start k) :
    AllocEnd A (growTable A (.process X.process.page)) (.process X.process.page) 0x200000 NIL 1
      (PAGE_PRESENT ||| PAGE_WRITABLE ||| PAGE_USER) (X.thread.lockSpace X.process.page)
      (X.stack, X.afterStack) :=
  allocLockedVirt_end (by
    rw [growTable, if_neg Space.noConfusion]
    exact X.stack_eq)

theorem stack_of_recorded (X : Attempt A start k) {b : VirtMemoryBlock}
    (hb : b ∈ blockList (X.afterStack.spaces (.process X.process.page))) :
    ∃ f m, A.alloc 1 X.thread.after.machine = some (f, m) ∧ f ≠ NIL := by
  have hempty : b ∉ blockList ((X.thread.lockSpace X.process.page).spaces
      (.process X.process.page)) := by
    rw [X.lock_space]
    exact List.not_mem_nil
  have hend := X.stackEnd
  have hb' : b ∈ blockList ((X.stack, X.afterStack).2.spaces (.process X.process.page)) := hb
  generalize (X.stack, X.afterStack) = q at hend hb'
  cases hend with
  | noPlace => exact absurd hb' hempty
  | noFrames => exact absurd hb' hempty
  | recorded _ frames ne => exact ⟨_, _, (takeFrames_alloc frames).1, ne⟩
  | notRecorded _ frames ne => exact ⟨_, _, (takeFrames_alloc frames).1, ne⟩
  | notMapped _ frames ne => exact ⟨_, _, (takeFrames_alloc frames).1, ne⟩

/-- The request for the stack, with the page tables there: the frames that are held, and the block
table of the process. -/
theorem stack_held (X : Attempt A start k)
    (T : PageTables A (k.virt.spaces .kernel).pageDir start k.virt.machine)
    (hT : (X.pageDir, X.m) = (T.pageDir, T.final))
    (h₀ : Held A k.virt.machine (k.virt.spaces .kernel).pageDir qs) (hs : start < 2 ^ 32) :
    Held A X.afterStack.machine (k.virt.spaces .kernel).pageDir (T.frames ++ qs) ∧
      (X.afterStack.spaces (.process X.process.page)).blocksAddr = X.space.page := by
  obtain ⟨-, -, -, hheld, hentry⟩ := X.held T hT h₀ hs
  obtain ⟨hp, -⟩ := Prod.mk.inj hT
  have hfirst : Frame T.first := (hheld.apart T.first (by simp [PageTables.frames])).frame
  -- the directory, when a frame is taken
  have hdir : ∀ f m, A.alloc 1 X.thread.after.machine = some (f, m) →
      Held A m (k.virt.spaces .kernel).pageDir (T.frames ++ qs) ∧
        m.mem T.pageDir 0 = T.first ||| userModePteSettings := by
    intro f m halloc
    obtain ⟨hm, hmem⟩ := hheld.mapped (.alloc hheld.directory (Nat.le_refl 1) halloc)
    exact ⟨hm, (hmem _ (by simp [PageTables.frames]) 0).trans hentry⟩
  obtain ⟨-, -, hcase⟩ := stackRequest X.lock_space (by
    intro f m halloc
    obtain ⟨hm, hmem⟩ := hdir f m halloc
    have hap := hm.apart T.pageDir (by simp [PageTables.frames])
    rw [hp, hmem]
    exact ⟨hap.frame, hap.ne_window, (shows_or hfirst (by decide) (by decide)).1⟩) X.stack_eq
  rcases hcase with ⟨m, halloc, he⟩ | ⟨f, m, halloc, -, hmachine, hspace⟩
  · rw [he, VirtState.spaces_setMachine, X.lock_space]
    exact ⟨(hdir _ _ halloc).1, rfl⟩
  · obtain ⟨hm, hmem⟩ := hdir _ _ halloc
    refine ⟨?_, by rw [hspace]; rfl⟩
    have htouch := touch_entry m T.pageDir (T.first ||| userModePteSettings)
    rw [frameOf_or hfirst (by decide)] at htouch
    rw [hmachine, hp, hmem]
    exact (hm.store (htouch _ _) (by simp [PageTables.frames])).1

/-- **No run returns a frame of others**, whether its allocations succeed or not. -/
theorem safe (X : Attempt A start k) (ha : Exhausts A)
    (h₀ : Held A k.virt.machine (k.virt.spaces .kernel).pageDir qs) (hs : start < 2 ^ 32) :
    ∀ q ∈ qs, ¬ A.Free X.afterStack.machine q := by
  rcases initPageTables_cases ha h₀ hs X.tables with he | ⟨T, hT⟩
  · intro q _
    have hlock : Exhausted A (X.thread.lockSpace X.process.page).machine := X.thread_exhausted he
    exact (hlock.request (Nat.le_refl 1) X.stackEnd).1.none_free q
  · obtain ⟨hheld, -⟩ := X.stack_held T hT h₀ hs
    exact fun q hq => (hheld.apart q (List.mem_append_right _ hq)).not_free

/-- **The requests of a run are met** when its stack has a frame and none returned the null pointer. -/
theorem allocated (X : Attempt A start k) (ha : Exhausts A)
    (h₀ : Held A k.virt.machine (k.virt.spaces .kernel).pageDir qs) (hs : start < 2 ^ 32)
    (hstack : ∃ f m, A.alloc 1 X.thread.after.machine = some (f, m) ∧ f ≠ NIL)
    (hp : X.process.page ≠ 0) (ht : X.thread.page ≠ 0)
    (hb : (X.afterStack.spaces (.process X.process.page)).blocksAddr ≠ 0) : X.Allocated := by
  have hleft : ¬ Exhausted A X.thread.after.machine := by
    obtain ⟨f, m, halloc, hne⟩ := hstack
    exact fun he => hne (he.alloc (Nat.le_refl 1) halloc).1
  rcases initPageTables_cases ha h₀ hs X.tables with he | ⟨T, hT⟩
  · exact absurd (X.thread_exhausted he) hleft
  obtain ⟨h₁, h₂, h₃, -, -⟩ := X.held T hT h₀ hs
  obtain ⟨-, htable⟩ := X.stack_held T hT h₀ hs
  rw [htable] at hb
  refine ⟨⟨T⟩, ?_, ?_, ?_, hstack⟩
  · rcases X.process.cases ha (by exact h₁.directory.ok) with h | h | h
    · exact absurd h hp
    · exact absurd (X.thread.exhausted (by exact X.space.exhausted (by exact h))) hleft
    · exact h
  · rcases X.space.cases ha (by exact h₂.directory.ok) with h | h | h
    · exact absurd h hb
    · exact absurd (X.thread.exhausted (by exact h)) hleft
    · exact h
  · rcases X.thread.cases ha (by exact h₃.directory.ok) with h | h | h
    · exact absurd h ht
    · exact absurd h hleft
    · exact h

end Attempt

/-! ## All, or nothing -/

/-- The frames of the new process: its stack, the page of its TSS, its directory, its page tables and
its image. -/
def processFrames (s : Machine) (dir stack : Nat) : List Nat :=
  let tss := frameOf (s.mem dir 511)
  [frameOf (s.info dir stack), frameOf (s.mem tss 1021), dir, tss, frameOf (s.mem dir 0),
    frameOf (s.info dir USER_PROGRAM_BASE)]

/-- All: the process `p` and its thread `t` are added, the image page holds the sector that was read, and
the frames of the process were free and are its own. -/
structure Created (A : PhysAllocator) (read : Option Sector) (k k' : Kernel) (ps ts : List Nat)
    (p t : Nat) : Prop where
  processes : OnRing k'.heap k'.processList (ps ++ [p])
  threads : OnRing k'.heap k'.threadList (ts ++ [t])
  process_ne : p ≠ 0
  thread_ne : t ≠ 0
  owner : (k'.threads t).process = p
  table_ne : (k'.virt.spaces (.process p)).blocksAddr ≠ 0
  image : ∃ sector, read = some sector ∧ ∀ j < 128,
    pageWord k'.virt.machine (k'.virt.spaces (.process p)).pageDir USER_PROGRAM_BASE j = sector.word j
  stack : ⟨.memory, (k'.threads t).stackBase, pageShift 1⟩ ∈ blockList (k'.virt.spaces (.process p))
  nodup : (processFrames k'.virt.machine (k'.virt.spaces (.process p)).pageDir
    (k'.threads t).stackBase).Nodup
  frames : ∀ q ∈ processFrames k'.virt.machine (k'.virt.spaces (.process p)).pageDir
    (k'.threads t).stackBase, A.Free k.virt.machine q ∧ ¬ A.Free k'.virt.machine q

/-- Nothing: the lists and the set of free frames are as they were. -/
structure Unchanged (A : PhysAllocator) (k k' : Kernel) (ps ts : List Nat) : Prop where
  processes : OnRing k'.heap k'.processList ps
  threads : OnRing k'.heap k'.threadList ts
  free : ∀ q, A.Free k'.virt.machine q ↔ A.Free k.virt.machine q

/-- The lists before a run: the returned pages are not the same unless they are the null pointer. -/
structure ListsApart (k : Kernel) (ps ts : List Nat) (p t : Nat) : Prop extends
    ListsBefore k ps ts p t where
  ne : t ≠ 0 → t ≠ p

theorem ListsApart.ready {ps ts : List Nat} {p t : Nat} (h : ListsApart k ps ts p t) (ht : t ≠ 0) :
    ListsReady k ps ts p t := ⟨h.toListsBefore, h.ne ht⟩

/-! ## All -/

theorem PageTables.was_free (T : PageTables A dir start s) (h₀ : Held A s dir qs)
    (hs : start < 2 ^ 32) :
    (∀ q ∈ T.frames, A.Free s q) ∧ ∀ q, A.Free T.final q → A.Free s q := by
  obtain ⟨h₁, -⟩ := h₀.alloc T.alloc_first T.first_ne
  obtain ⟨h₂, -⟩ := h₁.alloc T.alloc_tss T.tss_ne
  have w := Mapped.tempMapPage h₂.directory dir
  have w' := Mapped.tempMapPage w.directory dir
  obtain ⟨hw, -⟩ := h₂.mapped w
  obtain ⟨hw', -⟩ := hw.mapped w'
  obtain ⟨h₃, -⟩ := hw'.alloc T.alloc_pageDir T.pageDir_ne
  have t₃ := touch_linkTables (s := T.s₃) (a := T.first) (b := T.tss)
    (c := (T.s₂.tempMapPage dir).tempGet 1022)
    (d := ((T.s₂.tempMapPage dir).tempMapPage dir).tempGet 1023) (h₃.apart T.pageDir (by simp)).frame
  obtain ⟨h₃', -⟩ := h₃.store t₃ (by simp)
  have t₃' := touch_fillFirst (s := T.s₃.linkTables T.pageDir T.first T.tss
    ((T.s₂.tempMapPage dir).tempGet 1022) (((T.s₂.tempMapPage dir).tempMapPage dir).tempGet 1023))
    (h₃'.apart T.first (by simp)).frame hs
  obtain ⟨h₃'', -⟩ := h₃'.store t₃' (by simp)
  obtain ⟨h₄, -⟩ := h₃''.alloc T.alloc_page T.page_ne
  have t₄ : Touch (· = T.tss) T.s₄ (T.s₄.installTss T.tss T.page) :=
    touch_installTss (h₄.apart T.tss (by simp)).frame
  -- no step frees a frame
  have f₁ := (Mapped.alloc h₀.directory (Nat.le_refl 1) T.alloc_first).free
  have f₂ := (Mapped.alloc h₁.directory (Nat.le_refl 1) T.alloc_tss).free
  have f₃ := (Mapped.alloc hw'.directory (Nat.le_refl 1) T.alloc_pageDir).free
  have e₃ := (A.touch h₃.directory.ok t₃ fun q hq => hq ▸ (h₃.apart T.pageDir (by simp)).not_free).2
  have e₃' := (A.touch h₃'.directory.ok t₃' fun q hq => hq ▸ (h₃'.apart T.first (by simp)).not_free).2
  have f₄ := (Mapped.alloc h₃''.directory (Nat.le_refl 1) T.alloc_page).free
  have e₄ := (A.touch h₄.directory.ok t₄ fun q hq => hq ▸ (h₄.apart T.tss (by simp)).not_free).2
  have back₂ : ∀ q, A.Free T.s₂ q → A.Free s q := fun q hq => f₁ q (f₂ q hq)
  have back₃ : ∀ q, A.Free _ q → A.Free s q := fun q hq => back₂ q (w.free q (w'.free q hq))
  have back₄ : ∀ q, A.Free _ q → A.Free s q := fun q hq =>
    back₃ q (f₃ q ((e₃ q).mp ((e₃' q).mp hq)))
  refine ⟨fun q hq => ?_, fun q hq => back₄ q (f₄ q ((e₄ q).mp hq))⟩
  simp only [PageTables.frames, List.mem_cons, List.not_mem_nil, or_false] at hq
  rcases hq with rfl | rfl | rfl | rfl
  · exact back₄ _ (apart_alloc h₃''.directory T.alloc_page T.page_ne).1
  · exact back₃ _ (apart_alloc hw'.directory T.alloc_pageDir T.pageDir_ne).1
  · exact f₁ _ (apart_alloc h₁.directory T.alloc_tss T.tss_ne).1
  · exact (apart_alloc h₀.directory T.alloc_first T.first_ne).1

theorem Launch.free_thread (L : Launch A start k)
    (h₀ : Held A k.virt.machine (k.virt.spaces .kernel).pageDir qs) (hs : start < 2 ^ 32) {q : Nat}
    (hq : A.Free L.thread.after.machine q) : A.Free L.tables.final q := by
  have hne : ∀ p, Space.kernel ≠ .process p := fun _ => Space.noConfusion
  have hb := (L.tables.built h₀ hs).held
  obtain ⟨m₁, d₁⟩ := Returned.mapped L.process_met hb.directory
  obtain ⟨h₁, -⟩ := hb.mapped m₁
  have e₁ : ((L.process.openSpace L.tables.pageDir).spaces .kernel).pageDir =
      (k.virt.spaces .kernel).pageDir := by
    unfold Returned.openSpace
    rw [VirtState.spaces_setSpace_of_ne _ _ (hne _)]
    exact d₁
  obtain ⟨m₂, d₂⟩ := Returned.mapped L.space_met (by rw [e₁]; exact h₁.directory)
  rw [e₁] at m₂ d₂
  obtain ⟨h₂, -⟩ := Held.mapped (by exact h₁) m₂
  have e₂ : ((L.space.closeSpace L.process.page).spaces .kernel).pageDir =
      (k.virt.spaces .kernel).pageDir := by
    unfold Returned.closeSpace
    rw [VirtState.spaces_setSpace_of_ne _ _ (hne _)]
    exact d₂
  obtain ⟨m₃, -⟩ := Returned.mapped L.thread_met (by rw [e₂]; exact h₂.directory)
  exact m₁.free q (m₂.free q (m₃.free q hq))

/-- **The frames of a launch** are its own, and were free; the stack is in the table of the process. -/
theorem Launch.frames (L : Launch A start k) (S : L.StackFrame)
    (h₀ : Held A k.virt.machine (k.virt.spaces .kernel).pageDir qs) (hs : start < 2 ^ 32) :
    Held A L.afterStack.machine (k.virt.spaces .kernel).pageDir (S.frame :: (L.tables.frames ++ qs)) ∧
      (∀ q ∈ S.frame :: L.tables.frames, A.Free k.virt.machine q) ∧
      L.afterStack.spaces (.process L.process.page) =
        (initAddressSpace L.tables.pageDir L.space.page (fun _ => ⟨.reserved, 0, 0⟩) true).insertBlock 0
          ⟨.memory, 0x200000, pageShift 1⟩ := by
  have hb := L.built_thread h₀ hs
  obtain ⟨hf, -⟩ := hb.held.alloc S.alloc_frame S.frame_ne
  have hm := hb.mapped (.alloc hb.held.directory (Nat.le_refl 1) S.alloc_frame)
  obtain ⟨hwas, hback⟩ := L.tables.was_free h₀ hs
  obtain ⟨-, -, hcase⟩ := stackRequest L.lock_space (fun _ _ => hb.stack_table) L.stack_eq
  rcases hcase with ⟨m, halloc, -⟩ | ⟨f, m, halloc, -, hmachine, hblocks⟩
  · have he := Prod.mk.inj (Option.some.inj (S.alloc_frame.symm.trans halloc))
    exact absurd he.1 S.frame_ne
  obtain ⟨rfl, rfl⟩ := Prod.mk.inj (Option.some.inj (S.alloc_frame.symm.trans halloc))
  refine ⟨(hm.setStack hf hmachine).2.1, fun q hq => ?_, hblocks⟩
  rcases List.mem_cons.mp hq with rfl | hq
  · exact hback _ (L.free_thread h₀ hs (apart_alloc hb.held.directory S.alloc_frame S.frame_ne).1)
  · exact hwas q hq

theorem PageTables.Built.processFrames_eq {f image stack : Nat} {s₀ : Machine}
    {T : PageTables A dir start s₀} (h : T.Built qs s)
    (himage : frameOf (s.info T.pageDir USER_PROGRAM_BASE) = image)
    (hstack : frameOf (s.info T.pageDir stack) = f) :
    processFrames s T.pageDir stack = f :: (T.frames ++ [image]) := by
  have hap : ∀ q ∈ T.frames, Frame q := fun q hq => (h.held.apart q (by simp [hq])).frame
  have hzero : frameOf (s.mem T.pageDir 0) = T.first := h.dir_zero.2.1
  have htss : frameOf (s.mem T.pageDir 511) = T.tss := by
    rw [h.dirEntry 511]
    exact frameOf_or (hap _ (by simp [frames])) (by decide)
  have hpage : frameOf (s.mem T.tss 1021) = T.page := by
    rw [h.tssEntry]
    exact frameOf_or (hap _ (by simp [frames])) (by decide)
  unfold processFrames
  dsimp only
  rw [hzero, htss, hpage, himage, hstack]
  rfl

variable {disk : Disk} {rest fileName : List UInt8} {fuel n : Nat} {ps ts : List Nat}

/-- **A call whose allocations succeed creates the process.** -/
theorem NewProcess.created (N : NewProcess A disk rest fileName fuel n k) (S : N.launch.StackFrame)
    (hc : N.launch.Clean)
    (hl : ListsReady k ps ts N.launch.process.page N.launch.thread.page)
    (hd : Directory A k.virt.machine (k.virt.spaces .kernel).pageDir) :
    ∃ k', runNewProcess A disk rest fileName fuel n k = some k' ∧
      Created A (some (disk N.sector)) k k' ps ts N.launch.process.page N.launch.thread.page := by
  have hl' : ListsReady { k with virt := k.virt.setMachine ((N.m.tempMapPage N.image).tempCopy
      (disk N.sector)) } ps ts N.launch.process.page N.launch.thread.page := ⟨hl.toListsBefore.of_virt,
    hl.ne⟩
  obtain ⟨h, hrun, hps, hts⟩ := N.launch.rings hc hl'
  have hrun' := N.eq.trans hrun
  obtain ⟨hb, himage, hmachine, hdir⟩ := N.built hd hrun'
  obtain ⟨hcopied, hback, hwas', -⟩ := copied_to (disk N.sector) hd N.alloc_image N.image_ne
  obtain ⟨hheld, hwas, hspace⟩ := N.launch.frames S hcopied himage.2
  obtain ⟨hstack, hframe, hentry, -⟩ := N.launch.stack_frame S hcopied himage.2
  have hthread : (N.launch.done h).threads N.launch.thread.page = ⟨N.launch.process.page, false,
      N.launch.stack, pageShift 1, _⟩ := Function.update_self ..
  have hblocks : (N.launch.done h).virt.spaces (.process N.launch.process.page) = { (initAddressSpace
      N.launch.tables.pageDir N.launch.space.page (fun _ => ⟨.reserved, 0, 0⟩) true).insertBlock 0
        ⟨.memory, 0x200000, pageShift 1⟩ with mutex := false } := by
    rw [← hspace]
    exact VirtState.spaces_mutexRelease
  -- the frames that the page tables show
  obtain ⟨-, hf⟩ := hb.user_page himage (Nat.le_refl 256) (by decide)
  obtain ⟨-, hinfo⟩ := hb.info_first (show 512 < 1024 by decide)
  have hf' : frameOf ((N.launch.done h).virt.machine.info N.launch.tables.pageDir USER_PROGRAM_BASE) =
      N.image := hf.trans (Nat.mod_eq_of_lt himage.2)
  have hstack' : frameOf ((N.launch.done h).virt.machine.info N.launch.tables.pageDir (512 * 4096)) =
      S.frame := by
    rw [hinfo, hmachine, hentry, frameOf_or hframe (by decide)]
  have hframes := hb.processFrames_eq hf' hstack'
  refine ⟨N.launch.done h, hrun', hps, hts, Returned.page_ne N.launch.process_met,
    Returned.page_ne N.launch.thread_met, ?_, ?_, ⟨_, rfl, fun j hj => ?_⟩, ?_, ?_, ?_⟩
  · rw [hthread]
  · rw [hblocks]
    exact Returned.page_ne N.launch.space_met
  · rw [N.image_word hd hrun' j, if_pos hj]
  · rw [hthread, hstack, hblocks]
    exact List.mem_singleton.mpr rfl
  · rw [hthread, hdir, hstack]
    show (processFrames _ _ (512 * 4096)).Nodup
    rw [hframes]
    exact hheld.nodup
  · rw [hthread, hdir, hstack]
    show ∀ q ∈ processFrames _ _ (512 * 4096), _
    rw [hframes, hmachine]
    intro q hq
    refine ⟨?_, (hheld.apart q hq).not_free⟩
    have hq' : q ∈ (S.frame :: N.launch.tables.frames) ++ [N.image] := hq
    rcases List.mem_append.mp hq' with hq | hq
    · exact hback q (hwas q hq)
    · obtain rfl := List.mem_singleton.mp hq
      exact hwas'

/-- The lists after a call that creates the process `p` with the thread `t`: these are the returned
pages, and their list tags were zero. -/
theorem Attempt.appended (X : Attempt A start k) {h₁ h₂ : ListHeap} {p t : Nat} (ht : t ≠ 0)
    (hl : ListsApart k ps ts X.process.page X.thread.page)
    (happ : listAppend k.processList X.process.page
      (k.heap.setItem X.process.page (X.process.after.staleItem X.process.page)) = some h₁)
    (happ' : listAppend k.threadList X.thread.page
      (h₁.setItem X.thread.page (X.thread.after.staleItem X.thread.page)) = some h₂)
    (hps : OnRing h₂ k.processList (ps ++ [p])) (hts : OnRing h₂ k.threadList (ts ++ [t])) :
    X.process.page = p ∧ X.thread.page = t ∧ X.process.after.word X.process.page 2 = 0 ∧
      X.thread.after.word X.thread.page 2 = 0 := by
  have hps₀ := hl.processes.setItem hl.process_new.1 (X.process.after.staleItem X.process.page)
  have hts₀ := hl.threads.setItem hl.process_new.2 (X.process.after.staleItem X.process.page)
  obtain ⟨hts₁, -⟩ := listAppend_other hps₀ hts₀ hl.lists_ne (fun _ => hl.ne_process) happ
  have hts₁' := hts₁.setItem hl.thread_new.2 (X.thread.after.staleItem X.thread.page)
  obtain h | ⟨h, htag⟩ := listAppend_cases hts₁' hl.thread_new.2 happ'
  · exact absurd hts h.not_append
  obtain rfl := h.last hts
  -- the append of the thread leaves the processes alone
  have hkeep : ∀ r, OnRing h₁ k.processList r → X.thread.page ∉ r → r.Disjoint ts →
      OnRing h₂ k.processList r := by
    intro r hr hnew hdisj
    have hr' : ∀ x ∈ r, x ≠ X.thread.page ∧ x ∉ ts := fun x hx =>
      ⟨fun e => hnew (e ▸ hx), fun hx' => hdisj hx hx'⟩
    exact (listAppend_other hts₁' (hr.setItem hnew _) hl.lists_ne.symm hr' happ').1
  rw [list_setItem] at htag
  rcases listAppend_cases hps₀ hl.process_new.1 happ with h | ⟨h, hptag⟩
  · exact absurd hps (hkeep ps h hl.thread_new.1 hl.disjoint).not_append
  · rw [list_setItem] at hptag
    have hnew : X.thread.page ∉ ps ++ [X.process.page] := by
      simp [hl.thread_new.1, hl.ne ht]
    have hdisj : (ps ++ [X.process.page]).Disjoint ts := by
      simp [hl.disjoint, hl.process_new.2]
    obtain rfl := (hkeep _ h hnew hdisj).last hps
    exact ⟨rfl, rfl, hptag, htag⟩

/-! ## The whole call -/

/-- A call of `run_new_process`, whatever its allocations return. -/
structure Creation (A : PhysAllocator) (disk : Disk) (ok : Bool) (buffer : Sector)
    (rest fileName : List UInt8) (fuel n : Nat) (k : Kernel) where
  sector : Nat
  image : Nat
  m : Machine
  find : findFile disk rest fileName fuel n = some sector
  alloc_image : A.alloc 1 k.virt.machine = some (image, m)
  attempt : Attempt A image { k with
    virt := k.virt.setMachine
      ((m.tempMapPage image).tempCopy (if ok then disk sector else buffer)) }

namespace Creation

variable {ok : Bool} {buffer : Sector}

/-- The sector is read, every allocation succeeds, and the fields that are read before they are written
start as zero. -/
structure Good (C : Creation A disk ok buffer rest fileName fuel n k) : Prop where
  read : ok = true
  allocated : C.attempt.Allocated
  clean : C.attempt.Clean

theorem eq (C : Creation A disk ok buffer rest fileName fuel n k) :
    runNewProcessRead A disk ok buffer rest fileName fuel n k = runImage A C.image { k with
      virt := k.virt.setMachine
        ((C.m.tempMapPage C.image).tempCopy (if ok then disk C.sector else buffer)) } := by
  unfold runNewProcessRead
  rw [C.find, Option.bind_some, C.alloc_image]
  rfl

theorem done_of_run (C : Creation A disk ok buffer rest fileName fuel n k) {k' : Kernel}
    (hrun : runNewProcessRead A disk ok buffer rest fileName fuel n k = some k') :
    ∃ h₂, (∃ h₁, listAppend k.processList C.attempt.process.page (k.heap.setItem C.attempt.process.page
          (C.attempt.process.after.staleItem C.attempt.process.page)) = some h₁ ∧
        C.attempt.process.after.word C.attempt.process.page 9 = 0 ∧
        listAppend k.threadList C.attempt.thread.page (h₁.setItem C.attempt.thread.page
          (C.attempt.thread.after.staleItem C.attempt.thread.page)) = some h₂) ∧
      k' = C.attempt.done h₂ := by
  rw [C.eq, C.attempt.runImage_eq] at hrun
  obtain ⟨h₁, happ, hrun⟩ := Option.bind_eq_some_iff.mp hrun
  by_cases hm : C.attempt.process.after.word C.attempt.process.page 9 ≠ 0
  · rw [if_pos hm] at hrun
    cases hrun
  rw [if_neg hm] at hrun
  obtain ⟨h₂, happ', rfl⟩ := Option.map_eq_some_iff.mp hrun
  exact ⟨h₂, ⟨h₁, happ, not_not.mp hm, happ'⟩, rfl⟩

theorem image_ne (C : Creation A disk ok buffer rest fileName fuel n k) (ha : Exhausts A)
    (hok : A.Ok k.virt.machine) (hfree : ∃ p, A.Free k.virt.machine p) : C.image ≠ NIL := by
  intro he
  obtain ⟨p, hp⟩ := hfree
  exact ha _ _ hok (he ▸ C.alloc_image) p hp

theorem Good.created {C : Creation A disk ok buffer rest fileName fuel n k} (hg : C.Good)
    (hne : C.image ≠ NIL) (hd : Directory A k.virt.machine (k.virt.spaces .kernel).pageDir)
    (hl : ListsApart k ps ts C.attempt.process.page C.attempt.thread.page) :
    ∃ k', runNewProcessRead A disk ok buffer rest fileName fuel n k = some k' ∧
      Created A (if ok then some (disk C.sector) else none) k k' ps ts C.attempt.process.page
        C.attempt.thread.page := by
  obtain ⟨sector, image, m, find, alloc_image, X⟩ := C
  obtain ⟨rfl, hX, hc⟩ := hg
  have hX' : X.Allocated := hX
  obtain ⟨L, rfl, ⟨S⟩⟩ := hX'.launch
  exact NewProcess.created ⟨sector, image, m, find, alloc_image, hne, L⟩ S ⟨hc.1, hc.2, hc.3⟩
    (hl.ready (Returned.page_ne L.thread_met)) hd

theorem not_unchanged (C : Creation A disk ok buffer rest fileName fuel n k) (ha : Exhausts A)
    (hne : C.image ≠ NIL) (hd : Directory A k.virt.machine (k.virt.spaces .kernel).pageDir)
    {k' : Kernel} (hrun : runNewProcessRead A disk ok buffer rest fileName fuel n k = some k') :
    ¬ Unchanged A k k' ps ts := by
  intro hu
  obtain ⟨hheld, -, hwas, -⟩ := copied_to (if ok then disk C.sector else buffer) hd C.alloc_image hne
  have himage := (hheld.apart C.image List.mem_cons_self).frame
  have hsafe := C.attempt.safe ha hheld himage.2 C.image List.mem_cons_self
  obtain ⟨h₂, -, rfl⟩ := C.done_of_run hrun
  exact hsafe ((hu.free C.image).mpr hwas)

theorem good (C : Creation A disk ok buffer rest fileName fuel n k) (ha : Exhausts A)
    (hne : C.image ≠ NIL) (hd : Directory A k.virt.machine (k.virt.spaces .kernel).pageDir)
    (hl : ListsApart k ps ts C.attempt.process.page C.attempt.thread.page) {k' : Kernel} {p t : Nat}
    (hrun : runNewProcessRead A disk ok buffer rest fileName fuel n k = some k')
    (hc : Created A (if ok then some (disk C.sector) else none) k k' ps ts p t) : C.Good := by
  obtain ⟨hheld, -⟩ := copied_to (if ok then disk C.sector else buffer) hd C.alloc_image hne
  have himage := (hheld.apart C.image List.mem_cons_self).frame
  obtain ⟨h₂, ⟨h₁, happ, hm, happ'⟩, rfl⟩ := C.done_of_run hrun
  obtain ⟨rfl, rfl, hptag, httag⟩ := C.attempt.appended hc.thread_ne
    ⟨hl.toListsBefore.of_virt, hl.ne⟩ happ happ' hc.processes hc.threads
  have hspace : (C.attempt.done h₂).virt.spaces (.process C.attempt.process.page) =
      { C.attempt.afterStack.spaces (.process C.attempt.process.page) with mutex := false } :=
    VirtState.spaces_mutexRelease
  have hstack := hc.stack
  have htable := hc.table_ne
  rw [hspace] at hstack htable
  have hread : ok = true := by
    obtain ⟨_, hs, -⟩ := hc.image
    split_ifs at hs with hok
    exact hok
  exact ⟨hread, C.attempt.allocated ha hheld himage.2 (C.attempt.stack_of_recorded hstack)
    hc.process_ne hc.thread_ne htable, hptag, hm, httag⟩

end Creation

/-- **Which calls create a process, or nothing.** With a free frame, a call of `run_new_process` returns
with all or nothing done exactly when the sector is read, every allocation succeeds, and the fields that
are read before they are written start as zero; then all is done. -/
theorem runNewProcess_allOrNothing (A : PhysAllocator) (ha : Exhausts A) (disk : Disk) (ok : Bool)
    (buffer : Sector) (rest fileName : List UInt8) (fuel n : Nat) (k : Kernel) (ps ts : List Nat)
    (hd : Directory A k.virt.machine (k.virt.spaces .kernel).pageDir)
    (hfree : ∃ p, A.Free k.virt.machine p)
    (C : Creation A disk ok buffer rest fileName fuel n k)
    (hl : ListsApart k ps ts C.attempt.process.page C.attempt.thread.page) :
    (∃ k', runNewProcessRead A disk ok buffer rest fileName fuel n k = some k' ∧
      ((∃ p t, Created A (if ok then some (disk C.sector) else none) k k' ps ts p t) ∨
        Unchanged A k k' ps ts)) ↔ C.Good := by
  have hne := C.image_ne ha hd.ok hfree
  constructor
  · rintro ⟨k', hrun, ⟨p, t, hc⟩ | hu⟩
    · exact C.good ha hne hd hl hrun hc
    · exact absurd hu (C.not_unchanged ha hne hd hrun)
  · intro hg
    obtain ⟨k', hrun, h⟩ := hg.created hne hd hl
    exact ⟨k', hrun, Or.inl ⟨_, _, h⟩⟩

/-! ### Every run is such a run -/

theorem allocKernelPage_request {q : Nat × Kernel} (h : allocKernelPage A flags k = some q) :
    ∃ page after, allocVirtPages A .kernel 0 NIL 1 flags k.virt = some (page, after) ∧
      q = (page, { k with virt := after }) := by
  obtain ⟨⟨page, after⟩, heq, rfl⟩ := Option.map_eq_some_iff.mp h
  exact ⟨page, after, heq, rfl⟩

theorem allocStack_request {p pages : Nat} {kernel : Bool} {q : Nat × Kernel}
    (h : allocStack A p pages kernel k = some q) :
    ∃ stack after, allocVirtPages A (.process p) 0x200000 NIL pages
        (PAGE_PRESENT ||| PAGE_WRITABLE ||| if kernel then 0 else PAGE_USER) k.virt =
          some (stack, after) ∧ q = (stack, { k with virt := after }) := by
  obtain ⟨⟨stack, after⟩, heq, rfl⟩ := Option.map_eq_some_iff.mp h
  exact ⟨stack, after, heq, rfl⟩

theorem createThread_requests {p entryPoint pages : Nat} {kernel suspend : Bool} {q : Nat × Kernel}
    (h : createThread A p entryPoint pages kernel suspend k = some q) :
    ∃ thread after stack after', allocVirtPages A .kernel 0 NIL 1 (PAGE_PRESENT ||| PAGE_WRITABLE)
        k.virt = some (thread, after) ∧
      allocVirtPages A (.process p) 0x200000 NIL pages
        (PAGE_PRESENT ||| PAGE_WRITABLE ||| if kernel then 0 else PAGE_USER) after =
          some (stack, after') ∧ q.1 = thread ∧ q.2.virt = after' ∧
      q.2.threads = Function.update k.threads thread ⟨p, suspend, stack, pageShift pages,
        entryState entryPoint (add32 stack (pageShift pages)) kernel⟩ := by
  unfold createThread at h
  obtain ⟨r, hpage, h⟩ := Option.bind_eq_some_iff.mp h
  obtain ⟨thread, after, hthread, rfl⟩ := allocKernelPage_request hpage
  obtain ⟨r, hframe, h⟩ := Option.bind_eq_some_iff.mp h
  obtain ⟨stack, after', hstack, rfl⟩ := allocStack_request hframe
  obtain ⟨heap, -, rfl⟩ := Option.map_eq_some_iff.mp h
  refine ⟨thread, after, stack, after', hthread, hstack, rfl, rfl, ?_⟩
  simp [Kernel.asThread, Kernel.setItem, Kernel.setThread, Kernel.setProcess]

theorem initAddressSpaceOf_request {p pageDir : Nat} {k₁ : Kernel}
    (h : initAddressSpaceOf A p pageDir k = some k₁) : ∃ table after,
      allocVirtPages A .kernel 0 NIL 1 (PAGE_PRESENT ||| PAGE_WRITABLE ||| PAGE_GLOBAL)
        (k.virt.setSpace (.process p) { k.virt.spaces (.process p) with
          pageDir := pageDir
          start := USER_MEMORY_START
          endAddr := USER_MEMORY_END
          blockTableSize := PAGE_SIZE / blockBytes }) = some (table, after) ∧
      k₁.virt = after.setSpace (.process p)
        { after.spaces (.process p) with blocksAddr := table, blockCount := 0 } := by
  unfold initAddressSpaceOf at h
  obtain ⟨r, hr, rfl⟩ := Option.map_eq_some_iff.mp h
  obtain ⟨table, after, htable, rfl⟩ := allocKernelPage_request hr
  exact ⟨table, after, htable, rfl⟩

theorem runImage_attempt {k' : Kernel} (hrun : runImage A start k = some k') :
    Nonempty (Attempt A start k) := by
  unfold runImage at hrun
  obtain ⟨⟨pageDir, m⟩, tables, hrun⟩ := Option.bind_eq_some_iff.mp hrun
  obtain ⟨q, hpage, hrun⟩ := Option.bind_eq_some_iff.mp hrun
  obtain ⟨process, after₁, hprocess, rfl⟩ := allocKernelPage_request hpage
  unfold initProcess at hrun
  obtain ⟨k₁, hinit, hrun⟩ := Option.bind_eq_some_iff.mp hrun
  obtain ⟨table, after₂, htable, hclose⟩ := initAddressSpaceOf_request hinit
  obtain ⟨h₁, -, hrun⟩ := Option.bind_eq_some_iff.mp hrun
  obtain ⟨q, hcreate, -⟩ := Option.map_eq_some_iff.mp hrun
  obtain ⟨thread, after₃, stack, after', hthread, hstack, -⟩ := createThread_requests hcreate
  let P : Returned A (PAGE_PRESENT ||| PAGE_WRITABLE) (k.virt.setMachine m) := ⟨process, after₁, hprocess⟩
  have hopen : allocVirtPages A .kernel 0 NIL 1 (PAGE_PRESENT ||| PAGE_WRITABLE ||| PAGE_GLOBAL)
      (P.openSpace pageDir) = some (table, after₂) := by
    rw [← htable]
    unfold Returned.openSpace Kernel.asProcess Kernel.setProcess Kernel.setSpace Kernel.setItem
    dsimp only
    rw [VirtState.setSpace_setSpace, VirtState.spaces_setSpace]
  let S : Returned A (PAGE_PRESENT ||| PAGE_WRITABLE ||| PAGE_GLOBAL) (P.openSpace pageDir) :=
    ⟨table, after₂, hopen⟩
  have hclose' : k₁.virt = S.closeSpace process := hclose
  unfold allocVirtPages allocVirt at hstack
  obtain ⟨st₁, hget, hstack⟩ := Option.bind_eq_some_iff.mp hstack
  obtain ⟨-, rfl⟩ := mutexGet_eq hget
  obtain ⟨⟨stack', after₄⟩, hlocked, -⟩ := Option.map_eq_some_iff.mp hstack
  exact ⟨⟨⟨pageDir, m, tables⟩, P, S, ⟨thread, after₃, by rw [← hclose']; exact hthread⟩, stack',
    after₄, hlocked⟩⟩

theorem runNewProcessRead_creation {ok : Bool} {buffer : Sector} {k' : Kernel}
    (hrun : runNewProcessRead A disk ok buffer rest fileName fuel n k = some k') :
    Nonempty (Creation A disk ok buffer rest fileName fuel n k) := by
  unfold runNewProcessRead at hrun
  obtain ⟨sector, hfind, hrun⟩ := Option.bind_eq_some_iff.mp hrun
  obtain ⟨⟨image, m⟩, halloc, hrun⟩ := Option.bind_eq_some_iff.mp hrun
  obtain ⟨X⟩ := runImage_attempt hrun
  exact ⟨⟨sector, image, m, hfind, halloc, X⟩⟩

/-! ### The small launch -/

/-- The machine when the read of the program has failed: the buffer holds the sector list, which was
read last. -/
def staleMachine : Machine :=
  ((afterAlloc (smallMachine false)).tempMapPage 0x2F000).tempCopy (programDisk 2)

/-- The page tables of a launch, when the frame of the directory has old entries. -/
def staleTables : PageTables safeAllocator 0x2000 0x2F000 staleMachine :=
  .eval 0x2E000 0x2D000 0x2C000 0x2B000 (by decide +kernel) (by decide +kernel) (by decide +kernel)
    (by decide +kernel) frame_small small_ne

/-- The small kernel on that memory. -/
def staleKernel : Kernel :=
  { smallKernel false with virt := (smallKernel false).virt.setMachine staleMachine }

theorem runImage_stale : ∃ k', runImage safeAllocator 0x2F000 staleKernel = some k' := by
  have htables : initPageTables safeAllocator (staleKernel.virt.spaces .kernel).pageDir 0x2F000
      staleKernel.virt.machine = some (staleTables.pageDir, staleTables.final) := staleTables.eq
  apply Option.isSome_iff_exists.mp
  unfold runImage
  rw [htables]
  decide +kernel

theorem free_smallMachine : safeAllocator.Free (smallMachine false) 0x10000 :=
  (onFreeList_iff (freeRing_smallMachine false)).mpr
    (List.mem_flatMap.mpr ⟨0x10000, List.mem_cons_self, Pages.base_mem_pages (by decide)⟩)

/-- The small process is created from the sector of its program, although the read failed. -/
noncomputable def smallCreation : Creation safeAllocator programDisk true (programDisk 2) [] [97, 0] 3 1
    (smallKernel false) where
  sector := 3
  image := 0x2F000
  m := afterAlloc (smallMachine false)
  find := find_program
  alloc_image := (smallNewProcess false).alloc_image
  attempt := (smallLaunch false).attempt

theorem smallCreation_good : smallCreation.Good := by
  obtain ⟨hprocess, hspace, hthread⟩ := small_met false
  exact ⟨rfl, ⟨⟨smallTables false⟩, hprocess, hspace, hthread, _, _,
    (smallStackFrame false).alloc_frame, (smallStackFrame false).frame_ne⟩, smallLaunch_clean⟩

/-- On frames of zeros. -/
theorem runNewProcess_allOrNothing_small : ∃ k',
    runNewProcessRead safeAllocator programDisk true (programDisk 2) [] [97, 0] 3 1
        (smallKernel false) = some k' ∧
      ((∃ p t, Created safeAllocator (some (programDisk 3)) (smallKernel false) k' [] [] p t) ∨
        Unchanged safeAllocator (smallKernel false) k' [] []) := by
  have hl := imageKernel_ready false
  have hbefore : ListsBefore (smallKernel false) [] [] 0xFFBFF000 0xFFBFD000 :=
    hl.toListsBefore.of_virt
  exact (runNewProcess_allOrNothing safeAllocator exhausts_safeAllocator programDisk true
    (programDisk 2) [] [97, 0] 3 1 (smallKernel false) [] [] (directory_smallMachine false)
    ⟨_, free_smallMachine⟩ smallCreation ⟨hbefore, fun _ => hl.ne⟩).mpr smallCreation_good

/-- **When the read fails, the process is created all the same**: its image is the sector list, which the
buffer holds. -/
theorem failed_read_starts : ∃ k',
    runNewProcessRead safeAllocator programDisk false (programDisk 2) [] [97, 0] 3 1
        (smallKernel false) = some k' ∧
      ¬ ((∃ p t, Created safeAllocator none (smallKernel false) k' [] [] p t) ∨
        Unchanged safeAllocator (smallKernel false) k' [] []) := by
  obtain ⟨k', hrun⟩ := runImage_stale
  have hcall : runNewProcessRead safeAllocator programDisk false (programDisk 2) [] [97, 0] 3 1
      (smallKernel false) = some k' := by
    unfold runNewProcessRead
    rw [find_program, Option.bind_some, (smallNewProcess false).alloc_image, Option.bind_some]
    exact hrun
  refine ⟨k', hcall, ?_⟩
  obtain ⟨C⟩ := runNewProcessRead_creation hcall
  have hne := C.image_ne exhausts_safeAllocator (directory_smallMachine false).ok ⟨_, free_smallMachine⟩
  rintro (⟨p, t, hc⟩ | hu)
  · obtain ⟨_, h, -⟩ := hc.image
    cases h
  · exact C.not_unchanged exhausts_safeAllocator hne (directory_smallMachine false) hcall hu

end C4os
