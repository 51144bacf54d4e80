import C4os.Memory.Mapped

/-!
# The page tables of a new process (`multitasking.c`)

* `initPageTables`: the function.
* `PageTables`: a call whose allocations succeed.
* `Built`: what it writes, in frames of the process; **`PageTables.built`**.
-/

namespace C4os

open Machine Word

/-! ## `init_page_tables` -/

namespace Machine

/-- `kernel_pte_settings`. -/
def kernelPteSettings : Nat := PAGE_PRESENT ||| PAGE_WRITABLE

/-- `user_mode_pte_settings`. -/
def userModePteSettings : Nat := PAGE_PRESENT ||| PAGE_WRITABLE ||| PAGE_USER

/-- `get_kernel_page_table_addr`. -/
def getKernelPageTableAddr (kernelPageDir : Nat) (s : Machine) : Nat × Machine :=
  ((s.tempMapPage kernelPageDir).tempGet 1022, s.tempMapPage kernelPageDir)

/-- `get_last_page_table_addr`. -/
def getLastPageTableAddr (kernelPageDir : Nat) (s : Machine) : Nat × Machine :=
  ((s.tempMapPage kernelPageDir).tempGet 1023, s.tempMapPage kernelPageDir)

/-- The entries of the new page directory. -/
def linkTables (pageDir first tss kernel last : Nat) (s : Machine) : Machine :=
  let s := s.tempMapPage pageDir
  let s := s.tempSet 0 (first ||| userModePteSettings)
  let s := s.tempSet 511 (tss ||| kernelPteSettings)
  let s := s.tempSet 1022 kernel
  s.tempSet 1023 last

/-- A loop over `n` entries from `i` on, whose values go up a page at a time. -/
def fillEntries : Nat → Nat → Nat → Machine → Machine
  | 0, _, _, s => s
  | n + 1, i, entry, s => fillEntries n (i + 1) (add32 entry 0x1000) (s.tempSet i entry)

/-- The two identity mappings in the first page table. -/
def fillFirst (first start : Nat) (s : Machine) : Machine :=
  let s := s.tempMapPage first
  let s := fillEntries (0x100000 / PAGE_SIZE) 0 (0 ||| userModePteSettings) s
  fillEntries ((0x400000 - 0x100000) / PAGE_SIZE) (0x100000 / PAGE_SIZE)
    (start ||| userModePteSettings) s

/-- The entry of the TSS. -/
def installTss (tss page : Nat) (s : Machine) : Machine :=
  (s.tempMapPage tss).tempSet 1021 (page ||| kernelPteSettings)

/-- `init_page_tables`. -/
def initPageTables (A : PhysAllocator) (kernelPageDir start : Nat) (s : Machine) :
    Option (Nat × Machine) :=
  (A.alloc 1 s).bind fun first =>
    (A.alloc 1 first.2).bind fun tss =>
      let kernel := tss.2.getKernelPageTableAddr kernelPageDir
      let last := kernel.2.getLastPageTableAddr kernelPageDir
      (A.alloc 1 last.2).bind fun pageDir =>
        let s := pageDir.2.linkTables pageDir.1 first.1 tss.1 kernel.1 last.1
        let s := s.fillFirst first.1 start
        (A.alloc 1 s).map fun page => (pageDir.1, page.2.installTss tss.1 page.1)

end Machine

/-! ## A call whose allocations succeed -/

/-- The frames of `init_page_tables`. -/
structure PageTables (A : PhysAllocator) (kernelPageDir start : Nat) (s : Machine) where
  first : Nat
  tss : Nat
  pageDir : Nat
  page : Nat
  s₁ : Machine
  s₂ : Machine
  s₃ : Machine
  s₄ : Machine
  alloc_first : A.alloc 1 s = some (first, s₁)
  alloc_tss : A.alloc 1 s₁ = some (tss, s₂)
  alloc_pageDir : A.alloc 1 ((s₂.tempMapPage kernelPageDir).tempMapPage kernelPageDir) =
    some (pageDir, s₃)
  alloc_page : A.alloc 1 ((s₃.linkTables pageDir first tss
    ((s₂.tempMapPage kernelPageDir).tempGet 1022)
    (((s₂.tempMapPage kernelPageDir).tempMapPage kernelPageDir).tempGet 1023)).fillFirst first start) =
      some (page, s₄)
  first_ne : first ≠ NIL
  tss_ne : tss ≠ NIL
  pageDir_ne : pageDir ≠ NIL
  page_ne : page ≠ NIL

/-- The machine after `init_page_tables`. -/
def PageTables.final {A : PhysAllocator} {dir start : Nat} {s : Machine}
    (T : PageTables A dir start s) : Machine := T.s₄.installTss T.tss T.page

/-- The entries of the first page table: the first megabyte, then three megabytes from `start` on. -/
def firstEntry (start j : Nat) : Nat :=
  if j < 256 then 7 + j * 4096
  else ((start ||| userModePteSettings) + (j - 256) * 4096) % 2 ^ 32

namespace Machine

variable {s : Machine} {first tss pageDir page start a b c d i j n e q : Nat}

/-! ## What the loops write -/

theorem fillEntries_mem (hi : i + n ≤ 1024) (he : e < 2 ^ 32) :
    (fillEntries n i e s).mem q j = if q = s.window ∧ i ≤ j ∧ j < i + n
      then (e + (j - i) * 4096) % 2 ^ 32 else s.mem q j := by
  induction n generalizing i e s with
  | zero =>
    rw [if_neg (by omega)]
    rfl
  | succ n ih =>
    rw [fillEntries, ih (by omega) (add32_lt _ _), mem_tempSet]
    by_cases hn : n = 0
    · subst hn
      rw [if_neg (by omega)]
      by_cases hj : q = s.window ∧ j = i
      · rw [if_pos hj, if_pos (by omega), hj.2, Nat.sub_self, Nat.zero_mul, Nat.add_zero,
          Nat.mod_eq_of_lt he]
      · rw [if_neg hj, if_neg (by omega)]
    · rw [window_tempSet s e (by omega)]
      by_cases hj : q = s.window ∧ i + 1 ≤ j ∧ j < i + 1 + n
      · rw [if_pos hj, if_pos (by omega)]
        unfold add32
        rw [Nat.mod_add_mod]
        congr 1
        obtain ⟨m, rfl⟩ := Nat.exists_eq_add_of_le hj.2.1
        rw [show i + 1 + m - (i + 1) = m by omega, show i + 1 + m - i = m + 1 by omega]
        omega
      · rw [if_neg hj]
        by_cases hj' : q = s.window ∧ j = i
        · rw [if_pos hj', if_pos (by omega), hj'.2, Nat.sub_self, Nat.zero_mul, Nat.add_zero,
            Nat.mod_eq_of_lt he]
        · rw [if_neg hj', if_neg (by omega)]

theorem fillEntries_vars : (fillEntries n i e s).kernelPageTable = s.kernelPageTable ∧
    (fillEntries n i e s).freePageCount = s.freePageCount ∧
    (fillEntries n i e s).freePhysMemoryPointer = s.freePhysMemoryPointer ∧
    (fillEntries n i e s).physMemoryMutex = s.physMemoryMutex := by
  induction n generalizing i e s with
  | zero => exact ⟨rfl, rfl, rfl, rfl⟩
  | succ n ih => exact ih

theorem window_fillEntries (hi : i + n ≤ 1023) : (fillEntries n i e s).window = s.window := by
  induction n generalizing i e s with
  | zero => rfl
  | succ n ih => rw [fillEntries, ih (by omega), window_tempSet s e (by omega)]

theorem or_settings_lt (h : start < 2 ^ 32) : start ||| userModePteSettings < 2 ^ 32 :=
  Nat.or_lt_two_pow h (by decide)

theorem fillFirst_eq (first start : Nat) (s : Machine) : s.fillFirst first start =
    fillEntries 768 256 (start ||| userModePteSettings)
      (fillEntries 256 0 userModePteSettings (s.tempMapPage first)) := by
  have h1 : 0x100000 / PAGE_SIZE = 256 := by decide
  have h2 : (0x400000 - 0x100000) / PAGE_SIZE = 768 := by decide
  unfold fillFirst
  rw [h1, h2, Nat.zero_or]

/-- The first page table, written at once. -/
def filled (first start : Nat) (s : Machine) : Machine :=
  { s.tempMapPage first with
    mem := fun q j => if q = first ∧ j < 1024 then firstEntry start j
      else (s.tempMapPage first).mem q j }

theorem fillFirst_filled (hf : Frame first) (hs : start < 2 ^ 32) :
    s.fillFirst first start = s.filled first start := by
  have hw : (s.tempMapPage first).window = first := window_of_frame hf
  have h7 : userModePteSettings = 7 := rfl
  have hmem : (s.fillFirst first start).mem = (s.filled first start).mem := by
    funext q j
    unfold filled
    dsimp only
    rw [fillFirst_eq, fillEntries_mem (by decide) (or_settings_lt hs),
      window_fillEntries (by decide), hw, fillEntries_mem (by decide) (by decide), hw, firstEntry,
      h7, Nat.sub_zero]
    by_cases h1 : q = first ∧ j < 1024
    · rw [if_pos h1]
      by_cases h2 : j < 256
      · rw [if_neg (by omega), if_pos (by omega), if_pos h2, Nat.mod_eq_of_lt (by omega)]
      · rw [if_pos (by omega), if_neg h2]
    · rw [if_neg h1, if_neg (by omega), if_neg (by omega)]
  have hvars := fillEntries_vars (n := 768) (i := 256) (e := start ||| userModePteSettings)
    (s := fillEntries 256 0 userModePteSettings (s.tempMapPage first))
  simp only [fillEntries_vars (n := 256) (i := 0), ← fillFirst_eq] at hvars
  obtain ⟨h1, h2, h3, h4⟩ := hvars
  have hext : ∀ m : Machine, m = ⟨m.mem, m.kernelPageTable, m.freePageCount,
    m.freePhysMemoryPointer, m.physMemoryMutex⟩ := fun _ => rfl
  rw [hext (s.fillFirst first start), hmem, h1, h2, h3, h4]
  rfl

theorem fillFirst_mem (hf : Frame first) (hs : start < 2 ^ 32) (hj : j < 1024) :
    (s.fillFirst first start).mem first j = firstEntry start j := by
  rw [fillFirst_filled hf hs]
  exact if_pos ⟨rfl, hj⟩

theorem touch_fillFirst (hf : Frame first) (hs : start < 2 ^ 32) :
    Touch (· = first) s (s.fillFirst first start) := by
  rw [fillFirst_filled hf hs]
  refine ⟨⟨rfl, fun q j hq hw => ?_⟩, rfl, rfl, rfl⟩
  show (if q = first ∧ j < 1024 then firstEntry start j else (s.tempMapPage first).mem q j) = _
  rw [if_neg fun h => hq h.1, mem_of_ne_window first hw]

theorem linkTables_mem (hp : Frame pageDir) (hne : pageDir ≠ s.kernelPageTable) (j : Nat) :
    (s.linkTables pageDir a b c d).mem pageDir j =
      if j = 1023 then d else if j = 1022 then c else if j = 511 then b ||| kernelPteSettings
      else if j = 0 then a ||| userModePteSettings else s.mem pageDir j := by
  have hw : (s.tempMapPage pageDir).window = pageDir := window_of_frame hp
  unfold linkTables
  dsimp only
  simp only [mem_tempSet, window_tempSet _ _ (show 0 < 1023 by decide),
    window_tempSet _ _ (show 511 < 1023 by decide), window_tempSet _ _ (show 1022 < 1023 by decide),
    hw, true_and, mem_of_ne_window (s := s) pageDir fun h => hne h.1]

theorem touch_linkTables (hp : Frame pageDir) :
    Touch (· = pageDir) s (s.linkTables pageDir a b c d) := by
  have hw : (s.tempMapPage pageDir).window = pageDir := window_of_frame hp
  have h0 := touch_tempMapPage (· = pageDir) s pageDir
  have h1 := h0.set hw rfl 0 (a ||| userModePteSettings)
  have h2 := h1.set ((window_tempSet _ _ (by decide)).trans hw) rfl 511 (b ||| kernelPteSettings)
  have h3 := h2.set ((window_tempSet _ _ (by decide)).trans
    ((window_tempSet _ _ (by decide)).trans hw)) rfl 1022 c
  exact h3.set ((window_tempSet _ _ (by decide)).trans ((window_tempSet _ _ (by decide)).trans
    ((window_tempSet _ _ (by decide)).trans hw))) rfl 1023 d

theorem installTss_mem (ht : Frame tss) : (s.installTss tss page).mem tss 1021 =
    page ||| kernelPteSettings := by
  have hw : (s.tempMapPage tss).window = tss := window_of_frame ht
  unfold installTss
  rw [mem_tempSet, hw, if_pos ⟨rfl, rfl⟩]

theorem touch_installTss (ht : Frame tss) : Touch (· = tss) s (s.installTss tss page) := by
  have hw : (s.tempMapPage tss).window = tss := window_of_frame ht
  exact (touch_tempMapPage (· = tss) s tss).set hw rfl 1021 _

end Machine

variable {A : PhysAllocator} {dir start : Nat} {s₀ s s' : Machine} {R : Nat → Prop}

theorem PageTables.eq (T : PageTables A dir start s₀) :
    initPageTables A dir start s₀ = some (T.pageDir, T.final) := by
  unfold initPageTables getKernelPageTableAddr getLastPageTableAddr
  simp only [T.alloc_first, T.alloc_tss, T.alloc_pageDir, T.alloc_page, Option.bind_some,
    Option.map_some]
  rfl

/-- The entries of the new page directory; those that are not written are what its frame held. -/
def PageTables.dirEntry (T : PageTables A dir start s₀) (i : Nat) : Nat :=
  if i = 1023 then T.s₂.mem dir 1023 else if i = 1022 then T.s₂.mem dir 1022
  else if i = 511 then T.tss ||| kernelPteSettings
  else if i = 0 then T.first ||| userModePteSettings else T.s₃.mem T.pageDir i

/-- The frames of the process. -/
def PageTables.frames (T : PageTables A dir start s₀) : List Nat :=
  [T.page, T.pageDir, T.tss, T.first]

/-- The page tables of the new process stand in its frames, next to the kernel's directory `dir` and
to the frames `qs`, which hold what they held before. The entry of the stack in the first table is
left open. -/
structure PageTables.Built (T : PageTables A dir start s₀) (qs : List Nat) (s : Machine) : Prop where
  held : Held A s dir (T.frames ++ qs)
  dirEntry : ∀ i, s.mem T.pageDir i = T.dirEntry i
  firstEntry : ∀ j < 1024, j ≠ 512 → s.mem T.first j = firstEntry start j
  tssEntry : s.mem T.tss 1021 = T.page ||| kernelPteSettings
  kernelEntry : ∀ i < 1024, Present (T.s₂.mem dir i) → s.mem dir i = T.s₂.mem dir i
  others : ∀ q ∈ qs, ∀ j, s.mem q j = s₀.mem q j

variable {qs : List Nat}

theorem PageTables.Built.mapped {T : PageTables A dir start s₀} (h : T.Built qs s)
    (hm : Mapped A s s' dir R) : T.Built qs s' := by
  obtain ⟨hheld, hmem⟩ := h.held.mapped hm
  refine ⟨hheld, fun i => ?_, fun j hj hne => ?_, ?_, fun i hi hp => ?_, fun q hq j => ?_⟩
  · rw [hmem _ (by simp [frames])]
    exact h.dirEntry i
  · rw [hmem _ (by simp [frames])]
    exact h.firstEntry j hj hne
  · rw [hmem _ (by simp [frames])]
    exact h.tssEntry
  · have he := h.kernelEntry i hi hp
    rw [hm.old i hi (by rwa [he]), he]
  · rw [hmem _ (by simp [hq])]
    exact h.others q hq j

/-- **What `init_page_tables` builds.** -/
theorem PageTables.built (T : PageTables A dir start s₀) (h₀ : Held A s₀ dir qs)
    (hs : start < 2 ^ 32) : T.Built qs T.final := by
  obtain ⟨h₁, m₁⟩ := h₀.alloc T.alloc_first T.first_ne
  obtain ⟨h₂, m₂⟩ := h₁.alloc T.alloc_tss T.tss_ne
  obtain ⟨hw, mw⟩ := h₂.mapped (Mapped.tempMapPage h₂.directory dir)
  obtain ⟨hw', mw'⟩ := hw.mapped (Mapped.tempMapPage hw.directory dir)
  obtain ⟨h₃, m₃⟩ := hw'.alloc T.alloc_pageDir T.pageDir_ne
  have hdir := h₃.apart T.pageDir (by simp)
  have hfirst := h₃.apart T.first (by simp)
  -- the frames are distinct
  have hnd := h₃.nodup
  simp only [List.nodup_cons, List.mem_cons, not_or] at hnd
  obtain ⟨⟨hdt, hdf, hdq⟩, ⟨htf, htq⟩, hfq, -⟩ := hnd
  -- the stores to the directory and to the first table
  obtain ⟨h₃', m₃', e₃'⟩ := h₃.store (touch_linkTables hdir.frame) (by simp)
  obtain ⟨h₃'', m₃'', e₃''⟩ := h₃'.store (touch_fillFirst (h₃'.apart T.first (by simp)).frame hs)
    (by simp)
  obtain ⟨h₄, m₄⟩ := h₃''.alloc T.alloc_page T.page_ne
  have htss := h₄.apart T.tss (by simp)
  have htouch : Touch (· = T.tss) T.s₄ (T.s₄.installTss T.tss T.page) := touch_installTss htss.frame
  obtain ⟨h₅, m₅, e₅⟩ := h₄.store htouch (by simp)
  have hcopy : ∀ j, (T.s₂.tempMapPage dir).tempGet j = T.s₂.mem dir j := by
    intro j
    rw [tempGet, window_of_frame h₂.directory.frame,
      mem_of_ne_window dir fun h => h₂.directory.dir_ne h.1]
  -- the directory of the kernel
  have e₃ := (((Mapped.tempMapPage h₂.directory dir).trans
    (.tempMapPage hw.directory dir)).trans (.alloc hw'.directory (Nat.le_refl 1) T.alloc_pageDir)).old
  have e₄ := (Mapped.alloc h₃''.directory (Nat.le_refl 1) T.alloc_page).old
  refine ⟨h₅, fun i => ?_, fun j hj _ => ?_, installTss_mem htss.frame, fun i hi hp => ?_,
    fun q hq j => ?_⟩
  · show (T.s₄.installTss T.tss T.page).mem T.pageDir i = _
    rw [m₅ _ (by simp) hdt, m₄ _ (by simp), m₃'' _ (by simp) hdf,
      linkTables_mem hdir.frame hdir.ne_window, tempMapPage_tempMapPage, hcopy, hcopy, dirEntry]
  · show (T.s₄.installTss T.tss T.page).mem T.first j = _
    rw [m₅ _ (by simp) (Ne.symm htf), m₄ _ (by simp), fillFirst_mem hfirst.frame hs hj]
  · have e₃i := e₃ i hi hp
    show (T.s₄.installTss T.tss T.page).mem dir i = _
    rw [e₅, e₄ i hi (by rwa [e₃'', e₃', e₃i]), e₃'', e₃', e₃i]
  · show (T.s₄.installTss T.tss T.page).mem q j = _
    rw [m₅ q (by simp [hq]) fun e => htq (e ▸ hq), m₄ q (by simp [hq]),
      m₃'' q (by simp [hq]) fun e => hfq (e ▸ hq), m₃' q (by simp [hq]) fun e => hdq (e ▸ hq),
      m₃ q (by simp [hq]), mw' q (by simp [hq]), mw q (by simp [hq]), m₂ q (by simp [hq]),
      m₁ q hq]

end C4os
