import C4os.Sched.TssPage

/-!
# What a new page directory translates (`multitasking.c`)

* `Reserved A s qs`: the frames `qs` are in use; an allocation and stores to them keep it.
* `PageTables.word`: the words of the frames after `init_page_tables`; `PageTables.laid`.
* `PageTables.entry`: the walk of `get_page_info` below an entry of a directory.
* `Designed`: the translation that the directory is meant to have, page by page.
* **`initPageTables_designed`**: it has it exactly when the frames held nothing that shows in the
  entries that are not written; `stale_tss_entry`: frames that did.
-/

namespace C4os

open Machine Word Pages

/-! ## Frames in use -/

/-- The frames `qs` are not free. -/
structure Reserved (A : PhysAllocator) (s : Machine) (qs : List Nat) : Prop where
  ok : A.Ok s
  not_free : ∀ q ∈ qs, ¬ A.Free s q

variable {A : PhysAllocator} {s s' : Machine} {qs : List Nat} {p q i j e v dir start : Nat}

theorem Reserved.touch {P : Nat → Prop} (h : Reserved A s qs) (ht : Touch P s s')
    (hP : ∀ q, P q → q ∈ qs) : Reserved A s' qs := by
  obtain ⟨hok, hfree⟩ := A.touch h.ok ht fun q hq => h.not_free q (hP q hq)
  refine ⟨hok, fun q hq => ?_⟩
  rw [hfree]
  exact h.not_free q hq

/-- A new frame is none of those in use, and these keep their words. -/
structure NewFrame (A : PhysAllocator) (s s' : Machine) (qs : List Nat) (p : Nat) : Prop where
  reserved : Reserved A s' (p :: qs)
  frame : Frame p
  notMem : p ∉ qs
  kernelPageTable : s'.kernelPageTable = s.kernelPageTable
  mem : ∀ q ∈ qs, ∀ j, ¬ (q = s.kernelPageTable ∧ j = 1023) → s'.mem q j = s.mem q j

theorem Reserved.alloc (h : Reserved A s qs) (ha : A.alloc 1 s = some (p, s')) (hp : p ≠ NIL) :
    NewFrame A s s' qs p := by
  obtain ⟨hok, hk, hcase⟩ := A.alloc_spec h.ok (Nat.le_refl 1) ha
  obtain ⟨hnil, -⟩ | ⟨-, hwas, hnow⟩ := hcase
  · exact absurd hnil hp
  have hpp : p ∈ (⟨p, 1⟩ : Range).pages := base_mem_pages Nat.one_pos
  have hfree := hwas p hpp
  refine ⟨⟨hok, fun q hq => ?_⟩, A.frame h.ok hfree, fun hq => h.not_free p hq hfree,
    hk.kernelPageTable, fun q hq j hw => hk.mem q j (h.not_free q hq) hw⟩
  rw [hnow]
  rcases List.mem_cons.mp hq with rfl | hq
  · exact fun hf => hf.2 hpp
  · exact fun hf => h.not_free q hq hf.1

/-! ## The words that `init_page_tables` leaves -/

/-- The word `j` of the frame `t`: what was written, or what the frame held when the last frame was
handed out. -/
def PageTables.word (T : PageTables A dir start s) (t j : Nat) : Nat :=
  if t = T.pageDir then T.dirEntry j
  else if t = T.first ∧ j < 1024 then firstEntry start j
  else if t = T.tss ∧ j = 1021 then T.page ||| kernelPteSettings
  else T.s₄.mem t j

/-- The frames after the call, for the directory `dir` of the kernel. -/
structure PageTables.Laid (T : PageTables A dir start s) : Prop where
  kernelPageTable : T.final.kernelPageTable = s.kernelPageTable
  pageDir : Frame T.pageDir ∧ T.pageDir ≠ s.kernelPageTable
  first : Frame T.first ∧ T.first ≠ s.kernelPageTable ∧ T.first ≠ T.pageDir
  tss : Frame T.tss ∧ T.tss ≠ s.kernelPageTable ∧ T.tss ≠ T.pageDir ∧ T.tss ≠ T.first
  page : Frame T.page
  mem : ∀ t j, ¬ (t = s.kernelPageTable ∧ j = 1023) → T.final.mem t j = T.word t j
  kernel : ∀ i, T.word dir i = s.mem dir i
  copied : ∀ i, T.s₂.mem dir i = s.mem dir i
  tssWord : ∀ j, j ≠ 1021 → T.word T.tss j = T.s₂.mem T.tss j

theorem installTss_mem_eq {tss page : Nat} (ht : Frame tss)
    (hw : ¬ (q = s.kernelPageTable ∧ j = 1023)) : (s.installTss tss page).mem q j =
      if q = tss ∧ j = 1021 then page ||| kernelPteSettings else s.mem q j := by
  unfold installTss
  rw [mem_tempSet, window_of_frame ht, mem_of_ne_window tss hw]

/-- **What `init_page_tables` leaves in memory.** -/
theorem PageTables.laid (T : PageTables A dir start s) (h : Reserved A s [dir, s.kernelPageTable])
    (hdir : Frame dir) (hne : dir ≠ s.kernelPageTable) (hs : start < 2 ^ 32) : T.Laid := by
  have n₁ := h.alloc T.alloc_first T.first_ne
  have n₂ := n₁.reserved.alloc T.alloc_tss T.tss_ne
  have hmap : Touch (fun _ => False) T.s₂ ((T.s₂.tempMapPage dir).tempMapPage dir) :=
    (touch_tempMapPage _ _ dir).map dir
  have n₃ := (n₂.reserved.touch hmap fun _ hq => hq.elim).alloc T.alloc_pageDir T.pageDir_ne
  have k₂ : T.s₂.kernelPageTable = s.kernelPageTable :=
    n₂.kernelPageTable.trans n₁.kernelPageTable
  have k₃ : T.s₃.kernelPageTable = s.kernelPageTable :=
    n₃.kernelPageTable.trans (hmap.kernelPageTable.trans k₂)
  -- the stores to the directory and to the first table
  have hlink := touch_linkTables (s := T.s₃) (a := T.first) (b := T.tss)
    (c := (T.s₂.tempMapPage dir).tempGet 1022)
    (d := ((T.s₂.tempMapPage dir).tempMapPage dir).tempGet 1023) n₃.frame
  have r₃ := n₃.reserved.touch hlink (by simp)
  have hfill := touch_fillFirst (s := T.s₃.linkTables T.pageDir T.first T.tss
    ((T.s₂.tempMapPage dir).tempGet 1022) (((T.s₂.tempMapPage dir).tempMapPage dir).tempGet 1023))
    n₁.frame hs
  have n₄ := (r₃.touch hfill (by simp)).alloc T.alloc_page T.page_ne
  have k₄ : T.s₄.kernelPageTable = s.kernelPageTable :=
    n₄.kernelPageTable.trans (hfill.kernelPageTable.trans (hlink.kernelPageTable.trans k₃))
  have htouch : Touch (· = T.tss) T.s₄ T.final := touch_installTss n₂.frame
  -- the frames are distinct
  have h₁ := n₁.notMem
  have h₂ := n₂.notMem
  have h₃ := n₃.notMem
  simp only [List.mem_cons, List.not_mem_nil, or_false, not_or] at h₁ h₂ h₃
  obtain ⟨hfd, hfk⟩ := h₁
  obtain ⟨htf, htd, htk⟩ := h₂
  obtain ⟨hpt, hpf, hpd, hpk⟩ := h₃
  have hcopy₁ : ∀ i, T.s₁.mem dir i = s.mem dir i := fun i =>
    n₁.mem dir (by simp) i fun h => hne h.1
  have hcopy : ∀ i, T.s₂.mem dir i = s.mem dir i := fun i => by
    rw [n₂.mem dir (by simp) i fun h => hne (h.1.trans n₁.kernelPageTable), hcopy₁]
  -- the words of a frame in use, from the allocation of the directory to the end
  have hkeep : ∀ t ∈ [T.tss, T.first, dir, s.kernelPageTable], t ≠ T.first → t ≠ s.kernelPageTable →
      ∀ j, T.s₄.mem t j = T.s₂.mem t j := by
    intro t ht hf hk j
    have hp : t ≠ T.pageDir := fun e => n₃.notMem (e ▸ ht)
    rw [n₄.mem t (List.mem_cons_of_mem _ ht) j fun h => hk (h.1.trans
        (hfill.kernelPageTable.trans (hlink.kernelPageTable.trans k₃))),
      hfill.mem t j hf fun h => hk (h.1.trans (hlink.kernelPageTable.trans k₃)),
      hlink.mem t j hp fun h => hk (h.1.trans k₃),
      n₃.mem t ht j fun h => hk (h.1.trans (hmap.kernelPageTable.trans k₂)),
      hmap.mem t j id fun h => hk (h.1.trans k₂)]
  refine ⟨htouch.kernelPageTable.trans k₄, ⟨n₃.frame, hpk⟩, ⟨n₁.frame, hfk, Ne.symm hpf⟩,
    ⟨n₂.frame, htk, Ne.symm hpt, htf⟩, n₄.frame, fun t j hw => ?_, fun i => ?_, hcopy, fun j hj => ?_⟩
  · have hfin : T.final.mem t j = if t = T.tss ∧ j = 1021 then T.page ||| kernelPteSettings
        else T.s₄.mem t j := installTss_mem_eq n₂.frame (by rwa [k₄])
    unfold word
    rw [hfin]
    by_cases hp : t = T.pageDir
    · subst hp
      rw [if_neg fun h => hpt h.1, if_pos rfl, n₄.mem _ (by simp) j fun h => hpk (h.1.trans
          (hfill.kernelPageTable.trans (hlink.kernelPageTable.trans k₃))),
        hfill.mem _ j hpf fun h => hpk (h.1.trans (hlink.kernelPageTable.trans k₃)),
        linkTables_mem n₃.frame (by rwa [k₃]), tempMapPage_tempMapPage, dirEntry, tempGet, tempGet,
        window_of_frame hdir, mem_of_ne_window dir fun h => hne (h.1.trans k₂),
        mem_of_ne_window dir fun h => hne (h.1.trans k₂)]
    rw [if_neg hp]
    by_cases hf : t = T.first ∧ j < 1024
    · obtain ⟨rfl, hj⟩ := hf
      rw [if_neg fun h => htf h.1.symm, if_pos ⟨rfl, hj⟩, n₄.mem _ (by simp) j fun h => hfk
        (h.1.trans (hfill.kernelPageTable.trans (hlink.kernelPageTable.trans k₃))),
        fillFirst_mem n₁.frame hs hj]
    rw [if_neg hf]
  · have hdf : dir ≠ T.first := Ne.symm hfd
    unfold word
    rw [if_neg (Ne.symm hpd), if_neg fun h => hdf h.1, if_neg fun h => htd h.1.symm,
      hkeep dir (by simp) hdf hne, hcopy]
  · unfold word
    rw [if_neg (Ne.symm hpt), if_neg fun h => htf h.1, if_neg fun h => hj h.2,
      hkeep T.tss (by simp) htf htk]

/-! ## The walk -/

/-- The walk below the entry `e` of a directory, at the entry `j` of its table. The window shows that
table when it is read, also in its own entry. -/
def PageTables.entry (T : PageTables A dir start s) (e j : Nat) : Nat :=
  if Present e then
    if frameOf e = s.kernelPageTable ∧ j = 1023 then frameOf e + 3 else T.word (frameOf e) j
  else 0

/-- **`get_page_info` after the call**, in a directory that is a frame. -/
theorem PageTables.Laid.getPageInfo {T : PageTables A dir start s} (h : T.Laid) {d : Nat}
    (hd : Frame d) (hne : d ≠ s.kernelPageTable) : (T.final.getPageInfo d v).1 =
      T.entry (T.word d (getPageDirectoryIndex v)) (getPageTableIndex v) := by
  have hpde : (T.final.tempMapPage d).tempGet (getPageDirectoryIndex v) =
      T.word d (getPageDirectoryIndex v) := by
    rw [tempGet, window_of_frame hd, mem_of_ne_window d fun hw => hne
      (hw.1.trans h.kernelPageTable), h.mem _ _ fun hw => hne hw.1]
  unfold Machine.getPageInfo entry
  dsimp only
  rw [hpde]
  by_cases hp : Present (T.word d (getPageDirectoryIndex v))
  · rw [if_neg hp, if_pos hp, tempMapPage_tempMapPage, tempGet, window_of_frame (frame_andNot _)]
    show ((T.final.tempMapPage (frameOf _)).mem (frameOf _) _) = _
    rw [mem_tempMapPage_eq, h.kernelPageTable]
    split_ifs with hw
    · rw [andNot_mask_of_aligned (frame_frameOf _).2 (frame_frameOf _).1]
    · exact h.mem _ _ hw
  · rw [if_pos (not_not.mp hp), if_neg hp]

theorem index_eq (hv : v < 2 ^ 32) :
    getPageDirectoryIndex v = v / 4194304 ∧ getPageTableIndex v = v / 4096 % 1024 := by
  have hmask : ∀ x : Nat, x &&& PAGE_TABLE_INDEX_MASK = x % 2 ^ 10 := fun x =>
    Nat.and_two_pow_sub_one_eq_mod x 10
  unfold getPageDirectoryIndex getPageTableIndex
  simp only [hmask, Nat.shiftRight_eq_div_pow]
  omega

theorem PageTables.Laid.info {T : PageTables A dir start s} (h : T.Laid) (hv : v < 2 ^ 32) :
    (T.final.getPageInfo T.pageDir v).1 = T.entry (T.dirEntry (v / 4194304)) (v / 4096 % 1024) := by
  obtain ⟨hi, hj⟩ := index_eq hv
  rw [h.getPageInfo h.pageDir.1 h.pageDir.2, hi, hj]
  congr 1
  exact if_pos rfl

theorem PageTables.Laid.kernel_info {T : PageTables A dir start s} (h : T.Laid) (hdir : Frame dir)
    (hne : dir ≠ s.kernelPageTable) (hv : v < 2 ^ 32) :
    (T.final.getPageInfo dir v).1 = T.entry (s.mem dir (v / 4194304)) (v / 4096 % 1024) := by
  obtain ⟨hi, hj⟩ := index_eq hv
  rw [h.getPageInfo hdir hne, hi, hj, h.kernel]

theorem PageTables.entry_frame {T : PageTables A dir start s} {t g : Nat} (ht : Frame t)
    (hne : t ≠ s.kernelPageTable) (hg : g < 4096) (hp : g &&& PAGE_PRESENT ≠ 0) :
    T.entry (t ||| g) j = T.word t j := by
  unfold entry
  rw [if_pos, frameOf_or ht hg, if_neg fun h => hne h.1]
  unfold Present
  rwa [flags_or ht (by decide)]

theorem shows_firstEntry (hs : Frame start) (hj : j < 1024) : Shows (firstEntry start j)
    (if j < 256 then j * 4096 else (start + (j - 256) * 4096) % 2 ^ 32) := by
  have h7 : userModePteSettings = 7 := rfl
  have hor : ∀ {t : Nat}, Frame t → t + 7 = t ||| userModePteSettings := fun ht =>
    (or_low (k := 12) ht.1 (by decide)).symm
  obtain ⟨hdvd, hlt⟩ := hs
  unfold firstEntry
  by_cases h256 : j < 256
  · have ht : Frame (j * 4096) := ⟨Nat.dvd_mul_left .., by omega⟩
    rw [if_pos h256, if_pos h256, Nat.add_comm, hor ht]
    exact shows_or ht (by decide) (by decide)
  · have ht : Frame ((start + (j - 256) * 4096) % 2 ^ 32) := by
      refine ⟨?_, Nat.mod_lt _ (by decide)⟩
      exact (Nat.dvd_mod_iff (by decide)).mpr (Nat.dvd_add hdvd (Nat.dvd_mul_left ..))
    rw [if_neg h256, if_neg h256, ← hor ⟨hdvd, hlt⟩]
    have hsum : (start + 7 + (j - 256) * 4096) % 2 ^ 32 =
        (start + (j - 256) * 4096) % 2 ^ 32 + 7 := by omega
    rw [hsum, hor ht]
    exact shows_or ht (by decide) (by decide)

/-! ## The translation that is meant -/

/-- The page `v` of the new directory `pageDir`: the first megabyte, the image of the process up to
four megabytes, the page of the TSS, the memory of the kernel, and nothing else. -/
def DesignedAt (s : Machine) (pageDir dir start page v : Nat) : Prop :=
  if v < 0x100000 then Shows (s.getPageInfo pageDir v).1 v
  else if v < 0x400000 then
    Shows (s.getPageInfo pageDir v).1 ((start + (v - 0x100000)) % 2 ^ 32)
  else if v = 0x7FFFD000 then Shows (s.getPageInfo pageDir v).1 page
  else if 0x80000000 ≤ v then (s.getPageInfo pageDir v).1 = (s.getPageInfo dir v).1
  else ¬ Present (s.getPageInfo pageDir v).1

/-- All pages of the new directory. -/
def Designed (s : Machine) (pageDir dir start page : Nat) : Prop :=
  ∀ v < 2 ^ 32, 4096 ∣ v → DesignedAt s pageDir dir start page v

/-- What the frames held where nothing is written: nothing that shows below the kernel, and in the
kernel's half what the directory of the kernel shows. The words of the two frames are those they were
taken with. A word that leads to a page table is read through `entry`: the table's words are the
stored ones where the call stored, and the words that memory held everywhere else. -/
structure PageTables.Clean (T : PageTables A dir start s) : Prop where
  user : ∀ i, 1 ≤ i → i ≤ 510 → ∀ j < 1024, ¬ Present (T.entry (T.s₃.mem T.pageDir i) j)
  tss : ∀ j < 1024, j ≠ 1021 → ¬ Present (T.s₂.mem T.tss j)
  kernel : ∀ i, 512 ≤ i → i ≤ 1021 → ∀ j < 1024,
    T.entry (T.s₃.mem T.pageDir i) j = T.entry (s.mem dir i) j

variable {T : PageTables A dir start s}

theorem PageTables.dirEntry_stale (h0 : i ≠ 0) (h1 : i ≠ 511) (h2 : i ≠ 1022) (h3 : i ≠ 1023) :
    T.dirEntry i = T.s₃.mem T.pageDir i := by
  rw [dirEntry, if_neg h3, if_neg h2, if_neg h1, if_neg h0]

theorem PageTables.Laid.tss_entry (h : T.Laid) :
    T.entry (T.dirEntry 511) j =
      if j = 1021 then T.page ||| kernelPteSettings else T.s₂.mem T.tss j := by
  have hdir : T.dirEntry 511 = T.tss ||| kernelPteSettings := rfl
  rw [hdir, entry_frame h.tss.1 h.tss.2.1 (by decide) (by decide)]
  split_ifs with hj
  · subst hj
    unfold word
    rw [if_neg h.tss.2.2.1, if_neg fun e => h.tss.2.2.2 e.1, if_pos ⟨rfl, rfl⟩]
  · exact h.tssWord j hj

theorem PageTables.Laid.first_entry (h : T.Laid) (hj : j < 1024) :
    T.entry (T.dirEntry 0) j = firstEntry start j := by
  have hdir : T.dirEntry 0 = T.first ||| userModePteSettings := rfl
  rw [hdir, entry_frame h.first.1 h.first.2.1 (by decide) (by decide)]
  unfold word
  rw [if_neg h.first.2.2, if_pos ⟨rfl, hj⟩]

/-- **The new directory translates as designed exactly when its frames were clean.** -/
theorem PageTables.Laid.designed_iff (h : T.Laid) (hdir : Frame dir)
    (hne : dir ≠ s.kernelPageTable) (hs : Frame start) :
    Designed T.final T.pageDir dir start T.page ↔ T.Clean := by
  constructor
  · intro hd
    -- the page at the entry `j` of the table `i`
    have hpage : ∀ i < 1024, ∀ j < 1024, i * 4194304 + j * 4096 < 2 ^ 32 ∧
        4096 ∣ i * 4194304 + j * 4096 ∧ (i * 4194304 + j * 4096) / 4194304 = i ∧
        (i * 4194304 + j * 4096) / 4096 % 1024 = j := by omega
    refine ⟨fun i h1 h510 j hj => ?_, fun j hj hne' => ?_, fun i h512 h1021 j hj => ?_⟩
    · obtain ⟨hv, hal, hi, hj'⟩ := hpage i (by omega) j hj
      have hat := hd _ hv hal
      unfold DesignedAt at hat
      rw [if_neg (by omega), if_neg (by omega), if_neg (by omega), if_neg (by omega), h.info hv, hi,
        hj', dirEntry_stale (by omega) (by omega) (by omega) (by omega)] at hat
      exact hat
    · obtain ⟨hv, hal, hi, hj'⟩ := hpage 511 (by omega) j hj
      have hat := hd _ hv hal
      unfold DesignedAt at hat
      rw [if_neg (by omega), if_neg (by omega), if_neg (by omega), if_neg (by omega), h.info hv, hi,
        hj', h.tss_entry, if_neg hne'] at hat
      exact hat
    · obtain ⟨hv, hal, hi, hj'⟩ := hpage i (by omega) j hj
      have hat := hd _ hv hal
      unfold DesignedAt at hat
      rw [if_neg (by omega), if_neg (by omega), if_neg (by omega), if_pos (by omega), h.info hv,
        h.kernel_info hdir hne hv, hi, hj',
        dirEntry_stale (by omega) (by omega) (by omega) (by omega)] at hat
      exact hat
  · intro hc v hv hal
    have hj : v / 4096 % 1024 < 1024 := Nat.mod_lt _ (by decide)
    unfold DesignedAt
    rw [h.info hv]
    by_cases h4 : v < 0x400000
    · have hshows := shows_firstEntry hs hj
      rw [show v / 4194304 = 0 by omega, h.first_entry hj]
      split_ifs at hshows ⊢ with h1 h2 h2
      · rwa [show v / 4096 % 1024 * 4096 = v by omega] at hshows
      · omega
      · omega
      · rwa [show (v / 4096 % 1024 - 256) * 4096 = v - 0x100000 by omega] at hshows
    rw [if_neg (by omega), if_neg h4]
    by_cases htss : v = 0x7FFFD000
    · subst htss
      rw [if_pos rfl]
      show Shows (T.entry (T.dirEntry 511) 1021) T.page
      rw [h.tss_entry, if_pos rfl]
      exact shows_or h.page (by decide) (by decide)
    rw [if_neg htss]
    by_cases hk : 0x80000000 ≤ v
    · rw [if_pos hk, h.kernel_info hdir hne hv]
      by_cases hi : v / 4194304 ≤ 1021
      · rw [dirEntry_stale (by omega) (by omega) (by omega) (by omega)]
        exact hc.kernel _ (by omega) hi _ hj
      · -- the last two entries are copied
        congr 1
        obtain hi | hi : v / 4194304 = 1022 ∨ v / 4194304 = 1023 := by omega
        · rw [hi, ← h.copied]
          rfl
        · rw [hi, ← h.copied]
          rfl
    · rw [if_neg hk]
      by_cases hi : v / 4194304 = 511
      · have hne' : v / 4096 % 1024 ≠ 1021 := by omega
        rw [hi, h.tss_entry, if_neg hne']
        exact hc.tss _ hj hne'
      · rw [dirEntry_stale (by omega) hi (by omega) (by omega)]
        exact hc.user _ (by omega) (by omega) _ hj

/-- **What a new page directory translates.** For frames with any contents, any aligned address of
the image and any directory of the kernel, the directory that `init_page_tables` returns translates
every page as designed exactly when its frames were clean. -/
theorem initPageTables_designed (T : PageTables A dir start s)
    (h : Reserved A s [dir, s.kernelPageTable]) (hdir : Frame dir) (hne : dir ≠ s.kernelPageTable)
    (hs : Frame start) :
    initPageTables A dir start s = some (T.pageDir, T.final) ∧
      (Designed T.final T.pageDir dir start T.page ↔ T.Clean) :=
  ⟨T.eq, (T.laid h hdir hne hs.2).designed_iff hdir hne hs⟩

/-! ### The small launch -/

theorem reserved_imageMachine (dirty : Bool) :
    Reserved safeAllocator (imageMachine dirty) [0x2000, (imageMachine dirty).kernelPageTable] := by
  have hd := directory_imageMachine dirty
  refine ⟨hd.ok, fun q hq => ?_⟩
  simp only [List.mem_cons, List.not_mem_nil, or_false] at hq
  rcases hq with rfl | rfl
  · exact hd.dir_used
  · exact hd.window_used

theorem smallTables_clean : (smallTables false).Clean := by
  have hdir : ∀ i < 1024, (smallTables false).s₃.mem 0x2C000 i = 0 := by decide +kernel
  have htss : ∀ j < 1024, (smallTables false).s₂.mem 0x2D000 j = 0 := by decide +kernel
  have hkernel : ∀ i < 1023, (imageMachine false).mem 0x2000 i = 0 := by decide +kernel
  have hentry : ∀ j, (smallTables false).entry 0 j = 0 := fun _ => rfl
  refine ⟨fun i _ hi j _ => ?_, fun j hj _ => ?_, fun i _ hi j _ => ?_⟩
  · rw [show (smallTables false).pageDir = 0x2C000 from rfl, hdir i (by omega), hentry]
    decide
  · rw [show (smallTables false).tss = 0x2D000 from rfl, htss j hj]
    decide
  · rw [show (smallTables false).pageDir = 0x2C000 from rfl, hdir i (by omega),
      hkernel i (by omega)]

/-- The page tables of the small launch, in frames of zeros. -/
theorem initPageTables_designed_small :
    initPageTables safeAllocator 0x2000 0x2F000 (imageMachine false) =
        some (0x2C000, (smallTables false).final) ∧
      Designed (smallTables false).final 0x2C000 0x2000 0x2F000 0x2B000 := by
  obtain ⟨heq, h⟩ := initPageTables_designed (smallTables false) (reserved_imageMachine false)
    (by unfold Frame; decide) (directory_imageMachine false).dir_ne (by unfold Frame; decide)
  exact ⟨heq, h.mpr smallTables_clean⟩

/-- **A page is mapped that should not be**: the frame of the TSS table held a one, and the page of
its entry translates to the frame `0`. -/
theorem stale_tss_entry :
    initPageTables safeAllocator 0x2000 0x2F000 (imageMachine true) =
        some (0x2C000, (smallTables true).final) ∧
      ¬ Designed (smallTables true).final 0x2C000 0x2000 0x2F000 0x2B000 := by
  have hlaid := (smallTables true).laid (reserved_imageMachine true) (by unfold Frame; decide)
    (directory_imageMachine true).dir_ne (by decide)
  refine ⟨(smallTables true).eq, fun h => ?_⟩
  have hclean := (hlaid.designed_iff (by unfold Frame; decide)
    (directory_imageMachine true).dir_ne (by unfold Frame; decide)).mp h
  have hword : (smallTables true).s₂.mem 0x2D000 128 = 1 := by decide +kernel
  have hstale := hclean.tss 128 (by decide) (by decide)
  rw [show (smallTables true).tss = 0x2D000 from rfl, hword] at hstale
  exact hstale (by decide)

end C4os
