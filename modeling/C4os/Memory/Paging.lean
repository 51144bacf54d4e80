import C4os.Memory.SafeAllocator

/-!
# Page tables (`memory_manager.c`)

Page directories and page tables are frames of 1024 words, read and written through the window.

* `mapPages`, `getPageInfo`: the two functions, over the allocation of one page.
* `info s dir v`: the entry of the page `v`, read off memory; `getPageInfo_eq`.
* `Directory`: a directory with a tree of page tables, none of which is free.
* `mapPage_spec`: what mapping one page does to the tables.
* **`map_then_translate`**: `map_pages`, then `get_page_info`.
-/

namespace C4os

open Linked Pages Word

/-- The bits of an offset in a page. -/
def PAGE_OFFSET_BITS : Nat := 12

/-- The bits of an index in a table. -/
def PAGE_TABLE_INDEX_BITS : Nat := 10

/-- The mask for an index in a table. -/
def PAGE_TABLE_INDEX_MASK : Nat := 0x3FF

/-- The bits of a physical address. -/
def PHYADDR_BITS : Nat := 32

/-- The bytes of a page. -/
def PAGE_SIZE : Nat := 0x1000

/-- `get_page_directory_index`. -/
def getPageDirectoryIndex (vaddr : Nat) : Nat := (vaddr >>> 22) &&& PAGE_TABLE_INDEX_MASK

/-- `get_page_table_index`. -/
def getPageTableIndex (vaddr : Nat) : Nat := (vaddr >>> 12) &&& PAGE_TABLE_INDEX_MASK

namespace Machine

/-- `memset(TEMP_PAGE, 0, PAGE_SIZE)`. -/
def tempZero (s : Machine) : Machine :=
  { s with mem := fun q j => if q = s.window ∧ j < 1024 then 0 else s.mem q j }

/-- `get_page_info`. -/
def getPageInfo (dir vaddr : Nat) (s : Machine) : Nat × Machine :=
  let s := s.tempMapPage dir
  let pde := s.tempGet (getPageDirectoryIndex vaddr)
  if pde &&& PAGE_PRESENT = 0 then (0, s)
  else
    let s := s.tempMapPage (andNot pde PAGE_OFFSET_MASK)
    (s.tempGet (getPageTableIndex vaddr), s)

/-! ## `map_pages` -/

/-- A fresh page table is zeroed and linked at `index` of the table `prev`. -/
def linkTable (alloc : Machine → Option (Nat × Machine)) (prev index : Nat) (s : Machine) :
    Option (Option Nat × Machine) :=
  (alloc s).map fun r =>
    if r.1 ≠ NIL then
      let s := (r.2.tempMapPage r.1).tempZero
      let s := s.tempMapPage prev
      (some r.1, s.tempSet index (r.1 ||| PAGE_PRESENT ||| PAGE_WRITABLE ||| PAGE_USER))
    else
      (none, r.2)

/-- The upper level of the walk: the entry at `index` of the table in the window, or a new one. -/
def nextTable (alloc : Machine → Option (Nat × Machine)) (table index : Nat) (s : Machine) :
    Option (Option Nat × Machine) :=
  let entry := s.tempGet index
  if entry &&& PAGE_PRESENT = 0 then s.linkTable alloc table index else some (some entry, s)

/-- The values of `shift` in the walk. -/
def walkShifts : List Nat :=
  [PHYADDR_BITS - PAGE_TABLE_INDEX_BITS, PHYADDR_BITS - 2 * PAGE_TABLE_INDEX_BITS]

/-- The walk of `map_pages` for one page. -/
def walk (alloc : Machine → Option (Nat × Machine)) (vaddr paddr flags : Nat) :
    List Nat → Nat → Machine → Option (Bool × Machine)
  | [], _, s => some (true, s)
  | shift :: shifts, table, s =>
    let index := (vaddr >>> shift) &&& PAGE_TABLE_INDEX_MASK
    let s := s.tempMapPage table
    if shift > PAGE_OFFSET_BITS then
      (s.nextTable alloc table index).bind fun r =>
        match r.1 with
        | some table => walk alloc vaddr paddr flags shifts table r.2
        | none => some (false, r.2)
    else
      walk alloc vaddr paddr flags shifts table
        (s.tempSet index (andNot paddr PAGE_OFFSET_BITS ||| flags))

/-- `map_pages`. -/
def mapPages (alloc : Machine → Option (Nat × Machine)) (dir : Nat) :
    Nat → Nat → Nat → Nat → Machine → Option (Bool × Machine)
  | _, _, 0, _, s => some (true, s)
  | vaddr, paddr, count + 1, flags, s =>
    (walk alloc vaddr paddr flags walkShifts dir s).bind fun r =>
      if r.1 then
        mapPages alloc dir (add32 vaddr PAGE_SIZE) (add32 paddr PAGE_SIZE) count flags r.2
      else some (false, r.2)

/-! ## The tables as memory -/

/-- The entry `e` has the present bit. -/
def Present (e : Nat) : Prop := e &&& PAGE_PRESENT ≠ 0

instance (e : Nat) : Decidable (Present e) := inferInstanceAs (Decidable (_ ≠ _))

/-- The entry of the page `v`. -/
def info (s : Machine) (dir v : Nat) : Nat :=
  let pde := s.mem dir (getPageDirectoryIndex v)
  if Present pde then s.mem (frameOf pde) (getPageTableIndex v) else 0

/-- The entry of the page `v` is the word `i` of the window's own page table. -/
def SharesEntry (s : Machine) (dir v i : Nat) : Prop :=
  Present (s.mem dir (getPageDirectoryIndex v)) ∧
    frameOf (s.mem dir (getPageDirectoryIndex v)) = s.kernelPageTable ∧ getPageTableIndex v = i

/-- The present entries of the directory point to distinct page tables. -/
def DistinctTables (s : Machine) (dir : Nat) : Prop :=
  ∀ i < 1024, Present (s.mem dir i) → frameOf (s.mem dir i) ≠ dir ∧
    ∀ j < 1024, Present (s.mem dir j) → frameOf (s.mem dir i) = frameOf (s.mem dir j) → i = j

/-- The directory `dir` and its tables are not free, nor is the window's page table. -/
structure Directory (A : PhysAllocator) (s : Machine) (dir : Nat) : Prop where
  ok : A.Ok s
  frame : Frame dir
  tables : DistinctTables s dir
  dir_used : ¬ A.Free s dir
  window_used : ¬ A.Free s s.kernelPageTable
  table_used : ∀ i < 1024, Present (s.mem dir i) → ¬ A.Free s (frameOf (s.mem dir i))
  dir_ne : dir ≠ s.kernelPageTable

variable {A : PhysAllocator} {s s' : Machine} {dir v w paddr flags : Nat}

theorem dirIndex_lt (v : Nat) : getPageDirectoryIndex v < 1024 :=
  Nat.and_lt_two_pow _ (by decide : PAGE_TABLE_INDEX_MASK < 2 ^ 10)

theorem tableIndex_lt (v : Nat) : getPageTableIndex v < 1024 :=
  Nat.and_lt_two_pow _ (by decide : PAGE_TABLE_INDEX_MASK < 2 ^ 10)

theorem mem_of_ne_window {i : Nat} (a : Nat) (h : ¬ (dir = s.kernelPageTable ∧ i = 1023)) :
    (s.tempMapPage a).mem dir i = s.mem dir i := by
  rw [mem_tempMapPage_eq, if_neg h]

/-- **`get_page_info` reads the entry**, unless it is the window's own. -/
theorem getPageInfo_eq (hd : Frame dir) (hne : dir ≠ s.kernelPageTable)
    (hw : ¬ SharesEntry s dir v 1023) : (s.getPageInfo dir v).1 = s.info dir v := by
  have hpde : (s.tempMapPage dir).tempGet (getPageDirectoryIndex v) =
      s.mem dir (getPageDirectoryIndex v) := by
    rw [tempGet, window_of_frame hd, mem_of_ne_window _ fun h => hne h.1]
  unfold getPageInfo info
  dsimp only
  rw [hpde]
  by_cases hp : Present (s.mem dir (getPageDirectoryIndex v))
  · have hslot : ¬ (frameOf (s.mem dir (getPageDirectoryIndex v)) = s.kernelPageTable ∧
        getPageTableIndex v = 1023) := fun h => hw ⟨hp, h.1, h.2⟩
    rw [if_neg hp, if_pos hp, tempGet, window_of_frame (frame_andNot _)]
    exact (mem_of_ne_window (s := s.tempMapPage dir) _ hslot).trans (mem_of_ne_window _ hslot)
  · rw [if_pos (not_not.mp hp), if_neg hp]

/-! ## One page -/

/-- What the upper level of the walk does: the entry `i` of the directory points to the table `t`,
which is the old one or a fresh one, and no entry of the tables changes. -/
structure NextTable (A : PhysAllocator) (s s' : Machine) (dir i t : Nat) : Prop where
  lt : i < 1024
  ok : A.Ok s'
  kernelPageTable : s'.kernelPageTable = s.kernelPageTable
  free : ∀ q, A.Free s' q → A.Free s q
  linked : Present (s'.mem dir i) ∧ frameOf (s'.mem dir i) = t
  ne_dir : t ≠ dir
  not_free : ¬ A.Free s' t
  old : Present (s.mem dir i) → s'.mem dir i = s.mem dir i
  fresh : ¬ Present (s.mem dir i) → A.Free s t
  entry : ∀ j < 1024, ¬ (t = s.kernelPageTable ∧ j = 1023) →
    s'.mem t j = if Present (s.mem dir i) then s.mem t j else 0
  dirOther : ∀ j, j ≠ i → s'.mem dir j = s.mem dir j
  other : ∀ q j, q ≠ dir → q ≠ t → ¬ A.Free s q → ¬ (q = s.kernelPageTable ∧ j = 1023) →
    s'.mem q j = s.mem q j

theorem nextTable_old {i : Nat} (hd : Directory A s dir) (hi : i < 1024)
    (hp : Present (s.mem dir i)) :
    (s.tempMapPage dir).nextTable (A.alloc 1) dir i =
        some (some (s.mem dir i), s.tempMapPage dir) ∧
      NextTable A s (s.tempMapPage dir) dir i (frameOf (s.mem dir i)) := by
  have hdir : ∀ j, (s.tempMapPage dir).mem dir j = s.mem dir j := fun j =>
    mem_of_ne_window dir fun h => hd.dir_ne h.1
  obtain ⟨hok, hfree⟩ := A.touch hd.ok (touch_tempMapPage (fun _ => False) s dir) (by simp)
  refine ⟨?_, hi, hok, rfl, fun q hq => (hfree q).mp hq, ?_, (hd.tables i hi hp).1, ?_, ?_, ?_, ?_, ?_,
    ?_⟩
  · unfold nextTable
    rw [tempGet, window_of_frame hd.frame, hdir]
    exact if_neg hp
  · rw [hdir]
    exact ⟨hp, rfl⟩
  · rw [hfree]
    exact hd.table_used i hi hp
  · exact fun _ => hdir i
  · exact fun h => absurd hp h
  · intro j _ hw
    rw [if_pos hp]
    exact mem_of_ne_window dir hw
  · exact fun j _ => hdir j
  · exact fun q j _ _ _ hw => mem_of_ne_window dir hw

theorem touch_tempZero (s : Machine) : Touch (· = s.window) s s.tempZero :=
  ⟨⟨rfl, fun _ _ hq _ => if_neg fun h => hq h.1⟩, rfl, rfl, rfl⟩

theorem linkEntry {t : Nat} (ht : Frame t) :
    Present (t ||| PAGE_PRESENT ||| PAGE_WRITABLE ||| PAGE_USER) ∧
      frameOf (t ||| PAGE_PRESENT ||| PAGE_WRITABLE ||| PAGE_USER) = t := by
  have he : t ||| PAGE_PRESENT ||| PAGE_WRITABLE ||| PAGE_USER = t + 7 := by
    rw [Nat.or_assoc, Nat.or_assoc]
    exact or_low (k := 12) ht.1 (by decide)
  rw [he]
  refine ⟨?_, andNot_mask_add ht.2 ht.1 (by omega)⟩
  unfold Present
  have hmod : (t + 7) &&& 1 = (t + 7) % 2 := Nat.and_one_is_mod (t + 7)
  rw [show PAGE_PRESENT = 1 from rfl, hmod]
  obtain ⟨c, rfl⟩ := ht.1
  omega

theorem link_mem {t i e : Nat} (hdir : Frame dir) (ht : Frame t) (q j : Nat) (hslot : ¬ (q = s.kernelPageTable ∧ j = 1023)) :
    (((s.tempMapPage t).tempZero.tempMapPage dir).tempSet i e).mem q j =
      if q = dir ∧ j = i then e else if q = t ∧ j < 1024 then 0 else s.mem q j := by
  rw [mem_tempSet, window_of_frame hdir]
  by_cases h1 : q = dir ∧ j = i
  · rw [if_pos h1, if_pos h1]
  · rw [if_neg h1, if_neg h1, mem_of_ne_window (s := (s.tempMapPage t).tempZero) dir hslot]
    show (if q = (s.tempMapPage t).window ∧ j < 1024 then 0 else (s.tempMapPage t).mem q j) = _
    rw [window_of_frame ht, mem_of_ne_window t hslot]

theorem nextTable_fresh {i : Nat} {r : Option Nat × Machine} (hd : Directory A s dir)
    (hi : i < 1024) (hp : ¬ Present (s.mem dir i))
    (h : (s.tempMapPage dir).nextTable (A.alloc 1) dir i = some r) :
    r.1 = none ∨ ∃ t, r.1 = some t ∧ NextTable A s r.2 dir i t ∧ Frame t ∧
      ∀ q, A.Free r.2 q ↔ A.Free s q ∧ q ≠ t := by
  obtain ⟨hok, hfree⟩ := A.touch hd.ok (touch_tempMapPage (fun _ => False) s dir) (by simp)
  have hdir : (s.tempMapPage dir).mem dir i = s.mem dir i :=
    mem_of_ne_window dir fun h => hd.dir_ne h.1
  unfold nextTable at h
  dsimp only at h
  rw [tempGet, window_of_frame hd.frame, hdir, if_pos (not_not.mp hp)] at h
  unfold linkTable at h
  obtain ⟨⟨t, s₂⟩, halloc, hr⟩ := Option.map_eq_some_iff.mp h
  obtain ⟨hok₂, hkept, hcase⟩ := A.alloc_spec hok (Nat.le_refl 1) halloc
  by_cases ht : t = NIL
  · left
    rw [← hr, if_neg (not_not.mpr ht)]
  right
  dsimp only at hr
  rw [if_pos ht] at hr
  obtain ⟨hnil, -⟩ | ⟨hvalid, hwas, hnow⟩ := hcase
  · exact absurd hnil ht
  have htp : t ∈ (⟨t, 1⟩ : Range).pages := base_mem_pages Nat.one_pos
  have hpages : ∀ p, p ∈ (⟨t, 1⟩ : Range).pages ↔ p = t := by simp [Range.pages, pages]
  have htf : A.Free s t := (hfree t).mp (hwas t htp)
  have htF : Frame t := A.frame hd.ok htf
  have hne : t ≠ dir := fun e => hd.dir_used (e ▸ htf)
  have hkpt : s₂.kernelPageTable = s.kernelPageTable := hkept.kernelPageTable
  have hfree₂ : ∀ q, A.Free s₂ q ↔ A.Free s q ∧ q ≠ t := fun q => by
    rw [hnow, hfree, hpages]
  have htouch : Touch (fun q => q = t ∨ q = dir) s₂ r.2 := by
    rw [← hr]
    have h1 := (touch_tempMapPage (fun q => q = t ∨ q = dir) s₂ t)
    have h2 := (touch_tempZero (s₂.tempMapPage t)).mono (Q := fun q => q = t ∨ q = dir)
      fun q hq => Or.inl (hq.trans (window_of_frame htF))
    have h3 := touch_tempMapPage (fun q => q = t ∨ q = dir) (s₂.tempMapPage t).tempZero dir
    have h4 := (touch_tempSet ((s₂.tempMapPage t).tempZero.tempMapPage dir) i
      (t ||| PAGE_PRESENT ||| PAGE_WRITABLE ||| PAGE_USER)).mono (Q := fun q => q = t ∨ q = dir)
        fun q hq => Or.inr (hq.trans (window_of_frame hd.frame))
    exact ((h1.trans h2).trans h3).trans h4
  obtain ⟨hok', hfree'⟩ := A.touch hok₂ htouch (by
    rintro q (rfl | rfl) hq
    · exact ((hfree₂ q).mp hq).2 rfl
    · exact hd.dir_used ((hfree₂ q).mp hq).1)
  have hmem : ∀ q j, ¬ (q = s.kernelPageTable ∧ j = 1023) → r.2.mem q j =
      if q = dir ∧ j = i then t ||| PAGE_PRESENT ||| PAGE_WRITABLE ||| PAGE_USER
      else if q = t ∧ j < 1024 then 0 else s₂.mem q j := fun q j hslot => by
    rw [← hr]
    exact link_mem hd.frame htF q j (by rwa [hkpt])
  have hold : ∀ q j, ¬ A.Free s q → ¬ (q = s.kernelPageTable ∧ j = 1023) →
      s₂.mem q j = s.mem q j := fun q j hq hslot => by
    rw [hkept.mem q j (by rwa [hfree]) hslot]
    exact mem_of_ne_window dir hslot
  refine ⟨t, by rw [← hr], ⟨hi, hok', ?_, ?_, ?_, hne, ?_, fun h => absurd h hp, fun _ => htf, ?_, ?_,
    ?_⟩, htF, fun q => (hfree' q).trans (hfree₂ q)⟩
  · exact htouch.kernelPageTable.trans hkpt
  · exact fun q hq => ((hfree₂ q).mp ((hfree' q).mp hq)).1
  · rw [hmem dir i fun h => hd.dir_ne h.1, if_pos ⟨rfl, rfl⟩]
    exact linkEntry htF
  · exact fun hq => ((hfree₂ t).mp ((hfree' t).mp hq)).2 rfl
  · intro j hj hslot
    rw [hmem t j hslot, if_neg fun h => hne h.1, if_pos ⟨rfl, hj⟩, if_neg hp]
  · intro j hj
    rw [hmem dir j fun h => hd.dir_ne h.1, if_neg fun h => hj h.2, if_neg fun h => hne h.1.symm]
    exact hold dir j hd.dir_used fun h => hd.dir_ne h.1
  · intro q j hqd hqt hqf hslot
    rw [hmem q j hslot, if_neg fun h => hqd h.1, if_neg fun h => hqt h.1]
    exact hold q j hqf hslot

theorem nextTable_spec {i : Nat} {r : Option Nat × Machine} (hd : Directory A s dir)
    (hi : i < 1024) (h : (s.tempMapPage dir).nextTable (A.alloc 1) dir i = some r) :
    r.1 = none ∨ ∃ e, r.1 = some e ∧ NextTable A s r.2 dir i (frameOf e) := by
  by_cases hp : Present (s.mem dir i)
  · obtain ⟨he, hn⟩ := nextTable_old hd hi hp
    obtain rfl := Option.some.inj (he.symm.trans h)
    exact Or.inr ⟨_, rfl, hn⟩
  · obtain hnone | ⟨t, ht, hn, hf, -⟩ := nextTable_fresh hd hi hp h
    · exact Or.inl hnone
    · refine Or.inr ⟨t, ht, ?_⟩
      rwa [frameOf, andNot_mask_of_aligned hf.2 hf.1]

theorem NextTable.directory {i t : Nat} (h : NextTable A s s' dir i t) (hd : Directory A s dir) :
    Directory A s' dir := by
  have hpres : ∀ j < 1024, j ≠ i → Present (s'.mem dir j) → Present (s.mem dir j) ∧
      frameOf (s'.mem dir j) = frameOf (s.mem dir j) := fun j _ hj hp => by
    rw [h.dirOther j hj] at hp ⊢
    exact ⟨hp, rfl⟩
  -- the table at `i` is none of the other tables
  have hother : ∀ j < 1024, j ≠ i → Present (s.mem dir j) → frameOf (s.mem dir j) ≠ t := by
    intro j hj hji hp e
    by_cases hpi : Present (s.mem dir i)
    · refine hji ((hd.tables j hj hp).2 i h.lt hpi ?_)
      rw [e, ← h.linked.2, h.old hpi]
    · exact hd.table_used j hj hp (e ▸ h.fresh hpi)
  refine ⟨h.ok, hd.frame, fun j hj hp => ?_, fun hf => hd.dir_used (h.free dir hf), ?_, ?_, ?_⟩
  · by_cases hji : j = i
    · subst hji
      rw [h.linked.2]
      refine ⟨h.ne_dir, fun k hk hpk he => ?_⟩
      by_contra hkj
      obtain ⟨hpk, hfk⟩ := hpres k hk (Ne.symm hkj) hpk
      exact hother k hk (Ne.symm hkj) hpk (by rw [← hfk, ← he])
    · obtain ⟨hpj, hfj⟩ := hpres j hj hji hp
      rw [hfj]
      refine ⟨(hd.tables j hj hpj).1, fun k hk hpk he => ?_⟩
      by_cases hki : k = i
      · subst hki
        rw [h.linked.2] at he
        exact absurd he (hother j hj hji hpj)
      · obtain ⟨hpk, hfk⟩ := hpres k hk hki hpk
        exact (hd.tables j hj hpj).2 k hk hpk (by rw [he, hfk])
  · rw [h.kernelPageTable]
    exact fun hf => hd.window_used (h.free _ hf)
  · intro j hj hp hf
    by_cases hji : j = i
    · subst hji
      rw [h.linked.2] at hf
      exact h.not_free hf
    · obtain ⟨hpj, hfj⟩ := hpres j hj hji hp
      rw [hfj] at hf
      exact hd.table_used j hj hpj (h.free _ hf)
  · rw [h.kernelPageTable]
    exact hd.dir_ne

theorem NextTable.sharesEntry {i t k : Nat} (h : NextTable A s s' dir i t)
    (hd : Directory A s dir) : SharesEntry s' dir w k ↔ SharesEntry s dir w k := by
  unfold SharesEntry
  rw [h.kernelPageTable]
  by_cases hi : getPageDirectoryIndex w = i
  · rw [hi]
    by_cases hp : Present (s.mem dir i)
    · rw [h.old hp]
    · refine iff_of_false (fun hs => ?_) fun hs => hp hs.1
      have hkpt : t = s.kernelPageTable := by rw [← hs.2.1, h.linked.2]
      exact hd.window_used (hkpt ▸ h.fresh hp)
  · rw [h.dirOther _ hi]

theorem NextTable.info {i t : Nat} (h : NextTable A s s' dir i t) (hd : Directory A s dir)
    (hw : ¬ SharesEntry s dir w 1023) : s'.info dir w = s.info dir w := by
  unfold Machine.info
  dsimp only
  by_cases hi : getPageDirectoryIndex w = i
  · rw [hi, if_pos h.linked.1, h.linked.2]
    by_cases hp : Present (s.mem dir i)
    · have ht : t = frameOf (s.mem dir i) := by rw [← h.linked.2, h.old hp]
      rw [h.entry _ (tableIndex_lt w), if_pos hp, if_pos hp, ht]
      rintro ⟨hk, hj⟩
      exact hw ⟨by rwa [hi], by rw [hi, ← ht, hk], hj⟩
    · rw [h.entry _ (tableIndex_lt w), if_neg hp, if_neg hp]
      rintro ⟨hk, -⟩
      exact hd.window_used (hk ▸ h.fresh hp)
  · rw [h.dirOther _ hi]
    by_cases hp : Present (s.mem dir (getPageDirectoryIndex w))
    · have hlt := dirIndex_lt w
      rw [if_pos hp, if_pos hp]
      refine h.other _ _ (hd.tables _ hlt hp).1 (fun e => ?_) (hd.table_used _ hlt hp)
        fun hs => hw ⟨hp, hs.1, hs.2⟩
      have hd' := h.directory hd
      refine hi ((hd'.tables _ hlt (by rwa [h.dirOther _ hi])).2 i h.lt h.linked.1 ?_)
      rw [h.dirOther _ hi, h.linked.2]
      exact e
    · rw [if_neg hp, if_neg hp]

theorem Directory.touch {P : Nat → Prop} (hd : Directory A s dir) (ht : Touch P s s')
    (hP : ∀ q, P q → ¬ A.Free s q) (hdir : ¬ P dir) :
    Directory A s' dir ∧ ∀ i, s'.mem dir i = s.mem dir i := by
  have hmem : ∀ i, s'.mem dir i = s.mem dir i := fun i =>
    ht.mem dir i hdir fun h => hd.dir_ne h.1
  obtain ⟨hok, hfree⟩ := A.touch hd.ok ht hP
  refine ⟨⟨hok, hd.frame, ?_, ?_, ?_, ?_, ?_⟩, hmem⟩
  · unfold DistinctTables
    simp only [hmem]
    exact hd.tables
  · rw [hfree]
    exact hd.dir_used
  · rw [hfree, ht.kernelPageTable]
    exact hd.window_used
  · simp only [hmem, hfree]
    exact hd.table_used
  · rw [ht.kernelPageTable]
    exact hd.dir_ne

theorem store_spec {i j e x : Nat} (hd : Directory A s dir) (hi : i < 1024)
    (hp : Present (s.mem dir i)) (he : frameOf (s.mem dir i) = frameOf e) :
    Directory A ((s.tempMapPage e).tempSet j x) dir ∧
      (∀ w k, SharesEntry ((s.tempMapPage e).tempSet j x) dir w k ↔ SharesEntry s dir w k) ∧
      ∀ w, ¬ SharesEntry s dir w 1023 → ((s.tempMapPage e).tempSet j x).info dir w =
        if getPageDirectoryIndex w = i ∧ getPageTableIndex w = j then x else s.info dir w := by
  have hwin : (s.tempMapPage e).window = frameOf e := window_tempMapPage s e
  have htouch : Touch (· = frameOf e) s ((s.tempMapPage e).tempSet j x) :=
    (touch_tempMapPage _ s e).trans ((touch_tempSet _ j x).mono fun q hq => hq.trans hwin)
  have hused : ¬ A.Free s (frameOf e) := he ▸ hd.table_used i hi hp
  have hne : frameOf e ≠ dir := he ▸ (hd.tables i hi hp).1
  obtain ⟨hd', hmem⟩ := hd.touch htouch (fun q hq => hq ▸ hused) (Ne.symm hne)
  have hval : ∀ q k, ¬ (q = s.kernelPageTable ∧ k = 1023) →
      ((s.tempMapPage e).tempSet j x).mem q k = if q = frameOf e ∧ k = j then x else s.mem q k := by
    intro q k hqk
    rw [mem_tempSet, hwin, mem_of_ne_window e hqk]
  refine ⟨hd', fun w k => by unfold SharesEntry; rw [hmem]; rfl, fun w hw => ?_⟩
  unfold Machine.info
  dsimp only
  rw [hmem]
  by_cases hpw : Present (s.mem dir (getPageDirectoryIndex w))
  · rw [if_pos hpw, if_pos hpw, hval _ _ fun h => hw ⟨hpw, h.1, h.2⟩]
    by_cases hwi : getPageDirectoryIndex w = i
    · rw [hwi, he]
      simp
    · have hne' : frameOf (s.mem dir (getPageDirectoryIndex w)) ≠ frameOf e := fun h =>
        hwi ((hd.tables _ (dirIndex_lt w) hpw).2 i hi hp (by rw [he, h]))
      rw [if_neg fun h => hne' h.1, if_neg fun h => hwi h.1]
  · rw [if_neg hpw, if_neg hpw, if_neg]
    rintro ⟨rfl, -⟩
    exact hpw hp

theorem walk_spec (hd : Directory A s dir)
    (h : walk (A.alloc 1) v paddr flags walkShifts dir s = some (true, s')) :
    Directory A s' dir ∧ (∀ w k, SharesEntry s' dir w k ↔ SharesEntry s dir w k) ∧
      ∀ w, ¬ SharesEntry s dir w 1023 → s'.info dir w =
        if getPageDirectoryIndex w = getPageDirectoryIndex v ∧
          getPageTableIndex w = getPageTableIndex v
        then andNot paddr PAGE_OFFSET_BITS ||| flags else s.info dir w := by
  have hwalk : walk (A.alloc 1) v paddr flags walkShifts dir s =
      ((s.tempMapPage dir).nextTable (A.alloc 1) dir (getPageDirectoryIndex v)).bind fun r =>
        match r.1 with
        | some table => some (true, (r.2.tempMapPage table).tempSet (getPageTableIndex v)
            (andNot paddr PAGE_OFFSET_BITS ||| flags))
        | none => some (false, r.2) := rfl
  rw [hwalk] at h
  obtain ⟨⟨o, s₂⟩, hnext, h⟩ := Option.bind_eq_some_iff.mp h
  obtain hnone | ⟨e, he, hn⟩ := nextTable_spec hd (dirIndex_lt v) hnext
  · dsimp only at hnone
    rw [hnone] at h
    simp at h
  · dsimp only at he hn
    rw [he] at h
    obtain rfl : _ = s' := congrArg Prod.snd (Option.some.inj h)
    have hshare := fun w k => hn.sharesEntry (w := w) (k := k) hd
    obtain ⟨h1, h2, h3⟩ := store_spec (x := andNot paddr PAGE_OFFSET_BITS ||| flags)
      (hn.directory hd) hn.lt hn.linked.1 hn.linked.2
    refine ⟨h1, fun w k => (h2 w k).trans (hshare w k), fun w hw' => ?_⟩
    rw [h3 w fun hs => hw' ((hshare w 1023).mp hs), hn.info hd hw']

/-! ## A range of pages -/

theorem same_entry_iff (hv : v < 2 ^ 32) (hw : w < 2 ^ 32) :
    (getPageDirectoryIndex w = getPageDirectoryIndex v ∧ getPageTableIndex w = getPageTableIndex v) ↔
      w / 4096 = v / 4096 := by
  have hmask : ∀ x : Nat, x &&& PAGE_TABLE_INDEX_MASK = x % 2 ^ 10 := fun x =>
    Nat.and_two_pow_sub_one_eq_mod x 10
  unfold getPageDirectoryIndex getPageTableIndex
  simp only [hmask, Nat.shiftRight_eq_div_pow]
  omega

theorem info_congr (s : Machine) (dir : Nat) (hv : v < 2 ^ 32) (hw : w < 2 ^ 32)
    (h : w / 4096 = v / 4096) : s.info dir w = s.info dir v := by
  obtain ⟨hd, ht⟩ := (same_entry_iff hv hw).mpr h
  unfold Machine.info
  rw [hd, ht]

/-- The walk of one page, by addresses. -/
theorem mapPage_spec (hd : Directory A s dir) (hv : v < 2 ^ 32) (hp : Frame paddr)
    (h : walk (A.alloc 1) v paddr flags walkShifts dir s = some (true, s')) :
    Directory A s' dir ∧ (∀ w k, SharesEntry s' dir w k ↔ SharesEntry s dir w k) ∧
      ∀ w < 2 ^ 32, ¬ SharesEntry s dir w 1023 → s'.info dir w =
        if w / 4096 = v / 4096 then paddr ||| flags else s.info dir w := by
  obtain ⟨h1, h2, h3⟩ := walk_spec hd h
  refine ⟨h1, h2, fun w hw32 hws => ?_⟩
  have hpa : andNot paddr PAGE_OFFSET_BITS = paddr :=
    andNot_eq_self (k := 12) hp.2 hp.1 (by decide)
  rw [h3 w hws, hpa]
  simp only [same_entry_iff hv hw32]

/-- The page of `w` is one of the `count` pages from `v` on. -/
def InRange (v count w : Nat) : Prop := v / 4096 ≤ w / 4096 ∧ w / 4096 < v / 4096 + count

theorem add_page {count : Nat} (hv : 4096 ∣ v) (hb : v + (count + 1) * 4096 ≤ 2 ^ 32) :
    4096 ∣ add32 v PAGE_SIZE ∧ add32 v PAGE_SIZE + count * 4096 ≤ 2 ^ 32 ∧
      (count ≠ 0 → add32 v PAGE_SIZE = v + 4096) := by
  unfold add32 PAGE_SIZE
  omega

theorem mapPages_spec {count : Nat} (hd : Directory A s dir) (hv : 4096 ∣ v) (hp : 4096 ∣ paddr)
    (hvb : v + count * 4096 ≤ 2 ^ 32) (hpb : paddr + count * 4096 ≤ 2 ^ 32)
    (hw : ∀ i < count, ¬ SharesEntry s dir (v + i * 4096) 1023)
    (h : mapPages (A.alloc 1) dir v paddr count flags s = some (true, s')) :
    Directory A s' dir ∧ (∀ w k, SharesEntry s' dir w k ↔ SharesEntry s dir w k) ∧
      (∀ i < count, s'.info dir (v + i * 4096) = (paddr + i * 4096) ||| flags) ∧
      ∀ w < 2 ^ 32, ¬ SharesEntry s dir w 1023 → ¬ InRange v count w →
        s'.info dir w = s.info dir w := by
  induction count generalizing v paddr s with
  | zero =>
    obtain rfl : s = s' := congrArg Prod.snd (Option.some.inj h)
    exact ⟨hd, fun _ _ => Iff.rfl, by simp, fun _ _ _ _ => rfl⟩
  | succ count ih =>
    have hv32 : v < 2 ^ 32 := by omega
    have hp32 : paddr < 2 ^ 32 := by omega
    have hw0 : ¬ SharesEntry s dir v 1023 := by simpa using hw 0 (by omega)
    rw [mapPages] at h
    obtain ⟨⟨b, s₁⟩, hwalk, h⟩ := Option.bind_eq_some_iff.mp h
    cases b with
    | false => simp at h
    | true =>
      obtain ⟨hd₁, hs₁, hinfo₁⟩ := mapPage_spec hd hv32 ⟨hp, hp32⟩ hwalk
      rw [if_pos rfl] at h
      obtain ⟨hv', hvb', hvn⟩ := add_page hv hvb
      obtain ⟨hp', hpb', hpn⟩ := add_page hp hpb
      have hw' : ∀ i < count, ¬ SharesEntry s₁ dir (add32 v PAGE_SIZE + i * 4096) 1023 := by
        intro i hi hs
        rw [hs₁, hvn (by omega)] at hs
        exact hw (i + 1) (by omega) (by rwa [Nat.add_mul, Nat.one_mul, ← Nat.add_assoc,
          Nat.add_right_comm])
      obtain ⟨hd', hs', hin, hout⟩ := ih hd₁ hv' hp' hvb' hpb' hw' h
      have hrest : ∀ w, InRange (add32 v PAGE_SIZE) count w → InRange v (count + 1) w ∧
          w / 4096 ≠ v / 4096 := by
        intro w hr
        unfold InRange at hr ⊢
        rw [hvn (by omega)] at hr
        omega
      refine ⟨hd', fun w k => (hs' w k).trans (hs₁ w k), fun i hi => ?_, fun w hw32 hws hr => ?_⟩
      · cases i with
        | zero =>
          have hv0 : ¬ InRange (add32 v PAGE_SIZE) count v := fun hr => (hrest v hr).2 rfl
          rw [Nat.zero_mul, Nat.add_zero, Nat.add_zero,
            hout v hv32 (fun hs => hw0 ((hs₁ v 1023).mp hs)) hv0, hinfo₁ v hv32 hw0, if_pos rfl]
        | succ i =>
          have := hin i (by omega)
          rw [hvn (by omega), hpn (by omega)] at this
          rw [Nat.add_mul, Nat.one_mul, ← Nat.add_assoc, ← Nat.add_assoc, Nat.add_right_comm,
            Nat.add_right_comm paddr]
          exact this
      · have hne : w / 4096 ≠ v / 4096 := by
          intro e
          apply hr
          unfold InRange
          omega
        rw [hout w hw32 (fun hs => hws ((hs₁ w 1023).mp hs)), hinfo₁ w hw32 hws, if_neg hne]
        exact fun h => hr (hrest w h).1

/-- **Map, then translate.** When `map_pages` succeeds, the pages of the range translate as asked,
all other pages as before, and the directory still has distinct tables; the pages that share an
entry with the window are left out. -/
theorem map_then_translate {count : Nat} (hd : Directory A s dir) (hv : 4096 ∣ v)
    (hp : 4096 ∣ paddr) (hvb : v + count * 4096 ≤ 2 ^ 32) (hpb : paddr + count * 4096 ≤ 2 ^ 32)
    (hw : ∀ i < count, ∀ k, 1022 ≤ k → ¬ SharesEntry s dir (v + i * 4096) k)
    (h : mapPages (A.alloc 1) dir v paddr count flags s = some (true, s')) :
    (∀ i < count, (s'.getPageInfo dir (v + i * 4096)).1 = (paddr + i * 4096) ||| flags) ∧
      (∀ w < 2 ^ 32, ¬ SharesEntry s dir w 1023 → ¬ InRange v count w →
        (s'.getPageInfo dir w).1 = (s.getPageInfo dir w).1) ∧
      DistinctTables s' dir := by
  obtain ⟨hd', hs', hin, hout⟩ := mapPages_spec hd hv hp hvb hpb
    (fun i hi => hw i hi 1023 (by decide)) h
  refine ⟨fun i hi => ?_, fun w hw32 hws hr => ?_, hd'.tables⟩
  · rw [getPageInfo_eq hd'.frame hd'.dir_ne
      fun hs => hw i hi 1023 (by decide) ((hs' _ _).mp hs)]
    exact hin i hi
  · rw [getPageInfo_eq hd'.frame hd'.dir_ne fun hs => hws ((hs' _ _).mp hs),
      getPageInfo_eq hd.frame hd.dir_ne hws]
    exact hout w hw32 hws hr

/-- An empty directory at `0x2000` and four free pages at `0x10000`; the page table of the window
is at `0x1000`. -/
def emptyDirectory : Machine :=
  ⟨fun p i => if p = 0x10000 then if i = SIZE then 4 else 0x10000 else 0, 0x1000, 4, 0x10000, false⟩

theorem freeRing_emptyDirectory : emptyDirectory.FreeRing [0x10000] := by
  refine ⟨⟨rfl, ring_singleton.mpr ⟨rfl, rfl⟩⟩, ?_, ?_, ?_, rfl⟩
  · simp
  · intro b hb
    obtain rfl := List.mem_singleton.mp hb
    decide
  · intro b hb
    obtain rfl := List.mem_singleton.mp hb
    decide

theorem directory_emptyDirectory : Directory safeAllocator emptyDirectory 0x2000 := by
  have hfree : ∀ p, OnFreeList emptyDirectory p → 0x10000 ≤ p := fun p hp => by
    rw [onFreeList_iff freeRing_emptyDirectory] at hp
    obtain ⟨b, hb, hp⟩ := List.mem_flatMap.mp hp
    obtain rfl := List.mem_singleton.mp hb
    exact (lt_of_mem_pages hp).1
  have hnone : ∀ i, ¬ Present (emptyDirectory.mem 0x2000 i) := fun _ => by simp [emptyDirectory, Present]
  refine ⟨⟨_, freeRing_emptyDirectory, by decide, rfl⟩, by unfold Frame; decide,
    fun i _ hp => absurd hp (hnone i), fun h => ?_, fun h => ?_, fun i _ hp => absurd hp (hnone i),
    by decide⟩
  · exact absurd (hfree _ h) (by decide)
  · exact absurd (hfree _ h) (by decide)

/-- Two pages mapped into the empty directory, which takes a new page table. -/
theorem map_then_translate_two :
    ∃ s', mapPages (safeAllocator.alloc 1) 0x2000 0x400000 0x5000 2 3 emptyDirectory =
        some (true, s') ∧
      ∀ i < 2, (s'.getPageInfo 0x2000 (0x400000 + i * 4096)).1 = (0x5000 + i * 4096) ||| 3 := by
  have h : (mapPages (allocPhysPages (2 ^ 20) 1) 0x2000 0x400000 0x5000 2 3 emptyDirectory).map
      Prod.fst = some true := by decide +kernel
  obtain ⟨⟨b, s'⟩, h, rfl⟩ := Option.map_eq_some_iff.mp h
  refine ⟨s', h, (map_then_translate directory_emptyDirectory (by decide) (by decide) (by decide)
    (by decide) (fun i _ k _ hs => ?_) h).1⟩
  exact absurd hs.1 (by unfold emptyDirectory; simp [Present])

/-- A directory whose first entry points to the page table of the window. -/
def windowDirectory : Machine :=
  ⟨fun p i => if p = 0x2000 ∧ i = 0 then 0x1003 else 0, 0x1000, 0, NIL, false⟩

theorem directory_windowDirectory : Directory safeAllocator windowDirectory 0x2000 := by
  have hring : windowDirectory.FreeRing [] := ⟨rfl, by simp, by simp, by simp, rfl⟩
  have hfree : ∀ p, ¬ OnFreeList windowDirectory p := fun p hp => by
    rw [onFreeList_iff hring] at hp
    simp [freePages] at hp
  have hpres : ∀ i, Present (windowDirectory.mem 0x2000 i) → i = 0 := fun i hp => by
    by_contra hi
    simp [windowDirectory, Present, hi] at hp
  refine ⟨⟨[], hring, by simp [freePages], rfl⟩, by unfold Frame; decide, fun i hi hp => ?_,
    hfree _, hfree _, fun _ _ _ => hfree _, by decide⟩
  obtain rfl := hpres i hp
  exact ⟨by decide +kernel, fun j _ hj _ => (hpres j hj).symm⟩

/-- **The page `0x3FF000` of that directory cannot be mapped**: its entry is the window's own, which
`get_page_info` moves before it reads it. -/
theorem shared_entry_lost :
    ∃ s', Directory safeAllocator windowDirectory 0x2000 ∧
      mapPages (safeAllocator.alloc 1) 0x2000 0x3FF000 0x5000 1 1 windowDirectory =
        some (true, s') ∧
      (s'.getPageInfo 0x2000 0x3FF000).1 ≠ 0x5000 ||| 1 := by
  have h : (mapPages (allocPhysPages (2 ^ 20) 1) 0x2000 0x3FF000 0x5000 1 1 windowDirectory).map
      (fun r => (r.1, (r.2.getPageInfo 0x2000 0x3FF000).1)) = some (true, 0x1003) := by
    decide +kernel
  obtain ⟨⟨b, s'⟩, h, he⟩ := Option.map_eq_some_iff.mp h
  obtain ⟨rfl, he⟩ := Prod.mk.inj he
  exact ⟨s', directory_windowDirectory, h, by rw [he]; decide⟩

end Machine

end C4os
