import C4os.Memory.Foreign

/-!
# The table of a process moves

* `growKernel_shows`, `recorded_info`, `recorded_grow`: the entries while a block is recorded.
* `placed_frames`: the pages of a request of the kernel that is met show new frames.
* `touch_copyTable`: the copy of a table writes the frames of its pages only.
* `MoveOk`, `TableFrames`: the kernel has a place and frames for the larger table, and the old one
  gives back its own.
* **`growProcess_moved`**: moving the table of a process.
-/

namespace C4os

open Machine Pages Word

variable {A : PhysAllocator} {sp : Space} {st st' : VirtState}
  {dir dir' v i j k n p q vaddr paddr flags count : Nat} {m m' m₁ m₂ : Machine}
  {type : VirtMemoryBlockType} {b : VirtMemoryBlock} {P Q R : Nat → Prop}

/-! ## A block is recorded -/

/-- The page that the table of the kernel grows into is mapped to a frame that was free. -/
theorem growKernel_shows {r : Bool × VirtState}
    (hd : Directory A st.machine (st.spaces sp).pageDir)
    (hw : ¬ SharesEntry st.machine (st.spaces sp).pageDir (growPage (st.spaces sp)) 1023)
    (h : growKernel A sp st = some r) (hr : r.1 = true) :
    ∃ p, A.Free st.machine p ∧ Apart A r.2.machine (st.spaces sp).pageDir p ∧
      Shows (r.2.machine.info (st.spaces sp).pageDir (growPage (st.spaces sp))) p := by
  unfold growKernel at h
  dsimp only at h
  obtain ⟨⟨p, m⟩, halloc, h⟩ := Option.bind_eq_some_iff.mp h
  dsimp only at h
  split_ifs at h with hp
  · rw [← Option.some.inj h] at hr
    exact absurd hr Bool.noConfusion
  · obtain ⟨⟨ok, m'⟩, hmap, h⟩ := Option.bind_eq_some_iff.mp h
    dsimp only at h
    split_ifs at h with hok
    obtain rfl := Option.some.inj h
    subst hok
    have hm := Mapped.alloc hd (Nat.le_refl 1) halloc
    obtain ⟨hfree, hap⟩ := apart_alloc hd halloc hp
    have hlt : growPage (st.spaces sp) < 2 ^ 32 := add32_lt _ _
    have hshow := mapPages_shows hm.directory hlt (by decide) (fun i hi hs => hw (by
      obtain rfl : i = 0 := by omega
      rw [pageAt_zero hlt] at hs
      exact (hm.shares _ _).mp hs)) hmap 0 Nat.one_pos
    refine ⟨p, hfree, ((mapPages_mapped hm.directory hlt hmap).apart hap).1, ?_⟩
    rw [pageAt_zero hlt, Nat.zero_mul, Nat.add_zero,
      andNot_eq_self (k := 12) hap.frame.2 hap.frame.1 (by decide)] at hshow
    show Shows (m'.info _ _) p
    rw [hshow]
    exact shows_or hap.frame (by decide) (by decide)

/-- The tables after an allocation that was recorded. -/
theorem recorded_info (hd : Directory A st.machine dir) (hdir : (st.spaces sp).pageDir = dir)
    (hc : 1 ≤ count) (hcount : count ≤ 2 ^ 20) (hs : Stays sp (st.spaces sp)) (hv : v < 2 ^ 32)
    (hw : ∀ i < count, ¬ SharesEntry st.machine dir (pageAt v i) 1023)
    (frames : takeFrames A paddr count st.machine = some ((p, type), m₁))
    (mapped : mapPages (A.alloc 1) dir v p count flags m₁ = some (true, m₂))
    (entry : recordBlock (growTable A sp) sp j b (st.setMachine m₂) = some (true, st')) :
    Directory A st'.machine dir ∧
      (∀ w k, SharesEntry st'.machine dir w k ↔ SharesEntry st.machine dir w k) ∧
      ∀ i < count, ¬ (GrowsKernel sp (st.spaces sp) ∧
        InPages (growPage (st.spaces sp)) 1 (pageAt v i)) → st'.machine.info dir (pageAt v i) =
          andNot (p + i * 4096) PAGE_OFFSET_BITS ||| flags := by
  subst hdir
  have hm₁ := (takeFrames_mapped hd hc frames).1
  have hw₁ : ∀ i < count, ¬ SharesEntry m₁ (st.spaces sp).pageDir (pageAt v i) 1023 :=
    fun i hi h => hw i hi ((hm₁.shares _ _).mp h)
  have hm₂ := mapPages_mapped hm₁.directory hv mapped
  have hshow := mapPages_shows hm₁.directory hv hcount hw₁ mapped
  have hm₃ := recordBlock_mapped (by exact hm₂.directory) (by exact hs) entry
  refine ⟨hm₃.directory, fun w k => ?_, fun i hi hg => ?_⟩
  · exact ((hm₃.shares w k).trans (hm₂.shares w k)).trans (hm₁.shares w k)
  · rw [← hshow i hi]
    exact hm₃.info _ (pageAt_lt v i) (fun h => hw₁ i hi ((hm₂.shares _ _).mp h)) hg

/-- The page that the table of the kernel grew into. -/
theorem recorded_grow (hd : Directory A m₁ (st.spaces sp).pageDir)
    (hg : GrowsKernel sp (st.spaces sp)) (hv : v < 2 ^ 32)
    (hpage : growPage (st.spaces sp) / 4096 = v / 4096)
    (hw : ¬ SharesEntry m₁ (st.spaces sp).pageDir v 1023)
    (entry : recordBlock (growTable A sp) sp j b (st.setMachine m₁) = some (true, st')) :
    ∃ p, A.Free m₁ p ∧ Apart A st'.machine (st.spaces sp).pageDir p ∧
      Shows (st'.machine.info (st.spaces sp).pageDir v) p := by
  obtain ⟨hdi, hti⟩ := (same_entry_iff hv (growPage_lt _)).mpr hpage
  obtain ⟨hspare, -⟩ | ⟨-, st₁, hgrow, rfl⟩ := recordBlock_cases entry
  · exact absurd hg.2 hspare
  rw [growTable, if_pos hg.1] at hgrow
  obtain ⟨p, hfree, hap, hshows⟩ := growKernel_shows (by exact hd) (by
    unfold SharesEntry at hw ⊢
    dsimp only [VirtState.spaces_setMachine, VirtState.machine_setMachine]
    rwa [hdi, hti]) hgrow rfl
  refine ⟨p, hfree, hap, ?_⟩
  unfold Machine.info at hshows
  dsimp only [VirtState.spaces_setMachine] at hshows
  rw [hdi, hti] at hshows
  exact hshows

/-- **The pages of a request of the kernel that is met** show frames that were free, and that belong
to nobody else. -/
theorem placed_frames (hd : Directory A st.machine (st.spaces .kernel).pageDir) (hc : 1 ≤ n)
    (hn : n ≤ 2 ^ 20) (hv : v < 2 ^ 32)
    (hw : ∀ i < n, ¬ SharesEntry st.machine (st.spaces .kernel).pageDir (pageAt v i) 1023)
    (hf : flags < 4096) (hpres : flags &&& PAGE_PRESENT ≠ 0)
    (frames : takeFrames A NIL n st.machine = some ((p, type), m₁)) (ne : p ≠ NIL)
    (mapped : mapPages (A.alloc 1) (st.spaces .kernel).pageDir v p n flags m₁ = some (true, m₂))
    (entry : recordBlock (growTable A .kernel) .kernel j b (st.setMachine m₂) = some (true, st')) :
    ∀ i < n, ∃ q, A.Free st.machine q ∧ Apart A st'.machine (st.spaces .kernel).pageDir q ∧
      Shows (st'.machine.info (st.spaces .kernel).pageDir (pageAt v i)) q := by
  obtain ⟨hm₁, hnew, -⟩ := takeFrames_mapped hd hc frames
  have hm₂ := mapPages_mapped hm₁.directory hv mapped
  have hm₃ := recordBlock_mapped (by exact hm₂.directory) (Or.inl rfl) entry
  obtain ⟨hvalid, hap, -⟩ := apart_alloc_range hd hc (hnew rfl) ne
  intro i hi
  by_cases hgrow : GrowsKernel .kernel (st.spaces .kernel) ∧
      InPages (growPage (st.spaces .kernel)) 1 (pageAt v i)
  · -- the page that the table of the kernel grew into shows the frame of the table
    have hpage := ((inPages_one (growPage_lt _)).mp hgrow.2).symm
    obtain ⟨q, hfree, hq, hshows⟩ := recorded_grow hm₂.directory hgrow.1 (pageAt_lt v i) hpage
      (fun hs => hw i hi ((hm₁.shares _ _).mp ((hm₂.shares _ _).mp hs))) entry
    exact ⟨q, hm₁.free q (hm₂.free q hfree), hq, hshows⟩
  · obtain ⟨-, -, hinfo⟩ := recorded_info hd rfl hc hn (Or.inl rfl) hv hw frames mapped entry
    have hbound : p + n * 4096 < 2 ^ 32 := hvalid.bound
    have hle : p + i * 4096 ≤ p + n * 4096 :=
      Nat.add_le_add_left (Nat.mul_le_mul_right 4096 (Nat.le_of_lt hi)) p
    have hlt : p + i * 4096 < 2 ^ 32 := Nat.lt_of_le_of_lt hle hbound
    have hself : frameOf p = p := andNot_mask_of_aligned (by omega) hvalid.aligned
    have hpi : frameOf (p + i * 4096) ∈ (⟨p, n⟩ : Range).pages := by
      rw [frameOf_page, hself, Nat.mod_eq_of_lt hlt]
      have hcomm : p + i * 4096 = p + 4096 * i := by omega
      exact mem_pages.mpr ⟨i, hi, hcomm⟩
    obtain ⟨hfree, hq⟩ := hap _ hpi
    refine ⟨_, hfree, (hm₃.apart (hm₂.apart hq).1).1, ?_⟩
    rw [hinfo i hi hgrow]
    exact shows_entry hf hpres

/-! ## The copy -/

theorem touch_storeByte {c : UInt8} (h : storeByte dir v c m = some m') :
    Present (m.info dir v) ∧ Touch (· = frameOf (m.info dir v)) m m' := by
  unfold storeByte at h
  dsimp only at h
  split_ifs at h with hp
  obtain rfl := Option.some.inj h
  refine ⟨hp, ⟨rfl, fun q j hq _ => ?_⟩, rfl, rfl, rfl⟩
  rw [mem_write, if_neg fun h => hq h.1]

/-- **The copy of a table** writes the frames of its pages only. -/
theorem touch_copyTable {t : Nat → VirtMemoryBlock} (hd : Directory A m dir)
    (hP : ∀ q, P q → Apart A m dir q)
    (hpages : ∀ x, k ≤ x → x < k + n → ¬ SharesEntry m dir (add32 v x) 1023 ∧
      P (frameOf (m.info dir (add32 v x))))
    (h : copyTable dir v t n k m = some m') : Touch P m m' := by
  induction n generalizing k m with
  | zero =>
    obtain rfl := Option.some.inj h
    exact .refl P m
  | succ n ih =>
    rw [copyTable] at h
    obtain ⟨m₁, hstore, h⟩ := Option.bind_eq_some_iff.mp h
    obtain ⟨-, hk⟩ := hpages k (Nat.le_refl k) (by omega)
    have ht : Touch P m m₁ := (touch_storeByte hstore).2.mono fun q hq => hq ▸ hk
    have hu := hd.unseen_store ht hP
    refine ht.trans (ih hu.directory (fun q hq => hu.apart q (hP q hq)) (fun x hlo hhi => ?_) h)
    obtain ⟨hshares, hx⟩ := hpages x (by omega) (by omega)
    rw [hu.info _ (add32_lt _ _) hshares id]
    exact ⟨fun hs => hshares ((hu.shares _ _).mp hs), hx⟩

/-- The size of a larger table does not overflow. -/
def AddressSpace.TableFits (as : AddressSpace) : Prop :=
  as.blockTableSize * blockBytes + 2 * PAGE_SIZE ≤ 2 ^ 32

theorem newTablePages_lt (as : AddressSpace) : as.newTablePages * 4096 < 2 ^ 32 := by
  have h : as.newTablePages = add32 (andNot (add32 (as.blockTableSize * blockBytes) PAGE_OFFSET_MASK)
      PAGE_OFFSET_MASK) PAGE_SIZE / 4096 := Nat.shiftRight_eq_div_pow _ 12
  have hlt := add32_lt (andNot (add32 (as.blockTableSize * blockBytes) PAGE_OFFSET_MASK)
    PAGE_OFFSET_MASK) PAGE_SIZE
  omega

theorem AddressSpace.TableFits.bytes {as : AddressSpace} (h : as.TableFits) :
    as.blockTableSize * blockBytes % 2 ^ 32 = as.blockTableSize * blockBytes := by
  unfold AddressSpace.TableFits PAGE_SIZE at h
  exact Nat.mod_eq_of_lt (by omega)

theorem AddressSpace.TableFits.le {as : AddressSpace} (h : as.TableFits) :
    as.blockTableSize * blockBytes + 4096 ≤ as.newTablePages * 4096 := by
  unfold AddressSpace.TableFits PAGE_SIZE at h
  have hmask : PAGE_OFFSET_MASK = 4095 := rfl
  have hround : add32 (as.blockTableSize * blockBytes) PAGE_OFFSET_MASK =
      as.blockTableSize * blockBytes + 4095 := add32_eq (by omega)
  have hpages : as.newTablePages = add32 (andNot (add32 (as.blockTableSize * blockBytes)
      PAGE_OFFSET_MASK) PAGE_OFFSET_MASK) PAGE_SIZE / 4096 := Nat.shiftRight_eq_div_pow _ 12
  rw [hpages, hround, andNot_mask (by omega), add32_eq (by unfold PAGE_SIZE; omega)]
  unfold PAGE_SIZE
  omega

theorem exists_page {x : Nat} (hx : x + 4096 ≤ n * 4096) :
    ∃ i < n, pageAt v i / 4096 = add32 v x / 4096 := by
  refine ⟨(v % 4096 + x) / 4096, by omega, ?_⟩
  unfold pageAt add32
  omega

/-! ## The move -/

/-- The kernel's space `as` has frames for `n` pages of a larger table, or the page where its search
stops is not mapped, so that the copy faults. -/
def TableFrames (A : PhysAllocator) (as : AddressSpace) (n : Nat) (s : Machine) : Prop :=
  (∀ m, A.alloc n s ≠ some (NIL, m)) ∨
    ∀ v, v ≠ 0 → Stops as 0 n v → ¬ Present (s.info as.pageDir v)

theorem AllocEnd.of_mem {q : Nat × VirtState}
    (h : AllocEnd A (growTable A sp) sp vaddr paddr count flags st q)
    (hb : b ∈ blockList (q.2.spaces sp)) : b ∈ blockList (st.spaces sp) ∨
      (GrowsKernel sp (st.spaces sp) ∧
        b = (st.spaces sp).growLast ((st.spaces sp).blockCount - 1)) ∨
      (q.1 = (findPlace (st.spaces sp) vaddr count).1 ∧ q.1 ≠ 0 ∧ b.base = q.1 ∧
        b.length = pageShift count ∧ b.type ≠ .reserved) := by
  obtain ⟨hs, -⟩ | ⟨hplace, hne, as', type, hg, htype, hs⟩ := h.table
  · rw [hs] at hb
    exact Or.inl hb
  rw [hs] at hb
  have hi : (findPlace (st.spaces sp) vaddr count).2 ≤ as'.blockCount := by
    rw [hg.blockCount]
    exact findPlace_index_le _ _ _
  rcases of_mem_insertBlock hi hb with rfl | hb
  · exact Or.inr (Or.inr ⟨hplace, hne, rfl, rfl, htype⟩)
  obtain ⟨j, hj, rfl⟩ := exists_of_mem_blockList hb
  rw [hg.blockCount] at hj
  rw [hg.blocks]
  split_ifs with hgrow
  · by_cases hlast : j = (st.spaces sp).blockCount - 1
    · exact Or.inr (Or.inl ⟨hgrow, by rw [hlast]⟩)
    · refine Or.inl ?_
      unfold AddressSpace.growLast
      rw [Function.update_of_ne hlast]
      exact blocks_mem hj
  · exact Or.inl (blocks_mem hj)

/-- The table of a process may move from the address `addr` of the kernel's space `as` to `n` new
pages of it. These are others, and not those of the window; the block that holds the old table gives
back whole pages in use that belong to no page table. -/
structure MoveOk (A : PhysAllocator) (as : AddressSpace) (s : Machine) (dir' addr n : Nat) : Prop where
  pos : 1 ≤ n
  addr_lt : addr < 2 ^ 32
  window : ¬ SharesEntry s as.pageDir addr 1023
  place : ∀ v, v ≠ 0 → Stops as 0 n v →
    ¬ InPages v n addr ∧ ¬ (v ≤ addr ∧ addr < add32 v (pageShift n))
  place_window : ∀ v, v ≠ 0 → Stops as 0 n v → ∀ i < n,
    ¬ SharesEntry s as.pageDir (pageAt v i) 1023
  grow : GrowsKernel .kernel as → ¬ InPages (growPage as) 1 addr
  freed : ∀ b, b ∈ blockList as ∨ GrowsKernel .kernel as ∧ b = as.growLast (as.blockCount - 1) →
    b.base ≤ addr → addr < add32 b.base b.length →
    (⟨frameOf (s.info as.pageDir addr), b.length >>> PAGE_OFFSET_BITS⟩ : Range).Valid ∧
    ∀ p ∈ (⟨frameOf (s.info as.pageDir addr), b.length >>> PAGE_OFFSET_BITS⟩ : Range).pages,
      Apart A s as.pageDir p ∧ Apart A s dir' p

variable {as : AddressSpace} {s s' : Machine} {addr : Nat}

theorem MoveOk.keeps (h : MoveOk A as s dir' addr n) (hk : Keeps A s s' as.pageDir R)
    (haddr : ¬ R addr) (hap : ∀ q, Apart A s as.pageDir q → Apart A s' as.pageDir q)
    (hown : ∀ q, Apart A s dir' q → Apart A s' dir' q) : MoveOk A as s' dir' addr n := by
  have hinfo := hk.info addr h.addr_lt h.window haddr
  refine ⟨h.pos, h.addr_lt, fun hs => h.window ((hk.shares _ _).mp hs), h.place,
    fun v hv hstops i hi hs => h.place_window v hv hstops i hi ((hk.shares _ _).mp hs), h.grow,
    fun b hb hlo hhi => ?_⟩
  obtain ⟨hvalid, hfreed⟩ := h.freed b hb hlo hhi
  rw [hinfo]
  exact ⟨hvalid, fun p hp => ⟨hap p (hfreed p hp).1, hown p (hfreed p hp).2⟩⟩

theorem MoveOk.unseen (h : MoveOk A as s dir' addr n) (hu : Unseen A s s' as.pageDir)
    (hown : ∀ q, Apart A s dir' q → Apart A s' dir' q) : MoveOk A as s' dir' addr n :=
  h.keeps hu.toKeeps id hu.apart hown

/-- **What the copy writes**: frames that were free before the request of the kernel, or nothing. The
new pages are mapped when there is a byte to copy, or a frame for them. -/
theorem AllocEnd.copied {a : Nat} {t : Nat → VirtMemoryBlock} {b : Nat}
    (hd : Directory A st.machine (st.spaces .kernel).pageDir) (hc : 1 ≤ n) (hn : n * 4096 < 2 ^ 32)
    (hwin : ∀ v, v ≠ 0 → Stops (st.spaces .kernel) 0 n v → ∀ i < n,
      ¬ SharesEntry st.machine (st.spaces .kernel).pageDir (pageAt v i) 1023)
    (hbytes : b + 4096 ≤ n * 4096) (hframes : TableFrames A (st.spaces .kernel) n st.machine)
    (hend : AllocEnd A (growTable A .kernel) .kernel 0 NIL n (PAGE_PRESENT ||| PAGE_WRITABLE) st
      (a, st')) (ha : a ≠ 0)
    (hcopy : copyTable (st.spaces .kernel).pageDir a t b 0 st'.machine = some m) :
    (∃ P : Nat → Prop, Touch P st'.machine m ∧
      ∀ q, P q → A.Free st.machine q ∧ Apart A st'.machine (st.spaces .kernel).pageDir q) ∧
    ((0 < b ∨ ∀ m, A.alloc n st.machine ≠ some (NIL, m)) → ∀ i < n,
      Present (st'.machine.info (st.spaces .kernel).pageDir (pageAt a i))) := by
  have hlt := findPlace_lt (st.spaces .kernel) n (Nat.two_pow_pos 32)
  generalize hr : (a, st') = r at hend
  cases hend with
  | noPlace => exact absurd (congrArg Prod.fst hr) ha
  | notRecorded => exact absurd (congrArg Prod.fst hr) ha
  | notMapped => exact absurd (congrArg Prod.fst hr) ha
  | noFrames place _ frames =>
    obtain ⟨rfl, rfl⟩ := Prod.mk.inj hr
    have hstops := findPlace_stops place
    rcases hframes with hframes | hplace
    · exact absurd frames (hframes _)
    -- the page is not mapped, so that nothing is copied
    have hmap := Mapped.alloc hd hc frames
    have hnot := hplace _ place hstops
    have hwin := hwin _ place hstops 0 hc
    rw [pageAt_zero hlt] at hwin
    rw [← hmap.info _ hlt hwin id] at hnot
    cases b with
    | zero =>
      obtain rfl := Option.some.inj hcopy
      refine ⟨⟨fun _ => False, .refl _ _, fun _ h => h.elim⟩, fun h => ?_⟩
      exact absurd frames (h.resolve_left (Nat.lt_irrefl 0) _)
    | succ b =>
      rw [copyTable] at hcopy
      obtain ⟨m₁, hstore, -⟩ := Option.bind_eq_some_iff.mp hcopy
      have hpres := (touch_storeByte hstore).1
      rw [add32_eq (show _ + 0 < 2 ^ 32 from hlt), Nat.add_zero] at hpres
      exact absurd hpres hnot
  | recorded place frames ne mapped entry =>
    have hs := AllocEnd.mapped hd (Nat.two_pow_pos 32) hc (Or.inl rfl)
      (.recorded place frames ne mapped entry) place
    obtain ⟨rfl, rfl⟩ := Prod.mk.inj hr
    have hstops := findPlace_stops place
    have hwin := hwin _ place hstops
    have hplaced := placed_frames hd hc (by omega) hlt hwin (by decide) (by decide) frames ne
      mapped entry
    refine ⟨⟨fun q => A.Free st.machine q ∧ Apart A st'.machine (st.spaces .kernel).pageDir q,
      touch_copyTable hs.directory (fun q hq => hq.2) (fun x _ hx => ?_) hcopy, fun _ hq => hq⟩,
      fun _ i hi => ?_⟩
    swap
    · obtain ⟨q, -, -, hshows⟩ := hplaced i hi
      exact hshows.1
    obtain ⟨i, hi, hpage⟩ := exists_page (n := n) (x := x) (by omega)
    obtain ⟨q, hfree, hap, -, hshows⟩ := hplaced i hi
    have hinfo := info_congr st'.machine (st.spaces .kernel).pageDir (pageAt_lt _ i)
      (add32_lt _ x) hpage.symm
    constructor
    · intro hsx
      apply hwin i hi
      rw [← hs.shares]
      obtain ⟨hdi, hti⟩ := (same_entry_iff (add32_lt _ x) (pageAt_lt _ i)).mpr hpage
      unfold SharesEntry at hsx ⊢
      rwa [hdi, hti]
    · rw [hinfo, hshows]
      exact ⟨hfree, hap⟩

theorem Machine.Mapped.serves_store (hs : Mapped A m m₁ dir R) (ht : Touch P m₁ m₂)
    (hP : ∀ q, P q → A.Free m q ∧ Apart A m₁ dir q) :
    Unseen A m₁ m₂ dir ∧ Serves A m m₂ dir Q := by
  have hu := hs.directory.unseen_store ht fun q hq => (hP q hq).2
  obtain ⟨-, hfree⟩ := A.touch hs.directory.ok ht fun q hq => (hP q hq).2.not_free
  refine ⟨hu, hu.directory, ht.kernelPageTable.trans hs.kept.kernelPageTable,
    fun q hq => Or.inl (hs.free q ((hfree q).mp hq)), fun q hq _ => ?_⟩
  obtain ⟨hq', hmem⟩ := hs.apart hq
  refine ⟨hu.apart q hq', fun j => (ht.mem q j ?_ fun h => hq'.ne_window h.1).trans (hmem j)⟩
  exact fun hp => hq.not_free (hP q hp).1

theorem Machine.Mapped.getPageInfo_unseen (hs : Mapped A m m₁ dir R) (hu : Unseen A m₁ m₂ dir)
    (hv : v < 2 ^ 32) (hw : ¬ SharesEntry m dir v 1023) (hR : ¬ R v) :
    (m₂.getPageInfo dir v).1 = m.info dir v := by
  have hw₁ : ¬ SharesEntry m₁ dir v 1023 := fun h => hw ((hs.shares _ _).mp h)
  rw [getPageInfo_eq hu.directory.frame hu.directory.dir_ne fun h => hw₁ ((hu.shares _ _).mp h),
    hu.info v hv hw₁ id]
  exact hs.info v hv hw hR

/-- The block that holds the old table is not that of the new one. -/
theorem AllocEnd.old_block {q : Nat × VirtState}
    (hend : AllocEnd A (growTable A .kernel) .kernel 0 NIL n flags st q)
    (hnew : ∀ v, v ≠ 0 → Stops (st.spaces .kernel) 0 n v →
      ¬ (v ≤ addr ∧ addr < add32 v (pageShift n)))
    (hb : b ∈ blockList (q.2.spaces .kernel)) (hlo : b.base ≤ addr)
    (hhi : addr < add32 b.base b.length) : b ∈ blockList (st.spaces .kernel) ∨
      GrowsKernel .kernel (st.spaces .kernel) ∧
        b = (st.spaces .kernel).growLast ((st.spaces .kernel).blockCount - 1) := by
  rcases hend.of_mem hb with hold | hlast | ⟨hplace, hne, hbase, hlen, -⟩
  · exact Or.inl hold
  · exact Or.inr hlast
  · have hstops := findPlace_stops (hplace ▸ hne)
    rw [← hplace] at hstops
    rw [hbase] at hlo hhi
    rw [hlen] at hhi
    exact absurd ⟨hlo, hhi⟩ (hnew _ hne hstops)

theorem AllocEnd.place_eq {q : Nat × VirtState}
    (hend : AllocEnd A (growTable A sp) sp vaddr paddr count flags st q) (hq : q.1 ≠ 0) :
    q.1 = (findPlace (st.spaces sp) vaddr count).1 := by
  cases hend with
  | noPlace => exact absurd rfl hq
  | noFrames => rfl
  | recorded => rfl
  | notRecorded => exact absurd rfl hq
  | notMapped => exact absurd rfl hq

/-- The block of the old table is freed behind the copy. -/
theorem MoveOk.old_freed {st₂ : VirtState} {a : Nat} {r : Bool × VirtState}
    (hm : MoveOk A (st.spaces .kernel) st.machine dir' addr n)
    (hend : AllocEnd A (growTable A .kernel) .kernel 0 NIL n flags (st.locked .kernel) (a, st₂))
    (hdir : ((st₂.mutexRelease .kernel).spaces .kernel).pageDir = (st.spaces .kernel).pageDir)
    (hs : Mapped A st.machine st₂.machine (st.spaces .kernel).pageDir R) (hR : ¬ R addr)
    (hu : Unseen A st₂.machine m (st.spaces .kernel).pageDir)
    (hserves : Serves A st.machine m (st.spaces .kernel).pageDir (Apart A st.machine dir'))
    (hfree : freeVirtPages A .kernel addr ((st₂.mutexRelease .kernel).setMachine m) = some r) :
    Keeps A st₂.machine r.2.machine (st.spaces .kernel).pageDir (fun _ => False) ∧
      Serves A st.machine r.2.machine (st.spaces .kernel).pageDir (Apart A st.machine dir') := by
  obtain ⟨-, ⟨-, he⟩ | ⟨-, i, hi, hlo, hhi, m', hfr, he⟩⟩ := freeVirtPages_cases rfl hfree
  · rw [he]
    exact ⟨hu.toKeeps, hserves⟩
  rw [he]
  rw [VirtState.spaces_setMachine, VirtState.spaces_mutexRelease] at hi hlo hhi
  have hblock := hend.old_block (by
    rw [VirtState.spaces_locked]
    exact fun v hv hstops => (hm.place v hv hstops).2) (blocks_mem hi) hlo hhi
  rw [VirtState.spaces_locked] at hblock
  rw [VirtState.spaces_setMachine, hdir] at hfr
  have hinfo : (m.getPageInfo (st.spaces .kernel).pageDir addr).1 =
      st.machine.info (st.spaces .kernel).pageDir addr :=
    hs.getPageInfo_unseen hu hm.addr_lt hm.window hR
  obtain ⟨hvalid, hap⟩ := hm.freed _ hblock hlo hhi
  have hg := getPageInfo_mapped hu.directory addr
  have hfr' : A.free (frameOf (st.machine.info (st.spaces .kernel).pageDir addr))
      (((st₂.spaces .kernel).blocks i).length >>> PAGE_OFFSET_BITS)
      (m.getPageInfo (st.spaces .kernel).pageDir addr).2 = some m' := by
    rw [← hinfo]
    exact hfr
  have hfree' : ∀ p ∈ (⟨frameOf (st.machine.info (st.spaces .kernel).pageDir addr),
      ((st₂.spaces .kernel).blocks i).length >>> PAGE_OFFSET_BITS⟩ : Range).pages,
      Apart A (m.getPageInfo (st.spaces .kernel).pageDir addr).2 (st.spaces .kernel).pageDir p :=
    fun p hp => (hg.apart (hu.apart p (hs.apart (hap p hp).1).1)).1
  constructor
  · exact hu.toKeeps.trans
      (hg.unseen.toKeeps.trans (spares_free hg.directory hvalid hfree' hfr').toKeeps)
  · have hf := serves_free hg.directory hvalid hfree' hfr'
    exact hserves.trans (hg.serves.trans (hf.mono fun q hq => (hap q hq).2))

/-- **Moving the table of a process**: its new pages are mapped, and the frames of the process `dir'`
are left alone. -/
theorem growProcess_moved {r : Bool × VirtState}
    (hd : Directory A st.machine (st.spaces .kernel).pageDir)
    (hm : MoveOk A (st.spaces .kernel) st.machine dir' (st.spaces sp).blocksAddr
      (st.spaces sp).newTablePages)
    (hfits : (st.spaces sp).TableFits)
    (hframes : TableFrames A (st.spaces .kernel) (st.spaces sp).newTablePages st.machine)
    (h : growProcess A sp st = some r) (hr : r.1 = true) :
    ∃ a, a ≠ 0 ∧ Stops (st.spaces .kernel) 0 (st.spaces sp).newTablePages a ∧
      (r.2.spaces sp).blocksAddr = a ∧
      ((0 < (st.spaces sp).blockTableSize ∨
          ∀ m, A.alloc (st.spaces sp).newTablePages st.machine ≠ some (NIL, m)) →
        ∀ i < (st.spaces sp).newTablePages,
          ¬ SharesEntry r.2.machine (st.spaces .kernel).pageDir (pageAt a i) 1023 ∧
          Present (r.2.machine.info (st.spaces .kernel).pageDir (pageAt a i))) ∧
      Serves A st.machine r.2.machine (st.spaces .kernel).pageDir (Apart A st.machine dir') := by
  obtain ⟨a, st₁, halloc, ⟨-, rfl⟩ | ⟨ha, m, ⟨ok, st₃⟩, hcopy, hfree, rfl⟩⟩ := growProcess_cases h
  · exact absurd hr Bool.noConfusion
  obtain ⟨st₂, hend, rfl⟩ := allocVirtPages_end halloc
  have hs := AllocEnd.mapped (by rw [VirtState.spaces_locked]; exact hd) (Nat.two_pow_pos 32) hm.pos
    (Or.inl rfl) hend ha
  have hplace : a = (findPlace (st.spaces .kernel) 0 (st.spaces sp).newTablePages).1 := by
    have := hend.place_eq ha
    rwa [VirtState.spaces_locked, findPlace_setMutex] at this
  rw [VirtState.spaces_locked] at hs
  have hstops : Stops (st.spaces .kernel) 0 (st.spaces sp).newTablePages a := by
    have := findPlace_stops (hplace ▸ ha)
    rwa [← hplace] at this
  have hdir : ((st₂.mutexRelease .kernel).spaces .kernel).pageDir = (st.spaces .kernel).pageDir := by
    have := hend.pageDir
    rw [VirtState.spaces_locked] at this
    rwa [VirtState.spaces_mutexRelease]
  -- the copy
  have hbytes := hfits.le
  rw [hdir] at hcopy
  obtain ⟨⟨P, htouch, hP⟩, hpresent⟩ := AllocEnd.copied (by rw [VirtState.spaces_locked]; exact hd)
    hm.pos
    (newTablePages_lt _) (by rw [VirtState.spaces_locked]; exact hm.place_window)
    (b := (st.spaces sp).blockTableSize * blockBytes % 2 ^ 32) (by omega)
    (by rw [VirtState.spaces_locked]; exact hframes) hend ha (by
      rw [VirtState.spaces_locked]
      exact hcopy)
  rw [VirtState.spaces_locked, VirtState.machine_locked] at hP hpresent
  obtain ⟨hu, hserves⟩ := hs.serves_store (Q := Apart A st.machine dir') htouch hP
  obtain ⟨hkeeps, hserved⟩ := hm.old_freed hend hdir hs (by
    rintro (⟨-, v, hv, hstops, hin⟩ | ⟨hgrow, hin⟩)
    · exact (hm.place v hv hstops).1 hin
    · exact hm.grow hgrow hin) hu hserves hfree
  refine ⟨a, ha, hstops, by rw [VirtState.spaces_setSpace], fun hsize i hi => ?_, hserved⟩
  rw [VirtState.machine_setSpace]
  have hwin : ¬ SharesEntry st₂.machine (st.spaces .kernel).pageDir (pageAt a i) 1023 := fun hs' =>
    hm.place_window a ha hstops i hi ((hs.shares _ _).mp hs')
  refine ⟨fun hs' => hwin ((hkeeps.shares _ _).mp hs'), ?_⟩
  rw [hkeeps.info _ (pageAt_lt a i) hwin id]
  refine hpresent (hsize.imp_left fun hpos => ?_) i hi
  rw [hfits.bytes]
  exact Nat.mul_pos hpos (by decide)

theorem growProcess_serves {r : Bool × VirtState}
    (hd : Directory A st.machine (st.spaces .kernel).pageDir)
    (hm : MoveOk A (st.spaces .kernel) st.machine dir' (st.spaces sp).blocksAddr
      (st.spaces sp).newTablePages)
    (hfits : (st.spaces sp).TableFits)
    (hframes : TableFrames A (st.spaces .kernel) (st.spaces sp).newTablePages st.machine)
    (h : growProcess A sp st = some r) (hr : r.1 = true) :
    Serves A st.machine r.2.machine (st.spaces .kernel).pageDir (Apart A st.machine dir') := by
  obtain ⟨-, -, -, -, -, hserves⟩ := growProcess_moved hd hm hfits hframes h hr
  exact hserves

end C4os
