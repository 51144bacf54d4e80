import C4os.Memory.Mapped

/-!
# The remapping of the kernel at boot (`memory_manager.c`)

* `remapKernel`: the three calls of `map_pages` in `init_memory_manager`.
* `BootTables`: page tables that map the kernel to consecutive frames, as the boot loader builds them.
* `mapPages_entries`: `map_pages` where all page tables are present.
* `Protected`: the code is read-only and the data writable, with no other flags.
* **`remapKernel_protected`**: only when there is no code, and the data had no other flags before;
  `code_writable`: the page tables of the boot loader.
-/

namespace C4os

open Word

namespace Machine

/-- The page through which the kernel sees its last page table. -/
def KERNEL_PAGE_TABLE : Nat := 0xFFFFE000

/-- `map_pages` of pages that are mapped, to the frames that `get_page_info` gives for the first. -/
def remapPages (alloc : Machine → Option (Nat × Machine)) (dir base count flags : Nat)
    (s : Machine) : Option Machine :=
  (mapPages alloc dir base (s.getPageInfo dir base).1 count flags (s.getPageInfo dir base).2).map
    Prod.snd

/-- The remapping in `init_memory_manager`. -/
def remapKernel (alloc : Machine → Option (Nat × Machine)) (dir codeBase dataBase kernelEnd : Nat)
    (s : Machine) : Option Machine :=
  (s.remapPages alloc dir codeBase (sub32 dataBase codeBase >>> PAGE_OFFSET_BITS)
    (PAGE_PRESENT ||| PAGE_GLOBAL)).bind fun s =>
  (s.remapPages alloc dir dataBase (sub32 kernelEnd dataBase >>> PAGE_OFFSET_BITS)
    (PAGE_PRESENT ||| PAGE_WRITABLE ||| PAGE_GLOBAL)).bind fun s =>
  s.remapPages alloc dir KERNEL_PAGE_TABLE 1 (PAGE_PRESENT ||| PAGE_WRITABLE ||| PAGE_GLOBAL)

/-- `KERNEL_CODE_BASE`, `KERNEL_DATA_BASE` and `KERNEL_END`. -/
structure Layout (codeBase dataBase kernelEnd : Nat) : Prop where
  code_aligned : 4096 ∣ codeBase
  data_aligned : 4096 ∣ dataBase
  end_aligned : 4096 ∣ kernelEnd
  code_le : codeBase ≤ dataBase
  data_le : dataBase ≤ kernelEnd
  end_lt : kernelEnd < 2 ^ 32

/-- The directory `dir` maps the pages of the kernel to the frames from `f` on, present and writable.
Its last table is the window's, and maps itself at `KERNEL_PAGE_TABLE`. -/
structure BootTables (s : Machine) (dir codeBase kernelEnd f : Nat) : Prop where
  frame : Frame dir
  tables : DistinctTables s dir
  dir_ne : dir ≠ s.kernelPageTable
  last : Present (s.mem dir 1023) ∧ frameOf (s.mem dir 1023) = s.kernelPageTable
  self : frameOf (s.getPageInfo dir KERNEL_PAGE_TABLE).1 = s.kernelPageTable
  entry : ∀ k, codeBase + k * 4096 < kernelEnd →
    Present (s.getPageInfo dir (codeBase + k * 4096)).1 ∧
      (s.getPageInfo dir (codeBase + k * 4096)).1 &&& PAGE_WRITABLE ≠ 0 ∧
      frameOf (s.getPageInfo dir (codeBase + k * 4096)).1 = f + k * 4096

/-- The pages of the code translate to their old frames, present and global; those of the data to
theirs, present, writable and global. -/
structure Protected (s s' : Machine) (dir codeBase dataBase kernelEnd : Nat) : Prop where
  code : ∀ v, 4096 ∣ v → codeBase ≤ v → v < dataBase → (s'.getPageInfo dir v).1 =
    frameOf (s.getPageInfo dir v).1 ||| (PAGE_PRESENT ||| PAGE_GLOBAL)
  data : ∀ v, 4096 ∣ v → dataBase ≤ v → v < kernelEnd → (s'.getPageInfo dir v).1 =
    frameOf (s.getPageInfo dir v).1 ||| (PAGE_PRESENT ||| PAGE_WRITABLE ||| PAGE_GLOBAL)

variable {A : PhysAllocator} {alloc : Machine → Option (Nat × Machine)} {s s' : Machine}
  {dir v paddr count flags codeBase dataBase kernelEnd f : Nat}

/-! ## `map_pages` without new tables -/

theorem page_succ (a i : Nat) : a + (i + 1) * 4096 = a + 4096 + i * 4096 := by omega

/-- **Mapping a range whose page tables are there** succeeds without an allocation. -/
theorem mapPages_entries (alloc : Machine → Option (Nat × Machine)) (paddr flags : Nat)
    (hd : Directory A s dir) (hv : 4096 ∣ v) (hvb : v + count * 4096 ≤ 2 ^ 32)
    (hp : ∀ i < count, Present (s.mem dir (getPageDirectoryIndex (v + i * 4096)))) :
    ∃ s', mapPages alloc dir v paddr count flags s = some (true, s') ∧
      Mapped A s s' dir (InRange v count) ∧
      ∀ i < count, ¬ SharesEntry s dir (v + i * 4096) 1023 → s'.info dir (v + i * 4096) =
        andNot (paddr + i * 4096) PAGE_OFFSET_BITS ||| flags := by
  induction count generalizing v paddr s with
  | zero => exact ⟨s, rfl, .refl hd _, by simp⟩
  | succ count ih =>
    have hv32 : v < 2 ^ 32 := by omega
    have hpv : Present (s.mem dir (getPageDirectoryIndex v)) := by simpa using hp 0 (by omega)
    have hwalk := fun alloc => walk_present alloc paddr flags hd.frame hd.dir_ne hpv
    obtain ⟨hfalse, -⟩ | ⟨-, hm, -, hinfo⟩ := walk_cases hd hv32 (hwalk (A.alloc 1))
    · exact absurd hfalse (by simp)
    dsimp only at hm hinfo
    rw [mapPages, hwalk alloc, Option.bind_some]
    dsimp only
    rw [if_pos rfl]
    generalize ((s.tempMapPage dir).tempMapPage (s.mem dir (getPageDirectoryIndex v))).tempSet
      (getPageTableIndex v) (andNot paddr PAGE_OFFSET_BITS ||| flags) = s₁ at hm hinfo ⊢
    obtain ⟨hv', hvb', hvn⟩ := add_page hv hvb
    have hp' : ∀ i < count,
        Present (s₁.mem dir (getPageDirectoryIndex (add32 v PAGE_SIZE + i * 4096))) := by
      intro i hi
      have hpi := hp (i + 1) (by omega)
      rw [page_succ, ← hvn (by omega)] at hpi
      rwa [hm.old _ (dirIndex_lt _) hpi]
    obtain ⟨s', hmap, hm', hin⟩ := ih (add32 paddr PAGE_SIZE) hm.directory hv' hvb' hp'
    refine ⟨s', hmap, (hm.trans hm').mono fun w _ hw => ?_, fun i hi hs => ?_⟩
    · unfold InRange at hw ⊢
      by_cases hc : count = 0
      · omega
      · rw [hvn hc] at hw
        omega
    · cases i with
      | zero =>
        have hout : ¬ InRange (add32 v PAGE_SIZE) count v := by
          unfold InRange
          by_cases hc : count = 0
          · omega
          · rw [hvn hc]
            omega
        rw [Nat.zero_mul, Nat.add_zero] at hs
        rw [Nat.zero_mul, Nat.add_zero, Nat.add_zero,
          hm'.info v hv32 (fun h => hs ((hm.shares v 1023).mp h)) hout, hinfo v hv32 hs rfl]
      | succ i =>
        rw [page_succ, ← hvn (by omega)] at hs ⊢
        rw [hin i (by omega) fun h => hs ((hm.shares _ 1023).mp h), page_succ paddr,
          ← andNot_mod _ (by decide), ← andNot_mod (paddr + 4096 + i * 4096) (by decide)]
        unfold add32 PAGE_SIZE
        rw [Nat.mod_add_mod]

theorem remapPages_spec (alloc : Machine → Option (Nat × Machine)) (flags : Nat)
    (hd : Directory A s dir) (hv : 4096 ∣ v) (hvb : v + count * 4096 ≤ 2 ^ 32)
    (hp : ∀ i < count, Present (s.mem dir (getPageDirectoryIndex (v + i * 4096)))) :
    ∃ s', s.remapPages alloc dir v count flags = some s' ∧ Mapped A s s' dir (InRange v count) ∧
      ∀ i < count, ¬ SharesEntry s dir (v + i * 4096) 1023 → s'.info dir (v + i * 4096) =
        andNot ((s.getPageInfo dir v).1 + i * 4096) PAGE_OFFSET_BITS ||| flags := by
  have hg := getPageInfo_mapped hd v
  have hp' : ∀ i < count,
      Present ((s.getPageInfo dir v).2.mem dir (getPageDirectoryIndex (v + i * 4096))) := by
    intro i hi
    rw [hg.old _ (dirIndex_lt _) (hp i hi)]
    exact hp i hi
  obtain ⟨s', hmap, hm, hin⟩ := mapPages_entries alloc (s.getPageInfo dir v).1 flags
    hg.directory hv hvb hp'
  refine ⟨s', ?_, (hg.trans hm).mono fun w _ hw => hw.elim False.elim id, fun i hi hs => ?_⟩
  · unfold remapPages
    rw [hmap]
    rfl
  · exact hin i hi fun h => hs ((hg.shares _ 1023).mp h)

/-! ## The entries of the kernel -/

/-- An allocator without frames: the remapping needs none. -/
def noFrames : PhysAllocator where
  alloc := fun _ s => some (NIL, s)
  free := fun _ _ _ => none
  Ok := fun _ => True
  Free := fun _ _ => False
  frame := fun _ h => h.elim
  touch := fun _ _ _ => ⟨trivial, fun _ => Iff.rfl⟩
  alloc_spec := by
    intro s s' count r _ _ h
    obtain ⟨rfl, rfl⟩ := Prod.mk.inj (Option.some.inj h)
    exact ⟨trivial, Kept.refl _ s, Or.inl ⟨rfl, fun _ => Iff.rfl⟩⟩
  free_spec := fun _ _ _ h => absurd h.symm (Option.some_ne_none _)

theorem BootTables.directory (hb : BootTables s dir codeBase kernelEnd f) :
    Directory noFrames s dir :=
  ⟨trivial, hb.frame, hb.tables, fun h => h, fun h => h, fun _ _ _ h => h, hb.dir_ne⟩

theorem BootTables.not_shares (hb : BootTables s dir codeBase kernelEnd f) (hv : v < 2 ^ 32)
    (h : v / 4096 ≠ 0xFFFFF) : ¬ SharesEntry s dir v 1023 := by
  rintro ⟨hp, hf, ht⟩
  have hi : getPageDirectoryIndex v = 1023 :=
    (hb.tables _ (dirIndex_lt v) hp).2 1023 (by decide) hb.last.1 (by rw [hf, hb.last.2])
  exact h ((same_entry_iff (v := 0xFFFFF000) (by decide) hv).mp ⟨hi, ht⟩)

theorem BootTables.getPageInfo (hb : BootTables s dir codeBase kernelEnd f) {R : Nat → Prop}
    (hm : Mapped noFrames s s' dir R) (hv : v < 2 ^ 32) (h : v / 4096 ≠ 0xFFFFF) :
    (s'.getPageInfo dir v).1 = s'.info dir v :=
  getPageInfo_eq hm.directory.frame hm.directory.dir_ne fun hs =>
    hb.not_shares hv h ((hm.shares v 1023).mp hs)

theorem BootTables.present (hb : BootTables s dir codeBase kernelEnd f) {k : Nat}
    (hk : codeBase + k * 4096 < kernelEnd) :
    Present (s.mem dir (getPageDirectoryIndex (codeBase + k * 4096))) := by
  by_contra hp
  have hpde : (s.tempMapPage dir).tempGet (getPageDirectoryIndex (codeBase + k * 4096)) =
      s.mem dir (getPageDirectoryIndex (codeBase + k * 4096)) := by
    rw [tempGet, window_of_frame hb.frame, mem_of_ne_window _ fun h => hb.dir_ne h.1]
  have h := (hb.entry k hk).1
  unfold Machine.getPageInfo at h
  dsimp only at h
  rw [hpde, if_pos (not_not.mp hp)] at h
  exact h (Nat.zero_and _)

theorem pages_of_part {a b : Nat} (ha : 4096 ∣ a) (hb : 4096 ∣ b) (hab : a ≤ b) (hlt : b < 2 ^ 32) :
    a + (sub32 b a >>> PAGE_OFFSET_BITS) * 4096 = b := by
  rw [sub32_eq hab hlt, show (b - a) >>> PAGE_OFFSET_BITS = (b - a) / 4096 from
    Nat.shiftRight_eq_div_pow _ 12]
  omega

theorem writable_kept {e g : Nat} (h : e &&& PAGE_WRITABLE ≠ 0) :
    (andNot e PAGE_OFFSET_BITS ||| g) &&& PAGE_WRITABLE ≠ 0 := by
  have hbit : e.testBit 1 = true := by
    by_contra hbit
    apply h
    refine Nat.eq_of_testBit_eq fun i => ?_
    rw [Nat.testBit_and, show PAGE_WRITABLE = 2 ^ 1 from rfl, Nat.testBit_two_pow]
    by_cases hi : 1 = i
    · subst hi
      simpa using hbit
    · simp [hi]
  have hkept : ((andNot e PAGE_OFFSET_BITS ||| g) &&& PAGE_WRITABLE).testBit 1 = true := by
    have h12 : (0xFFFFFFFF ^^^ PAGE_OFFSET_BITS).testBit 1 = true := by decide
    have h2 : PAGE_WRITABLE.testBit 1 = true := by decide
    unfold andNot
    rw [Nat.testBit_and, Nat.testBit_or, Nat.testBit_and, hbit, h12, h2]
    rfl
  intro hz
  rw [hz] at hkept
  exact absurd hkept (by simp)

theorem flags_twice (e : Nat) :
    andNot (andNot e PAGE_OFFSET_BITS ||| (PAGE_PRESENT ||| PAGE_WRITABLE ||| PAGE_GLOBAL))
        PAGE_OFFSET_BITS ||| (PAGE_PRESENT ||| PAGE_WRITABLE ||| PAGE_GLOBAL) =
      andNot e PAGE_OFFSET_BITS ||| (PAGE_PRESENT ||| PAGE_WRITABLE ||| PAGE_GLOBAL) := by
  have hflags : andNot (PAGE_PRESENT ||| PAGE_WRITABLE ||| PAGE_GLOBAL) PAGE_OFFSET_BITS =
      PAGE_PRESENT ||| PAGE_WRITABLE ||| PAGE_GLOBAL := by
    unfold andNot
    decide
  rw [andNot_or, hflags, andNot_andNot, Nat.or_assoc, Nat.or_self]

/-- **The remapping runs**, and the entries it leaves: the code is still writable, and the data keeps
its flags. -/
theorem remapKernel_run (alloc : Machine → Option (Nat × Machine))
    (hl : Layout codeBase dataBase kernelEnd)
    (hb : BootTables s dir codeBase kernelEnd f) :
    ∃ s', remapKernel alloc dir codeBase dataBase kernelEnd s = some s' ∧
      (codeBase < dataBase → (s'.getPageInfo dir codeBase).1 &&& PAGE_WRITABLE ≠ 0) ∧
      ∀ k, dataBase + k * 4096 < kernelEnd → (s'.getPageInfo dir (dataBase + k * 4096)).1 =
        andNot ((s.getPageInfo dir dataBase).1 + k * 4096) PAGE_OFFSET_BITS |||
          (PAGE_PRESENT ||| PAGE_WRITABLE ||| PAGE_GLOBAL) := by
  obtain ⟨hca, hda, hea, hcd, hde, hlt⟩ := hl
  have hd := hb.directory
  have hncode := pages_of_part hca hda hcd (by omega)
  have hndata := pages_of_part hda hea hde hlt
  have hlast : getPageDirectoryIndex KERNEL_PAGE_TABLE = 1023 := by decide
  unfold remapKernel
  generalize sub32 dataBase codeBase >>> PAGE_OFFSET_BITS = n at hncode ⊢
  generalize sub32 kernelEnd dataBase >>> PAGE_OFFSET_BITS = n' at hndata ⊢
  obtain ⟨s₁, h₁, m₁, e₁⟩ := remapPages_spec alloc (PAGE_PRESENT ||| PAGE_GLOBAL)
    hd hca (by omega) fun i (hi : i < n) => hb.present (by omega)
  have hp₂ : ∀ i < n',
      Present (s₁.mem dir (getPageDirectoryIndex (dataBase + i * 4096))) := by
    intro i hi
    have hk : codeBase + (n + i) * 4096 = dataBase + i * 4096 := by
      rw [Nat.add_mul, ← Nat.add_assoc, hncode]
    have hp := hb.present (k := n + i) (by omega)
    rw [hk] at hp
    rwa [m₁.old _ (dirIndex_lt _) hp]
  obtain ⟨s₂, h₂, m₂, e₂⟩ := remapPages_spec alloc
    (PAGE_PRESENT ||| PAGE_WRITABLE ||| PAGE_GLOBAL) m₁.directory hda (by omega) hp₂
  have m₁₂ := m₁.trans m₂
  have hp₃ : ∀ i < 1, Present (s₂.mem dir (getPageDirectoryIndex (KERNEL_PAGE_TABLE + i * 4096))) := by
    intro i hi
    rw [Nat.lt_one_iff.mp hi, Nat.zero_mul, Nat.add_zero, hlast,
      m₁₂.old 1023 (by decide) hb.last.1]
    exact hb.last.1
  obtain ⟨s₃, h₃, m₃, e₃⟩ := remapPages_spec alloc
    (PAGE_PRESENT ||| PAGE_WRITABLE ||| PAGE_GLOBAL) m₁₂.directory (v := KERNEL_PAGE_TABLE)
    (by unfold KERNEL_PAGE_TABLE; omega) (by unfold KERNEL_PAGE_TABLE; omega) hp₃
  have m := m₁₂.trans m₃
  -- the last call keeps what the other two wrote, also in the page it maps
  have hlast₃ : ∀ w, 4096 ∣ w → w / 4096 < 0xFFFFF → s₃.info dir w = if w = KERNEL_PAGE_TABLE
      then andNot (s₂.info dir w) PAGE_OFFSET_BITS ||| (PAGE_PRESENT ||| PAGE_WRITABLE ||| PAGE_GLOBAL)
      else s₂.info dir w := by
    intro w hw hlt
    have hns := hb.not_shares (v := w) (by omega) (by omega)
    have hns₂ : ¬ SharesEntry s₂ dir w 1023 := fun h => hns ((m₁₂.shares _ _).mp h)
    split_ifs with hwk
    · subst hwk
      have := e₃ 0 (by decide) hns₂
      rwa [Nat.zero_mul, Nat.add_zero, Nat.add_zero,
        hb.getPageInfo m₁₂ (by decide) (by decide)] at this
    · refine m₃.info w (by omega) hns₂ ?_
      unfold InRange
      unfold KERNEL_PAGE_TABLE at hwk ⊢
      omega
  refine ⟨s₃, ?_, fun hc => ?_, fun k hk => ?_⟩
  · rw [h₁, Option.bind_some, h₂, Option.bind_some, h₃]
  · have hns := hb.not_shares (v := codeBase) (by omega) (by omega)
    have hns₁ : ¬ SharesEntry s₁ dir codeBase 1023 := fun h => hns ((m₁.shares _ _).mp h)
    have hc₁ := e₁ 0 (by omega) (by simpa using hns)
    rw [Nat.zero_mul, Nat.add_zero, Nat.add_zero] at hc₁
    have hw := (hb.entry 0 (by omega)).2.1
    rw [Nat.zero_mul, Nat.add_zero] at hw
    have hc₂ : s₂.info dir codeBase = s₁.info dir codeBase := by
      refine m₂.info codeBase (by omega) hns₁ ?_
      unfold InRange
      omega
    have hw₂ : s₂.info dir codeBase &&& PAGE_WRITABLE ≠ 0 := by
      rw [hc₂, hc₁]
      exact writable_kept hw
    rw [hb.getPageInfo m (by omega) (by omega), hlast₃ codeBase hca (by omega)]
    split_ifs
    · exact writable_kept hw₂
    · exact hw₂
  · have hns := hb.not_shares (v := dataBase) (by omega) (by omega)
    have hd₁ : (s₁.getPageInfo dir dataBase).1 = (s.getPageInfo dir dataBase).1 := by
      rw [hb.getPageInfo m₁ (by omega) (by omega),
        hb.getPageInfo (.refl hd fun _ => False) (by omega) (by omega)]
      refine m₁.info dataBase (by omega) hns ?_
      unfold InRange
      omega
    have hk₂ := e₂ k (by omega) fun h =>
      hb.not_shares (v := dataBase + k * 4096) (by omega) (by omega) ((m₁.shares _ _).mp h)
    rw [hd₁] at hk₂
    rw [hb.getPageInfo m (by omega) (by omega), hlast₃ _ (by omega) (by omega), hk₂]
    split_ifs
    · -- the flags are set a second time
      exact flags_twice _
    · rfl

/-- The flags that are neither set for the data nor cleared by `map_pages`. -/
def OTHER_FLAGS : Nat :=
  PAGE_OFFSET_MASK ^^^
    (PAGE_PRESENT ||| PAGE_WRITABLE ||| PAGE_USER ||| PAGE_WRITE_THROUGH ||| PAGE_GLOBAL)

theorem data_flags_iff (e : Nat) :
    andNot (e % 4096) PAGE_OFFSET_BITS ||| (PAGE_PRESENT ||| PAGE_WRITABLE ||| PAGE_GLOBAL) =
      PAGE_PRESENT ||| PAGE_WRITABLE ||| PAGE_GLOBAL ↔ e &&& OTHER_FLAGS = 0 := by
  have hflags : PAGE_PRESENT ||| PAGE_WRITABLE ||| PAGE_GLOBAL = 259 := by decide
  have hother : OTHER_FLAGS = 3824 := by decide
  have hmod : ∀ i, (e % 4096).testBit i = (decide (i < 12) && e.testBit i) :=
    Nat.testBit_mod_two_pow e 12
  have hbit : ∀ i, (andNot (e % 4096) PAGE_OFFSET_BITS ||| 259).testBit i =
      (decide (i < 12) && e.testBit i && !Nat.testBit 12 i || Nat.testBit 259 i) := by
    intro i
    rw [Nat.testBit_or, testBit_andNot (by omega), hmod]
    rfl
  have hrest : ∀ i < 12, Nat.testBit 3824 i = (!Nat.testBit 12 i && !Nat.testBit 259 i) := by
    decide
  rw [hflags, hother]
  constructor
  · intro h
    refine Nat.eq_of_testBit_eq fun i => ?_
    have hi := hbit i
    rw [h] at hi
    rw [Nat.testBit_and, Nat.zero_testBit]
    by_cases h12 : i < 12
    · rw [hrest i h12]
      revert hi
      cases e.testBit i <;> cases Nat.testBit 12 i <;> cases Nat.testBit 259 i <;> simp [h12]
    · rw [Nat.testBit_lt_two_pow (show 3824 < 2 ^ i from
        Nat.lt_of_lt_of_le (by decide : 3824 < 2 ^ 12) (Nat.pow_le_pow_right (by decide) (by omega)))]
      simp
  · intro h
    refine Nat.eq_of_testBit_eq fun i => ?_
    rw [hbit]
    have hi := congrArg (fun x => x.testBit i) h
    simp only [Nat.testBit_and, Nat.zero_testBit] at hi
    by_cases h12 : i < 12
    · rw [hrest i h12] at hi
      revert hi
      cases e.testBit i <;> cases Nat.testBit 12 i <;> cases Nat.testBit 259 i <;> simp [h12]
    · simp [h12]

theorem or_flags_inj {a g g' : Nat} (ha : 2 ^ 12 ∣ a) (hg : g < 2 ^ 12) (hg' : g' < 2 ^ 12) :
    a ||| g = a ||| g' ↔ g = g' := by
  rw [or_low ha hg, or_low ha hg']
  omega

/-- **The remapping at boot.** The kernel is protected as asked exactly when it has no code, and
either no data or an old entry of the first page of data without flags that `map_pages` keeps and
that are not asked for. -/
theorem remapKernel_protected (alloc : Machine → Option (Nat × Machine)) (s : Machine)
    (dir codeBase dataBase kernelEnd f : Nat) (hl : Layout codeBase dataBase kernelEnd)
    (hb : BootTables s dir codeBase kernelEnd f) :
    ∃ s', remapKernel alloc dir codeBase dataBase kernelEnd s = some s' ∧
      (Protected s s' dir codeBase dataBase kernelEnd ↔ codeBase = dataBase ∧
        (dataBase = kernelEnd ∨ (s.getPageInfo dir dataBase).1 &&& OTHER_FLAGS = 0)) := by
  obtain ⟨s', hrun, hcode, hdata⟩ := remapKernel_run alloc hl hb
  obtain ⟨hca, hda, hea, hcd, hde, hlt⟩ := hl
  refine ⟨s', hrun, fun hp => ?_, ?_⟩
  · have heq : codeBase = dataBase := by
      by_contra hne
      -- the first page of the code is writable
      have hentry := hp.code codeBase hca (Nat.le_refl _) (by omega)
      apply hcode (by omega)
      rw [hentry, flags_or (frame_frameOf _) (by decide)]
      decide
    refine ⟨heq, ?_⟩
    by_cases hempty : dataBase = kernelEnd
    · exact Or.inl hempty
    right
    have hentry := hp.data dataBase hda (Nat.le_refl _) (by omega)
    have hrunData := hdata 0 (by omega)
    have hframe := (frame_frameOf (s.getPageInfo dir dataBase).1).2
    rw [Nat.zero_mul, Nat.add_zero, Nat.add_zero] at hrunData
    have hkept := entry_kept (e := (s.getPageInfo dir dataBase).1) (k := 0) (by omega)
    rw [Nat.zero_mul, Nat.add_zero, Nat.add_zero] at hkept
    rw [hrunData, hkept, Nat.or_assoc, or_flags_inj (frame_frameOf _).1] at hentry
    · exact (data_flags_iff _).mp hentry
    · refine Nat.or_lt_two_pow ?_ (by decide)
      unfold andNot
      exact Nat.lt_of_le_of_lt Nat.and_le_left (Nat.mod_lt _ (by decide))
    · decide
  · rintro ⟨rfl, hflags⟩
    refine ⟨fun v _ h1 h2 => absurd h1 (Nat.not_le.mpr h2), fun v hv h1 h2 => ?_⟩
    rcases hflags with rfl | hflags
    · exact absurd h1 (Nat.not_le.mpr h2)
    obtain ⟨k, hk⟩ := Nat.dvd_sub hv hca
    obtain rfl : v = codeBase + k * 4096 := by
      rw [Nat.mul_comm k, ← hk, Nat.add_sub_cancel' h1]
    have h0 : frameOf (s.getPageInfo dir codeBase).1 = f := by
      have hlt0 : codeBase + 0 * 4096 < kernelEnd := by
        rw [Nat.zero_mul]
        exact Nat.lt_of_le_of_lt (Nat.le_add_right _ _) h2
      have h0 := (hb.entry 0 hlt0).2.2
      rwa [Nat.zero_mul, Nat.add_zero, Nat.add_zero] at h0
    have hk := (hb.entry k h2).2.2
    have hframe := (frame_frameOf (s.getPageInfo dir (codeBase + k * 4096)).1).2
    rw [hk] at hframe
    rw [hdata k h2, entry_kept (by rwa [h0]), h0, hk, Nat.or_assoc, (data_flags_iff _).mpr hflags]

/-! ## The page tables of the boot loader -/

/-- The page tables of `boot.asm`: the directory at `0x1000`, the first megabyte mapped to itself
through the table at `0x2000`, and the kernel's table at `0x3000`, which maps the frames from
`0x11000` on. -/
def bootMachine : Machine where
  mem := fun p i =>
    if p = 0x1000 then if i = 0 then 0x2007 else if i = 1023 then 0x3007 else 0
    else if p = 0x2000 then if i < 256 then i * 4096 + 3 else 0
    else if p = 0x3000 then if i = 1022 then 0x3003 else i * 4096 + 0x11003
    else 0
  kernelPageTable := 0x3000
  freePageCount := 0
  freePhysMemoryPointer := NIL
  physMemoryMutex := false

theorem bootTables_bootMachine : BootTables bootMachine 0x1000 0xFFC00000 0xFFC02000 0x11000 := by
  have hpres : ∀ i, Present (bootMachine.mem 0x1000 i) → i = 0 ∨ i = 1023 := by
    intro i hp
    by_contra hi
    rw [not_or] at hi
    simp [bootMachine, Present, hi.1, hi.2] at hp
  refine ⟨by unfold Frame; decide, fun i _ hp => ?_, by decide, by decide +kernel, by decide +kernel,
    fun k hk => ?_⟩
  · rcases hpres i hp with rfl | rfl
    · refine ⟨by decide +kernel, fun j _ hj he => ?_⟩
      rcases hpres j hj with rfl | rfl
      · rfl
      · exact absurd he (by decide +kernel)
    · refine ⟨by decide +kernel, fun j _ hj he => ?_⟩
      rcases hpres j hj with rfl | rfl
      · exact absurd he (by decide +kernel)
      · rfl
  · obtain rfl | rfl : k = 0 ∨ k = 1 := by omega
    · decide +kernel
    · decide +kernel

/-- A kernel of two pages of data and no code. -/
theorem remapKernel_protected_data : ∃ s',
    remapKernel (fun s => some (NIL, s)) 0x1000 0xFFC00000 0xFFC00000 0xFFC02000 bootMachine =
      some s' ∧ Protected bootMachine s' 0x1000 0xFFC00000 0xFFC00000 0xFFC02000 := by
  obtain ⟨s', hrun, h⟩ := remapKernel_protected (fun s => some (NIL, s)) bootMachine 0x1000 0xFFC00000
    0xFFC00000 0xFFC02000 0x11000 ⟨by decide, by decide, by decide, by decide, by decide, by decide⟩
    bootTables_bootMachine
  exact ⟨s', hrun, h.mpr ⟨rfl, Or.inr (by decide +kernel)⟩⟩

/-- **The code of the kernel stays writable**: one page of code and one of data, mapped by the boot
loader. -/
theorem code_writable : Layout 0xFFC00000 0xFFC01000 0xFFC02000 ∧
    BootTables bootMachine 0x1000 0xFFC00000 0xFFC02000 0x11000 ∧
    ∃ s', remapKernel (fun s => some (NIL, s)) 0x1000 0xFFC00000 0xFFC01000 0xFFC02000 bootMachine =
      some s' ∧ (s'.getPageInfo 0x1000 0xFFC00000).1 = 0x11103 ∧
      ¬ Protected bootMachine s' 0x1000 0xFFC00000 0xFFC01000 0xFFC02000 := by
  have h : (remapKernel (fun s => some (NIL, s)) 0x1000 0xFFC00000 0xFFC01000 0xFFC02000
      bootMachine).map (fun s => (s.getPageInfo 0x1000 0xFFC00000).1) = some 0x11103 := by
    decide +kernel
  obtain ⟨s', hrun, he⟩ := Option.map_eq_some_iff.mp h
  refine ⟨⟨by decide, by decide, by decide, by decide, by decide, by decide⟩,
    bootTables_bootMachine, s', hrun, he, fun hp => ?_⟩
  have hentry := hp.code 0xFFC00000 (by decide) (by decide) (by decide)
  rw [he] at hentry
  exact absurd hentry (by decide +kernel)

end Machine

end C4os
