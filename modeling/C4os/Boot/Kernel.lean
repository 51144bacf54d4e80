import C4os.Boot.MemoryMap
import C4os.Boot.Start32
import C4os.ListFs.Path

/-!
# From the image to the kernel (`boot.asm`, `memory_manager.c`)

* `stage2`: the second stage of the boot loader, up to the jump to the kernel.
* **`kernel_in_place`**: the kernel runs where it was linked, and finds what it is handed.
* `BootTables` of the memory manager holds behind the boot loader: `bootTables_start32`.
* `KernelAt`: the pages of the kernel go to consecutive frames; a remapping keeps them:
  `KernelAt.remapPages`.
* **`remapKernel_kernelAt`**: `init_memory_manager` leaves the kernel where the boot loader put it.
-/

namespace C4os

open Blocks LittleEndian Machine Word

/-! ## The second stage -/

/-- `kernel_name`. -/
def kernelName : List UInt8 := [107, 101, 114, 110, 101, 108, 46, 98, 105, 110]

/-- `stage2`, with the memory from `kernel_name` on at `DS:SI` and the cursor at `c`: memory at the
jump to the kernel, if it gets there. -/
def stage2 (c : Stdio) (disk : Disk) (fuel n : Nat) (si : List UInt8)
    (answers : List (Option Answer)) (m : Bytes) : Option Bytes :=
  (loadFile disk fuel n (0x11000 / 16) si m).bind fun loaded =>
    loaded.bind fun file =>
      (getMemoryMap answers file.2.mem).bind fun r => start32 c (preparePageTables r.2)

section

variable {o : Options} {image : Builder} {dirName content : List UInt8} {l : Listing}
  {disk : Disk} {m : Bytes} {answers : List (Option Answer)} {ls : List (List UInt8)}

theorem isName_kernelName : IsName kernelName := by
  unfold IsName kernelName
  decide +kernel

/-- **The kernel runs where it was linked**: behind the boot loader, the addresses from `0xFFC00000`
on show the bytes of `kernel.bin` as they were in the source directory. The memory map and the
number of the first file are at the addresses where the kernel gets them. -/
theorem kernel_in_place (c : Stdio) (tail : List UInt8) (hsource : o.source = some (dirName, l))
    (hrun : makeListfs o = some image) (hbs : o.blockSize = 512)
    (hcount : o.blockCount.toNat ≤ COMMON_INDICATOR_32)
    (hl : l.NoneEmpty) (hn : l.visible.Named)
    (hfile : l.visible.firstFile [kernelName] = some (some content))
    (hsize : 0x11000 + content.length ≤ 0xA0000)
    (hdisk : ∀ i < image.fsHeader.size, disk i = image.disk i)
    (hm : Stands m 0x7C04 ((disk 0).bytes.drop 4)) (hans : replies answers = some ls)
    (hlen : ∀ l ∈ ls, l.length ≤ 24) (hroom : 0x9000 + 24 * (ls.length + 1) < 2 ^ 16) :
    ∃ N, ∀ fuel ≥ N, ∀ n ≥ 1, ∃ m',
      stage2 c disk fuel n (kernelName ++ 0 :: tail) answers m = some m' ∧
      (∀ i b, content[i]? = some b →
        translate m' 0x1000 (0xFFC00000 + i) = some (0x11000 + i) ∧ m' (0x11000 + i) = b) ∧
      MapAt m' 0x9000 ls ∧ ∀ i < 8, m' (fsFirstFile + i) = m (fsFirstFile + i) := by
  have hnames : ∀ name ∈ [kernelName], IsName name := by
    intro name hname
    rw [List.mem_singleton.mp hname]
    exact isName_kernelName
  obtain ⟨hd, hu, hax, hdx⟩ := image_fsFirstFile hsource hrun hbs hcount hl hdisk hm
  have hload : ∃ N, ∀ fuel ≥ N, ∀ n ≥ 1, ∃ r,
      loadFile disk fuel n 0x1100 (kernelName ++ 0 :: tail) m = some r ∧
        LoadsFile (fun _ => False) 0x1100 m (some content) r :=
    loadFile_dirData hd hn hu hax hdx hnames hfile tail (by decide) (by decide) fun c hc => by
      obtain rfl := Option.some.inj hc
      unfold sectorCount
      omega
  obtain ⟨N, hN⟩ := hload
  refine ⟨N, fun fuel hfuel n hn => ?_⟩
  obtain ⟨r, hr, ld, rfl, hbytes, hkeep⟩ := hN fuel hfuel n hn
  obtain ⟨m₁, hmap, hentries, hother⟩ := getMemoryMap_entries ld.mem hans hlen hroom
  obtain ⟨m', hstart, htables, -, -, hrest⟩ := start32_spec c m₁
  -- the page tables, the screen and its cursor are elsewhere
  have hsame : ∀ i, 0x4000 ≤ i → i < 0xA0000 → i < 0x7E00 ∨ 0x9000 ≤ i → m' i = m₁ i := by
    intro i hlo hhi hi
    have hge := c.curX_ge
    have hlt := c.curX_lt
    rw [hrest i (by
      unfold Start32Stores TextStores VIDMEM Stdio.curY
      omega), preparePageTables_of_not_mem (Or.inr hlo)]
  refine ⟨m', ?_, fun i b hb => ⟨?_, ?_⟩, ?_, fun i hi => ?_⟩
  · unfold stage2
    rw [show 0x11000 / 16 = 0x1100 from rfl, hr, Option.bind_some, Option.bind_some, hmap,
      Option.bind_some]
    exact hstart
  · have hi := (List.getElem?_eq_some_iff.mp hb).1
    rw [htables.translate (by omega)]
    unfold bootAddress
    rw [if_neg (by omega), if_neg (by omega), if_pos (by omega), Nat.add_sub_cancel_left]
  · have hi := (List.getElem?_eq_some_iff.mp hb).1
    rw [hsame _ (by omega) (by omega) (by omega), hother _ (by omega)]
    apply hbytes i b
    rwa [List.getElem?_append_left hi]
  · exact hentries.congr hlen fun i hlo hhi => hsame i (by omega) (by omega) (by omega)
  · have haddr : fsFirstFile = 0x7C30 := rfl
    rw [hsame _ (by omega) (by omega) (by omega), hother _ (by omega),
      hkeep _ (by omega) (by omega) id]

end

/-- A source directory with a kernel that jumps to itself. -/
def kernelListing : Listing := .leaf kernelName ⟨0, 0, 0⟩ (.file [0xEB, 0xFE]) .nil

/-- The options of an image with the small kernel, in blocks of 512 bytes. -/
def kernelOptions : Options :=
  ⟨512, 128, some (List.replicate 512 0), some ([115], kernelListing), 0, zeros⟩

/-- The cursor in the middle of the second stage. -/
def smallStdio : Stdio := ⟨0x8000, by decide, by decide⟩

theorem kernel_in_place_small : ∃ image, makeListfs kernelOptions = some image ∧
    ∀ m : Bytes, Stands m 0x7C04 ((image.disk 0).bytes.drop 4) → ∃ N, ∀ fuel ≥ N, ∀ n ≥ 1, ∃ m',
      stage2 smallStdio image.disk fuel n (kernelName ++ [0]) twoAnswers m = some m' ∧
        translate m' 0x1000 0xFFC00001 = some 0x11001 ∧ m' 0x11001 = 0xFE := by
  have hok : (makeListfs kernelOptions).isSome = true := by decide +kernel
  obtain ⟨image, hrun⟩ := Option.isSome_iff_exists.mp hok
  have hnamed : kernelListing.visible.Named := by
    show kernelListing.Named
    exact ⟨⟨by decide +kernel, by decide +kernel⟩, trivial⟩
  refine ⟨image, hrun, fun m hm => ?_⟩
  obtain ⟨N, hN⟩ := kernel_in_place smallStdio [] rfl hrun rfl (by decide)
    ⟨nofun, trivial⟩ hnamed rfl (by decide) (fun _ _ => rfl) hm (rfl : replies twoAnswers = _)
    (by decide) (by decide)
  refine ⟨N, fun fuel hfuel n hn => ?_⟩
  obtain ⟨m', hstage, hbytes, -⟩ := hN fuel hfuel n hn
  exact ⟨m', hstage, hbytes 1 0xFE rfl⟩

/-! ## The tables that the memory manager finds -/

section

variable {m : Bytes} {mutex : Bool} {i k v dataBase kernelEnd dir codeBase f : Nat}

theorem TablesAt.mem {last p : Nat} (h : TablesAt m last) (mutex : Bool)
    (hp : p = 0x1000 ∨ p = 0x2000 ∨ p = 0x3000) (hi : i < 1024) :
    (machineOf mutex m).mem p i = if p = 0x3000 ∧ i = 1023 then last else bootWord p i :=
  h p i hp hi

theorem TablesAt.kernelPageTable {last : Nat} (h : TablesAt m last) (mutex : Bool) :
    (machineOf mutex m).kernelPageTable = 0x3000 := by
  unfold machineOf
  dsimp only
  rw [h.translate (by decide)]
  rfl

theorem TablesAt.present {last : Nat} (h : TablesAt m last) (hi : i < 1024)
    (hp : Present ((machineOf mutex m).mem 0x1000 i)) :
    i = 0 ∧ frameOf ((machineOf mutex m).mem 0x1000 i) = 0x2000 ∨
      i = 1023 ∧ frameOf ((machineOf mutex m).mem 0x1000 i) = 0x3000 := by
  rw [h.mem mutex (Or.inl rfl) hi, if_neg (by omega), bootWord_dir] at hp ⊢
  have h7 : ∀ a, 4096 ∣ a → a < 2 ^ 32 → frameOf (a + 7) = a := fun a ha hlt =>
    andNot_mask_add hlt ha (by decide)
  split_ifs at hp ⊢ with h0 h1
  · exact Or.inl ⟨h0, h7 0x2000 (by decide) (by decide)⟩
  · exact Or.inr ⟨h1, h7 0x3000 (by decide) (by decide)⟩
  · exact absurd (present_iff.mp hp) (by decide)

theorem TablesAt.info {last : Nat} (h : TablesAt m last) (hlo : 0xFFC00000 ≤ v)
    (hhi : v < 0xFFFFF000) :
    (machineOf mutex m).info 0x1000 v = bootWord 0x3000 ((v - 0xFFC00000) / 4096) := by
  have hdir : getPageDirectoryIndex v = getPageDirectoryIndex 0xFFC00000 ∧
      getPageTableIndex v = (v - 0xFFC00000) / 4096 := by
    have hmask : ∀ x : Nat, x &&& PAGE_TABLE_INDEX_MASK = x % 2 ^ 10 := fun x =>
      Nat.and_two_pow_sub_one_eq_mod x 10
    unfold getPageDirectoryIndex getPageTableIndex
    simp only [hmask, Nat.shiftRight_eq_div_pow]
    omega
  have hlast : getPageDirectoryIndex 0xFFC00000 = 1023 := by decide
  have hpde : (machineOf mutex m).mem 0x1000 1023 = 0x3007 := by
    rw [h.mem mutex (Or.inl rfl) (by decide)]
    rfl
  unfold Machine.info
  rw [hdir.1, hdir.2, hlast, hpde]
  have hframe : frameOf 0x3007 = 0x3000 :=
    andNot_mask_add (by decide) (by decide) (by decide : 7 < 4096)
  dsimp only
  rw [if_pos (present_iff.mpr rfl), hframe, h.mem mutex (Or.inr (Or.inr rfl)) (by omega),
    if_neg (by omega)]

/-- **Behind the boot loader the tables are as `init_memory_manager` assumes**, for every kernel
that ends below the page table. -/
theorem TablesAt.bootTables {last : Nat} (h : TablesAt m last) (mutex : Bool)
    (hend : kernelEnd ≤ 0xFFFFE000) :
    BootTables (machineOf mutex m) 0x1000 0xFFC00000 kernelEnd 0x11000 := by
  have hkpt := h.kernelPageTable mutex
  have hlast : Present ((machineOf mutex m).mem 0x1000 1023) := by
    rw [h.mem mutex (Or.inl rfl) (by decide), if_neg (by decide), bootWord_dir]
    exact present_iff.mpr rfl
  have hframe : frameOf ((machineOf mutex m).mem 0x1000 1023) = 0x3000 := by
    rcases h.present (by decide) hlast with ⟨h0, -⟩ | ⟨-, hf⟩
    · exact absurd h0 (by decide)
    · exact hf
  have hdistinct : DistinctTables (machineOf mutex m) 0x1000 := by
    intro i hi hp
    rcases h.present hi hp with ⟨h0, hf⟩ | ⟨h0, hf⟩
    · refine ⟨by rw [hf]; decide, fun j hj hpj he => ?_⟩
      rcases h.present hj hpj with ⟨hj0, -⟩ | ⟨-, hfj⟩
      · rw [h0, hj0]
      · rw [hf, hfj] at he
        exact absurd he (by decide)
    · refine ⟨by rw [hf]; decide, fun j hj hpj he => ?_⟩
      rcases h.present hj hpj with ⟨-, hfj⟩ | ⟨hj0, -⟩
      · rw [hf, hfj] at he
        exact absurd he (by decide)
      · rw [h0, hj0]
  -- no page below the last one shares its entry with the window
  have hshares : ∀ v, 0xFFC00000 ≤ v → v < 0xFFFFF000 →
      ¬ SharesEntry (machineOf mutex m) 0x1000 v 1023 := by
    rintro v hlo hhi ⟨-, -, ht⟩
    have hmask : getPageTableIndex v = v / 4096 % 1024 := by
      unfold getPageTableIndex
      rw [show v >>> 12 &&& PAGE_TABLE_INDEX_MASK = (v >>> 12) % 2 ^ 10 from
        Nat.and_two_pow_sub_one_eq_mod _ 10, Nat.shiftRight_eq_div_pow]
      rfl
    omega
  have hinfo : ∀ v, 0xFFC00000 ≤ v → v < 0xFFFFF000 →
      ((machineOf mutex m).getPageInfo 0x1000 v).1 = bootWord 0x3000 ((v - 0xFFC00000) / 4096) := by
    intro v hlo hhi
    rw [getPageInfo_eq ⟨by decide, by decide⟩ (by rw [hkpt]; decide) (hshares v hlo hhi),
      h.info hlo hhi]
  refine ⟨⟨by decide, by decide⟩, hdistinct, by rw [hkpt]; decide,
    ⟨hlast, hframe.trans hkpt.symm⟩, ?_, fun k hk => ?_⟩
  · rw [hinfo KERNEL_PAGE_TABLE (by decide) (by decide), hkpt]
    exact andNot_mask_add (a := 0x3000) (by decide) (by decide) (by decide : 3 < 4096)
  · have hentry : bootWord 0x3000 ((0xFFC00000 + k * 4096 - 0xFFC00000) / 4096) =
        (0x11000 + k * 4096) + 3 := by
      rw [bootWord_last, Nat.add_sub_cancel_left, Nat.mul_div_cancel k (by decide),
        if_neg (by omega)]
      omega
    rw [hinfo _ (by omega) (by omega), hentry]
    refine ⟨present_iff.mpr (by omega), ?_, ?_⟩
    · have hor := or_low (k := 12) (a := 0x11000 + k * 4096) (f := 3) (by omega) (by decide)
      rw [← hor, or_low_and (k := 12) (by omega) (by decide)]
      decide
    · exact andNot_mask_add (by omega) (by omega) (by decide)

/-- **`init_memory_manager` starts with the tables that it assumes**, whatever memory held before
the boot loader: the kernel's pages are present and writable in consecutive frames, and the page
table that the window needs is mapped to itself. -/
theorem bootTables_start32 (c : Stdio) (mutex : Bool) (m : Bytes) (hend : kernelEnd ≤ 0xFFFFE000) :
    ∃ m', start32 c (preparePageTables m) = some m' ∧
      BootTables (machineOf mutex m') 0x1000 0xFFC00000 kernelEnd 0x11000 ∧
      (machineOf mutex m').kernelPageTable = 0x3000 := by
  obtain ⟨m', hrun, htab, -⟩ := start32_spec c m
  exact ⟨m', hrun, htab.bootTables mutex hend, htab.kernelPageTable mutex⟩

theorem bootTables_start32_largest :
    ∃ m', start32 smallStdio (preparePageTables fun _ => 0xFF) = some m' ∧
      BootTables (machineOf true m') 0x1000 0xFFC00000 0xFFFFE000 0x11000 ∧
      (machineOf true m').kernelPageTable = 0x3000 :=
  bootTables_start32 smallStdio true (fun _ => 0xFF) (Nat.le_refl _)

/-! ## The remapping -/

/-- The pages of the kernel go to the frames from `f` on, whatever their flags. -/
def KernelAt (s : Machine) (dir base kernelEnd f : Nat) : Prop :=
  ∀ k, base + k * 4096 < kernelEnd → Shows (s.info dir (base + k * 4096)) (f + k * 4096)

/-- The pages from `v` on are pages of the kernel. -/
structure PartOf (base kernelEnd f v j count : Nat) : Prop where
  start : v = base + j * 4096
  stop : v + count * 4096 ≤ kernelEnd
  end_lt : kernelEnd < 2 ^ 32
  frames : ∀ k, base + k * 4096 < kernelEnd → Frame (f + k * 4096)

variable {s s' : Machine} {alloc : Machine → Option (Nat × Machine)} {base j count flags : Nat}

theorem shows_kept {e t : Nat} (ht : Frame t) (hflags : flags < 4096)
    (hpresent : flags &&& PAGE_PRESENT ≠ 0) :
    Shows (t ||| (andNot (e % 4096) PAGE_OFFSET_BITS ||| flags)) t := by
  apply shows_or ht
  · refine Nat.or_lt_two_pow (n := 12) ?_ hflags
    unfold andNot
    exact Nat.lt_of_le_of_lt Nat.and_le_left (Nat.mod_lt _ (by decide))
  · intro hz
    apply hpresent
    refine Nat.eq_of_testBit_eq fun b => ?_
    have hb := congrArg (fun x => x.testBit b) hz
    simp only [Nat.testBit_and, Nat.testBit_or, Nat.zero_testBit] at hb ⊢
    revert hb
    cases flags.testBit b <;> cases PAGE_PRESENT.testBit b <;> simp

/-- **A remapping of a part of the kernel** leaves every page in its frame: `map_pages` writes the
frames behind the first one, and those are the old ones. -/
theorem KernelAt.remapPages (alloc : Machine → Option (Nat × Machine)) (flags : Nat)
    (hk : KernelAt s dir base kernelEnd f) (hd : Directory noFrames s dir)
    (hbase : 4096 ∣ base) (hpart : PartOf base kernelEnd f v j count)
    (hns : ∀ k, base + k * 4096 < kernelEnd → ¬ SharesEntry s dir (base + k * 4096) 1023)
    (hflags : flags < 4096) (hpresent : flags &&& PAGE_PRESENT ≠ 0) :
    ∃ s', s.remapPages alloc dir v count flags = some s' ∧
      Mapped noFrames s s' dir (InRange v count) ∧ KernelAt s' dir base kernelEnd f := by
  obtain ⟨rfl, hstop, hlt, hframes⟩ := hpart
  have hpage : ∀ i, base + j * 4096 + i * 4096 = base + (j + i) * 4096 := by omega
  have hp : ∀ i < count,
      Present (s.mem dir (getPageDirectoryIndex (base + j * 4096 + i * 4096))) := by
    intro i hi
    rw [hpage]
    by_contra hnp
    have hshow := (hk (j + i) (by omega)).1
    unfold Machine.info at hshow
    dsimp only at hshow
    rw [if_neg hnp] at hshow
    exact hshow (Nat.zero_and _)
  obtain ⟨s', hrun, hmapped, hnew⟩ :=
    remapPages_spec alloc flags hd (by omega) (by omega) hp
  refine ⟨s', hrun, hmapped, fun k hkend => ?_⟩
  by_cases hin : j ≤ k ∧ k < j + count
  · -- a page of the range
    obtain ⟨i, rfl⟩ := Nat.exists_eq_add_of_le hin.1
    have hj : base + j * 4096 < kernelEnd := Nat.lt_of_le_of_lt
      (Nat.add_le_add_left (Nat.mul_le_mul_right 4096 (Nat.le_add_right j i)) base) hkend
    have hfirst := hk j hj
    have hget : (s.getPageInfo dir (base + j * 4096)).1 = s.info dir (base + j * 4096) :=
      getPageInfo_eq hd.frame hd.dir_ne (hns j hj)
    have hframe := hframes (j + i) hkend
    have hsum : f + j * 4096 + i * 4096 = f + (j + i) * 4096 := by omega
    have hentry := hnew i (by omega) (by rw [hpage]; exact hns (j + i) hkend)
    rw [hget, entry_kept (by rw [hfirst.2, hsum]; exact hframe.2), hfirst.2, hsum, hpage,
      Nat.or_assoc] at hentry
    rw [hentry]
    exact shows_kept hframe hflags hpresent
  · -- a page outside of it
    have hout : ¬ InRange (base + j * 4096) count (base + k * 4096) := by
      unfold InRange
      omega
    rw [hmapped.info _ (by omega) (hns k hkend) hout]
    exact hk k hkend

/-- **The remapping of `init_memory_manager` leaves the kernel in place**: every page of code and
data, and the page table behind the window, goes to the frame that the boot loader's tables gave
it. -/
theorem remapKernel_kernelAt (alloc : Machine → Option (Nat × Machine))
    (hl : Layout codeBase dataBase kernelEnd) (hend : kernelEnd ≤ KERNEL_PAGE_TABLE)
    (hf : Frame f) (hframes : f + (kernelEnd - codeBase) ≤ 2 ^ 32)
    (hb : BootTables s dir codeBase kernelEnd f) :
    ∃ s', remapKernel alloc dir codeBase dataBase kernelEnd s = some s' ∧
      (∀ k, codeBase + k * 4096 < kernelEnd →
        Shows (s'.getPageInfo dir (codeBase + k * 4096)).1 (f + k * 4096)) ∧
      Shows (s'.getPageInfo dir KERNEL_PAGE_TABLE).1 s.kernelPageTable := by
  obtain ⟨hca, hda, hea, hcd, hde, hlt⟩ := hl
  have htable : KERNEL_PAGE_TABLE = 0xFFFFE000 := rfl
  have hd := hb.directory
  have hns : ∀ v < 2 ^ 32, v / 4096 ≠ 0xFFFFF → ¬ SharesEntry s dir v 1023 := fun v => hb.not_shares
  have hnsk : ∀ k, codeBase + k * 4096 < kernelEnd →
      ¬ SharesEntry s dir (codeBase + k * 4096) 1023 := fun k hk => hns _ (by omega) (by omega)
  have hpages : ∀ k, codeBase + k * 4096 < kernelEnd → Frame (f + k * 4096) := fun k hk =>
    ⟨Nat.dvd_add hf.1 (Nat.dvd_mul_left 4096 k), by omega⟩
  have hk : KernelAt s dir codeBase kernelEnd f := by
    intro k hk
    obtain ⟨hp, -, hfr⟩ := hb.entry k hk
    rw [getPageInfo_eq hb.frame hb.dir_ne (hnsk k hk)] at hp hfr
    exact ⟨hp, hfr⟩
  have hncode := pages_of_part hca hda hcd (by omega)
  have hndata := pages_of_part hda hea hde hlt
  have hdata : dataBase = codeBase + (sub32 dataBase codeBase >>> PAGE_OFFSET_BITS) * 4096 :=
    hncode.symm
  unfold remapKernel
  generalize sub32 dataBase codeBase >>> PAGE_OFFSET_BITS = n at hncode hdata ⊢
  generalize sub32 kernelEnd dataBase >>> PAGE_OFFSET_BITS = n' at hndata ⊢
  -- the code, then the data
  have hcode : PartOf codeBase kernelEnd f codeBase 0 n := ⟨by omega, by omega, hlt, hpages⟩
  obtain ⟨s₁, h₁, m₁, k₁⟩ := hk.remapPages alloc (PAGE_PRESENT ||| PAGE_GLOBAL) hd hca hcode hnsk
    (by decide) (by decide)
  have hns₁ : ∀ k, codeBase + k * 4096 < kernelEnd →
      ¬ SharesEntry s₁ dir (codeBase + k * 4096) 1023 := fun k hk hs =>
    hnsk k hk ((m₁.shares _ _).mp hs)
  have hdatas : PartOf codeBase kernelEnd f dataBase n n' := ⟨hdata, by omega, hlt, hpages⟩
  obtain ⟨s₂, h₂, m₂, k₂⟩ := k₁.remapPages alloc (PAGE_PRESENT ||| PAGE_WRITABLE ||| PAGE_GLOBAL)
    m₁.directory hca hdatas hns₁ (by decide) (by decide)
  have m₁₂ := m₁.trans m₂
  -- the page of the page table is none of them
  have hnst : ¬ SharesEntry s dir KERNEL_PAGE_TABLE 1023 := hns _ (by decide) (by decide)
  have hnst₂ : ¬ SharesEntry s₂ dir KERNEL_PAGE_TABLE 1023 := fun hs =>
    hnst ((m₁₂.shares _ _).mp hs)
  have hself : frameOf (s₂.getPageInfo dir KERNEL_PAGE_TABLE).1 = s.kernelPageTable := by
    have hout : ¬ (InRange codeBase n KERNEL_PAGE_TABLE ∨
        InRange dataBase n' KERNEL_PAGE_TABLE) := by
      unfold InRange
      omega
    rw [hb.getPageInfo m₁₂ (by decide) (by decide), m₁₂.info _ (by decide) hnst hout,
      ← getPageInfo_eq hb.frame hb.dir_ne hnst]
    exact hb.self
  have hlast : getPageDirectoryIndex KERNEL_PAGE_TABLE = 1023 := by decide
  have hp₃ : ∀ i < 1,
      Present (s₂.mem dir (getPageDirectoryIndex (KERNEL_PAGE_TABLE + i * 4096))) := by
    intro i hi
    rw [Nat.lt_one_iff.mp hi, Nat.zero_mul, Nat.add_zero, hlast,
      m₁₂.old 1023 (by decide) hb.last.1]
    exact hb.last.1
  obtain ⟨s₃, h₃, m₃, e₃⟩ := remapPages_spec alloc
    (PAGE_PRESENT ||| PAGE_WRITABLE ||| PAGE_GLOBAL) m₁₂.directory (by rw [htable]; decide)
    (by rw [htable]; decide) hp₃
  have m := m₁₂.trans m₃
  refine ⟨s₃, ?_, fun k hkend => ?_, ?_⟩
  · rw [h₁, Option.bind_some, h₂, Option.bind_some, h₃]
  · have hout : ¬ InRange KERNEL_PAGE_TABLE 1 (codeBase + k * 4096) := by
      unfold InRange
      omega
    rw [hb.getPageInfo m (by omega) (by omega), m₃.info _ (by omega)
      (fun hs => hnsk k hkend ((m₁₂.shares _ _).mp hs)) hout]
    exact k₂ k hkend
  · have hentry := e₃ 0 (by decide) hnst₂
    have hkept := entry_kept (e := (s₂.getPageInfo dir KERNEL_PAGE_TABLE).1) (k := 0) (by
      have := (frame_frameOf (s₂.getPageInfo dir KERNEL_PAGE_TABLE).1).2
      omega)
    rw [Nat.zero_mul, Nat.add_zero, Nat.add_zero] at hentry hkept
    rw [hb.getPageInfo m (by decide) (by decide), hentry, hkept, hself, Nat.or_assoc]
    exact shows_kept (hself ▸ frame_frameOf _) (by decide) (by decide)

/-- Two pages of code and one of data, behind the boot loader. -/
theorem remapKernel_kernelAt_three :
    ∃ m' s', start32 smallStdio (preparePageTables fun _ => 0) = some m' ∧
      remapKernel (fun s => some (NIL, s)) 0x1000 0xFFC00000 0xFFC02000 0xFFC03000
        (machineOf false m') = some s' ∧
      ∀ k < 3, Shows (s'.getPageInfo 0x1000 (0xFFC00000 + k * 4096)).1 (0x11000 + k * 4096) := by
  have hl : Layout 0xFFC00000 0xFFC02000 0xFFC03000 :=
    ⟨by decide, by decide, by decide, by decide, by decide, by decide⟩
  obtain ⟨m', hrun, htab, -⟩ := start32_spec smallStdio fun _ => 0
  obtain ⟨s', hremap, hk, -⟩ := remapKernel_kernelAt (fun s => some (NIL, s)) hl (by decide)
    ⟨by decide, by decide⟩ (by decide) (htab.bootTables false (by decide))
  exact ⟨m', s', hrun, hremap, fun k hkl => hk k (by omega)⟩

end

end C4os
