import C4os.Memory.Remap
import C4os.Stdlib.Mem

/-!
# The page tables of the boot loader (`boot.asm`)

* `load32`: double words in memory, byte by byte.
* `preparePageTables`: `prepare_page_tables`; `load32_preparePageTables`: the words it leaves.
* `translate`: an address through the tables, as the processor walks them.
* **`TablesAt.translate`**: where every address goes.
* `machineOf`: the machine of the memory manager behind the boot loader.
-/

namespace C4os

open Machine Word

/-! ## Double words -/

/-- `dword[a]`. -/
def load32 (m : Bytes) (a : Nat) : Nat :=
  (m a).toNat + 256 * (m (a + 1)).toNat + 65536 * (m (a + 2)).toNat + 16777216 * (m (a + 3)).toNat

/-- The store of a word. -/
def store16 (a x : Nat) (m : Bytes) : Bytes :=
  fun i => if a ≤ i ∧ i < a + 2 then byteOf x (i - a) else m i

variable {m : Bytes} {a b x i j di cx eax v : Nat}

theorem load32_congr {m' : Bytes} (h : ∀ i < 4, m' (a + i) = m (a + i)) :
    load32 m' a = load32 m a := by
  have h0 := h 0 (by decide)
  rw [Nat.add_zero] at h0
  unfold load32
  rw [h0, h 1 (by decide), h 2 (by decide), h 3 (by decide)]

theorem load32_store32_self : load32 (store32 a x m) a = x % 2 ^ 32 := by
  have hbyte : ∀ i < 4, store32 a x m (a + i) = byteOf x i := by
    intro i hi
    unfold store32
    rw [if_pos (by omega), Nat.add_sub_cancel_left]
  have h0 := hbyte 0 (by decide)
  rw [Nat.add_zero] at h0
  unfold load32
  rw [h0, hbyte 1 (by decide), hbyte 2 (by decide), hbyte 3 (by decide)]
  simp only [byteOf, UInt8.toNat_ofNat', Nat.shiftRight_eq_div_pow]
  omega

theorem load32_store32_of_apart (h : b + 4 ≤ a ∨ a + 4 ≤ b) :
    load32 (store32 a x m) b = load32 m b := by
  apply load32_congr
  intro i hi
  exact if_neg (by omega)

theorem load32_store32 (ha : 4 ∣ a) (hb : 4 ∣ b) :
    load32 (store32 a x m) b = if b = a then x % 2 ^ 32 else load32 m b := by
  split_ifs with h
  · rw [h]
    exact load32_store32_self
  · apply load32_store32_of_apart
    omega

/-! ## `prepare_page_tables` -/

/-- Addition of 16-bit words. -/
@[irreducible] def add16 (a b : Nat) : Nat := (a + b) % 2 ^ 16

theorem add16_eq (h : a + b < 2 ^ 16) : add16 a b = a + b := by
  unfold add16
  exact Nat.mod_eq_of_lt h

/-- `rep stosw`, with `DI` and `CX`. -/
def repStosw (ax : Nat) : Nat → Nat → Bytes → Bytes
  | _, 0, m => m
  | di, cx + 1, m => repStosw ax (add16 di 2) cx (store16 di ax m)

/-- The loop that fills a page table: `EAX`, `DI` and `CX`. -/
def fillTable : Nat → Nat → Nat → Bytes → Bytes
  | _, _, 0, m => m
  | eax, di, cx + 1, m => fillTable (add32 eax 0x1000) (add16 di 4) cx (store32 di eax m)

/-- `prepare_page_tables`: the directory at `0x1000`, and the tables at `0x2000` and `0x3000`. -/
def preparePageTables (m : Bytes) : Bytes :=
  let m := repStosw 0 0x1000 (3 * 4096 / 2) m
  let m := store32 0x1000 (0x2000 + 0b111) m
  let m := store32 0x1FFC (0x3000 + 0b111) m
  let m := fillTable 0b11 0x2000 (0x100000 / 4096) m
  let m := fillTable (0x11000 ||| 0b11) 0x3000 1024 m
  store32 0x3FF8 (0x3000 + 0b11) m

theorem repStosw_apply (h : di + 2 * cx < 2 ^ 16) : repStosw 0 di cx m i =
    if di ≤ i ∧ i < di + 2 * cx then 0 else m i := by
  induction cx generalizing di m with
  | zero => rw [if_neg (by omega), repStosw]
  | succ cx ih =>
    rw [repStosw, add16_eq (by omega), ih (by omega), store16]
    by_cases h1 : di + 2 ≤ i ∧ i < di + 2 + 2 * cx
    · rw [if_pos h1, if_pos (by omega)]
    rw [if_neg h1]
    by_cases h2 : di ≤ i ∧ i < di + 2
    · rw [if_pos h2, if_pos (by omega), byteOf, Nat.zero_shiftRight]
      rfl
    · rw [if_neg h2, if_neg (by omega)]

theorem load32_fillTable (hdi : 4 ∣ di) (ha : 4 ∣ a) (h : di + 4 * cx < 2 ^ 16)
    (heax : eax + cx * 4096 ≤ 2 ^ 32) : load32 (fillTable eax di cx m) a =
      if di ≤ a ∧ a < di + 4 * cx then eax + (a - di) / 4 * 4096 else load32 m a := by
  induction cx generalizing eax di m with
  | zero => rw [if_neg (by omega), fillTable]
  | succ cx ih =>
    have hnext : fillTable (add32 eax 0x1000) (di + 4) cx (store32 di eax m) =
        fillTable (eax + 0x1000) (di + 4) cx (store32 di eax m) := by
      cases cx with
      | zero => rw [fillTable, fillTable]
      | succ cx => rw [add32_eq (by omega)]
    rw [fillTable, add16_eq (by omega), hnext, ih (by omega) (by omega) (by omega),
      load32_store32 hdi ha]
    by_cases h1 : di + 4 ≤ a ∧ a < di + 4 + 4 * cx
    · rw [if_pos h1, if_pos (by omega)]
      omega
    rw [if_neg h1]
    by_cases h2 : a = di
    · rw [if_pos h2, if_pos (by omega), h2, Nat.sub_self, Nat.zero_div, Nat.zero_mul, Nat.add_zero]
      exact Nat.mod_eq_of_lt (by omega)
    · rw [if_neg h2, if_neg (by omega)]

theorem fillTable_of_not_mem (h : di + 4 * cx < 2 ^ 16) (hi : i < di ∨ di + 4 * cx ≤ i) :
    fillTable eax di cx m i = m i := by
  induction cx generalizing eax di m with
  | zero => rfl
  | succ cx ih =>
    rw [fillTable, add16_eq (by omega), ih (by omega) (by omega)]
    exact if_neg (by omega)

/-- The word `i` of the frame `p` behind the boot loader's tables. -/
def bootWord (p i : Nat) : Nat :=
  if p = 0x1000 then if i = 0 then 0x2007 else if i = 1023 then 0x3007 else 0
  else if p = 0x2000 then if i < 256 then i * 4096 + 3 else 0
  else if i = 1022 then 0x3003 else i * 4096 + 0x11003

theorem bootWord_dir (i : Nat) :
    bootWord 0x1000 i = if i = 0 then 0x2007 else if i = 1023 then 0x3007 else 0 := if_pos rfl

theorem bootWord_first (i : Nat) : bootWord 0x2000 i = if i < 256 then i * 4096 + 3 else 0 := by
  unfold bootWord
  rw [if_neg (by decide), if_pos rfl]

theorem bootWord_last (i : Nat) :
    bootWord 0x3000 i = if i = 1022 then 0x3003 else i * 4096 + 0x11003 := by
  unfold bootWord
  rw [if_neg (by decide), if_neg (by decide)]

/-- **The three frames** that `prepare_page_tables` leaves, whatever memory held before. -/
theorem load32_preparePageTables {p : Nat} (hp : p = 0x1000 ∨ p = 0x2000 ∨ p = 0x3000)
    (hi : i < 1024) : load32 (preparePageTables m) (p + 4 * i) = bootWord p i := by
  have hzero : ∀ q, 4 ∣ q → 0x1000 ≤ q → q < 0x4000 →
      load32 (repStosw 0 0x1000 (3 * 4096 / 2) m) q = 0 := by
    intro q hq h1 h2
    have hbyte : ∀ i < 4, repStosw 0 0x1000 (3 * 4096 / 2) m (q + i) = 0 := fun i hi => by
      rw [repStosw_apply (by decide), if_pos (by omega)]
    have h0 := hbyte 0 (by decide)
    rw [Nat.add_zero] at h0
    unfold load32
    rw [h0, hbyte 1 (by decide), hbyte 2 (by decide), hbyte 3 (by decide)]
    rfl
  have ha : 4 ∣ p + 4 * i := by omega
  have hor : 0x11000 ||| 0b11 = 0x11003 := by decide
  unfold preparePageTables
  dsimp only
  rw [load32_store32 (by decide) ha, hor, load32_fillTable (by decide) ha (by decide) (by decide),
    load32_fillTable (by decide) ha (by decide) (by decide), load32_store32 (by decide) ha,
    load32_store32 (by decide) ha, hzero _ ha (by omega) (by omega)]
  unfold bootWord
  rcases hp with rfl | rfl | rfl
  · split_ifs <;> omega
  · split_ifs <;> omega
  · split_ifs <;> omega

theorem preparePageTables_of_not_mem (h : i < 0x1000 ∨ 0x4000 ≤ i) :
    preparePageTables m i = m i := by
  unfold preparePageTables store32
  rw [if_neg (by omega), fillTable_of_not_mem (by decide) (by omega),
    fillTable_of_not_mem (by decide) (by omega), if_neg (by omega), if_neg (by omega),
    repStosw_apply (by decide), if_neg (by omega)]

/-! ## Translation -/

/-- The processor's walk for the linear address `v`, with the directory in `CR3`. -/
def translate (m : Bytes) (cr3 v : Nat) : Option Nat :=
  let pde := load32 m (frameOf cr3 + 4 * getPageDirectoryIndex v)
  if Present pde then
    let pte := load32 m (frameOf pde + 4 * getPageTableIndex v)
    if Present pte then some (frameOf pte + v % 4096) else none
  else none

/-! ## Where an address goes -/

/-- The tables of the boot loader are in memory, with the entry `last` for the last page. -/
def TablesAt (m : Bytes) (last : Nat) : Prop :=
  ∀ p i, p = 0x1000 ∨ p = 0x2000 ∨ p = 0x3000 → i < 1024 →
    load32 m (p + 4 * i) = if p = 0x3000 ∧ i = 1023 then last else bootWord p i

/-- The first megabyte is mapped to itself, the pages from `0xFFC00000` on to those from `0x11000`
on; the last but one is the page table of these, and the last one is the frame of the entry
`last`. -/
def bootAddress (last v : Nat) : Option Nat :=
  if v < 0x100000 then some v
  else if v < 0xFFC00000 then none
  else if v < 0xFFFFE000 then some (0x11000 + (v - 0xFFC00000))
  else if v < 0xFFFFF000 then some (0x3000 + (v - 0xFFFFE000))
  else if Present last then some (frameOf last + (v - 0xFFFFF000)) else none

theorem present_iff {e : Nat} : Present e ↔ e % 2 = 1 := by
  unfold Present
  rw [show PAGE_PRESENT = 1 from rfl, Nat.and_one_is_mod]
  omega

theorem tablesAt_preparePageTables (m : Bytes) : TablesAt (preparePageTables m) 0x410003 := by
  intro p i hp hi
  rw [load32_preparePageTables hp hi]
  split_ifs with h
  · rw [h.1, h.2]
    decide
  · rfl

/-- **The tables of the boot loader** as the processor reads them. -/
theorem TablesAt.translate {last : Nat} (h : TablesAt m last) (hv : v < 2 ^ 32) :
    translate m 0x1000 v = bootAddress last v := by
  have hmask : ∀ x : Nat, x &&& PAGE_TABLE_INDEX_MASK = x % 2 ^ 10 := fun x =>
    Nat.and_two_pow_sub_one_eq_mod x 10
  have hdir : getPageDirectoryIndex v = v / 2 ^ 22 := by
    unfold getPageDirectoryIndex
    rw [hmask, Nat.shiftRight_eq_div_pow]
    omega
  have htab : getPageTableIndex v = v / 4096 % 1024 := by
    unfold getPageTableIndex
    rw [hmask, Nat.shiftRight_eq_div_pow]
    rfl
  have hframe : ∀ a f, 4096 ∣ a → a < 2 ^ 32 → f < 4096 → frameOf (a + f) = a :=
    fun a f ha hlt hf => andNot_mask_add hlt ha hf
  have hcr3 : frameOf 0x1000 = 0x1000 := hframe 0x1000 0 (by decide) (by decide) (by decide)
  have hfirst : frameOf 0x2007 = 0x2000 := hframe 0x2000 7 (by decide) (by decide) (by decide)
  have hlast : frameOf 0x3007 = 0x3000 := hframe 0x3000 7 (by decide) (by decide) (by decide)
  have hself : frameOf 0x3003 = 0x3000 := hframe 0x3000 3 (by decide) (by decide) (by decide)
  have hpde := h 0x1000 (v / 2 ^ 22) (Or.inl rfl) (by omega)
  rw [if_neg (by omega), bootWord_dir] at hpde
  have hlow : ∀ n < 256, frameOf (n * 4096 + 3) = n * 4096 := fun n hn =>
    hframe _ _ (by omega) (by omega) (by decide)
  have hhigh : ∀ n < 1024, frameOf (n * 4096 + 0x11003) = n * 4096 + 0x11000 := fun n hn =>
    hframe (n * 4096 + 0x11000) 3 (by omega) (by omega) (by decide)
  unfold C4os.translate bootAddress
  dsimp only
  rw [hdir, htab, hcr3, hpde]
  by_cases h0 : v / 2 ^ 22 = 0
  · -- the first table
    have hpte := h 0x2000 (v / 4096 % 1024) (Or.inr (Or.inl rfl)) (Nat.mod_lt _ (by decide))
    rw [if_neg (by omega), bootWord_first] at hpte
    rw [if_pos h0, if_pos (present_iff.mpr rfl), hfirst, hpte]
    by_cases h1 : v < 0x100000
    · rw [if_pos (show v / 4096 % 1024 < 256 by omega), hlow _ (by omega),
        if_pos (present_iff.mpr (by omega)), if_pos h1]
      exact congrArg some (by omega)
    · rw [if_neg (show ¬ v / 4096 % 1024 < 256 by omega),
        if_neg fun hp => absurd (present_iff.mp hp) (by decide), if_neg h1, if_pos (by omega)]
  rw [if_neg h0]
  by_cases h1 : v / 2 ^ 22 = 1023
  · -- the last table
    have hpte := h 0x3000 (v / 4096 % 1024) (Or.inr (Or.inr rfl)) (Nat.mod_lt _ (by decide))
    rw [bootWord_last] at hpte
    rw [if_pos h1, if_pos (present_iff.mpr rfl), hlast, hpte,
      if_neg (show ¬ v < 0x100000 by omega), if_neg (show ¬ v < 0xFFC00000 by omega)]
    by_cases h2 : v < 0xFFFFE000
    · rw [if_neg (show ¬ (0x3000 = 0x3000 ∧ v / 4096 % 1024 = 1023) by omega),
        if_neg (show ¬ v / 4096 % 1024 = 1022 by omega), if_pos (present_iff.mpr (by omega)),
        hhigh _ (by omega), if_pos h2]
      exact congrArg some (by omega)
    rw [if_neg h2]
    by_cases h3 : v < 0xFFFFF000
    · rw [if_neg (show ¬ (0x3000 = 0x3000 ∧ v / 4096 % 1024 = 1023) by omega),
        if_pos (show v / 4096 % 1024 = 1022 by omega), if_pos (present_iff.mpr rfl), hself,
        if_pos h3]
      exact congrArg some (by omega)
    · have hoff : v % 4096 = v - 0xFFFFF000 := by omega
      rw [if_pos (show 0x3000 = 0x3000 ∧ v / 4096 % 1024 = 1023 by omega), if_neg h3, hoff]
  · rw [if_neg h1, if_neg fun hp => absurd (present_iff.mp hp) (by decide),
      if_neg (show ¬ v < 0x100000 by omega), if_pos (by omega)]

theorem TablesAt.congr {m' : Bytes} {last : Nat} (h : TablesAt m last)
    (hm : ∀ i, 0x1000 ≤ i → i < 0x4000 → m' i = m i) : TablesAt m' last := by
  intro p i hp hi
  rw [← h p i hp hi]
  apply load32_congr
  intro j hj
  exact hm _ (by omega) (by omega)

/-! ## The memory manager's view -/

/-- Memory as the memory manager sees it behind the boot loader, with the initial values of its
variables. -/
def machineOf (mutex : Bool) (m : Bytes) : Machine where
  mem := fun p i => load32 m (p + 4 * i)
  kernelPageTable := (translate m 0x1000 KERNEL_PAGE_TABLE).getD 0
  freePageCount := 0
  freePhysMemoryPointer := NIL
  physMemoryMutex := mutex

/-- **`get_page_info` is the processor's walk.** -/
theorem translate_eq_info (mutex : Bool) (m : Bytes) {dir : Nat} (hd : Frame dir) (v : Nat) :
    translate m dir v = if Present ((machineOf mutex m).info dir v) then
      some (frameOf ((machineOf mutex m).info dir v) + v % 4096) else none := by
  have hdir : frameOf dir = dir := andNot_mask_of_aligned hd.2 hd.1
  unfold translate Machine.info machineOf
  dsimp only
  rw [hdir]
  by_cases hp : Present (load32 m (dir + 4 * getPageDirectoryIndex v))
  · rw [if_pos hp, if_pos hp]
  · rw [if_neg hp, if_neg hp, if_neg (by decide)]

end C4os
