import C4os.ListFs.Boot
import C4os.ListFs.Store
import C4os.Stdlib.Mem

/-!
# Reading a stored file (`boot.asm`, `kernel.c`)

* `Builder.disk`: the output file as a disk of sectors; `sectorCount`: the sectors of a file.
* `loadFileData`: `load_file_data` of the boot loader, with memory at physical addresses.
* `Loaded`: sectors read into memory one behind the other; `loadLists_spec`: all lists of a file.
* **`loadFileData_stored`**: the boot loader reads what the image builder stored.
* `scanCount`: the entries that `get_file_data_pointer` examines; `ScansFile`: it stays inside of
  the list block and finds a block of the file.
* **`scansFile_iff`**: for which files it does.
-/

namespace C4os

open Blocks LittleEndian Outcome

/-- The output file as a disk. -/
def Builder.disk (s : Builder) : Disk := fun i => ⟨Blocks.block 512 s.output i, length_block _ _ _⟩

/-- The number of sectors of a file with `len` bytes. -/
def sectorCount (len : Nat) : Nat := (len + 511) / 512

/-! ## The bytes of a file in its sectors -/

section

variable {bs n m : Nat} {l : List UInt8}

theorem fillBuffer_zeros (h : l.length ≤ n) :
    fillBuffer n zeros l = l ++ List.replicate (n - l.length) 0 := by
  apply List.ext_getElem?
  intro i
  by_cases hi : i < n
  · rw [getElem?_fillBuffer hi]
    by_cases hl : i < l.length
    · rw [List.getElem?_append_left hl, List.getElem?_eq_getElem hl]
      rfl
    · rw [List.getElem?_append_right (by omega), List.getElem?_eq_none (by omega),
        List.getElem?_replicate, if_pos (by omega)]
      rfl
  · rw [List.getElem?_eq_none (by rw [length_fillBuffer]; omega), List.getElem?_eq_none]
    rw [List.length_append, List.length_replicate]
    omega

theorem chunks_nil (bs n : Nat) : chunks bs n [] = [] := by
  cases n with
  | zero => rfl
  | succ n => exact if_pos rfl

theorem chunks_append (n m : Nat) (l : List UInt8) :
    chunks bs (n + m) l = chunks bs n l ++ chunks bs m (l.drop (n * bs)) := by
  induction n generalizing l with
  | zero => rw [Nat.zero_add, Nat.zero_mul, List.drop_zero]; rfl
  | succ n ih =>
    by_cases hl : l = []
    · rw [hl, chunks_nil, chunks_nil, List.drop_nil, chunks_nil]
      rfl
    · rw [Nat.add_right_comm, chunks, if_neg hl, chunks, if_neg hl, ih, List.drop_drop,
        List.cons_append, Nat.succ_mul, Nat.add_comm bs]

/-- **The blocks of a file** hold its bytes, then zeros. -/
theorem flatten_chunks (h : l.length ≤ n * bs) : (chunks bs n l).flatten =
    l ++ List.replicate (bs * (chunks bs n l).length - l.length) 0 := by
  induction n generalizing l with
  | zero =>
    have hl : l = [] := List.length_eq_zero_iff.mp (by omega)
    rw [hl, chunks_nil]
    rfl
  | succ n ih =>
    by_cases hl : l = []
    · rw [hl, chunks_nil]
      rfl
    rw [chunks, if_neg hl, List.flatten_cons, List.length_cons]
    by_cases hshort : l.length ≤ bs
    · rw [List.drop_eq_nil_of_le hshort, chunks_nil, List.take_of_length_le hshort,
        fillBuffer_zeros hshort, List.flatten_nil, List.append_nil, List.length_nil, Nat.zero_add,
        Nat.mul_one]
    · have htake : (l.take bs).length = bs := List.length_take_of_le (by omega)
      rw [ih (by rw [List.length_drop, Nat.sub_le_iff_le_add, ← Nat.succ_mul]; exact h),
        fillBuffer_zeros (Nat.le_of_eq htake), htake, Nat.sub_self, List.replicate_zero,
        List.append_nil, ← List.append_assoc, List.take_append_drop, List.length_drop, Nat.mul_succ]
      congr 2
      omega

theorem chunks_eq_of_le (hm : l.length ≤ m * bs) (h : m ≤ n) :
    chunks bs n l = chunks bs m l := by
  obtain ⟨k, rfl⟩ := Nat.exists_eq_add_of_le h
  rw [chunks_append, List.drop_eq_nil_of_le hm, chunks_nil, List.append_nil]

end

/-! ## `load_file_data` -/

/-- Memory, `BX`, and the sectors that `load_file_data` has read into memory at `BX:0`. -/
structure Load where
  mem : Bytes
  bx : Nat
  sectors : List Nat

/-- `word[a]`. -/
def memWord (m : Bytes) (a : Nat) : Nat := (m a).toNat + 256 * (m (a + 1)).toNat

/-- `f_data`. -/
def fData : Nat := 0x800 + 288

/-- `load_sector` to `BX:0`, and the step of `BX`. -/
def Load.read (disk : Disk) (l : Load) (i : Nat) : Load where
  mem := overwrite l.mem (16 * l.bx) (disk i).bytes
  bx := (l.bx + 0x200 / 16) % 2 ^ 16
  sectors := l.sectors ++ [i]

/-- The loop over a list, with `CX` and `SI`: whether it met the end of the file. -/
def loadSectors (disk : Disk) : Nat → Nat → Load → Bool × Load
  | 0, _, l => (false, l)
  | cx + 1, si, l =>
    let ax := memWord l.mem si
    let dx := memWord l.mem (si + 2)
    if ax = 0xFFFF ∧ dx = 0xFFFF then (true, l)
    else loadSectors disk cx (si + 8) (l.read disk (dx * 2 ^ 16 + ax))

/-- The loop over the lists, with the sector number in `DX:AX`. The buffer is at `0x800`, and a list
is followed by the number of the next one. -/
def loadLists (disk : Disk) : Nat → Nat → Nat → Load → Option Load
  | 0, _, _, _ => none
  | fuel + 1, dx, ax, l =>
    if ax = 0xFFFF ∧ dx = 0xFFFF then some l
    else
      let r := loadSectors disk (512 / 8 - 1) 0x800
        { l with mem := overwrite l.mem 0x800 (disk (dx * 2 ^ 16 + ax)).bytes }
      if r.1 then some r.2
      else loadLists disk fuel (memWord r.2.mem (0x800 + 8 * 63 + 2))
        (memWord r.2.mem (0x800 + 8 * 63)) r.2

/-- `load_file_data`: the number of sectors in `AX`, and what it leaves. -/
def loadFileData (disk : Disk) (fuel bx : Nat) (m : Bytes) : Option (Nat × Load) :=
  (loadLists disk fuel (memWord m (fData + 2)) (memWord m fData) ⟨m, bx, []⟩).map fun l =>
    (((l.bx + 2 ^ 16 - bx) % 2 ^ 16) >>> (9 - 4), l)

section

variable {disk : Disk} {m : Bytes} {a b i e si cx fuel list : Nat} {l l' l'' : Load}
  {data data' more : List Nat} {content : List UInt8}

theorem memWord_of_stands (h : Stands m a (encode 8 e)) :
    memWord m a = e % 2 ^ 16 ∧ memWord m (a + 2) = e / 2 ^ 16 % 2 ^ 16 := by
  have h0 : m a = _ := h 0 _ rfl
  have h1 : m (a + 1) = _ := h 1 _ rfl
  have h2 : m (a + 2) = _ := h 2 _ rfl
  have h3 : m (a + 2 + 1) = _ := h 3 _ rfl
  unfold memWord
  rw [h0, h1, h2, h3]
  simp only [UInt8.toNat_ofNat']
  omega

/-- From `l` to `l'` the sectors `data` are read into memory from `16 * b` on. Below of that, memory
changes in the buffer only. -/
structure Loaded (disk : Disk) (b : Nat) (l l' : Load) (data : List Nat) : Prop where
  bx : l'.bx = (b + 0x20 * data.length) % 2 ^ 16
  sectors : l'.sectors = l.sectors ++ data
  bytes : Stands l'.mem (16 * b) (data.flatMap fun i => (disk i).bytes)
  other : ∀ a, 0xA00 ≤ a → a < 16 * b → l'.mem a = l.mem a

theorem length_sectors (disk : Disk) (data : List Nat) :
    (data.flatMap fun i => (disk i).bytes).length = 512 * data.length := by
  induction data with
  | nil => rfl
  | cons i data ih =>
    rw [List.flatMap_cons, List.length_append, ih, (disk i).length_eq, List.length_cons]
    omega

theorem Loaded.trans (h : Loaded disk b l l' data) (hb : 0xA0 ≤ b)
    (h' : Loaded disk (b + 0x20 * data.length) l' l'' data') :
    Loaded disk b l l'' (data ++ data') where
  bx := by rw [h'.bx, List.length_append, Nat.mul_add, Nat.add_assoc]
  sectors := by rw [h'.sectors, h.sectors, List.append_assoc]
  bytes := by
    have hlen := length_sectors disk data
    rw [List.flatMap_append, stands_append]
    constructor
    · refine h.bytes.congr fun i hi => h'.other _ (by omega) (by omega)
    · have := h'.bytes
      rwa [Nat.mul_add, ← Nat.mul_assoc, ← hlen] at this
  other := by
    intro a ha hlt
    rw [h'.other a ha (by omega), h.other a ha hlt]

theorem loaded_read (disk : Disk) (hbx : l.bx = b) (i : Nat) : Loaded disk b l (l.read disk i) [i] where
  bx := by rw [← hbx]; rfl
  sectors := rfl
  bytes := by
    rw [List.flatMap_singleton, ← hbx]
    exact stands_overwrite _ _ _
  other := by
    intro a _ hlt
    exact overwrite_of_lt (by rwa [hbx])

/-- **The loop over a list** reads the sectors of its first entries. -/
theorem loadSectors_data (cx : Nat) (hbx : l.bx = b % 2 ^ 16) (hb : 0xA0 ≤ b)
    (hroom : b + 0x20 * data.length ≤ 2 ^ 16) (hdata : ∀ i ∈ data, i < COMMON_INDICATOR_32)
    (hsi : si + 8 * (data ++ more).length ≤ 0xA00)
    (hlist : Stands l.mem si ((data ++ more).flatMap (encode 8))) :
    ∃ l', loadSectors disk (data.length + cx) si l =
        loadSectors disk cx (si + 8 * data.length) l' ∧
      Stands l'.mem (si + 8 * data.length) (more.flatMap (encode 8)) ∧ Loaded disk b l l' data := by
  induction data generalizing l b si with
  | nil =>
    refine ⟨l, by rw [List.length_nil, Nat.zero_add]; rfl, hlist, ?_⟩
    exact ⟨hbx, (List.append_nil _).symm, fun _ _ h => (nomatch h), fun _ _ _ => rfl⟩
  | cons i data ih =>
    have hi := hdata i List.mem_cons_self
    rw [List.cons_append, List.flatMap_cons, stands_append, length_encode] at hlist
    obtain ⟨hax, hdx⟩ := memWord_of_stands hlist.1
    unfold COMMON_INDICATOR_32 at hi
    rw [List.length_cons] at hroom
    rw [List.cons_append, List.length_cons] at hsi
    have hbx' : l.bx = b := by
      rw [hbx]
      exact Nat.mod_eq_of_lt (by omega)
    have hnum : memWord l.mem (si + 2) * 2 ^ 16 + memWord l.mem si = i := by
      rw [hax, hdx]
      omega
    have hend : ¬ (memWord l.mem si = 0xFFFF ∧ memWord l.mem (si + 2) = 0xFFFF) := by
      rw [hax, hdx]
      omega
    have hread := loaded_read disk hbx' i
    have hbx'' : (l.read disk i).bx = (b + 0x20) % 2 ^ 16 := hread.bx
    have hkeep : Stands (l.read disk i).mem (si + 8) ((data ++ more).flatMap (encode 8)) := by
      apply hlist.2.overwrite
      right
      rw [length_flatMap_encode, hbx']
      omega
    obtain ⟨l', hrun, hmore, hloaded⟩ := ih hbx'' (by omega) (by omega)
      (fun j hj => hdata j (List.mem_cons_of_mem i hj)) (by omega) hkeep
    have hnext : si + 8 + 8 * data.length = si + 8 * (i :: data).length := by
      rw [List.length_cons]
      omega
    rw [hnext] at hrun hmore
    refine ⟨l', ?_, hmore, hread.trans hb hloaded⟩
    rw [List.length_cons, Nat.add_right_comm, loadSectors]
    rw [if_neg hend, hnum, hrun, List.length_cons]

theorem IsList.stands {blk : List UInt8} {entries : List Nat} {next : Nat}
    (h : IsList blk entries next) (hm : Stands m a blk) :
    Stands m a ((entries ++ [next]).flatMap (encode 8)) := by
  rw [← List.take_append_drop (8 * (entries.length + 1)) blk, stands_append] at hm
  rw [← h]
  exact hm.1

theorem loadSectors_end (h : Stands l.mem si (encode 8 minusOne)) :
    loadSectors disk (cx + 1) si l = (true, l) := by
  obtain ⟨hax, hdx⟩ := memWord_of_stands h
  rw [loadSectors]
  exact if_pos ⟨hax, hdx⟩

theorem loadLists_minusOne : loadLists disk (fuel + 1) 0xFFFF 0xFFFF l = some l :=
  if_pos ⟨rfl, rfl⟩

/-- The list block `list` in the buffer. -/
def Load.inBuffer (disk : Disk) (l : Load) (list : Nat) : Load :=
  { l with mem := overwrite l.mem 0x800 (disk list).bytes }

theorem loadLists_succ (h : list < COMMON_INDICATOR_32) :
    loadLists disk (fuel + 1) (list / 2 ^ 16) (list % 2 ^ 16) l =
      if (loadSectors disk 63 0x800 (l.inBuffer disk list)).1 then
        some (loadSectors disk 63 0x800 (l.inBuffer disk list)).2
      else
        loadLists disk fuel
          (memWord (loadSectors disk 63 0x800 (l.inBuffer disk list)).2.mem (0x800 + 8 * 63 + 2))
          (memWord (loadSectors disk 63 0x800 (l.inBuffer disk list)).2.mem (0x800 + 8 * 63))
          (loadSectors disk 63 0x800 (l.inBuffer disk list)).2 := by
  unfold COMMON_INDICATOR_32 at h
  have hnum : list / 2 ^ 16 * 2 ^ 16 + list % 2 ^ 16 = list := by omega
  have hend : ¬ (list % 2 ^ 16 = 0xFFFF ∧ list / 2 ^ 16 = 0xFFFF) := by omega
  rw [loadLists, if_neg hend, hnum]
  rfl

theorem Loaded.of_inBuffer (h : Loaded disk b (l.inBuffer disk list) l' data) : Loaded disk b l l' data where
  bx := h.bx
  sectors := h.sectors
  bytes := h.bytes
  other := by
    intro a ha hlt
    rw [h.other a ha hlt]
    refine overwrite_of_le ?_
    rw [(disk list).length_eq]
    exact ha

theorem sectorCount_of_le {len : Nat} (h : 63 * 512 ≤ len) :
    sectorCount len = 63 + sectorCount (len - 63 * 512) := by
  unfold sectorCount
  omega

theorem loadSectors_list {entries : List Nat} {next : Nat} (cx : Nat)
    (isList : IsList (disk list).bytes entries next) (hentries : entries ++ [next] = data ++ more)
    (hlen : entries.length = 63) (hbx : l.bx = b % 2 ^ 16) (hb : 0xA0 ≤ b)
    (hroom : b + 0x20 * data.length ≤ 2 ^ 16) (hdata : ∀ i ∈ data, i < COMMON_INDICATOR_32) 
    (hcx : data.length + cx = 63) :
    ∃ l', loadSectors disk 63 0x800 (l.inBuffer disk list) =
        loadSectors disk cx (0x800 + 8 * data.length) l' ∧
      Stands l'.mem (0x800 + 8 * data.length) (more.flatMap (encode 8)) ∧
      Loaded disk b l l' data := by
  have hstands : Stands (l.inBuffer disk list).mem 0x800 ((data ++ more).flatMap (encode 8)) := by
    rw [← hentries]
    exact isList.stands (stands_overwrite _ _ _)
  have hsize : (data ++ more).length = 64 := by
    rw [← hentries, List.length_append, hlen]
    rfl
  obtain ⟨l', hrun, hmore, hloaded⟩ := loadSectors_data cx
    (show (l.inBuffer disk list).bx = _ from hbx) hb hroom hdata (by omega) hstands
  rw [hcx] at hrun
  exact ⟨l', hrun, hmore, hloaded.of_inBuffer⟩

/-- **The loop over the lists** of a stored file reads its sectors in order. -/
theorem loadLists_spec {u : List Nat}
    (h : FileData 512 (fun i => (disk i).bytes) u list content)
    (hu : ∀ i ∈ u, i < COMMON_INDICATOR_32) (hbx : l.bx = b % 2 ^ 16) (hb : 0xA0 ≤ b)
    (hroom : b + 0x20 * sectorCount content.length ≤ 2 ^ 16)
    (hfuel : content.length / (63 * 512) + 1 < fuel) :
    ∃ l' data, loadLists disk fuel (list / 2 ^ 16) (list % 2 ^ 16) l = some l' ∧
      Loaded disk b l l' data ∧
      data.map (fun i => (disk i).bytes) = chunks 512 (sectorCount content.length) content := by
  induction h generalizing l b fuel with
  | @last list data content short isList hchunks =>
    have hlist : list < COMMON_INDICATOR_32 := hu _ List.mem_cons_self
    have hlen : data.length = sectorCount content.length := by
      rw [← List.length_map, hchunks]
      exact length_chunks_of_lt (by decide) short
    have hle : data.length ≤ 63 := by
      rw [← List.length_map, hchunks, length_chunks (by decide)]
      exact Nat.min_le_left _ _
    have hall : chunks 512 (listEntries 512) content =
        chunks 512 (sectorCount content.length) content :=
      chunks_eq_of_le (by unfold sectorCount; omega) (by rw [← hlen]; exact hle)
    rw [hall] at hchunks
    obtain ⟨fuel, rfl⟩ : ∃ n, fuel = n + 2 := ⟨fuel - 2, by omega⟩
    have hcount : (data ++ List.replicate (63 - data.length) minusOne).length = 63 := by
      rw [List.length_append, List.length_replicate]
      omega
    obtain ⟨l', hrun, hmore, hloaded⟩ := loadSectors_list (63 - data.length) isList
      (List.append_assoc _ _ _) hcount hbx hb (by rw [hlen]; exact hroom)
      (fun i hi => hu i (List.mem_cons_of_mem _ hi)) (by omega)
    rw [show listEntries 512 = 63 from rfl] at hmore
    refine ⟨l', data, ?_, hloaded, hchunks⟩
    rw [loadLists_succ hlist, hrun]
    cases hcx : 63 - data.length with
    | zero =>
      -- the list is full: the link to the next list ends the file
      rw [hcx, List.replicate_zero, List.nil_append, List.flatMap_singleton,
        show data.length = 63 by omega] at hmore
      obtain ⟨hax, hdx⟩ := memWord_of_stands hmore
      show loadLists disk (fuel + 1) (memWord l'.mem _) (memWord l'.mem _) l' = _
      rw [hax, hdx]
      exact loadLists_minusOne
    | succ cx =>
      rw [hcx, List.replicate_succ, List.cons_append, List.flatMap_cons, stands_append] at hmore
      rw [loadSectors_end hmore.1]
      rfl
  | @more list next data u content long isList hchunks htail ih =>
    have hlist : list < COMMON_INDICATOR_32 := hu _ List.mem_cons_self
    have hnext : next < COMMON_INDICATOR_32 :=
      hu _ (List.mem_cons_of_mem _ (List.mem_append_right _ htail.list_mem))
    have hlen : data.length = 63 := by
      rw [← List.length_map, hchunks]
      exact length_chunks_of_le (by decide) long
    have hlong : 63 * 512 ≤ content.length := long
    have hcount : sectorCount content.length = 63 + sectorCount (content.length - 63 * 512) :=
      sectorCount_of_le hlong
    obtain ⟨fuel, rfl⟩ : ∃ n, fuel = n + 1 := ⟨fuel - 1, by omega⟩
    obtain ⟨l₁, hrun, hmore, hloaded⟩ := loadSectors_list 0 isList rfl hlen
      hbx hb (by omega) (fun i hi => hu i (List.mem_cons_of_mem _ (List.mem_append_left _ hi)))
      (by omega)
    rw [List.flatMap_singleton, hlen] at hmore
    obtain ⟨hax, hdx⟩ := memWord_of_stands hmore
    have hmod : next / 2 ^ 16 % 2 ^ 16 = next / 2 ^ 16 := by
      unfold COMMON_INDICATOR_32 at hnext
      omega
    have hdrop : (content.drop (listEntries 512 * 512)).length = content.length - 63 * 512 :=
      List.length_drop
    have hdiv : content.length / (63 * 512) = (content.length - 63 * 512) / (63 * 512) + 1 := by
      omega
    obtain ⟨l', data', hrest, hloaded', hchunks'⟩ := @ih (b + 0x20 * data.length) fuel l₁
      (fun i hi => hu i (List.mem_cons_of_mem _ (List.mem_append_right _ hi)))
      hloaded.bx (Nat.le_add_right_of_le hb) (by rw [hdrop]; omega) (by rw [hdrop]; omega)
    refine ⟨l', data ++ data', ?_, hloaded.trans hb hloaded', ?_⟩
    · rw [loadLists_succ hlist, hrun]
      show loadLists disk fuel (memWord l₁.mem _) (memWord l₁.mem _) l₁ = _
      rw [hax, hdx, hmod]
      exact hrest
    · rw [List.map_append, hchunks, hchunks', hdrop, hcount, chunks_append]
      rfl

end

/-! ## The round trip -/

section

variable {s s' : Builder} {content : List UInt8}

theorem fileBlocks_pos (bs len : Nat) : 0 < fileBlocks bs len := Nat.succ_pos _

theorem storeFileData_returns (hs : s.Ready) (h16 : 16 ≤ s.blockSize)
    (hfree : fileBlocks s.blockSize content.length ≤ s.free.length) :
    ∃ list s', storeFileData (content.length + 2) ⟨content, false⟩ s = .ok list s' ∧
      ∃ u w : List Nat, s.Grown s' u w ∧ FileData s.blockSize s'.block u list content := by
  have h := storeFileData_ends hs h16 (content.length + 2) content (Nat.le_refl _)
  obtain ⟨list, s', hrun, u, w, hgrown, -, -, hdata⟩ := h.returns (by
    rintro e s' ⟨-, hnone, u, w, hgrown, -, hlen⟩
    have hu := hgrown.free
    rw [hnone, List.append_nil] at hu
    rw [hu] at hfree
    omega)
  exact ⟨list, s', hrun, u, w, hgrown, hdata⟩

theorem block_eq_disk (h : s.blockSize = 512) : s.block = fun i => (s.disk i).bytes := by
  unfold Builder.block Builder.disk
  rw [h]

theorem ready_of_size (hbs : s.blockSize = 512) (hpos : 0 < s.fsHeader.size)
    (hsize : s.fsHeader.size ≤ COMMON_INDICATOR_32) : s.Ready := by
  refine ⟨hpos, ?_⟩
  rw [hbs]
  calc 512 * s.fsHeader.size ≤ 512 * COMMON_INDICATOR_32 := Nat.mul_le_mul_left 512 hsize
    _ < 2 ^ 63 := by decide

/-- **The boot loader reads what the image builder stored**: as many sectors as the file has, which
hold its bytes and then zeros, in order. The memory from `BX:0` on is above the list buffer and does
not wrap. -/
theorem loadFileData_stored (content : List UInt8) {bx : Nat} (hbs : s.blockSize = 512)
    (hsize : s.fsHeader.size ≤ COMMON_INDICATOR_32)
    (hfree : fileBlocks 512 content.length ≤ s.free.length) (hbx : 0xA0 ≤ bx) (hlt : bx < 2 ^ 16)
    (hroom : bx + 0x20 * sectorCount content.length ≤ 2 ^ 16) :
    ∃ list s', storeFileData (content.length + 2) ⟨content, false⟩ s = .ok list s' ∧
      ∀ m, Stands m fData (encode 8 list) → ∀ fuel, content.length / (63 * 512) + 1 < fuel →
        ∃ l, loadFileData s'.disk fuel bx m = some (sectorCount content.length, l) ∧
          l.sectors.length = sectorCount content.length ∧
          (l.sectors.flatMap fun i => (s'.disk i).bytes) = content ++
            List.replicate (512 * sectorCount content.length - content.length) 0 ∧
          Stands l.mem (16 * bx) (content ++
            List.replicate (512 * sectorCount content.length - content.length) 0) := by
  obtain ⟨i, hi⟩ : ∃ i, i ∈ s.free :=
    List.exists_mem_of_length_pos (Nat.lt_of_lt_of_le (fileBlocks_pos _ _) hfree)
  have hs := ready_of_size hbs (Nat.zero_lt_of_lt (lt_of_mem_free hi)) hsize
  rw [← hbs] at hfree
  obtain ⟨list, s', hrun, u, w, hgrown, hdata⟩ :=
    storeFileData_returns hs (by rw [hbs]; decide) hfree
  refine ⟨list, s', hrun, ?_⟩
  intro m hm fuel hfuel
  rw [hbs, block_eq_disk (hgrown.blockSize.trans hbs)] at hdata
  have hu : ∀ i ∈ u, i < COMMON_INDICATOR_32 := by
    intro i hi
    exact Nat.lt_of_lt_of_le (lt_of_mem_free (hgrown.mem_free hi)) hsize
  have hlist : list < COMMON_INDICATOR_32 := hu _ hdata.list_mem
  unfold COMMON_INDICATOR_32 at hlist
  obtain ⟨hax, hdx⟩ := memWord_of_stands hm
  have hmod : list / 2 ^ 16 % 2 ^ 16 = list / 2 ^ 16 := by omega
  obtain ⟨l, data, hload, hloaded, hchunks⟩ := loadLists_spec (l := ⟨m, bx, []⟩) hdata hu
    (Nat.mod_eq_of_lt hlt).symm hbx hroom hfuel
  have hcount : (chunks 512 (sectorCount content.length) content).length =
      sectorCount content.length := by
    rw [length_chunks (by decide)]
    exact Nat.min_self _
  have hlen : data.length = sectorCount content.length := by
    rw [← hcount, ← hchunks, List.length_map]
  have hbytes : (data.flatMap fun i => (s'.disk i).bytes) = content ++
      List.replicate (512 * sectorCount content.length - content.length) 0 := by
    rw [List.flatMap_def, hchunks, flatten_chunks (by unfold sectorCount; omega), hcount]
  have hsectors : l.sectors = data := hloaded.sectors
  refine ⟨l, ?_, ?_, ?_, ?_⟩
  · unfold loadFileData
    rw [hax, hdx, hmod, hload, Option.map_some, hloaded.bx, hlen]
    congr 2
    rw [Nat.shiftRight_eq_div_pow]
    omega
  · rw [hsectors, hlen]
  · rw [hsectors, hbytes]
  · rw [← hbytes]
    exact hloaded.bytes

/-- An image of 128 blocks, of which the first one is taken. -/
def emptyImage : Builder where
  blockSize := 512
  output := zeros
  position := 0
  fsHeader := ⟨LISTFS_MAGIC, LISTFS_VERSION, 0, 0, 128, 0, 1, minusOne, 0, 512, []⟩
  diskMap := 1 :: List.replicate 511 0
  bootLoaderExtraBlocks := 0
  junk := zeros
  allocated := []
  writes := []

theorem length_free_emptyImage : emptyImage.free.length = 127 := by decide +kernel

theorem emptyImage_ready : emptyImage.Ready := ready_of_size rfl (by decide) (by decide)

/-- A file of 63 blocks and a byte. -/
def twoLists : List UInt8 := List.replicate (63 * 512 + 1) 7

theorem loadFileData_stored_two :
    ∃ list s', storeFileData (twoLists.length + 2) ⟨twoLists, false⟩ emptyImage = .ok list s' ∧
      ∀ m, Stands m fData (encode 8 list) → ∀ fuel, 2 < fuel →
        ∃ l, loadFileData s'.disk fuel 0x7E0 m = some (64, l) ∧ l.sectors.length = 64 ∧
          (l.sectors.flatMap fun i => (s'.disk i).bytes) = twoLists ++ List.replicate 511 0 ∧
          Stands l.mem 0x7E00 (twoLists ++ List.replicate 511 0) := by
  have hlen : twoLists.length = 63 * 512 + 1 := List.length_replicate
  obtain ⟨list, s', hrun, hload⟩ := loadFileData_stored twoLists (s := emptyImage) rfl (by decide)
    (by rw [length_free_emptyImage, hlen]; decide) (show 0xA0 ≤ 0x7E0 by decide) (by decide)
    (by rw [hlen]; decide)
  rw [hlen] at hload
  exact ⟨list, s', hrun, hload⟩

end

/-! ## The scan of the kernel -/

/-- The number of entries that the loop of `get_file_data_pointer` examines; the one behind the end
of the list is a page fault. -/
def scanCount : List Nat → Nat
  | [] => 1
  | w :: ws => if w = COMMON_INDICATOR_64 then 1 else scanCount ws + 1

/-- The sector `i` holds data of the file: the bytes from a multiple of 512 on. -/
def HoldsData (disk : Disk) (content : List UInt8) (i : Nat) : Prop :=
  ∃ k, 512 * k < content.length ∧
    (disk i).bytes = fillBuffer 512 zeros ((content.drop (512 * k)).take 512)

/-- `get_file_data_pointer` on the list block `list` examines the entries of that block only, and
returns `-1` if the file is empty and otherwise a block with data of the file. -/
def ScansFile (disk : Disk) (rest : List UInt8) (content : List UInt8) (list : Nat) : Prop :=
  scanCount (words64 (bufferAt disk rest list)) ≤ 64 ∧
    ∃ r, getFileDataPointer disk rest list = some r ∧
      (content = [] → r = COMMON_INDICATOR_32) ∧ (content ≠ [] → HoldsData disk content r)

section

variable {disk : Disk} {rest : List UInt8} {ws data : List Nat} {r i list : Nat}

theorem words64_encode {x : Nat} (hx : x < 2 ^ 64) (mem : List UInt8) :
    words64 (encode 8 x ++ mem) = x :: words64 mem := by
  show decode (encode 8 x) :: words64 mem = x :: words64 mem
  rw [decode_encode hx]

theorem words64_flatMap (h : ∀ w ∈ ws, w < 2 ^ 64) (mem : List UInt8) :
    words64 (ws.flatMap (encode 8) ++ mem) = ws ++ words64 mem := by
  induction ws with
  | nil => rfl
  | cons w ws ih =>
    rw [List.flatMap_cons, List.append_assoc, words64_encode (h w List.mem_cons_self),
      ih fun x hx => h x (List.mem_cons_of_mem w hx)]
    rfl

theorem scanCount_pos (ws : List Nat) : 0 < scanCount ws := by
  cases ws with
  | nil => exact Nat.one_pos
  | cons w ws =>
    rw [scanCount]
    split_ifs
    · exact Nat.one_pos
    · exact Nat.succ_pos _

theorem ne_of_lt_indicator (h : i < COMMON_INDICATOR_32) : i ≠ COMMON_INDICATOR_64 := by
  unfold COMMON_INDICATOR_32 at h
  unfold COMMON_INDICATOR_64
  omega

theorem scanCount_append (h : ∀ w ∈ data, w ≠ COMMON_INDICATOR_64) :
    scanCount (data ++ ws) = data.length + scanCount ws := by
  induction data with
  | nil => exact (Nat.zero_add _).symm
  | cons w data ih =>
    rw [List.cons_append, scanCount, if_neg (h w List.mem_cons_self),
      ih fun x hx => h x (List.mem_cons_of_mem w hx), List.length_cons, Nat.add_right_comm]

theorem scanList_append (h : ∀ w ∈ data, w < COMMON_INDICATOR_32) :
    scanList (data ++ COMMON_INDICATOR_64 :: ws) r = some (data.getLastD r) := by
  induction data generalizing r with
  | nil => exact if_pos rfl
  | cons w data ih =>
    have hw := h w List.mem_cons_self
    have hu : uint32 w = w := by
      unfold COMMON_INDICATOR_32 at hw
      unfold uint32
      omega
    rw [List.cons_append, scanList, if_neg (ne_of_lt_indicator hw), hu, ih fun x hx => h x (List.mem_cons_of_mem w hx)]
    rw [List.getLastD_cons]

end

section

variable {disk : Disk} {rest content : List UInt8} {entries : List Nat} {list next : Nat}

theorem mem_chunks {bs n : Nat} {l b : List UInt8} (h : b ∈ chunks bs n l) :
    ∃ k, bs * k < l.length ∧ b = fillBuffer bs zeros ((l.drop (bs * k)).take bs) := by
  induction n generalizing l with
  | zero => cases h
  | succ n ih =>
    rw [chunks] at h
    split_ifs at h with hl
    · cases h
    rcases List.mem_cons.mp h with rfl | h
    · refine ⟨0, ?_, ?_⟩
      · rw [Nat.mul_zero]
        exact List.length_pos_iff.mpr hl
      · rw [Nat.mul_zero, List.drop_zero]
    · obtain ⟨k, hk, rfl⟩ := ih h
      rw [List.length_drop] at hk
      refine ⟨k + 1, ?_, ?_⟩
      · rw [Nat.mul_succ]
        omega
      · rw [List.drop_drop, Nat.mul_succ, Nat.add_comm]

theorem words64_list (h : IsList (disk list).bytes entries next) (hlen : entries.length = 63)
    (hlt : ∀ w ∈ entries ++ [next], w < 2 ^ 64) :
    words64 (bufferAt disk rest list) = entries ++ next :: words64 rest := by
  have hfull : (disk list).bytes = (entries ++ [next]).flatMap (encode 8) := by
    unfold IsList at h
    rw [← h, hlen, List.take_of_length_le (by rw [(disk list).length_eq])]
  unfold bufferAt
  rw [hfull, words64_flatMap hlt, List.append_assoc]
  rfl

theorem words64_short (rest : List UInt8) {u : List Nat} (h : FileData 512 (fun i => (disk i).bytes) u list content)
    (hu : ∀ i ∈ u, i < COMMON_INDICATOR_32) (hlt : content.length < 63 * 512) :
    ∃ data more : List Nat, data ⊆ u ∧ data.length ≤ 63 ∧
      data.map (fun i => (disk i).bytes) = chunks 512 63 content ∧
      words64 (bufferAt disk rest list) = data ++ COMMON_INDICATOR_64 :: more := by
  cases h with
  | more long => exact absurd hlt (Nat.not_lt.mpr long)
  | @last _ data _ short isList hchunks =>
    rw [show listEntries 512 = 63 from rfl] at isList hchunks
    have hlen : data.length = min 63 ((content.length + 511) / 512) := by
      rw [← List.length_map fun i => (disk i).bytes, hchunks]
      exact length_chunks (by decide) 63 content
    refine ⟨data, List.replicate (63 - data.length) COMMON_INDICATOR_64 ++ words64 rest,
      fun i hi => List.mem_cons_of_mem _ hi, by omega, hchunks, ?_⟩
    rw [words64_list isList]
    · rw [List.append_assoc, ← List.cons_append, ← List.replicate_succ, List.replicate_succ',
        List.append_assoc]
      rfl
    · rw [List.length_append, List.length_replicate]
      omega
    · intro w hw
      have hend : minusOne < 2 ^ 64 := by decide
      rw [List.mem_append, List.mem_append] at hw
      rcases hw with (hw | hw) | hw
      · exact Nat.lt_trans (hu w (List.mem_cons_of_mem _ hw)) (by decide)
      · rwa [List.eq_of_mem_replicate hw]
      · rwa [List.mem_singleton.mp hw]

theorem words64_long (rest : List UInt8) {u : List Nat} (h : FileData 512 (fun i => (disk i).bytes) u list content)
    (hu : ∀ i ∈ u, i < COMMON_INDICATOR_32) (hle : 63 * 512 ≤ content.length) :
    ∃ ws : List Nat, ws.length = 64 ∧ (∀ w ∈ ws, w < COMMON_INDICATOR_32) ∧
      words64 (bufferAt disk rest list) = ws ++ words64 rest := by
  cases h with
  | last short => exact absurd short (Nat.not_lt.mpr hle)
  | @more _ next data u _ long isList hchunks htail =>
    have hlen : data.length = 63 := by
      rw [← List.length_map, hchunks]
      exact length_chunks_of_le (by decide) long
    have hall : ∀ w ∈ data ++ [next], w < COMMON_INDICATOR_32 := by
      intro w hw
      apply hu
      rcases List.mem_append.mp hw with hw | hw
      · exact List.mem_cons_of_mem _ (List.mem_append_left _ hw)
      · rw [List.mem_singleton.mp hw]
        exact List.mem_cons_of_mem _ (List.mem_append_right _ htail.list_mem)
    refine ⟨data ++ [next], ?_, hall, ?_⟩
    · rw [List.length_append, hlen, List.length_singleton]
    · rw [words64_list isList hlen fun w hw => Nat.lt_trans (hall w hw) (by decide),
        List.append_assoc, List.singleton_append]

theorem holdsData_getLastD {data : List Nat} (hlen : data.length ≤ 63)
    (hchunks : data.map (fun i => (disk i).bytes) = chunks 512 63 content) (hc : content ≠ []) :
    data.getLastD COMMON_INDICATOR_32 ∈ data ∧
      HoldsData disk content (data.getLastD COMMON_INDICATOR_32) := by
  have hne : data ≠ [] := by
    rintro rfl
    rw [List.map_nil, chunks, if_neg hc] at hchunks
    cases hchunks
  rw [List.getLastD_eq_getLast?, List.getLast?_eq_some_getLast hne, Option.getD_some]
  refine ⟨List.getLast_mem hne, ?_⟩
  have hmem : (disk (data.getLast hne)).bytes ∈ chunks 512 63 content := by
    rw [← hchunks]
    exact List.mem_map_of_mem (List.getLast_mem hne)
  exact mem_chunks hmem

/-- **`get_file_data_pointer`** on the list of a short file: `-1` for an empty one, else a data
block. -/
theorem getFileDataPointer_short (rest : List UInt8) {u : List Nat}
    (h : FileData 512 (fun i => (disk i).bytes) u list content)
    (hu : ∀ i ∈ u, i < COMMON_INDICATOR_32) (hlt : content.length < 63 * 512) :
    ∃ r, getFileDataPointer disk rest list = some r ∧
      (content = [] → r = COMMON_INDICATOR_32) ∧ (content ≠ [] → r ∈ u ∧ HoldsData disk content r) := by
  obtain ⟨data, more, hsub, hlen, hchunks, hwords⟩ := words64_short rest h hu hlt
  refine ⟨data.getLastD COMMON_INDICATOR_32, ?_, ?_, ?_⟩
  · unfold getFileDataPointer
    rw [hwords, scanList_append fun i hi => hu i (hsub hi)]
  · intro hc
    have hnil : data = [] := by
      rw [hc, chunks_nil] at hchunks
      exact List.map_eq_nil_iff.mp hchunks
    rw [hnil]
    rfl
  · intro hc
    obtain ⟨hmem, hholds⟩ := holdsData_getLastD hlen hchunks hc
    exact ⟨hsub hmem, hholds⟩

theorem scansFile_short {u : List Nat} (h : FileData 512 (fun i => (disk i).bytes) u list content)
    (hu : ∀ i ∈ u, i < COMMON_INDICATOR_32) (hlt : content.length < 63 * 512) :
    ScansFile disk rest content list := by
  obtain ⟨r, hr, hempty, hdata⟩ := getFileDataPointer_short rest h hu hlt
  refine ⟨?_, r, hr, hempty, fun hc => (hdata hc).2⟩
  obtain ⟨data, more, hsub, hlen, -, hwords⟩ := words64_short rest h hu hlt
  rw [hwords, scanCount_append fun w hw => ne_of_lt_indicator (hu w (hsub hw)), scanCount, if_pos rfl]
  omega

theorem not_scansFile_long {u : List Nat}
    (h : FileData 512 (fun i => (disk i).bytes) u list content)
    (hu : ∀ i ∈ u, i < COMMON_INDICATOR_32) (hle : 63 * 512 ≤ content.length) :
    ¬ ScansFile disk rest content list := by
  obtain ⟨ws, hlen, hall, hwords⟩ := words64_long rest h hu hle
  rintro ⟨hcount, -⟩
  rw [hwords, scanCount_append fun w hw => ne_of_lt_indicator (hall w hw), hlen] at hcount
  have hpos : 0 < scanCount (words64 rest) := scanCount_pos _
  omega

end

section

variable {s s' : Builder} {content : List UInt8} {list : Nat}

/-- **The scan stays inside of the list block exactly for files of less than 63 blocks.** -/
theorem scansFile_iff (rest : List UInt8) (hbs : s.blockSize = 512) (hpos : 0 < s.fsHeader.size)
    (hsize : s.fsHeader.size ≤ COMMON_INDICATOR_32)
    (h : storeFileData (content.length + 2) ⟨content, false⟩ s = .ok list s') :
    ScansFile s'.disk rest content list ↔ content.length < 63 * 512 := by
  have hs := ready_of_size hbs hpos hsize
  obtain ⟨u, w, hgrown, -, -, hdata⟩ := (storeFileData_ends hs (by rw [hbs]; decide)
    (content.length + 2) content (Nat.le_refl _)).of_ok h
  rw [hbs, block_eq_disk (hgrown.blockSize.trans hbs)] at hdata
  have hu : ∀ i ∈ u, i < COMMON_INDICATOR_32 := by
    intro i hi
    exact Nat.lt_of_lt_of_le (lt_of_mem_free (hgrown.mem_free hi)) hsize
  constructor
  · intro hscan
    by_contra hlong
    exact not_scansFile_long hdata hu (Nat.not_lt.mp hlong) hscan
  · exact scansFile_short hdata hu

/-- A file of two sectors. -/
def twoSectors : List UInt8 := List.replicate 600 7

theorem scansFile_iff_two : ∃ list s',
    storeFileData (twoSectors.length + 2) ⟨twoSectors, false⟩ emptyImage = .ok list s' ∧
      ScansFile s'.disk [] twoSectors list := by
  have hlen : twoSectors.length = 600 := List.length_replicate
  have hfree : fileBlocks 512 twoSectors.length ≤ emptyImage.free.length := by
    rw [length_free_emptyImage, hlen]
    decide
  obtain ⟨list, s', hrun, -⟩ := storeFileData_returns emptyImage_ready (by decide) hfree
  refine ⟨list, s', hrun, (scansFile_iff [] rfl (by decide) (by decide) hrun).mpr ?_⟩
  rw [hlen]
  decide

/-- A file of 63 blocks. -/
def longFile : List UInt8 := List.replicate (63 * 512) 7

/-- **On a file of 63 blocks** the scan runs past the list block. -/
theorem long_file_overruns :
    ∃ list s', storeFileData (longFile.length + 2) ⟨longFile, false⟩ emptyImage = .ok list s' ∧
      ∀ rest, ¬ ScansFile s'.disk rest longFile list := by
  have hlen : longFile.length = 63 * 512 := List.length_replicate
  have hfree : fileBlocks 512 longFile.length ≤ emptyImage.free.length := by
    rw [length_free_emptyImage, hlen]
    decide
  have hsize : emptyImage.fsHeader.size ≤ COMMON_INDICATOR_32 := by decide
  obtain ⟨list, s', hrun, u, w, hgrown, hdata⟩ :=
    storeFileData_returns emptyImage_ready (by decide) hfree
  refine ⟨list, s', hrun, fun rest => ?_⟩
  have hbs : s'.blockSize = 512 := hgrown.blockSize
  rw [block_eq_disk hbs] at hdata
  refine not_scansFile_long hdata ?_ (Nat.le_of_eq hlen.symm)
  intro i hi
  exact Nat.lt_of_lt_of_le (lt_of_mem_free (hgrown.mem_free hi)) hsize

end

end C4os
