import Mathlib.Data.List.Perm.Subperm
import C4os.ListFs.DiskMap

/-!
# Storing a file (`make_listfs.c`)

* `Builder.Grown`: the blocks that a part of a run takes, and the blocks that it writes.
* `chunks`, `FileData`: a file in its list blocks and data blocks.
* `fileBlocks`: the number of blocks of a file.
* **`storeFileData_ends`**: `store_file_data` stores the file in blocks it takes, or the disk is full.
-/

namespace C4os

open Blocks LittleEndian Outcome

/-! ## Buffers -/

section

variable {n : Nat} {old : Nat → UInt8} {l : List UInt8}

@[simp] theorem length_fillBuffer (n : Nat) (old : Nat → UInt8) (l : List UInt8) :
    (fillBuffer n old l).length = n := by
  rw [fillBuffer, List.length_map, List.length_range]

theorem getElem?_fillBuffer {i : Nat} (h : i < n) :
    (fillBuffer n old l)[i]? = some (l[i]?.getD (old i)) := by
  rw [fillBuffer, List.getElem?_map, List.getElem?_range h]
  rfl

theorem take_fillBuffer (h : l.length ≤ n) : (fillBuffer n old l).take l.length = l := by
  apply List.ext_getElem?
  intro i
  by_cases hi : i < l.length
  · rw [List.getElem?_take_of_lt hi, getElem?_fillBuffer (by omega), List.getElem?_eq_getElem hi]
    rfl
  · rw [List.getElem?_eq_none (by rw [List.length_take]; omega),
      List.getElem?_eq_none (by omega)]

end

/-! ## Growing images -/

/-- The block `i` of the output file. -/
def Builder.block (s : Builder) (i : Nat) : List UInt8 := Blocks.block s.blockSize s.output i

/-- The disk has blocks, at offsets below `2^63`. -/
structure Builder.Ready (s : Builder) : Prop where
  size : 0 < s.fsHeader.size
  offsets : s.blockSize * s.fsHeader.size < 2 ^ 63

/-- From `s` to `s'` the program takes the blocks `u` and writes the blocks `w`, in this order. -/
structure Builder.Grown (s s' : Builder) (u w : List Nat) : Prop where
  blockSize : s'.blockSize = s.blockSize
  fsHeader : s'.fsHeader = s.fsHeader
  junk : s'.junk = s.junk
  mapLength : s'.diskMap.length = s.diskMap.length
  free : s.free = u ++ s'.free
  allocated : s'.allocated = s.allocated ++ u
  block : ∀ i, i ∉ w → s'.block i = s.block i
  writes : s'.writes = s.writes ++ w.map fun i => (i, s.blockSize * i)

section

variable {s s' s'' : Builder} {u u' w w' : List Nat} {i : Nat} {data : List UInt8}

theorem Builder.Grown.refl (s : Builder) : s.Grown s [] [] :=
  ⟨rfl, rfl, rfl, rfl, rfl, by simp, fun _ _ => rfl, by simp⟩

theorem Builder.Grown.trans (h : s.Grown s' u w) (h' : s'.Grown s'' u' w') :
    s.Grown s'' (u ++ u') (w ++ w') where
  blockSize := h'.blockSize.trans h.blockSize
  fsHeader := h'.fsHeader.trans h.fsHeader
  junk := h'.junk.trans h.junk
  mapLength := h'.mapLength.trans h.mapLength
  free := by rw [h.free, h'.free, List.append_assoc]
  allocated := by rw [h'.allocated, h.allocated, List.append_assoc]
  block := by
    intro i hi
    rw [List.mem_append, not_or] at hi
    rw [h'.block i hi.2, h.block i hi.1]
  writes := by
    rw [h'.writes, h.writes, h.blockSize, List.map_append, List.append_assoc]

theorem Builder.Grown.ready (h : s.Grown s' u w) (hs : s.Ready) : s'.Ready := by
  obtain ⟨h1, h2⟩ := hs
  exact ⟨h.fsHeader ▸ h1, by rwa [h.blockSize, h.fsHeader]⟩

theorem Builder.Grown.nodup (h : s.Grown s' u w) : u.Nodup := by
  have hnd := nodup_free s
  rw [h.free] at hnd
  exact (List.nodup_append.mp hnd).1

theorem Builder.Grown.mem_free (h : s.Grown s' u w) (hi : i ∈ u) : i ∈ s.free := by
  rw [h.free]
  exact List.mem_append_left _ hi

theorem Builder.Grown.taken (h : s.Grown s' u w) (hi : i ∈ u) : i ∉ s'.free := by
  have hnd := nodup_free s
  rw [h.free] at hnd
  exact fun hi' => (List.nodup_append.mp hnd).2.2 i hi i hi' rfl

theorem Builder.Grown.disjoint (h : s.Grown s' u w) (h' : s'.Grown s'' u' w') (hi : i ∈ u) :
    i ∉ u' := fun hi' => h.taken hi (h'.mem_free hi')

theorem Builder.Ready.ne_minusOne (hs : s.Ready) (hb : 0 < s.blockSize)
    (hi : i < s.fsHeader.size) : i ≠ minusOne := by
  have hle : s.fsHeader.size ≤ s.blockSize * s.fsHeader.size := Nat.le_mul_of_pos_left _ hb
  have := hs.offsets
  unfold minusOne
  omega

theorem lt_of_mem_free (h : i ∈ s.free) : i < s.fsHeader.size := (C4os.mem_free.mp h).1

theorem grown_take {l : List Nat} (h : s.free = i :: l) : s.Grown (s.take i) [i] [] where
  blockSize := rfl
  fsHeader := rfl
  junk := rfl
  mapLength := length_setBit _ _
  free := by rw [h, free_take h]; rfl
  allocated := rfl
  block := fun _ _ => rfl
  writes := by simp [Builder.take]

/-- **`alloc_disk_block`** takes a block, or none is free. -/
theorem allocDiskBlock_ends (hs : s.Ready) :
    Ends (fun i s' => s.Grown s' [i] [])
      (fun e s' => e ≠ .endless ∧ s' = s ∧ s.free = []) (allocDiskBlock s) := by
  have h := allocDiskBlock_spec (s := s) hs.size
  cases hf : s.free with
  | nil =>
    rw [hf] at h
    obtain ⟨e, he, heq⟩ := h
    rw [heq]
    exact ⟨he, rfl, rfl⟩
  | cons i l =>
    rw [hf] at h
    rw [h.1]
    exact grown_take hf

/-- The state after a write for the block `i` at an offset. -/
def Builder.write (s : Builder) (i offset : Nat) (data : List UInt8) : Builder :=
  { s with
    output := overwrite s.output offset data
    position := offset + data.length
    writes := s.writes ++ [(i, offset)] }

theorem writeBlock_eq (i : Nat) (data : List UInt8) (s : Builder) :
    writeBlock i data s = .ok ⟨⟩ (s.write i (if s.blockSize * i % 2 ^ 64 < 2 ^ 63 then
      s.blockSize * i % 2 ^ 64 else s.position) data) := rfl

/-- **`write_block`** on a block of the disk. -/
theorem writeBlock_ends (hs : s.Ready) (hi : i < s.fsHeader.size) (data : List UInt8)
    (hd : data.length = s.blockSize) :
    ∃ s', writeBlock i data s = .ok ⟨⟩ s' ∧ s.Grown s' [] [i] ∧ s'.block i = data := by
  have hlt : s.blockSize * i < 2 ^ 63 := by
    have hle : s.blockSize * (i + 1) ≤ s.blockSize * s.fsHeader.size := Nat.mul_le_mul_left _ hi
    have := hs.offsets
    rw [Nat.mul_add, Nat.mul_one] at hle
    omega
  have hmod : s.blockSize * i % 2 ^ 64 = s.blockSize * i := Nat.mod_eq_of_lt (by omega)
  have heval : writeBlock i data s = .ok ⟨⟩ (s.write i (s.blockSize * i) data) := by
    rw [writeBlock_eq, hmod, if_pos hlt]
  refine ⟨_, heval, ⟨rfl, rfl, rfl, rfl, rfl, (List.append_nil _).symm, ?_, rfl⟩, ?_⟩
  · intro j hj
    show Blocks.block s.blockSize (overwrite s.output (s.blockSize * i) data) j = _
    rw [block_overwrite hd, if_neg (by simpa using hj)]
    rfl
  · exact block_overwrite_self hd

end

/-! ## A stored file -/

/-- The bytes of a file in at most `n` blocks, the last one filled up with zeros. -/
def chunks (bs : Nat) : Nat → List UInt8 → List (List UInt8)
  | 0, _ => []
  | n + 1, l => if l = [] then [] else fillBuffer bs zeros (l.take bs) :: chunks bs n (l.drop bs)

/-- The number of data blocks that a list block has room for. -/
def listEntries (bs : Nat) : Nat := bs / 8 - 1

/-- The block is a list with these entries and this link. -/
def IsList (b : List UInt8) (entries : List Nat) (next : Nat) : Prop :=
  b.take (8 * (entries.length + 1)) = (entries ++ [next]).flatMap (encode 8)

/-- The blocks `u` hold the bytes `content`, with the first list in the block `list`. -/
inductive FileData (bs : Nat) (blk : Nat → List UInt8) : List Nat → Nat → List UInt8 → Prop where
  | last {list : Nat} {data : List Nat} {content : List UInt8}
      (short : content.length < listEntries bs * bs)
      (isList : IsList (blk list)
        (data ++ List.replicate (listEntries bs - data.length) minusOne) minusOne)
      (chunks : data.map blk = chunks bs (listEntries bs) content) :
      FileData bs blk (list :: data) list content
  | more {list next : Nat} {data u : List Nat} {content : List UInt8}
      (long : listEntries bs * bs ≤ content.length)
      (isList : IsList (blk list) data next)
      (chunks : data.map blk = chunks bs (listEntries bs) content)
      (tail : FileData bs blk u next (content.drop (listEntries bs * bs))) :
      FileData bs blk (list :: (data ++ u)) list content

/-- The number of blocks of a file with `len` bytes. -/
def fileBlocks (bs len : Nat) : Nat := (len + bs - 1) / bs + (len / (listEntries bs * bs) + 1)

section

variable {bs : Nat} {blk blk' : Nat → List UInt8} {u : List Nat} {list : Nat}
  {content : List UInt8}

theorem FileData.congr (h : FileData bs blk u list content) (hb : ∀ i ∈ u, blk' i = blk i) :
    FileData bs blk' u list content := by
  induction h with
  | last short isList hc =>
    refine .last short ?_ ?_
    · rwa [hb _ List.mem_cons_self]
    · rw [← hc]
      exact List.map_congr_left fun i hi => hb i (List.mem_cons_of_mem _ hi)
  | more long isList hc _ ih =>
    refine .more long ?_ ?_ (ih fun i hi => hb i ?_)
    · rwa [hb _ List.mem_cons_self]
    · rw [← hc]
      exact List.map_congr_left fun i hi =>
        hb i (List.mem_cons_of_mem _ (List.mem_append_left _ hi))
    · exact List.mem_cons_of_mem _ (List.mem_append_right _ hi)

theorem FileData.list_mem (h : FileData bs blk u list content) : list ∈ u := by
  cases h with
  | last => exact List.mem_cons_self
  | more => exact List.mem_cons_self

theorem length_chunks (hbs : 0 < bs) (n : Nat) (l : List UInt8) :
    (chunks bs n l).length = min n ((l.length + bs - 1) / bs) := by
  induction n generalizing l with
  | zero => rw [Nat.zero_min]; rfl
  | succ n ih =>
    unfold chunks
    by_cases hl : l = []
    · have hz : (([] : List UInt8).length + bs - 1) / bs = 0 :=
        Nat.div_eq_of_lt (by rw [List.length_nil]; omega)
      rw [if_pos hl, hl, hz]
      exact (Nat.min_zero _).symm
    · have hpos : 0 < l.length := List.length_pos_iff.mpr hl
      have hdiv : (l.length + bs - 1) / bs = (l.length - bs + bs - 1) / bs + 1 := by
        rw [Nat.div_eq_sub_div hbs (by omega)]
        by_cases hlt : bs ≤ l.length
        · congr 2
          omega
        · rw [Nat.div_eq_of_lt (by omega), Nat.div_eq_of_lt (by omega)]
      rw [if_neg hl, List.length_cons, ih, List.length_drop, hdiv]
      omega

theorem length_chunks_of_lt (hbs : 0 < bs) {n : Nat} {l : List UInt8} (h : l.length < n * bs) :
    (chunks bs n l).length = (l.length + bs - 1) / bs := by
  rw [length_chunks hbs]
  apply Nat.min_eq_right
  apply Nat.le_of_lt_succ
  rw [Nat.div_lt_iff_lt_mul hbs, Nat.succ_mul]
  omega

theorem length_chunks_of_le (hbs : 0 < bs) {n : Nat} {l : List UInt8} (h : n * bs ≤ l.length) :
    (chunks bs n l).length = n := by
  rw [length_chunks hbs]
  apply Nat.min_eq_left
  rw [Nat.le_div_iff_mul_le hbs]
  omega

end

/-! ## `store_file_data` -/

section

variable {s s' : Builder} {n : Nat} {f : File}

theorem storeBlocks_eof (n : Nat) (s : Builder) :
    storeBlocks n ⟨[], true⟩ s = .ok (List.replicate n minusOne, ⟨[], true⟩) s := by
  induction n with
  | zero => rfl
  | succ n ih =>
    rw [storeBlocks, bind_get, if_pos rfl, bind_ok ih]
    rfl

theorem storeBlocks_nil (hs : 0 < s.blockSize) (n : Nat) (eof : Bool) :
    storeBlocks (n + 1) ⟨[], eof⟩ s =
      .ok (List.replicate (n + 1) minusOne, ⟨[], true⟩) s := by
  have hread : File.fread s.blockSize ⟨[], eof⟩ = ([], ⟨[], true⟩) := by
    simp [File.fread, hs]
  rw [storeBlocks, bind_get]
  by_cases he : eof = true
  · rw [if_pos he, he, bind_ok (storeBlocks_eof n s)]
    rfl
  · rw [if_neg he, hread]
    dsimp only
    rw [if_pos rfl, bind_ok (storeBlocks_eof n s)]
    rfl

theorem storeBlocks_succ (hs : 0 < s.blockSize) (n : Nat) {rest : List UInt8} (hr : rest ≠ []) :
    storeBlocks (n + 1) ⟨rest, false⟩ s = (do
      let index ← allocDiskBlock
      writeBlock index (fillBuffer s.blockSize zeros (rest.take s.blockSize))
      let r ← storeBlocks n ⟨rest.drop s.blockSize, rest.length < s.blockSize⟩
      return (index :: r.1, r.2) : Build _) s := by
  have hne : rest.take s.blockSize ≠ [] := by
    intro h
    rcases List.take_eq_nil_iff.mp h with h | h
    · omega
    · exact hr h
  rw [storeBlocks, bind_get, if_neg Bool.false_ne_true]
  unfold File.fread
  dsimp only
  rw [if_neg hne, Bool.false_or]

theorem storeBlocks_ends (hs : s.Ready) (hbs : 0 < s.blockSize) (n : Nat) (f : File) (hf : f.eof = true → f.rest = []) :
    Ends
      (fun r s' => ∃ data : List Nat, data.length ≤ n ∧
        r.1 = data ++ List.replicate (n - data.length) minusOne ∧
        r.2.rest = f.rest.drop (n * s.blockSize) ∧
        r.2.eof = (f.eof || f.rest.length < n * s.blockSize) ∧
        s.Grown s' data data ∧ data.map s'.block = chunks s.blockSize n f.rest)
      (fun e s' => e ≠ .endless ∧ s'.free = [] ∧ ∃ data : List Nat,
        s.Grown s' data data ∧ data.length < (chunks s.blockSize n f.rest).length)
      (storeBlocks n f s) := by
  obtain ⟨rest, eof⟩ := f
  dsimp only at hf ⊢
  induction n generalizing s rest eof with
  | zero =>
    refine ⟨[], Nat.le_refl _, rfl, ?_, ?_, .refl s, rfl⟩
    · rw [Nat.zero_mul, List.drop_zero]
    · simp
  | succ n ih =>
    by_cases hr : rest = []
    · subst hr
      have hpos : 0 < (n + 1) * s.blockSize := Nat.mul_pos (Nat.succ_pos n) hbs
      rw [storeBlocks_nil hbs]
      exact ⟨[], Nat.zero_le _, rfl, (List.drop_nil).symm, by simp [hpos], .refl s, rfl⟩
    have heof : eof = false := by
      by_contra he
      exact hr (hf (by simpa using he))
    subst heof
    have hchunks : chunks s.blockSize (n + 1) rest =
        fillBuffer s.blockSize zeros (rest.take s.blockSize) ::
          chunks s.blockSize n (rest.drop s.blockSize) := if_neg hr
    rw [storeBlocks_succ hbs n hr]
    refine (allocDiskBlock_ends hs).mono (fun _ _ h => h) ?_ |>.bind ?_
    · rintro e s' ⟨he, rfl, hfree⟩
      refine ⟨he, hfree, [], .refl s', ?_⟩
      rw [hchunks]
      exact Nat.succ_pos _
    intro i s₁ h₁
    have hs₁ := h₁.ready hs
    have hi : i < s₁.fsHeader.size := by
      rw [h₁.fsHeader]
      exact lt_of_mem_free (h₁.mem_free List.mem_cons_self)
    obtain ⟨s₂, hw, h₂, hblock⟩ := writeBlock_ends hs₁ hi
      (fillBuffer s.blockSize zeros (rest.take s.blockSize))
      (by rw [length_fillBuffer, h₁.blockSize])
    have h₁₂ : s.Grown s₂ [i] [i] := h₁.trans h₂
    rw [bind_ok hw]
    have hrest := ih (h₁₂.ready hs) (h₁₂.blockSize.symm ▸ hbs) (rest.drop s.blockSize) (rest.length < s.blockSize) (by
      intro h
      exact List.drop_eq_nil_of_le (Nat.le_of_lt (of_decide_eq_true h)))
    rw [h₁₂.blockSize] at hrest
    refine hrest.mono (fun _ _ h => h) ?_ |>.bind ?_
    · rintro e s₃ ⟨he, hfree, data, h₃, hlen⟩
      refine ⟨he, hfree, i :: data, h₁₂.trans h₃, ?_⟩
      rw [hchunks, List.length_cons, List.length_cons]
      omega
    · rintro r s₃ ⟨data, hlen, hentries, hr1, hr2, h₃, hdata⟩
      have hlast : s₃.block i = s₂.block i := h₃.block i (h₁₂.disjoint h₃ List.mem_cons_self)
      refine ⟨i :: data, Nat.succ_le_succ hlen, ?_, ?_, ?_, h₁₂.trans h₃, ?_⟩
      · rw [hentries, List.length_cons, Nat.succ_sub_succ]
        rfl
      · rw [hr1, List.drop_drop, Nat.succ_mul, Nat.add_comm]
      · rw [hr2, List.length_drop, Bool.false_or, ← Bool.decide_or]
        apply decide_eq_decide.mpr
        rw [Nat.succ_mul]
        omega
      · rw [hchunks, List.map_cons, hlast, hblock, hdata]

theorem length_flatMap_encode (n : Nat) (l : List Nat) :
    (l.flatMap (encode n)).length = n * l.length := by
  induction l with
  | nil => rfl
  | cons x l ih =>
    rw [List.flatMap_cons, List.length_append, ih, length_encode, List.length_cons, Nat.mul_succ,
      Nat.add_comm]

theorem isList_fillBuffer {bs next : Nat} {entries : List Nat} (junk : Nat → UInt8)
    (h : 8 * (entries.length + 1) ≤ bs) :
    IsList (fillBuffer bs junk ((entries ++ [next]).flatMap (encode 8))) entries next := by
  have hlen : ((entries ++ [next]).flatMap (encode 8)).length = 8 * (entries.length + 1) := by
    rw [length_flatMap_encode, List.length_append, List.length_singleton]
  unfold IsList
  rw [← hlen]
  exact take_fillBuffer (by rw [hlen]; exact h)

/-- A file with a full first list takes a list block and `listEntries` data blocks more than the
rest of it. -/
theorem fileBlocks_more {bs len : Nat} (hbs : 16 ≤ bs) (h : listEntries bs * bs ≤ len) :
    fileBlocks bs len = 1 + listEntries bs + fileBlocks bs (len - listEntries bs * bs) := by
  have hn : 0 < listEntries bs := by
    unfold listEntries
    omega
  have hm : 0 < listEntries bs * bs := Nat.mul_pos hn (by omega)
  have hdata : (len + bs - 1) / bs =
      listEntries bs + (len - listEntries bs * bs + bs - 1) / bs := by
    rw [show len + bs - 1 = len - listEntries bs * bs + bs - 1 + bs * listEntries bs by
      rw [Nat.mul_comm bs]
      omega, Nat.add_mul_div_left _ _ (by omega), Nat.add_comm]
  unfold fileBlocks
  rw [hdata, Nat.div_eq_sub_div hm h]
  omega

theorem fileBlocks_last {bs len : Nat} (h : len < listEntries bs * bs) :
    fileBlocks bs len = (len + bs - 1) / bs + 1 := by
  rw [fileBlocks, Nat.div_eq_of_lt h]

/-- **`store_file_data`** stores the file in blocks that it takes, or the disk is full. -/
theorem storeFileData_ends (hs : s.Ready) (h16 : 16 ≤ s.blockSize) (fuel : Nat) (content : List UInt8)
    (hfuel : content.length + 2 ≤ fuel) :
    Ends
      (fun list s' => ∃ u w : List Nat, s.Grown s' u w ∧ w.Perm u ∧
        u.length = fileBlocks s.blockSize content.length ∧
        FileData s.blockSize s'.block u list content)
      (fun e s' => e ≠ .endless ∧ s'.free = [] ∧ ∃ u w : List Nat, s.Grown s' u w ∧
        w.Subperm u ∧ u.length < fileBlocks s.blockSize content.length)
      (storeFileData fuel ⟨content, false⟩ s) := by
  induction fuel generalizing s content with
  | zero => omega
  | succ fuel ih =>
    have hbs : 0 < s.blockSize := by omega
    have hn : 0 < listEntries s.blockSize := by
      unfold listEntries
      omega
    have hroom : 8 * (listEntries s.blockSize + 1) ≤ s.blockSize := by
      unfold listEntries
      omega
    have hm : 0 < listEntries s.blockSize * s.blockSize := Nat.mul_pos hn hbs
    rw [storeFileData, if_neg Bool.false_ne_true, bind_get]
    refine (allocDiskBlock_ends hs).mono (fun _ _ h => h) ?_ |>.bind ?_
    · rintro e s' ⟨he, rfl, hfree⟩
      exact ⟨he, hfree, [], [], .refl s', List.Subperm.refl [], Nat.succ_pos _⟩
    intro list s₁ h₁
    have hs₁ := h₁.ready hs
    have hblocks := storeBlocks_ends hs₁ (h₁.blockSize.symm ▸ hbs) (listEntries s.blockSize) ⟨content, false⟩
      (fun h => absurd h Bool.false_ne_true)
    rw [h₁.blockSize] at hblocks
    refine hblocks.mono (fun _ _ h => h) ?_ |>.bind ?_
    · rintro e s₂ ⟨he, hfree, data, h₂, hlen⟩
      refine ⟨he, hfree, _, _, h₁.trans h₂, ?_, ?_⟩
      · exact (List.sublist_cons_self list data).subperm
      · dsimp only at hlen
        rw [length_chunks hbs] at hlen
        have hdata := Nat.lt_of_lt_of_le hlen (Nat.min_le_right _ _)
        rw [List.length_append, List.length_singleton, Nat.add_comm, fileBlocks, ← Nat.add_assoc]
        exact Nat.succ_lt_succ (Nat.lt_of_lt_of_le hdata (Nat.le_add_right _ _))
    rintro ⟨entries, f⟩ s₂ ⟨data, hlen, hentries, hrest, heof, h₂, hdata⟩
    dsimp only at hentries hrest heof hdata ⊢
    rw [Bool.false_or] at heof
    have h₁₂ : s.Grown s₂ (list :: data) data := h₁.trans h₂
    have hs₂ := h₁₂.ready hs
    have hlist : list < s.fsHeader.size := lt_of_mem_free (h₁₂.mem_free List.mem_cons_self)
    obtain ⟨rest, eof⟩ := f
    dsimp only at hrest heof
    subst hrest heof
    by_cases hlt : content.length < listEntries s.blockSize * s.blockSize
    · -- the last list: the end of the file was found
      obtain ⟨fuel, rfl⟩ := Nat.exists_eq_succ_of_ne_zero (by omega : fuel ≠ 0)
      have hnext : storeFileData (fuel + 1)
          ⟨content.drop (listEntries s.blockSize * s.blockSize), true⟩ s₂ = .ok minusOne s₂ := by
        rw [storeFileData, if_pos rfl]
        rfl
      have hcount : (data ++ List.replicate (listEntries s.blockSize - data.length)
          minusOne).length = listEntries s.blockSize := by
        rw [List.length_append, List.length_replicate]
        omega
      obtain ⟨s₃, hw, h₃, hb⟩ := writeBlock_ends hs₂ (i := list)
        (h₁₂.fsHeader ▸ hlist) (fillBuffer s.blockSize s.junk ((entries ++ [minusOne]).flatMap (encode 8)))
        (by rw [length_fillBuffer, h₁₂.blockSize])
      have hnd := h₁₂.nodup
      rw [decide_eq_true hlt, bind_ok hnext, bind_ok hw]
      refine ⟨list :: data, data ++ [list], ?_, List.perm_append_singleton list data, ?_, .last hlt ?_ ?_⟩
      · have := h₁₂.trans h₃
        rwa [List.append_nil] at this
      · rw [fileBlocks_last hlt, ← length_chunks_of_lt hbs hlt, ← hdata, List.length_cons,
          List.length_map]
      · rw [hb, hentries]
        exact isList_fillBuffer s.junk (by rw [hcount]; exact hroom)
      · rw [← hdata]
        apply List.map_congr_left
        intro i hi
        apply h₃.block
        intro hil
        exact (List.nodup_cons.mp hnd).1 (List.mem_singleton.mp hil ▸ hi)
    · have hle : listEntries s.blockSize * s.blockSize ≤ content.length := Nat.not_lt.mp hlt
      have hrec := ih hs₂ (h₁₂.blockSize.symm ▸ h16) (content.drop (listEntries s.blockSize * s.blockSize)) (by
        rw [List.length_drop]
        omega)
      have hfull : data.length = listEntries s.blockSize := by
        rw [← length_chunks_of_le hbs hle, ← hdata, List.length_map]
      rw [h₁₂.blockSize, List.length_drop] at hrec
      rw [decide_eq_false hlt, fileBlocks_more h16 hle]
      refine hrec.mono (fun _ _ h => h) ?_ |>.bind ?_
      · rintro e s₃ ⟨he, hfree, u, w, h₃, hsub, hlen₃⟩
        refine ⟨he, hfree, _, _, h₁₂.trans h₃, ?_, ?_⟩
        · exact (List.sublist_cons_self list data).subperm.append hsub
        · rw [List.length_append, List.length_cons]
          omega
      rintro next s₃ ⟨u, w, h₃, hperm, hlen₃, htail⟩
      have h₁₃ := h₁₂.trans h₃
      have hnd := h₁₃.nodup
      rw [List.cons_append, List.nodup_cons, List.mem_append, not_or] at hnd
      obtain ⟨s₄, hw, h₄, hb⟩ := writeBlock_ends (h₁₃.ready hs) (i := list)
        (h₁₃.fsHeader ▸ hlist) (fillBuffer s.blockSize s.junk ((entries ++ [next]).flatMap (encode 8)))
        (by rw [length_fillBuffer, h₁₃.blockSize])
      have hother : ∀ i, i ≠ list → s₄.block i = s₃.block i := by
        intro i hi
        exact h₄.block i (fun h => hi (List.mem_singleton.mp h))
      have htail' := htail.congr fun i hi => hother i (fun h => hnd.1.2 (h ▸ hi))
      rw [bind_ok hw]
      refine ⟨list :: (data ++ u), data ++ w ++ [list], ?_, ?_, ?_, .more hle ?_ ?_ htail'⟩
      · have := h₁₃.trans h₄
        rwa [List.append_nil] at this
      · exact (List.perm_append_singleton _ _).trans ((hperm.append_left data).cons list)
      · rw [List.length_cons, List.length_append]
        omega
      · rw [hb, hentries, hfull, Nat.sub_self, List.replicate_zero, List.append_nil]
        exact isList_fillBuffer s.junk (by rw [hfull]; exact hroom)
      · rw [← hdata]
        apply List.map_congr_left
        intro i hi
        rw [hother i (fun h => hnd.1.1 (h ▸ hi))]
        apply h₃.block
        intro hiw
        exact h₁₂.disjoint h₃ (List.mem_cons_of_mem _ hi) (hperm.subset hiw)

end

end C4os
