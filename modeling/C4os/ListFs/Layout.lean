import C4os.ListFs.Store

/-!
# The layout of an image (`make_listfs.c`)

* `bootLoop_spec`: the blocks that the boot loader is stored in; `markBlocks_spec`: the blocks that
  `init_disk_map` marks.
* `layout`: the state before the first `alloc_disk_block`.
* `LayoutSound`: the map is apart from the boot loader, has a bit for every block, and has all of
  these blocks marked.
* **`layoutSound_iff`**: for which options it is sound.
-/

namespace C4os

open Blocks Outcome

/-! ## The boot loader -/

section

variable {s : Builder} {i n : Nat}

/-- **The loop of `init_listfs_header`** reads until a read hits the end of the file. -/
theorem bootLoop_spec (hb : 0 < s.blockSize) (fuel i : Nat) (buffer rest : List UInt8)
    (hfuel : rest.length / s.blockSize + 1 < fuel) :
    ∃ s', bootLoop fuel i buffer ⟨rest, false⟩ s = .ok ⟨⟩ s' ∧ s'.blockSize = s.blockSize ∧
      s'.allocated = s.allocated ∧
      s'.bootLoaderExtraBlocks = s.bootLoaderExtraBlocks + (rest.length / s.blockSize + 1) := by
  induction fuel generalizing s i buffer rest with
  | zero => exact absurd hfuel (Nat.not_lt_zero _)
  | succ fuel ih =>
    let data := rest.take s.blockSize
    let buffer' := fillBuffer s.blockSize (fun k => buffer[k]?.getD 0) data
    obtain ⟨s₁, hs₁⟩ : ∃ s₁, s₁ = { s.write i (if s.blockSize * i % 2 ^ 64 < 2 ^ 63 then
        s.blockSize * i % 2 ^ 64 else s.position) buffer' with
      bootLoaderExtraBlocks := s.bootLoaderExtraBlocks + 1 } := ⟨_, rfl⟩
    have hrun : bootLoop (fuel + 1) i buffer ⟨rest, false⟩ s =
        bootLoop fuel (i + 1) buffer' ⟨rest.drop s.blockSize, rest.length < s.blockSize⟩ s₁ := by
      rw [bootLoop, if_neg Bool.false_ne_true, bind_get, hs₁]
      unfold File.fread
      dsimp only
      rw [bind_ok (writeBlock_eq i _ s), Bool.false_or]
      rfl
    have hbs : s₁.blockSize = s.blockSize := by rw [hs₁]; rfl
    have halloc : s₁.allocated = s.allocated := by rw [hs₁]; rfl
    have hextra : s₁.bootLoaderExtraBlocks = s.bootLoaderExtraBlocks + 1 := by rw [hs₁]
    rw [hrun]
    by_cases hshort : rest.length < s.blockSize
    · -- the read hit the end of the file
      rw [Nat.div_eq_of_lt hshort] at hfuel
      obtain ⟨fuel, rfl⟩ := Nat.exists_eq_succ_of_ne_zero (by omega : fuel ≠ 0)
      rw [decide_eq_true hshort, bootLoop, if_pos rfl]
      refine ⟨s₁, rfl, hbs, halloc, ?_⟩
      rw [hextra, Nat.div_eq_of_lt hshort]
    · rw [decide_eq_false hshort]
      have hdiv : rest.length / s.blockSize = (rest.length - s.blockSize) / s.blockSize + 1 :=
        Nat.div_eq_sub_div hb (Nat.not_lt.mp hshort)
      obtain ⟨s', hloop, hbs', halloc', hextra'⟩ := @ih s₁ (by rwa [hbs]) (i + 1) buffer'
        (rest.drop s.blockSize) (by rw [hbs, List.length_drop]; omega)
      refine ⟨s', hloop, hbs'.trans hbs, halloc'.trans halloc, ?_⟩
      rw [hextra', hextra, hbs, List.length_drop, hdiv]
      omega

/-- The number of bytes of the boot loader. -/
def Options.bootBytes (o : Options) : Nat := (o.bootLoader.getD []).length

/-- The header that `init_listfs_header` stores. -/
def Options.header (o : Options) (bs : Nat) : ListfsHeader :=
  ⟨LISTFS_MAGIC, LISTFS_VERSION, 0, 0, o.blockCount.toNat, 0, 0, minusOne, o.uid, bs,
    fillBuffer bs zeros ((o.bootLoader.getD []).take bs)⟩

theorem length_header_block (o : Options) (bs : Nat) : (o.header bs).block.length = bs :=
  length_fillBuffer _ _ _

theorem initListfsHeader_eq (o : Options) (s : Builder) :
    initListfsHeader o s =
      ((if o.bootLoader.isSome then
        bootLoop (o.bootBytes + 2) 1 (fillBuffer s.blockSize zeros [])
          ⟨(o.bootLoader.getD []).drop s.blockSize, o.bootBytes < s.blockSize⟩
        else pure ⟨⟩ : Build PUnit) >>= fun _ =>
      if s.blockSize < listfsHeaderSize then throw .overrun
      else modify fun t => { t with
        fsHeader := ⟨LISTFS_MAGIC, LISTFS_VERSION, 0, 0, o.blockCount.toNat, 0, 0, minusOne, o.uid,
          t.blockSize, fillBuffer t.blockSize zeros ((o.bootLoader.getD []).take s.blockSize)⟩ }) s := by
  unfold initListfsHeader
  rw [bind_get]
  unfold File.fread
  dsimp only
  rw [Bool.false_or]
  by_cases hboot : o.bootLoader.isSome = true
  · rw [if_pos hboot, if_pos hboot]
    by_cases hb : s.blockSize < listfsHeaderSize
    · rw [if_pos hb, if_pos hb]
      rfl
    · rw [if_neg hb, if_neg hb]
      rfl
  · rw [if_neg hboot, if_neg hboot]
    by_cases hb : s.blockSize < listfsHeaderSize
    · rw [if_pos hb, if_pos hb]
      rfl
    · rw [if_neg hb, if_neg hb]
      rfl

theorem bootRest_spec (o : Options) (hpos : 0 < s.blockSize) :
    ∃ s' : Builder,
      (if o.bootLoader.isSome then
        bootLoop (o.bootBytes + 2) 1 (fillBuffer s.blockSize zeros [])
          ⟨(o.bootLoader.getD []).drop s.blockSize, o.bootBytes < s.blockSize⟩
        else pure ⟨⟩ : Build PUnit) s = .ok ⟨⟩ s' ∧ s'.blockSize = s.blockSize ∧
      s'.allocated = s.allocated ∧
      s'.bootLoaderExtraBlocks = s.bootLoaderExtraBlocks + o.bootBytes / s.blockSize := by
  by_cases hshort : o.bootBytes < s.blockSize
  · refine ⟨s, ?_, rfl, rfl, ?_⟩
    · rw [decide_eq_true hshort, bootLoop, if_pos rfl, ite_self]
      rfl
    · rw [Nat.div_eq_of_lt hshort]
      rfl
  · have hle : s.blockSize ≤ o.bootBytes := Nat.not_lt.mp hshort
    have hdiv : o.bootBytes / s.blockSize = (o.bootBytes - s.blockSize) / s.blockSize + 1 :=
      Nat.div_eq_sub_div hpos hle
    have hdrop : ((o.bootLoader.getD []).drop s.blockSize).length = o.bootBytes - s.blockSize :=
      List.length_drop
    have hquot : o.bootBytes / s.blockSize ≤ o.bootBytes := Nat.div_le_self _ _
    have hboot : o.bootLoader.isSome = true := by
      by_contra hnone
      rw [Option.not_isSome_iff_eq_none] at hnone
      unfold Options.bootBytes at hle
      rw [hnone, Option.getD_none, List.length_nil] at hle
      omega
    obtain ⟨s', hloop, hbs, halloc, hextra⟩ := bootLoop_spec hpos (o.bootBytes + 2) 1
      (fillBuffer s.blockSize zeros []) ((o.bootLoader.getD []).drop s.blockSize)
      (by rw [hdrop]; omega)
    rw [hdrop, ← hdiv] at hextra
    rw [decide_eq_false hshort, if_pos hboot]
    exact ⟨s', hloop, hbs, halloc, hextra⟩

/-- **`init_listfs_header`** counts the full blocks of the boot loader. -/
theorem initListfsHeader_spec (o : Options) (hb : listfsHeaderSize ≤ s.blockSize) :
    ∃ s', initListfsHeader o s = .ok ⟨⟩ s' ∧ s'.blockSize = s.blockSize ∧
      s'.allocated = s.allocated ∧ s'.fsHeader = o.header s.blockSize ∧
      s'.bootLoaderExtraBlocks = s.bootLoaderExtraBlocks + o.bootBytes / s.blockSize := by
  have hpos : 0 < s.blockSize := Nat.lt_of_lt_of_le (by decide) hb
  obtain ⟨s₁, hloop, hbs, halloc, hextra⟩ := bootRest_spec o hpos
  rw [initListfsHeader_eq, bind_ok hloop, if_neg (Nat.not_lt.mpr hb)]
  refine ⟨_, rfl, hbs, halloc, ?_, hextra⟩
  show ListfsHeader.mk _ _ _ _ _ _ _ _ _ s₁.blockSize (fillBuffer s₁.blockSize _ _) = _
  rw [hbs]
  rfl

theorem initListfsHeader_overrun (o : Options) (hpos : 0 < s.blockSize)
    (hb : s.blockSize < listfsHeaderSize) :
    ∃ s', initListfsHeader o s = .error .overrun s' := by
  obtain ⟨s₁, hloop, -⟩ := bootRest_spec o hpos
  rw [initListfsHeader_eq, bind_ok hloop, if_pos hb]
  exact ⟨s₁, rfl⟩

/-! ## The map -/

/-- **The loop of `init_disk_map`** marks its blocks. -/
theorem markBlocks_spec (l : List Nat) (hl : ∀ i ∈ l, i < 8 * s.diskMap.length) :
    ∃ map, l.forM getDiskBlock s = .ok ⟨⟩ { s with diskMap := map } ∧
      map.length = s.diskMap.length ∧
      ∀ j, mapBit map j = if j ∈ l then some true else mapBit s.diskMap j := by
  induction l generalizing s with
  | nil => exact ⟨s.diskMap, rfl, rfl, fun j => rfl⟩
  | cons i l ih =>
    have hi := hl i List.mem_cons_self
    obtain ⟨map, hrun, hlen, hbit⟩ := @ih { s with diskMap := setBit s.diskMap i } (by
      intro j hj
      rw [length_setBit]
      exact hl j (List.mem_cons_of_mem i hj))
    refine ⟨map, ?_, hlen.trans (length_setBit _ _), ?_⟩
    · show (getDiskBlock i >>= fun _ => l.forM getDiskBlock) s = _
      rw [bind_ok (getDiskBlock_eq hi), hrun]
    · intro j
      rw [hbit, mapBit_setBit hi]
      by_cases hj : j ∈ l
      · rw [if_pos hj, if_pos (List.mem_cons_of_mem i hj)]
      · rw [if_neg hj]
        exact if_congr (by rw [List.mem_cons, or_iff_left hj]) rfl rfl

theorem markBlocks_overrun (l : List Nat) (hl : ∃ i ∈ l, 8 * s.diskMap.length ≤ i) :
    ∃ s', l.forM getDiskBlock s = .error .overrun s' := by
  induction l generalizing s with
  | nil =>
    obtain ⟨i, hi, -⟩ := hl
    cases hi
  | cons i l ih =>
    show ∃ s', (getDiskBlock i >>= fun _ => l.forM getDiskBlock) s = _
    by_cases hi : i < 8 * s.diskMap.length
    · rw [bind_ok (getDiskBlock_eq hi)]
      apply ih
      obtain ⟨j, hj, hlt⟩ := hl
      rcases List.mem_cons.mp hj with rfl | hj
      · omega
      · exact ⟨j, hj, by rw [length_setBit]; exact hlt⟩
    · rw [bind_error (getDiskBlock_overrun (Nat.not_lt.mp hi))]
      exact ⟨s, rfl⟩

theorem roundUp_div {m bs : Nat} (hbs : 0 < bs) :
    (m + bs - 1) / bs = if m % bs = 0 then m / bs else m / bs + 1 := by
  have hm := Nat.div_add_mod m bs
  have hlt := Nat.mod_lt m hbs
  by_cases hmod : m % bs = 0
  · have hsplit : m + bs - 1 = bs - 1 + bs * (m / bs) := by omega
    have hsmall : (bs - 1) / bs = 0 := Nat.div_eq_of_lt (Nat.sub_one_lt_of_lt hbs)
    rw [if_pos hmod, hsplit, Nat.add_mul_div_left _ _ hbs, hsmall, Nat.zero_add]
  · have hsplit : m + bs - 1 = m % bs - 1 + bs * (m / bs + 1) := by
      rw [Nat.mul_succ]
      omega
    have hsmall : (m % bs - 1) / bs = 0 := Nat.div_eq_of_lt (by omega)
    rw [if_neg hmod, hsplit, Nat.add_mul_div_left _ _ hbs, hsmall, Nat.zero_add]

theorem mapBlocks_eq {n bs : Nat} (hbs : 0 < bs) : mapBlocks n bs = (n / 8 + bs - 1) / bs := by
  rw [roundUp_div hbs]
  unfold mapBlocks
  dsimp only
  by_cases hmod : n / 8 % bs = 0
  · rw [if_pos hmod, if_neg (not_not_intro hmod)]
  · rw [if_neg hmod, if_pos hmod, Nat.add_div_right _ hbs]

theorem mapBlocks_covers {n bs : Nat} (hbs : 0 < bs) :
    n ≤ mapBlocks n bs * bs * 8 ↔ 8 ∣ n ∨ ¬ bs ∣ n / 8 := by
  have hn := Nat.div_add_mod n 8
  have hlt8 := Nat.mod_lt n (by decide : 0 < 8)
  have hm := Nat.div_add_mod (n / 8) bs
  have hlt := Nat.mod_lt (n / 8) hbs
  rw [mapBlocks_eq hbs, roundUp_div hbs, Nat.dvd_iff_mod_eq_zero, Nat.dvd_iff_mod_eq_zero]
  by_cases hmod : n / 8 % bs = 0
  · have hexact : n / 8 / bs * bs = n / 8 := by
      rw [Nat.mul_comm]
      omega
    rw [if_pos hmod, hexact]
    omega
  · have hmore : n / 8 < (n / 8 / bs + 1) * bs := by
      rw [Nat.mul_comm, Nat.mul_succ]
      omega
    rw [if_neg hmod]
    omega

/-- **`init_disk_map`** puts the map behind the full blocks of the boot loader and marks the blocks
up to its end. -/
theorem initDiskMap_spec (o : Options)
    (h : s.bootLoaderExtraBlocks + mapBlocks o.blockCount.toNat s.blockSize ≤
      8 * (s.blockSize * mapBlocks o.blockCount.toNat s.blockSize)) :
    ∃ s', initDiskMap o s = .ok ⟨⟩ s' ∧ s'.blockSize = s.blockSize ∧ s'.allocated = s.allocated ∧
      s'.fsHeader = { s.fsHeader with
        mapBase := s.bootLoaderExtraBlocks, mapSize := mapBlocks o.blockCount.toNat s.blockSize } ∧
      s'.diskMap.length = s.blockSize * mapBlocks o.blockCount.toNat s.blockSize ∧
      ∀ j < s.bootLoaderExtraBlocks + mapBlocks o.blockCount.toNat s.blockSize,
        mapBit s'.diskMap j = some true := by
  obtain ⟨s₁, hs₁⟩ : ∃ s₁, s₁ = { s with
      fsHeader := { s.fsHeader with
        mapBase := s.bootLoaderExtraBlocks, mapSize := mapBlocks o.blockCount.toNat s.blockSize }
      diskMap := List.replicate (s.blockSize * mapBlocks o.blockCount.toNat s.blockSize) 0 } :=
    ⟨_, rfl⟩
  have hlen : s₁.diskMap.length = s.blockSize * mapBlocks o.blockCount.toNat s.blockSize := by
    rw [hs₁]
    exact List.length_replicate
  obtain ⟨map, hrun, hmap, hbit⟩ := @markBlocks_spec s₁
    (List.range (s.bootLoaderExtraBlocks + mapBlocks o.blockCount.toNat s.blockSize)) (by
      intro i hi
      rw [hlen]
      exact Nat.lt_of_lt_of_le (List.mem_range.mp hi) h)
  refine ⟨_, (?_ : initDiskMap o s = _).trans hrun, ?_, ?_, ?_, hmap.trans hlen, ?_⟩
  · rw [hs₁]
    rfl
  · rw [hs₁]
  · rw [hs₁]
  · rw [hs₁]
  · intro j hj
    exact (hbit j).trans (if_pos (List.mem_range.mpr hj))

theorem initDiskMap_overrun (o : Options)
    (h : 8 * (s.blockSize * mapBlocks o.blockCount.toNat s.blockSize) <
      s.bootLoaderExtraBlocks + mapBlocks o.blockCount.toNat s.blockSize) :
    ∃ s', initDiskMap o s = .error .overrun s' := by
  apply @markBlocks_overrun { s with
      fsHeader := { s.fsHeader with
        mapBase := s.bootLoaderExtraBlocks, mapSize := mapBlocks o.blockCount.toNat s.blockSize }
      diskMap := List.replicate (s.blockSize * mapBlocks o.blockCount.toNat s.blockSize) 0 }
    (List.range (s.bootLoaderExtraBlocks + mapBlocks o.blockCount.toNat s.blockSize))
  refine ⟨_, List.mem_range.mpr h, ?_⟩
  rw [List.length_replicate]

end

/-! ## Blocks that are never taken -/

/-- From `s` to `s'` the run took blocks that were free, and no block has become free. -/
def Builder.Took (s s' : Builder) : Prop :=
  (∃ u, s'.allocated = s.allocated ++ u ∧ ∀ i ∈ u, freeBit s.diskMap i = true) ∧
    ∀ i, freeBit s'.diskMap i = true → freeBit s.diskMap i = true

section

variable {s s' s'' : Builder}

theorem Builder.Took.refl (s : Builder) : s.Took s :=
  ⟨⟨[], (List.append_nil _).symm, fun _ hi => nomatch hi⟩, fun _ h => h⟩

theorem Builder.Took.trans (s s' s'' : Builder) (h : s.Took s') (h' : s'.Took s'') :
    s.Took s'' := by
  obtain ⟨⟨u, hu, hfree⟩, hkeep⟩ := h
  obtain ⟨⟨u', hu', hfree'⟩, hkeep'⟩ := h'
  refine ⟨⟨u ++ u', by rw [hu', hu, List.append_assoc], ?_⟩, fun i hi => hkeep i (hkeep' i hi)⟩
  intro i hi
  rcases List.mem_append.mp hi with hi | hi
  · exact hfree i hi
  · exact hkeep i (hfree' i hi)

theorem allocLoop_free (fuel index : Nat) (s : Builder) :
    Ends (fun i s' => s' = s ∧ freeBit s.diskMap i = true) (fun _ s' => s' = s)
      (allocLoop fuel index s) := by
  induction fuel generalizing index with
  | zero => rfl
  | succ fuel ih =>
    rw [allocLoop_succ]
    cases hbit : mapBit s.diskMap index with
    | none => rfl
    | some b =>
      cases b with
      | false => exact ⟨rfl, decide_eq_true hbit⟩
      | true =>
        dsimp only
        by_cases hend : index + 1 ≥ s.fsHeader.size
        · rw [if_pos hend]
          rfl
        · rw [if_neg hend]
          exact ih (index + 1)

/-- **`alloc_disk_block`** takes a free block, whatever the state. -/
theorem allocDiskBlock_took : Relates Builder.Took allocDiskBlock := by
  intro s
  unfold allocDiskBlock
  rw [bind_get]
  refine (allocLoop_free (s.fsHeader.size + 1) 0 s).mono (fun _ _ h => h) ?_ |>.bind ?_
  · rintro - s' rfl
    exact .refl s'
  · rintro i s' ⟨rfl, hi⟩
    have hlt := lt_of_freeBit hi
    rw [bind_ok (getDiskBlock_eq hlt)]
    refine ⟨⟨[i], rfl, fun j hj => List.mem_singleton.mp hj ▸ hi⟩, ?_⟩
    intro j hj
    have hj' : mapBit (setBit s'.diskMap i) j = some false := of_decide_eq_true hj
    rw [mapBit_setBit hlt] at hj'
    apply decide_eq_true
    by_cases hji : j = i
    · rw [if_pos hji] at hj'
      cases hj'
    · rwa [if_neg hji] at hj'

theorem took_pure {α : Type} (a : α) : Relates Builder.Took (pure a : Build α) := .pure .refl a

theorem took_bind {α β : Type} {x : Build α} {f : α → Build β} (hx : Relates Builder.Took x)
    (hf : ∀ a, Relates Builder.Took (f a)) : Relates Builder.Took (x >>= f) := .bind .trans hx hf

theorem took_get : Relates Builder.Took (get : Build Builder) := .get .refl

theorem writeBlock_took (i : Nat) (data : List UInt8) : Relates Builder.Took (writeBlock i data) :=
  fun _ => ⟨⟨[], (List.append_nil _).symm, fun _ hi => nomatch hi⟩, fun _ h => h⟩

theorem storeBlocks_took (n : Nat) (f : File) : Relates Builder.Took (storeBlocks n f) := by
  induction n generalizing f with
  | zero => exact took_pure _
  | succ n ih =>
    unfold storeBlocks
    apply took_bind took_get
    intro s
    by_cases heof : f.eof = true
    · rw [if_pos heof]
      exact took_bind (ih f) fun _ => took_pure _
    rw [if_neg heof]
    dsimp only
    by_cases hdata : (f.fread s.blockSize).1 = []
    · rw [if_pos hdata]
      exact took_bind (ih _) fun _ => took_pure _
    · rw [if_neg hdata]
      apply took_bind allocDiskBlock_took
      intro index
      apply took_bind (writeBlock_took _ _)
      intro _
      exact took_bind (ih _) fun _ => took_pure _

theorem storeFileData_took (fuel : Nat) (f : File) : Relates Builder.Took (storeFileData fuel f) := by
  induction fuel generalizing f with
  | zero => exact .throw .refl _
  | succ fuel ih =>
    unfold storeFileData
    by_cases heof : f.eof = true
    · rw [if_pos heof]
      exact took_pure _
    · rw [if_neg heof]
      apply took_bind took_get
      intro _
      apply took_bind allocDiskBlock_took
      intro list
      apply took_bind (storeBlocks_took _ f)
      rintro ⟨entries, f'⟩
      apply took_bind (ih f')
      intro next
      exact took_bind (writeBlock_took _ _) fun _ => took_pure _

theorem writeHeader_took (prev : Nat) (header : Option FileHeader) :
    Relates Builder.Took (writeHeader prev header) :=
  took_bind took_get fun _ => writeBlock_took _ _

theorem newEntry_took (parent : Nat) (dirName name : List UInt8) (stat : Stat) (prev : Nat)
    (header : Option FileHeader) (first : Nat) :
    Relates Builder.Took (newEntry parent dirName name stat prev header first) := by
  unfold newEntry
  apply took_bind allocDiskBlock_took
  intro cur
  apply took_bind
  · unfold linkHeader
    by_cases hprev : prev ≠ minusOne
    · rw [if_pos hprev]
      exact writeHeader_took _ _
    · rw [if_neg hprev]
      exact took_pure _
  intro _
  apply took_bind
  · unfold checkBuffers
    apply took_bind took_get
    intro s
    by_cases hroom : s.blockSize < fileHeaderSize ∨ (filePath dirName name).length + 1 > 260
    · rw [if_pos hroom]
      exact .throw .refl _
    · rw [if_neg hroom]
      exact took_pure _
  · exact fun _ => took_pure _

theorem storeLeaf_took (header : FileHeader) (kind : Leaf) :
    Relates Builder.Took (storeLeaf header kind) := by
  cases kind with
  | file content => exact took_bind (storeFileData_took _ _) fun _ => took_pure _
  | closedFile => exact took_pure _
  | closedDir => exact took_pure _
  | special => exact took_pure _

/-- **`process_dir`** takes blocks that the map has free, in every run. -/
theorem processEntries_took (l : Listing) (parent : Nat) (dirName : List UInt8) (prev : Nat)
    (header : Option FileHeader) (first : Nat) :
    Relates Builder.Took (processEntries parent dirName l prev header first) := by
  induction l generalizing parent dirName prev header first with
  | nil => exact took_bind (writeHeader_took _ _) fun _ => took_pure _
  | leaf name stat kind rest ih =>
    unfold processEntries
    by_cases hdot : isDot name = true
    · rw [if_pos hdot]
      exact ih _ _ _ _ _
    · rw [if_neg hdot]
      apply took_bind (newEntry_took _ _ _ _ _ _ _)
      rintro ⟨cur, new, first'⟩
      exact took_bind (storeLeaf_took _ _) fun _ => ih _ _ _ _ _
  | dir name stat entries rest ihe ih =>
    unfold processEntries
    by_cases hdot : isDot name = true
    · rw [if_pos hdot]
      exact ih _ _ _ _ _
    · rw [if_neg hdot]
      apply took_bind (newEntry_took _ _ _ _ _ _ _)
      rintro ⟨cur, new, first'⟩
      exact took_bind (ihe _ _ _ _ _) fun _ => ih _ _ _ _ _

end

/-! ## The layout -/

/-- The state before the first `alloc_disk_block`, if the program gets there. -/
def layout (o : Options) : Option Builder :=
  match openOutputFile o with
  | .error _ => none
  | .ok s =>
    match (do initListfsHeader o; initDiskMap o : Build PUnit) s with
    | .ok _ s' => some s'
    | .error _ _ => none

/-- The block holds the header or bytes of the boot loader. -/
def Options.HoldsBoot (o : Options) (i : Nat) : Prop :=
  i = 0 ∨ o.blockSize.toNat * i < o.bootBytes

/-- The block is a block of the map. -/
def Builder.HoldsMap (s : Builder) (i : Nat) : Prop :=
  s.fsHeader.mapBase ≤ i ∧ i < s.fsHeader.mapBase + s.fsHeader.mapSize

/-- The layout `s` of the image is sound. -/
structure LayoutSound (o : Options) (s : Builder) : Prop where
  apart : ∀ i, o.HoldsBoot i → ¬ s.HoldsMap i
  bits : o.blockCount.toNat ≤ s.fsHeader.mapSize * s.blockSize * 8
  marked : ∀ i, o.HoldsBoot i ∨ s.HoldsMap i → mapBit s.diskMap i = some true
  /-- No run of `process_dir` takes these blocks. -/
  unused : ∀ dirName l, Ends
    (fun _ s' => ∀ i ∈ s'.allocated, ¬ (o.HoldsBoot i ∨ s.HoldsMap i))
    (fun _ s' => ∀ i ∈ s'.allocated, ¬ (o.HoldsBoot i ∨ s.HoldsMap i))
    (processDir minusOne dirName l s)

/-- The bytes of the map, before they are rounded up to blocks. -/
def Options.mapBytes (o : Options) : Nat := o.blockCount.toNat / 8

/-- Options whose layout is sound. -/
structure LayoutFits (o : Options) : Prop where
  /-- A block has room for the header. -/
  header : listfsHeaderSize ≤ o.blockSize.toNat
  /-- There is a boot loader, of whole blocks. -/
  boot : 0 < o.bootBytes ∧ o.blockSize.toNat ∣ o.bootBytes
  /-- The map has bits for the boot loader and for itself. -/
  room : o.bootBytes / o.blockSize.toNat + (o.mapBytes + o.blockSize.toNat - 1) / o.blockSize.toNat ≤
    8 * (o.blockSize.toNat * ((o.mapBytes + o.blockSize.toNat - 1) / o.blockSize.toNat))
  /-- The bytes of the map are exact, or are rounded up. -/
  bits : 8 ∣ o.blockCount.toNat ∨ ¬ o.blockSize.toNat ∣ o.mapBytes

section

variable {o : Options} {s : Builder}

/-- The map is behind the full blocks of the boot loader, and the blocks up to its end are marked. -/
structure LaidOut (o : Options) (s : Builder) : Prop where
  blockSize : s.blockSize = o.blockSize.toNat
  allocated : s.allocated = []
  header : s.fsHeader = { o.header o.blockSize.toNat with
    mapBase := o.bootBytes / o.blockSize.toNat
    mapSize := mapBlocks o.blockCount.toNat o.blockSize.toNat }
  mapLength : s.diskMap.length = o.blockSize.toNat * mapBlocks o.blockCount.toNat o.blockSize.toNat
  marked : ∀ j < o.bootBytes / o.blockSize.toNat + mapBlocks o.blockCount.toNat o.blockSize.toNat,
    mapBit s.diskMap j = some true

theorem layout_some (hheader : listfsHeaderSize ≤ o.blockSize.toNat)
    (hroom : o.bootBytes / o.blockSize.toNat + mapBlocks o.blockCount.toNat o.blockSize.toNat ≤
      8 * (o.blockSize.toNat * mapBlocks o.blockCount.toNat o.blockSize.toNat)) :
    ∃ s, layout o = some s ∧ LaidOut o s := by
  have hpos : ¬ o.blockSize ≤ 0 := by
    unfold listfsHeaderSize at hheader
    omega
  unfold layout openOutputFile
  rw [if_neg hpos]
  dsimp only
  generalize hs₀ : Builder.mk _ _ _ _ _ _ _ _ _ = s₀
  have hbs₀ : s₀.blockSize = o.blockSize.toNat := by rw [← hs₀]
  have hextra₀ : s₀.bootLoaderExtraBlocks = 0 := by rw [← hs₀]
  have halloc₀ : s₀.allocated = [] := by rw [← hs₀]
  obtain ⟨s₁, hrun₁, hbs₁, halloc₁, hhead₁, hextra₁⟩ := @initListfsHeader_spec s₀ o (hbs₀ ▸ hheader)
  rw [hextra₀, Nat.zero_add, hbs₀] at hextra₁
  rw [hbs₀] at hbs₁ hhead₁
  obtain ⟨s₂, hrun₂, hbs₂, halloc₂, hhead₂, hlen, hbit⟩ := @initDiskMap_spec s₁ o
    (by rw [hextra₁, hbs₁]; exact hroom)
  rw [hhead₁, hextra₁, hbs₁] at hhead₂
  rw [hextra₁] at hbit
  rw [hbs₁] at hlen hbit hbs₂
  rw [bind_ok hrun₁, hrun₂]
  exact ⟨s₂, rfl, hbs₂, halloc₂.trans (halloc₁.trans halloc₀), hhead₂, hlen, hbit⟩

theorem layout_none (h : ¬ (listfsHeaderSize ≤ o.blockSize.toNat ∧
    o.bootBytes / o.blockSize.toNat + mapBlocks o.blockCount.toNat o.blockSize.toNat ≤
      8 * (o.blockSize.toNat * mapBlocks o.blockCount.toNat o.blockSize.toNat))) :
    layout o = none := by
  unfold layout openOutputFile
  by_cases hpos : o.blockSize ≤ 0
  · rw [if_pos hpos]
  rw [if_neg hpos]
  dsimp only
  generalize hs₀ : Builder.mk _ _ _ _ _ _ _ _ _ = s₀
  have hbs₀ : s₀.blockSize = o.blockSize.toNat := by rw [← hs₀]
  have hextra₀ : s₀.bootLoaderExtraBlocks = 0 := by rw [← hs₀]
  by_cases hheader : listfsHeaderSize ≤ o.blockSize.toNat
  · obtain ⟨s₁, hrun₁, hbs₁, -, -, hextra₁⟩ := @initListfsHeader_spec s₀ o (hbs₀ ▸ hheader)
    rw [hextra₀, Nat.zero_add, hbs₀] at hextra₁
    rw [hbs₀] at hbs₁
    obtain ⟨s₂, hrun₂⟩ := @initDiskMap_overrun s₁ o (by
      rw [hextra₁, hbs₁]
      exact Nat.not_le.mp fun hroom => h ⟨hheader, hroom⟩)
    rw [bind_ok hrun₁, hrun₂]
  · obtain ⟨s₁, hrun₁⟩ := @initListfsHeader_overrun s₀ o (by rw [hbs₀]; omega)
      (by rw [hbs₀]; exact Nat.not_le.mp hheader)
    rw [bind_error hrun₁]

theorem layout_eq_some (h : layout o = some s) : listfsHeaderSize ≤ o.blockSize.toNat ∧
    o.bootBytes / o.blockSize.toNat + mapBlocks o.blockCount.toNat o.blockSize.toNat ≤
      8 * (o.blockSize.toNat * mapBlocks o.blockCount.toNat o.blockSize.toNat) ∧ LaidOut o s := by
  have hfits : listfsHeaderSize ≤ o.blockSize.toNat ∧
      o.bootBytes / o.blockSize.toNat + mapBlocks o.blockCount.toNat o.blockSize.toNat ≤
        8 * (o.blockSize.toNat * mapBlocks o.blockCount.toNat o.blockSize.toNat) := by
    by_contra hnone
    rw [layout_none hnone] at h
    cases h
  obtain ⟨s', hs', hlaid⟩ := layout_some hfits.1 hfits.2
  rw [h] at hs'
  cases hs'
  exact ⟨hfits.1, hfits.2, hlaid⟩

theorem holdsBoot_lt_iff {bs n : Nat} (hbs : 0 < bs) :
    (∀ i, i = 0 ∨ bs * i < n → i < n / bs) ↔ 0 < n ∧ bs ∣ n := by
  constructor
  · intro h
    have hzero : 0 < n / bs := h 0 (Or.inl rfl)
    have hpos : 0 < n := Nat.lt_of_lt_of_le hzero (Nat.div_le_self n bs)
    refine ⟨hpos, ?_⟩
    by_contra hrest
    have hdiv : bs * (n / bs) < n := by
      apply Nat.lt_of_le_of_ne (Nat.mul_div_le n bs)
      exact fun heq => hrest ⟨n / bs, heq.symm⟩
    exact Nat.lt_irrefl _ (h (n / bs) (Or.inr hdiv))
  · rintro ⟨hpos, k, rfl⟩ i hi
    rw [Nat.mul_div_cancel_left k hbs]
    rcases hi with rfl | hi
    · exact Nat.pos_of_mul_pos_left hpos
    · exact Nat.lt_of_mul_lt_mul_left hi

theorem processDir_unused (halloc : s.allocated = []) (dirName : List UInt8) (l : Listing)
    {Held : Nat → Prop} (hmarked : ∀ i, Held i → mapBit s.diskMap i = some true) :
    Ends (fun _ s' => ∀ i ∈ s'.allocated, ¬ Held i) (fun _ s' => ∀ i ∈ s'.allocated, ¬ Held i)
      (processDir minusOne dirName l s) := by
  have htook : ∀ s', s.Took s' → ∀ i ∈ s'.allocated, ¬ Held i := by
    rintro s' ⟨⟨u, hu, hfree⟩, -⟩ i hi hheld
    rw [hu, halloc, List.nil_append] at hi
    have hbit : mapBit s.diskMap i = some false := of_decide_eq_true (hfree i hi)
    rw [hmarked i hheld] at hbit
    cases hbit
  exact (processEntries_took l minusOne dirName minusOne none minusOne s).mono
    (fun _ s' h => htook s' h) fun _ s' h => htook s' h

theorem two_le_blockCount (h : checkOptions o = true) : 2 ≤ o.blockCount.toNat := by
  have hlt : ¬ o.blockCount < 2 := by
    intro hlt
    simp [checkOptions, hlt] at h
  omega

/-- **The layout is sound** exactly for the options that fit. -/
theorem layoutSound_iff (o : Options) (h : checkOptions o = true) :
    (∃ s, layout o = some s ∧ LayoutSound o s) ↔ LayoutFits o := by
  have hcount := two_le_blockCount h
  have hmap : 0 < o.blockSize.toNat → mapBlocks o.blockCount.toNat o.blockSize.toNat =
      (o.mapBytes + o.blockSize.toNat - 1) / o.blockSize.toNat := mapBlocks_eq
  constructor
  · rintro ⟨s, hs, hsound⟩
    obtain ⟨hheader, hroom, hlaid⟩ := layout_eq_some hs
    have hpos : 0 < o.blockSize.toNat := Nat.lt_of_lt_of_le (by decide) hheader
    obtain ⟨hapart, hbits, -, -⟩ := hsound
    rw [hlaid.header, hlaid.blockSize] at hbits
    dsimp only at hbits
    have hmapPos : 0 < mapBlocks o.blockCount.toNat o.blockSize.toNat := by
      apply Nat.pos_of_ne_zero
      intro hzero
      rw [hzero] at hbits
      omega
    refine ⟨hheader, ?_, ?_, (mapBlocks_covers hpos).mp hbits⟩
    · apply (holdsBoot_lt_iff hpos).mp
      intro i hi
      have hle : i ≤ o.bootBytes / o.blockSize.toNat := by
        rcases hi with rfl | hi
        · exact Nat.zero_le _
        · rw [Nat.le_div_iff_mul_le hpos, Nat.mul_comm]
          exact Nat.le_of_lt hi
      have hnot := hapart i hi
      unfold Builder.HoldsMap at hnot
      rw [hlaid.header] at hnot
      dsimp only at hnot
      omega
    · rw [← hmap hpos]
      exact hroom
  · rintro ⟨hheader, hboot, hroom, hbits⟩
    have hpos : 0 < o.blockSize.toNat := Nat.lt_of_lt_of_le (by decide) hheader
    rw [← hmap hpos] at hroom
    obtain ⟨s, hs, hlaid⟩ := layout_some hheader hroom
    have hlt : ∀ i, o.HoldsBoot i → i < o.bootBytes / o.blockSize.toNat :=
      (holdsBoot_lt_iff hpos).mpr hboot
    have hmarked : ∀ i, o.HoldsBoot i ∨ s.HoldsMap i → mapBit s.diskMap i = some true := by
      intro i hi
      apply hlaid.marked
      rcases hi with hi | ⟨-, hi⟩
      · exact Nat.lt_add_right _ (hlt i hi)
      · rwa [hlaid.header] at hi
    refine ⟨s, hs, ?_, ?_, hmarked,
      fun dirName l => processDir_unused hlaid.allocated dirName l hmarked⟩
    · rintro i hi ⟨hge, -⟩
      rw [hlaid.header] at hge
      exact Nat.not_lt.mpr hge (hlt i hi)
    · rw [hlaid.header, hlaid.blockSize]
      exact (mapBlocks_covers hpos).mpr hbits

/-- A boot sector and 2880 blocks of 512 bytes. -/
def floppyOptions : Options :=
  ⟨512, 2880, some (List.replicate 512 0), none, 0, zeros⟩

theorem layoutSound_iff_floppy :
    (∃ s, layout floppyOptions = some s ∧ LayoutSound floppyOptions s) ↔
      LayoutFits floppyOptions :=
  layoutSound_iff floppyOptions (by decide)

/-- The shipped image has a sound layout. -/
theorem layoutFits_floppy : LayoutFits floppyOptions := by
  have hboot : floppyOptions.bootBytes = 512 := List.length_replicate
  refine ⟨by decide, ?_, ?_, by decide⟩
  · rw [hboot]
    decide
  · rw [hboot]
    decide

/-- **Without a boot loader the map is in the block of the header.** -/
theorem map_over_header :
    ∃ o s, checkOptions o = true ∧ layout o = some s ∧ o.HoldsBoot 0 ∧ s.HoldsMap 0 ∧
      ¬ LayoutSound o s := by
  obtain ⟨s, hs, hlaid⟩ := @layout_some ⟨512, 2880, none, none, 0, zeros⟩ (by decide) (by decide)
  have hmap : s.HoldsMap 0 := by
    unfold Builder.HoldsMap
    rw [hlaid.header]
    decide
  exact ⟨_, s, by decide, hs, Or.inl rfl, hmap, fun h => h.apart 0 (Or.inl rfl) hmap⟩

end

end C4os
