import C4os.ListFs.Layout
import C4os.ListFs.OwnBlocks
import C4os.ListFs.RootListing

/-!
# Programs in the root directory (`kernel.c`)

* **`image_dirData`**: the image of a source directory: its blocks, and the header.
* `findHeader_dirData`: `find_file` finds the header of the entry with the name.
* `scanList_listfsHeader`, `scanList_dirData`: what `get_file_data_pointer` finds in sectors that are
  no lists.
* `OnlyPrograms`: a name is launched exactly if it is a program.
* **`onlyPrograms_iff`**: for which entries.
-/

namespace C4os

open Blocks LittleEndian Outcome

/-! ## The image -/

section

variable {o : Options} {image : Builder} {dirName : List UInt8} {l : Listing}

theorem makeListfs_stages (hsource : o.source = some (dirName, l))
    (hrun : makeListfs o = some image) :
    checkOptions o = true ∧ ∃ s first s₁, layout o = some s ∧
      processDir minusOne dirName l s = .ok first s₁ ∧
      (storeDiskMap >>= fun _ => storeListfsHeader)
        { s₁ with fsHeader := { s₁.fsHeader with firstFile := first } } = .ok ⟨⟩ image := by
  unfold makeListfs at hrun
  by_cases hcheck : checkOptions o = true
  · rw [if_pos hcheck] at hrun
    refine ⟨hcheck, ?_⟩
    unfold layout
    cases hopen : openOutputFile o with
    | error e =>
      rw [hopen] at hrun
      cases hrun
    | ok s₀ =>
      rw [hopen] at hrun
      dsimp only at hrun ⊢
      cases hbuild : buildImage o s₀ with
      | error e s =>
        rw [hbuild] at hrun
        cases hrun
      | ok r s' =>
        rw [hbuild] at hrun
        obtain rfl := Option.some.inj hrun
        unfold buildImage at hbuild
        rw [hsource] at hbuild
        obtain ⟨_, t, ht, hbuild⟩ := ok_of_bind hbuild
        obtain ⟨_, s, hs, hbuild⟩ := ok_of_bind hbuild
        obtain ⟨first, s₁, hdir, hbuild⟩ := ok_of_bind hbuild
        obtain ⟨_, s₂, hset, hbuild⟩ := ok_of_bind hbuild
        refine ⟨s, first, s₁, ?_, hdir, ?_⟩
        · rw [bind_ok ht, hs]
        · cases hset
          exact hbuild
  · rw [if_neg hcheck] at hrun
    cases hrun

theorem length_listfsHeader {h : ListfsHeader} (hb : listfsHeaderSize ≤ h.block.length) :
    h.bytes.length = h.block.length := by
  unfold listfsHeaderSize at hb
  simp only [ListfsHeader.bytes, List.length_append, length_encode, List.length_take,
    List.length_drop, listfsHeaderSize]
  omega

theorem storeEnd_blocks {s image : Builder}
    (hmap : s.diskMap.length = s.blockSize * s.fsHeader.mapSize)
    (hoff : s.blockSize * s.fsHeader.mapBase < 2 ^ 63)
    (hlen : s.fsHeader.bytes.length = s.blockSize)
    (hrun : (storeDiskMap >>= fun _ => storeListfsHeader) s = .ok ⟨⟩ image) :
    image.blockSize = s.blockSize ∧ image.fsHeader = s.fsHeader ∧ image.allocated = s.allocated ∧
      image.block 0 = s.fsHeader.bytes ∧
      ∀ i, 0 < i → s.fsHeader.mapBase + s.fsHeader.mapSize ≤ i → image.block i = s.block i := by
  have hmod : s.blockSize * s.fsHeader.mapBase % 2 ^ 64 = s.blockSize * s.fsHeader.mapBase :=
    Nat.mod_eq_of_lt (by omega)
  obtain ⟨s₁, hs₁⟩ : ∃ s₁, s₁ = s.write s.fsHeader.mapBase (s.blockSize * s.fsHeader.mapBase)
    s.diskMap := ⟨_, rfl⟩
  have hmapRun : storeDiskMap s = .ok ⟨⟩ s₁ := by
    show writeBlock s.fsHeader.mapBase s.diskMap s = _
    rw [writeBlock_eq, hmod, if_pos hoff, hs₁]
  have hheadRun : storeListfsHeader s₁ = .ok ⟨⟩ (s₁.write 0 (s₁.blockSize * 0) s.fsHeader.bytes) := by
    show writeBlock 0 s₁.fsHeader.bytes s₁ = _
    rw [writeBlock_eq, Nat.mul_zero, Nat.zero_mod, if_pos (Nat.two_pow_pos 63), hs₁]
    rfl
  rw [bind_ok hmapRun, hheadRun] at hrun
  obtain rfl : s₁.write 0 (s₁.blockSize * 0) s.fsHeader.bytes = image := by injection hrun
  subst hs₁
  refine ⟨rfl, rfl, rfl, ?_, ?_⟩
  · unfold Builder.block Builder.write
    dsimp only
    rw [block_overwrite_self hlen]
  · intro i hpos hi
    unfold Builder.block Builder.write
    dsimp only
    rw [block_overwrite hlen, if_neg (by omega), block_overwrite_of_ne hmap (Or.inr hi)]

/-- **What the image holds**: the directory in the blocks that were taken, and the header. -/
theorem image_dirData (hsource : o.source = some (dirName, l)) (hrun : makeListfs o = some image)
    (hbs : o.blockSize = 512) (hcount : o.blockCount.toNat ≤ COMMON_INDICATOR_32)
    (hl : l.NoneEmpty) :
    DirData 512 (fun i => (image.disk i).bytes) minusOne minusOne image.fsHeader.firstFile l.visible
        image.allocated ∧
      (∀ i ∈ image.allocated, i < image.fsHeader.size) ∧
      image.fsHeader.size ≤ COMMON_INDICATOR_32 ∧
      (image.disk 0).bytes = image.fsHeader.bytes ∧
      ∃ mapBase mapSize, image.fsHeader = { o.header 512 with
        mapBase := mapBase, mapSize := mapSize, firstFile := image.fsHeader.firstFile } ∧
        mapBase < COMMON_INDICATOR_64 ∧ mapSize < COMMON_INDICATOR_64 := by
  obtain ⟨hcheck, s, first, s₁, hlayout, hdir, hend⟩ := makeListfs_stages hsource hrun
  obtain ⟨-, hroom, hlaid⟩ := layout_eq_some hlayout
  have hbsNat : o.blockSize.toNat = 512 := by rw [hbs]; rfl
  have hlen := hlaid.mapLength
  have hhead := hlaid.header
  have hmarked := hlaid.marked
  have hbs₀ := hlaid.blockSize
  rw [hbsNat] at hroom hlen hhead hmarked hbs₀
  have hsize : s.fsHeader.size = o.blockCount.toNat := by rw [hhead]; rfl
  have hs : s.Ready := ready_of_size hbs₀ (by rw [hsize]; have := two_le_blockCount hcheck; omega)
    (hsize ▸ hcount)
  -- the directory
  unfold processDir at hdir
  rw [processEntries_visible] at hdir
  obtain ⟨-, cur, u, w, hg, -, -, hdirData, hfirst, -⟩ :=
    (processEntries_ends l.visible hs (by rw [hbs₀]; decide) (noDots_visible l) hl.2 .none
      fun _ => hl.1).of_ok hdir
  rw [if_neg (not_not.mpr rfl)] at hfirst
  subst hfirst
  -- the map and the header
  have hmapSize : mapBlocks o.blockCount.toNat 512 ≤ 2 ^ 24 := by
    rw [mapBlocks_eq (by decide)]
    unfold COMMON_INDICATOR_32 at hcount
    omega
  have hheadLen : s.fsHeader.block.length = 512 := by
    rw [hhead]
    dsimp only
    exact length_header_block o 512
  generalize ht : ({ s₁ with fsHeader := { s₁.fsHeader with firstFile := first } } : Builder) = t at hend
  have hbs₁ : t.blockSize = 512 := by rw [← ht, ← hbs₀, ← hg.blockSize]
  have hhead₁ : t.fsHeader = { s.fsHeader with firstFile := first } := by rw [← ht, ← hg.fsHeader]
  have halloc₁ : t.allocated = u := by
    rw [← ht]
    show s₁.allocated = u
    rw [hg.allocated, hlaid.allocated, List.nil_append]
  have hblock₁ : t.block = s₁.block := by rw [← ht]; rfl
  have hlen₁ : t.diskMap.length = 512 * mapBlocks o.blockCount.toNat 512 := by
    rw [← hlen, ← hg.mapLength, ← ht]
  obtain ⟨hbs', hhead', halloc', hblock0, hblocks⟩ := storeEnd_blocks (s := t) (by
    rw [hlen₁, hbs₁, hhead₁, hhead]) (by
    rw [hbs₁, hhead₁, hhead]
    dsimp only
    omega) (by
    rw [length_listfsHeader, hbs₁, hhead₁]
    · exact hheadLen
    · rw [hhead₁]
      dsimp only
      rw [hheadLen]
      decide) hend
  rw [hhead₁, hhead] at hhead' hblock0 hblocks
  rw [block_eq_disk (hbs'.trans hbs₁)] at hblock0 hblocks
  rw [hblock₁] at hblocks
  dsimp only at hhead' hblock0 hblocks
  have hzero : (image.disk 0).bytes = image.fsHeader.bytes := by
    rw [hhead']
    exact hblock0
  -- the blocks of the directory are behind the map
  have hkeep : ∀ i ∈ u, (image.disk i).bytes = s₁.block i := by
    intro i hi
    obtain ⟨-, hbit⟩ := mem_free.mp (hg.mem_free hi)
    have hfree : freeBit s.diskMap i = true := decide_eq_true hbit
    have hlt := lt_of_freeBit hfree
    have hge : ¬ i < o.bootBytes / 512 + mapBlocks o.blockCount.toNat 512 := by
      intro hin
      rw [hmarked i hin] at hbit
      cases hbit
    rw [hlen] at hlt
    exact hblocks i (by omega) (Nat.not_lt.mp hge)
  have hfirst : image.fsHeader.firstFile = first := by rw [hhead']
  have hsizeImage : image.fsHeader.size = s.fsHeader.size := by rw [hhead', hhead]
  rw [hbs₀] at hdirData
  refine ⟨?_, ?_, ?_, hzero, o.bootBytes / 512,
    mapBlocks o.blockCount.toNat 512, ?_, ?_, ?_⟩
  · rw [hfirst, halloc', halloc₁]
    exact hdirData.congr hkeep
  · intro i hi
    rw [halloc', halloc₁] at hi
    rw [hsizeImage]
    exact lt_of_mem_free (hg.mem_free hi)
  · rw [hsizeImage, hsize]
    exact hcount
  · rw [hfirst]
    exact hhead'
  · unfold COMMON_INDICATOR_64
    omega
  · unfold COMMON_INDICATOR_64
    omega

end

/-! ## The search for a name -/

/-- An entry of a directory. -/
inductive Entry where
  | leaf (kind : Leaf)
  | dir (entries : Listing)

/-- The entry with the name, the first one of the names in a directory, which differ. -/
def Listing.entry? (name : List UInt8) : Listing → Option Entry
  | .nil => none
  | .leaf n _ kind rest => if n = name then some (.leaf kind) else rest.entry? name
  | .dir n _ entries rest => if n = name then some (.dir entries) else rest.entry? name

/-- The blocks `u` hold what belongs to the entry with its header in `cur` and `header->data` in
`data`. -/
def EntryData (disk : Disk) (u : List Nat) (cur data : Nat) : Entry → Prop
  | .leaf kind => LeafData 512 (fun i => (disk i).bytes) u data kind
  | .dir entries => DirData 512 (fun i => (disk i).bytes) cur minusOne data entries u

/-- The search for the entry `e` ended with `r`: the block of the header, or nothing. -/
def Finds (disk : Disk) (rest : List UInt8) (u : List Nat) : Option Entry → Option Nat → Prop
  | none, r => r = none
  | some e, r => ∃ cur data v, r = some cur ∧
      headerData (bufferAt disk rest cur) = data % 2 ^ 64 ∧ v ⊆ u ∧ EntryData disk v cur data e

section

variable {disk : Disk} {rest name tail : List UInt8} {parent prev cur next data fuel : Nat}
  {h : Head} {l : Listing} {u v : List Nat}

theorem findHeader_header (header : (disk cur).bytes = (h.header parent prev next data).bytes 512)
    (hn : h.Named) (hnext : next ≤ minusOne) (hname : ∀ b ∈ name, b ≠ 0) :
    findHeader disk rest (name ++ 0 :: tail) (fuel + 1) cur =
      if h.name = name then some (some cur)
      else if next = minusOne then some none
      else findHeader disk rest (name ++ 0 :: tail) fuel (uint32 next) := by
  obtain ⟨h1, -, -, -, -, -, h7⟩ := headerBytes_fields (by decide : fileHeaderSize ≤ 512)
    (h.header parent prev next data) rest
  have hstr : cString (bufferAt disk rest cur) = some h.name := by
    rw [bufferAt_eq header]
    exact h7 hn.1 hn.2
  have hlink : headerNext (bufferAt disk rest cur) = next := by
    rw [bufferAt_eq header, h1]
    exact Nat.mod_eq_of_lt (Nat.lt_of_le_of_lt hnext (by decide))
  obtain ⟨r, hr⟩ : ∃ r, strcmp (name ++ 0 :: tail) (bufferAt disk rest cur) = some r :=
    strcmp_isSome hstr
  have hzero : strcmp (name ++ 0 :: tail) (bufferAt disk rest cur) = some 0 ↔ _ :=
    strcmp_eq_zero_iff hname
  rw [hr, hstr, Option.some.injEq, Option.some.injEq] at hzero
  rw [findHeader, hr, Option.bind_some, hlink]
  exact if_congr hzero rfl rfl

theorem headerData_header (header : (disk cur).bytes = (h.header parent prev next data).bytes 512)
    (rest : List UInt8) : headerData (bufferAt disk rest cur) = data % 2 ^ 64 := by
  rw [bufferAt_eq header]
  exact (headerBytes_fields (by decide) (h.header parent prev next data) rest).2.2.2.2.1

theorem Finds.mono {e : Option Entry} {r : Option Nat} (hf : Finds disk rest v e r) (hv : v ⊆ u) :
    Finds disk rest u e r := by
  cases e with
  | none => exact hf
  | some e =>
    obtain ⟨cur, data, w, hr, hdata, hw, he⟩ := hf
    exact ⟨cur, data, w, hr, hdata, fun i hi => hv (hw hi), he⟩

theorem finds_step {rest' : Listing} {e : Entry}
    (header : (disk cur).bytes = (h.header parent prev next data).bytes 512) (hn : h.Named)
    (hname : ∀ b ∈ name, b ≠ 0) (he : EntryData disk u cur data e)
    (hd : DirData 512 (fun i => (disk i).bytes) parent cur next rest' v)
    (hv : ∀ i ∈ v, i < COMMON_INDICATOR_32)
    (ih : rest' ≠ .nil → ∃ n r, findHeader disk rest (name ++ 0 :: tail) n next = some r ∧
      Finds disk rest v (rest'.entry? name) r) :
    ∃ n r, findHeader disk rest (name ++ 0 :: tail) n cur = some r ∧
      Finds disk rest (cur :: (u ++ v)) (if h.name = name then some e else rest'.entry? name) r := by
  have hnext : next ≤ minusOne := by
    rcases hd.start with ⟨-, rfl⟩ | ⟨-, hmem⟩
    · exact Nat.le_refl _
    · exact Nat.le_of_lt (Nat.lt_trans (hv next hmem) (by decide))
  by_cases hsame : h.name = name
  · refine ⟨1, some cur, ?_, ?_⟩
    · rw [findHeader_header header hn hnext hname, if_pos hsame]
    · rw [if_pos hsame]
      exact ⟨cur, data, u, rfl, headerData_header header rest,
        fun i hi => List.mem_cons_of_mem _ (List.mem_append_left _ hi), he⟩
  · rw [if_neg hsame]
    rcases hd.start with ⟨rfl, rfl⟩ | ⟨hne, hmem⟩
    · refine ⟨1, none, ?_, rfl⟩
      rw [findHeader_header header hn hnext hname, if_neg hsame, if_pos rfl]
    · have hlt := hv next hmem
      have hnot : next ≠ minusOne := ne_of_lt_indicator hlt
      have hu : uint32 next = next := Nat.mod_eq_of_lt (Nat.lt_trans hlt (by decide))
      obtain ⟨n, r, hr, hfinds⟩ := ih hne
      refine ⟨n + 1, r, ?_, hfinds.mono fun i hi => List.mem_cons_of_mem _ (List.mem_append_right _ hi)⟩
      rw [findHeader_header header hn hnext hname, if_neg hsame, if_neg hnot, hu, hr]

/-- **`find_file` finds the header of the entry with the name.** -/
theorem findHeader_dirData (hd : DirData 512 (fun i => (disk i).bytes) parent prev cur l u)
    (hne : l ≠ .nil) (hdots : l.NoDots) (hn : ∀ h ∈ l.heads, h.Named)
    (hu : ∀ i ∈ u, i < COMMON_INDICATOR_32) (hname : ∀ b ∈ name, b ≠ 0) :
    ∃ n r, findHeader disk rest (name ++ 0 :: tail) n cur = some r ∧
      Finds disk rest u (l.entry? name) r := by
  induction hd with
  | nil => exact absurd rfl hne
  | @leaf parent prev cur next data n stat kind rest' u v header leafData hd ih =>
    rw [Listing.heads, if_neg (by rw [hdots.1]; exact Bool.false_ne_true)] at hn
    have hv : ∀ i ∈ v, i < COMMON_INDICATOR_32 :=
      fun i hi => hu i (List.mem_cons_of_mem _ (List.mem_append_right _ hi))
    exact finds_step header (hn _ List.mem_cons_self) hname leafData hd hv fun hne' =>
      ih hne' hdots.2 (fun h hh => hn h (List.mem_cons_of_mem _ hh)) hv
  | @dir parent prev cur next data n stat entries rest' u v header children hd ihe ih =>
    rw [Listing.heads, if_neg (by rw [hdots.1]; exact Bool.false_ne_true)] at hn
    have hv : ∀ i ∈ v, i < COMMON_INDICATOR_32 :=
      fun i hi => hu i (List.mem_cons_of_mem _ (List.mem_append_right _ hi))
    exact finds_step header (hn _ List.mem_cons_self) hname children hd hv fun hne' =>
      ih hne' hdots.2.2 (fun h hh => hn h (List.mem_cons_of_mem _ hh)) hv

end

/-! ## The scan of a sector -/

section

variable {ws ws' : List Nat} {r p x n : Nat} {l mem : List UInt8}

theorem words64_eight (h : l.length = 8) (mem : List UInt8) :
    words64 (l ++ mem) = decode l :: words64 mem := by
  have hl : l = encode 8 (decode l) := by
    rw [← h]
    exact (encode_decode l).symm
  have hlt : decode l < 2 ^ 64 := by
    have := decode_lt l
    rwa [h] at this
  rw [hl, words64_encode hlt, ← hl]

theorem words64_append (h : l.length = 8 * n) (mem : List UInt8) :
    words64 (l ++ mem) = words64 l ++ words64 mem := by
  induction n generalizing l with
  | zero =>
    obtain rfl : l = [] := List.length_eq_zero_iff.mp h
    rfl
  | succ n ih =>
    have htake : (l.take 8).length = 8 := by
      rw [List.length_take]
      omega
    have hdrop : (l.drop 8).length = 8 * n := by
      rw [List.length_drop]
      omega
    have hfirst := words64_eight htake (l.drop 8)
    rw [List.take_append_drop] at hfirst
    rw [hfirst, List.cons_append, ← ih hdrop, ← words64_eight htake, ← List.append_assoc,
      List.take_append_drop]

theorem words64_sector (disk : Disk) (rest : List UInt8) (s : Nat) :
    words64 (bufferAt disk rest s) = words64 (disk s).bytes ++ words64 rest :=
  words64_append (n := 64) (disk s).length_eq rest

theorem scanList_cons (hw : x ≠ COMMON_INDICATOR_64) :
    scanList (x :: ws) r = scanList ws (uint32 x) := if_neg hw

theorem scanList_append_some (h : scanList ws r = some p) : scanList (ws ++ ws') r = some p := by
  induction ws generalizing r with
  | nil => cases h
  | cons w ws ih =>
    rw [scanList] at h
    rw [List.cons_append, scanList]
    by_cases hw : w = COMMON_INDICATOR_64
    · rwa [if_pos hw] at h ⊢
    · rw [if_neg hw] at h ⊢
      exact ih h

theorem scanList_append_none (h : COMMON_INDICATOR_64 ∉ ws) (r : Nat) :
    ∃ r', ∀ ws', scanList (ws ++ ws') r = scanList ws' r' := by
  induction ws generalizing r with
  | nil => exact ⟨r, fun _ => rfl⟩
  | cons w ws ih =>
    rw [List.mem_cons, not_or] at h
    obtain ⟨r', hr⟩ := ih h.2 (uint32 w)
    exact ⟨r', fun ws' => (scanList_cons (Ne.symm h.1)).trans (hr ws')⟩

/-- Memory behind a sector that ends a scan with `x`. -/
def escape (x : Nat) : List UInt8 := encode 8 x ++ encode 8 COMMON_INDICATOR_64

theorem scanList_escape (h : COMMON_INDICATOR_64 ∉ ws) (hx : x < COMMON_INDICATOR_64) (r : Nat) :
    scanList (ws ++ words64 (escape x)) r = some (uint32 x) := by
  have hwords : words64 (escape x) = [x, COMMON_INDICATOR_64] := by
    have hend : words64 (encode 8 COMMON_INDICATOR_64) = [COMMON_INDICATOR_64] := by decide
    unfold escape
    rw [words64_encode (Nat.lt_trans hx (by decide)), hend]
  obtain ⟨r', hr⟩ := scanList_append_none h r
  rw [hr, hwords, scanList_cons (Nat.ne_of_lt hx)]
  exact if_pos rfl

theorem scanList_of_escape (h : scanList (ws ++ words64 (escape 5)) r = some COMMON_INDICATOR_32) :
    scanList ws r = some COMMON_INDICATOR_32 := by
  by_cases hmem : COMMON_INDICATOR_64 ∈ ws
  · obtain ⟨p, hp⟩ := (scanList_isSome_iff (r := r)).mpr hmem
    rw [scanList_append_some hp] at h
    rw [hp, h]
  · rw [scanList_escape hmem (by decide)] at h
    exact absurd (Option.some.inj h) (by decide)

end

/-! ## The words of a header -/

/-- What the scan of the image's header finds, if the scan gets to the bytes of the boot loader behind
the fields. -/
def Options.bootScan (o : Options) : Prop :=
  o.uid % 2 ^ 64 ≠ COMMON_INDICATOR_64 ∧
    scanList (words64 ((o.header 512).block.drop 72)) 512 = some COMMON_INDICATOR_32

/-- The directory is empty. -/
def Listing.isNil : Listing → Bool
  | .nil => true
  | _ => false

/-- The scan of the first header of a directory finds no block: it starts with the bytes of the name,
and the terminator is the link of the header, if it is the only one. -/
def Listing.nameScan : Listing → Prop
  | .nil => False
  | .leaf name _ _ rest | .dir name _ _ rest =>
    scanList (words64 (nameField name) ++ if rest.isNil then [COMMON_INDICATOR_64] else [])
      COMMON_INDICATOR_32 = some COMMON_INDICATOR_32

section

variable {o : Options} {parent cur next data mapBase mapSize first : Nat} {h : Head}

/-- **The scan of the image's header.** -/
theorem scanList_listfsHeader {header : ListfsHeader}
    (hheader : header = { o.header 512 with
      mapBase := mapBase, mapSize := mapSize, firstFile := first })
    (hsize : o.blockCount.toNat < COMMON_INDICATOR_64) (hbase : mapBase < COMMON_INDICATOR_64)
    (hmap : mapSize < COMMON_INDICATOR_64) (hfirst : first < COMMON_INDICATOR_32) :
    scanList (words64 header.bytes) COMMON_INDICATOR_32 = some COMMON_INDICATOR_32 ↔ o.bootScan := by
  have hlen : (o.header 512).block.length = 512 := length_header_block o 512
  generalize hblock : (o.header 512).block = block at hlen
  have htake : (block.take 4).length = 4 := by
    rw [List.length_take]
    omega
  have htake' : ((block.drop 68).take 4).length = 4 := by
    rw [List.length_take, List.length_drop]
    omega
  have hdrop : block.drop 68 = (block.drop 68).take 4 ++ block.drop 72 := by
    conv_lhs => rw [← List.take_append_drop 4 (block.drop 68), List.drop_drop]
  have hbytes : header.bytes = (block.take 4 ++ encode 4 LISTFS_MAGIC) ++
      ((encode 4 LISTFS_VERSION ++ encode 4 0) ++ (encode 8 0 ++ (encode 8 o.blockCount.toNat ++
        (encode 8 mapBase ++ (encode 8 mapSize ++ (encode 8 first ++ (encode 8 o.uid ++
          ((encode 4 512 ++ (block.drop 68).take 4) ++ block.drop 72)))))))) := by
    rw [List.append_assoc (encode 4 512), ← hdrop, hheader, ← hblock]
    unfold ListfsHeader.bytes Options.header listfsHeaderSize
    simp only [List.append_assoc]
  -- the words of the fields
  have hw0 : decode (block.take 4 ++ encode 4 LISTFS_MAGIC) ≠ COMMON_INDICATOR_64 := by
    have hlow := decode_lt (block.take 4)
    have hmagic : decode (encode 4 LISTFS_MAGIC) = LISTFS_MAGIC := by decide
    rw [htake] at hlow
    rw [decode_append, htake, hmagic]
    unfold LISTFS_MAGIC COMMON_INDICATOR_64
    omega
  have hw1 : decode (encode 4 LISTFS_VERSION ++ encode 4 0) = 1 := by decide
  have hw8 : ∃ x, decode (encode 4 512 ++ (block.drop 68).take 4) = 512 + 2 ^ 32 * x := by
    refine ⟨decode ((block.drop 68).take 4), ?_⟩
    rw [decode_append, length_encode]
    congr 1
  obtain ⟨x, hx⟩ := hw8
  have hlast : 512 + 2 ^ 32 * x ≠ COMMON_INDICATOR_64 := by
    unfold COMMON_INDICATOR_64
    omega
  have hlow : uint32 (512 + 2 ^ 32 * x) = 512 := by
    unfold uint32
    omega
  have hu : uint32 first = first := Nat.mod_eq_of_lt (Nat.lt_trans hfirst (by decide))
  have hfits : ∀ y, y < COMMON_INDICATOR_64 → y < 2 ^ 64 := fun y hy => Nat.lt_trans hy (by decide)
  have huid : decode (encode 8 o.uid) = o.uid % 2 ^ 64 := decode_encode_mod 8 o.uid
  have h8 : ∀ {a b : List UInt8}, a.length = 4 → b.length = 4 → (a ++ b).length = 8 := by
    intro a b ha hb
    rw [List.length_append, ha, hb]
  rw [hbytes, words64_eight (h8 htake (length_encode 4 _)),
    words64_eight (h8 (length_encode 4 _) (length_encode 4 _)), hw1,
    words64_encode (Nat.two_pow_pos 64), words64_encode (hfits _ hsize), words64_encode (hfits _ hbase),
    words64_encode (hfits _ hmap), words64_encode (hfits _ (Nat.lt_trans hfirst (by decide))),
    words64_eight (length_encode 8 _), huid, words64_eight (h8 (length_encode 4 _) htake'), hx]
  rw [scanList_cons hw0, scanList_cons (by decide), scanList_cons (by decide),
    scanList_cons (Nat.ne_of_lt hsize), scanList_cons (Nat.ne_of_lt hbase),
    scanList_cons (Nat.ne_of_lt hmap), scanList_cons (ne_of_lt_indicator hfirst), hu]
  unfold Options.bootScan
  rw [hblock]
  by_cases hend : o.uid % 2 ^ 64 = COMMON_INDICATOR_64
  · rw [scanList, if_pos hend]
    refine iff_of_false (fun heq => ?_) fun h => h.1 hend
    exact Nat.lt_irrefl _ ((Option.some.inj heq) ▸ hfirst)
  · rw [scanList_cons hend, scanList_cons hlast, hlow]
    exact (and_iff_right hend).symm

theorem words64_header (h : FileHeader) : ∃ more, words64 (h.bytes 512) =
    words64 (nameField h.name) ++ h.next % 2 ^ 64 :: h.prev % 2 ^ 64 :: more := by
  have hlen : (nameField h.name).length = 256 := length_fillBuffer _ _ _
  obtain ⟨tail, hbytes⟩ : ∃ tail, h.bytes 512 =
      nameField h.name ++ (encode 8 h.next ++ (encode 8 h.prev ++ tail)) := by
    unfold FileHeader.bytes
    rw [fillBuffer_zeros (by simp only [List.length_append, length_encode, hlen]; decide)]
    simp only [List.append_assoc]
    exact ⟨_, rfl⟩
  have hnext : decode (encode 8 h.next) = h.next % 2 ^ 64 := decode_encode_mod 8 _
  have hprev : decode (encode 8 h.prev) = h.prev % 2 ^ 64 := decode_encode_mod 8 _
  rw [hbytes, words64_append (n := 32) hlen, words64_eight (length_encode 8 _),
    words64_eight (length_encode 8 _), hnext, hprev]
  exact ⟨_, rfl⟩

theorem scanList_header (header : FileHeader) (hprev : header.prev = minusOne)
    (hnext : header.next = minusOne ∨ header.next < COMMON_INDICATOR_32) :
    scanList (words64 (header.bytes 512)) COMMON_INDICATOR_32 = some COMMON_INDICATOR_32 ↔
      scanList (words64 (nameField header.name) ++
        if header.next = minusOne then [COMMON_INDICATOR_64] else []) COMMON_INDICATOR_32 =
          some COMMON_INDICATOR_32 := by
  obtain ⟨more, hwords⟩ := words64_header header
  have hback : header.prev % 2 ^ 64 = COMMON_INDICATOR_64 := by
    rw [hprev]
    decide
  rw [hwords, hback]
  by_cases hlast : header.next = minusOne
  · have hend : header.next % 2 ^ 64 = COMMON_INDICATOR_64 := by
      rw [hlast]
      decide
    obtain ⟨p, hp⟩ : ∃ p, scanList (words64 (nameField header.name) ++ [COMMON_INDICATOR_64])
        COMMON_INDICATOR_32 = some p :=
      scanList_isSome_iff.mpr (List.mem_append_right _ List.mem_cons_self)
    rw [if_pos hlast, hend, hp, ← List.singleton_append, ← List.append_assoc, scanList_append_some hp]
  · have hlt := hnext.resolve_left hlast
    have hmod : header.next % 2 ^ 64 = header.next := Nat.mod_eq_of_lt (Nat.lt_trans hlt (by decide))
    have hu : uint32 header.next = header.next :=
      Nat.mod_eq_of_lt (Nat.lt_trans hlt (by decide))
    rw [if_neg hlast, List.append_nil, hmod]
    by_cases hmem : COMMON_INDICATOR_64 ∈ words64 (nameField header.name)
    · obtain ⟨p, hp⟩ : ∃ p, scanList (words64 (nameField header.name)) COMMON_INDICATOR_32 = some p :=
        scanList_isSome_iff.mpr hmem
      rw [hp, scanList_append_some hp]
    · -- the scan comes to the link, which is a block
      obtain ⟨r, hr⟩ := scanList_append_none hmem COMMON_INDICATOR_32
      have hnone := hr []
      rw [List.append_nil] at hnone
      have hstop : scanList (COMMON_INDICATOR_64 :: more) header.next = some header.next :=
        if_pos rfl
      rw [hr, hnone, scanList_cons (ne_of_lt_indicator hlt), hu, hstop]
      refine iff_of_false (fun heq => ?_) nofun
      exact Nat.lt_irrefl _ ((Option.some.inj heq) ▸ hlt)

theorem scanList_first {disk : Disk} {rest : Listing} {v : List Nat}
    (header : (disk cur).bytes = (h.header parent minusOne next data).bytes 512)
    (hd : DirData 512 (fun i => (disk i).bytes) parent cur next rest v)
    (hv : ∀ i ∈ v, i < COMMON_INDICATOR_32) :
    scanList (words64 (disk cur).bytes) COMMON_INDICATOR_32 = some COMMON_INDICATOR_32 ↔
      scanList (words64 (nameField h.name) ++ if rest.isNil then [COMMON_INDICATOR_64] else [])
        COMMON_INDICATOR_32 = some COMMON_INDICATOR_32 := by
  rw [header]
  rcases hd.start with ⟨rfl, rfl⟩ | ⟨hne, hmem⟩
  · exact scanList_header (h.header parent minusOne minusOne data) rfl (Or.inl rfl)
  · have hlt := hv next hmem
    have hnil : rest.isNil = false := by
      cases rest with
      | nil => exact absurd rfl hne
      | leaf => rfl
      | dir => rfl
    have hscan := scanList_header (h.header parent minusOne next data) rfl (Or.inr hlt)
    have hnext : (h.header parent minusOne next data).next ≠ minusOne := ne_of_lt_indicator hlt
    rw [if_neg hnext] at hscan
    rw [hnil, if_neg Bool.false_ne_true]
    exact hscan

/-- **The scan of a directory's first header.** -/
theorem scanList_dirData {disk : Disk} {entries : Listing} {u : List Nat}
    (hd : DirData 512 (fun i => (disk i).bytes) cur minusOne data entries u)
    (hu : ∀ i ∈ u, i < COMMON_INDICATOR_32) (hne : entries ≠ .nil) :
    scanList (words64 (disk data).bytes) COMMON_INDICATOR_32 = some COMMON_INDICATOR_32 ↔
      entries.nameScan := by
  cases hd with
  | nil => exact absurd rfl hne
  | leaf header leafData tail =>
    have hscan := scanList_first header tail fun i hi =>
      hu i (List.mem_cons_of_mem _ (List.mem_append_right _ hi))
    exact hscan
  | dir header children tail =>
    have hscan := scanList_first header tail fun i hi =>
      hu i (List.mem_cons_of_mem _ (List.mem_append_right _ hi))
    exact hscan

end

/-! ## Programs -/

/-- The contents of the program with the name: a regular file that is not empty. -/
def Listing.program? (name : List UInt8) (l : Listing) : Option (List UInt8) :=
  match l.visible.entry? name with
  | some (.leaf (.file content)) => if content = [] then none else some content
  | _ => none

/-- `is_there_exe` finds the name exactly if it is a program, and then `find_file` returns one of the
blocks of the file, which holds data of it. -/
def Launches (disk : Disk) (rest fileName : List UInt8) (first : Nat) (blocks : List Nat)
    (program : Option (List UInt8)) : Prop :=
  ∃ fuel, isThereExe disk rest fileName fuel first = some program.isSome ∧
    ∀ content, program = some content → ∃ p cur v,
      findFile disk rest fileName fuel first = some p ∧
      findHeader disk rest fileName fuel first = some (some cur) ∧
      FileData 512 (fun i => (disk i).bytes) v (headerData (bufferAt disk rest cur)) content ∧
      v ⊆ blocks ∧ p ∈ v ∧ HoldsData disk content p

/-- On a disk with the image, whatever is behind it and in memory, only programs are launched. -/
def OnlyPrograms (image : Builder) (l : Listing) (name : List UInt8) : Prop :=
  ∀ (disk : Disk) (rest tail : List UInt8),
    (∀ i < image.fsHeader.size, disk i = image.disk i) →
      Launches disk rest (name ++ 0 :: tail) (uint32 image.fsHeader.firstFile) image.allocated
        (l.program? name)

/-- The entry with the name is launched exactly if it is a program. -/
def Launchable (o : Options) : Option Entry → Prop
  | none => True
  | some (.leaf (.file content)) => content.length < 63 * 512
  | some (.leaf .closedFile) => False
  | some (.leaf .closedDir) => False
  | some (.leaf .special) => o.bootScan
  | some (.dir entries) => entries.nameScan

section

variable {disk : Disk} {rest fileName : List UInt8} {fuel fuel' first : Nat} {r r' : Option Nat}
  {blocks : List Nat} {program : Option (List UInt8)}

theorem findHeader_unique (h : findHeader disk rest fileName fuel first = some r)
    (h' : findHeader disk rest fileName fuel' first = some r') : r = r' := by
  induction fuel generalizing fuel' first with
  | zero => cases h
  | succ fuel ih =>
    cases fuel' with
    | zero => cases h'
    | succ fuel' =>
      rw [findHeader] at h h'
      obtain ⟨c, hc, h⟩ := Option.bind_eq_some_iff.mp h
      obtain ⟨c', hc', h'⟩ := Option.bind_eq_some_iff.mp h'
      rw [hc] at hc'
      obtain rfl := Option.some.inj hc'
      split_ifs at h h'
      · exact Option.some.inj (h.symm.trans h')
      · exact Option.some.inj (h.symm.trans h')
      · exact ih h h'

theorem findFile_some {cur p : Nat} (h : findHeader disk rest fileName fuel first = some (some cur))
    (hp : getFileDataPointer disk rest (uint32 (headerData (bufferAt disk rest cur))) = some p) :
    findFile disk rest fileName fuel first = some p ∧
      isThereExe disk rest fileName fuel first = some (decide (p ≠ COMMON_INDICATOR_32)) := by
  have hfind : findFile disk rest fileName fuel first = some p := by
    unfold findFile
    rw [h, Option.bind_some]
    exact hp
  refine ⟨hfind, ?_⟩
  unfold isThereExe
  rw [hfind]
  rfl

theorem launches_none_iff {cur : Nat}
    (h : findHeader disk rest fileName fuel first = some (some cur)) :
    Launches disk rest fileName first blocks none ↔
      getFileDataPointer disk rest (uint32 (headerData (bufferAt disk rest cur))) =
        some COMMON_INDICATOR_32 := by
  constructor
  · rintro ⟨fuel', hexe, -⟩
    obtain ⟨p, hp, hno⟩ := Option.map_eq_some_iff.mp hexe
    obtain ⟨r, hr, hp⟩ := Option.bind_eq_some_iff.mp hp
    obtain rfl := findHeader_unique hr h
    dsimp only at hp
    rw [hp]
    have hno' : ¬ p ≠ COMMON_INDICATOR_32 := of_decide_eq_false hno
    rw [not_not.mp hno']
  · intro hp
    exact ⟨fuel, (findFile_some h hp).2, fun _ hc => nomatch hc⟩

end

section

variable {o : Options} {image : Builder} {dirName name : List UInt8} {l : Listing}

theorem image_finds (hsource : o.source = some (dirName, l)) (hrun : makeListfs o = some image)
    (hbs : o.blockSize = 512) (hcount : o.blockCount.toNat ≤ COMMON_INDICATOR_32)
    (hl : l.NoneEmpty) (hn : ∀ h ∈ l.visible.heads, h.Named) (hname : ∀ b ∈ name, b ≠ 0)
    {disk : Disk} (rest tail : List UInt8) (hdisk : ∀ i < image.fsHeader.size, disk i = image.disk i) :
    ∃ n r, findHeader disk rest (name ++ 0 :: tail) n (uint32 image.fsHeader.firstFile) = some r ∧
      Finds disk rest image.allocated (l.visible.entry? name) r := by
  obtain ⟨hd, hlt, hsize, -⟩ := image_dirData hsource hrun hbs hcount hl
  have hu : ∀ i ∈ image.allocated, i < COMMON_INDICATOR_32 :=
    fun i hi => Nat.lt_of_lt_of_le (hlt i hi) hsize
  have hd' : DirData 512 (fun i => (disk i).bytes) minusOne minusOne image.fsHeader.firstFile l.visible
      image.allocated := hd.congr fun i hi => congrArg Sector.bytes (hdisk i (hlt i hi))
  have hfirst : image.fsHeader.firstFile < COMMON_INDICATOR_32 := by
    rcases hd.start with ⟨hnil, -⟩ | ⟨-, hmem⟩
    · exact absurd hnil hl.1
    · exact hu _ hmem
  have hmod : uint32 image.fsHeader.firstFile = image.fsHeader.firstFile :=
    Nat.mod_eq_of_lt (Nat.lt_trans hfirst (by decide))
  rw [hmod]
  exact findHeader_dirData hd' hl.1 (noDots_visible l) hn hu hname

theorem Listing.Inhabited.entry {entries : Listing} (h : l.Inhabited)
    (he : l.entry? name = some (.dir entries)) : entries ≠ .nil := by
  induction l with
  | nil => cases he
  | leaf n stat kind rest ih =>
    rw [Listing.entry?] at he
    split_ifs at he
    · cases he
    · exact ih h he
  | dir n stat es rest ihe ih =>
    rw [Listing.entry?] at he
    split_ifs at he
    · cases he
      exact h.1
    · exact ih h.2.2 he

/-- The list in the sector `s` has no block. -/
def NoBlock (disk : Disk) (s : Nat) : Prop :=
  scanList (words64 (disk s).bytes) COMMON_INDICATOR_32 = some COMMON_INDICATOR_32

theorem NoBlock.pointer {disk : Disk} {s : Nat} (h : NoBlock disk s) (rest : List UInt8) :
    getFileDataPointer disk rest s = some COMMON_INDICATOR_32 := by
  unfold getFileDataPointer
  rw [words64_sector]
  exact scanList_append_some h

theorem noBlock_of_pointer {disk : Disk} {s : Nat}
    (h : getFileDataPointer disk (escape 5) s = some COMMON_INDICATOR_32) : NoBlock disk s := by
  unfold getFileDataPointer at h
  rw [words64_sector] at h
  exact scanList_of_escape h

theorem special_noBlock_iff (hsource : o.source = some (dirName, l))
    (hrun : makeListfs o = some image) (hbs : o.blockSize = 512)
    (hcount : o.blockCount.toNat ≤ COMMON_INDICATOR_32) (hl : l.NoneEmpty) {disk : Disk}
    (hdisk : ∀ i < image.fsHeader.size, disk i = image.disk i) :
    NoBlock disk (uint32 (0 % 2 ^ 64)) ↔ o.bootScan := by
  obtain ⟨hd, hlt, hsize, hzero, mapBase, mapSize, hheader, hbase, hmap⟩ :=
    image_dirData hsource hrun hbs hcount hl
  have hfirst : image.fsHeader.firstFile < image.fsHeader.size := by
    rcases hd.start with ⟨hnil, -⟩ | ⟨-, hmem⟩
    · exact absurd hnil hl.1
    · exact hlt _ hmem
  show scanList (words64 (disk 0).bytes) _ = _ ↔ _
  rw [hdisk 0 (Nat.zero_lt_of_lt hfirst), hzero]
  exact scanList_listfsHeader hheader (Nat.lt_of_le_of_lt hcount (by decide)) hbase hmap
    (Nat.lt_of_lt_of_le hfirst hsize)

theorem dir_noBlock_iff {disk : Disk} {cur data : Nat} {entries : Listing} {v : List Nat}
    (hd : DirData 512 (fun i => (disk i).bytes) cur minusOne data entries v)
    (hv : ∀ i ∈ v, i < COMMON_INDICATOR_32) (hne : entries ≠ .nil) :
    NoBlock disk (uint32 (data % 2 ^ 64)) ↔ entries.nameScan := by
  have hlt : data < COMMON_INDICATOR_32 := by
    rcases hd.start with ⟨hnil, -⟩ | ⟨-, hmem⟩
    · exact absurd hnil hne
    · exact hv _ hmem
  have hmod : uint32 (data % 2 ^ 64) = data := by
    unfold COMMON_INDICATOR_32 at hlt
    unfold uint32
    omega
  rw [hmod]
  exact scanList_dirData hd hv hne

/-- **Enough for a launch.** -/
theorem onlyPrograms_of_launchable (hsource : o.source = some (dirName, l))
    (hrun : makeListfs o = some image) (hbs : o.blockSize = 512)
    (hcount : o.blockCount.toNat ≤ COMMON_INDICATOR_32) (hl : l.NoneEmpty)
    (hn : ∀ h ∈ l.visible.heads, h.Named) (hname : ∀ b ∈ name, b ≠ 0)
    (h : Launchable o (l.visible.entry? name)) : OnlyPrograms image l name := by
  intro disk rest tail hdisk
  obtain ⟨n, r, hfind, hfinds⟩ :=
    image_finds hsource hrun hbs hcount hl hn hname rest tail hdisk
  obtain ⟨-, hlt, hsize, -⟩ := image_dirData hsource hrun hbs hcount hl
  have hu : ∀ i ∈ image.allocated, i < COMMON_INDICATOR_32 :=
    fun i hi => Nat.lt_of_lt_of_le (hlt i hi) hsize
  unfold Listing.program?
  cases he : l.visible.entry? name with
  | none =>
    rw [he] at hfinds
    obtain rfl : r = none := hfinds
    refine ⟨n, ?_, fun _ hc => nomatch hc⟩
    unfold isThereExe findFile
    rw [hfind]
    rfl
  | some e =>
    rw [he] at hfinds h
    obtain ⟨cur, data, v, rfl, hdata, hv, hentry⟩ := hfinds
    have hv' : ∀ i ∈ v, i < COMMON_INDICATOR_32 := fun i hi => hu i (hv hi)
    cases e with
    | dir entries =>
      rw [launches_none_iff hfind, hdata]
      exact ((dir_noBlock_iff hentry hv' (hl.2.entry he)).mpr h).pointer rest
    | leaf kind =>
      cases kind with
      | closedFile => cases h
      | closedDir => cases h
      | special =>
        obtain ⟨rfl, -⟩ := hentry
        rw [launches_none_iff hfind, hdata]
        exact ((special_noBlock_iff hsource hrun hbs hcount hl hdisk).mpr h).pointer rest
      | file content =>
        have hdataLt := hv' data (FileData.list_mem hentry)
        have hmod : data % 2 ^ 64 = data :=
          Nat.mod_eq_of_lt (Nat.lt_trans hdataLt (by decide))
        have hmod' : uint32 data = data := Nat.mod_eq_of_lt (Nat.lt_trans hdataLt (by decide))
        rw [hmod] at hdata
        obtain ⟨p, hp, hempty, hholds⟩ := getFileDataPointer_short rest hentry hv' h
        obtain ⟨hfile, hexe⟩ := findFile_some hfind (by rw [hdata, hmod']; exact hp)
        dsimp only
        by_cases hc : content = []
        · rw [if_pos hc]
          refine ⟨n, ?_, fun _ hc => nomatch hc⟩
          rw [hexe, hempty hc]
          rfl
        · obtain ⟨hmem, hdata'⟩ := hholds hc
          rw [if_neg hc]
          refine ⟨n, ?_, ?_⟩
          · rw [hexe, decide_eq_true (Nat.ne_of_lt (hv' p hmem))]
            rfl
          · intro content' hc'
            obtain rfl := Option.some.inj hc'
            exact ⟨p, cur, v, hfile, hfind, hdata ▸ hentry, hv, hmem, hdata'⟩

theorem Launches.pointer_ne {disk : Disk} {rest fileName content : List UInt8} {first n cur : Nat}
    {blocks : List Nat} (h : Launches disk rest fileName first blocks (some content))
    (hfind : findHeader disk rest fileName n first = some (some cur)) :
    getFileDataPointer disk rest (uint32 (headerData (bufferAt disk rest cur))) ≠
      some COMMON_INDICATOR_32 := by
  intro hp
  obtain ⟨fuel, hexe, hdata⟩ := h
  obtain ⟨-, cur', -, -, hfind', -⟩ := hdata content rfl
  obtain rfl := Option.some.inj (findHeader_unique hfind' hfind)
  rw [(findFile_some hfind' hp).2] at hexe
  cases hexe

/-- The image with a sector of zeros for the block `-1`. -/
def zeroBehind (image : Builder) : Disk := fun i =>
  if i = COMMON_INDICATOR_32 then .ofBytes [] else image.disk i

theorem zeroBehind_eq (hsize : image.fsHeader.size ≤ COMMON_INDICATOR_32) :
    ∀ i < image.fsHeader.size, zeroBehind image i = image.disk i :=
  fun _ hi => if_neg (Nat.ne_of_lt (Nat.lt_of_lt_of_le hi hsize))

theorem zeroBehind_pointer {cur data : Nat}
    (hdata : headerData (bufferAt (zeroBehind image) [] cur) = data % 2 ^ 64) (h : data = minusOne) :
    getFileDataPointer (zeroBehind image) []
      (uint32 (headerData (bufferAt (zeroBehind image) [] cur))) ≠ some COMMON_INDICATOR_32 := by
  have hmod : uint32 (minusOne % 2 ^ 64) = COMMON_INDICATOR_32 := by decide
  have hzero : zeroBehind image COMMON_INDICATOR_32 = .ofBytes [] := if_pos rfl
  have hend : COMMON_INDICATOR_64 ∉ words64 (Sector.ofBytes []).bytes := by decide +kernel
  rw [hdata, h, hmod]
  intro hp
  apply hend
  unfold getFileDataPointer at hp
  rw [words64_sector, hzero] at hp
  have hmem := scanList_isSome_iff.mp ⟨_, hp⟩
  have hnil : words64 [] = [] := rfl
  rwa [hnil, List.append_nil] at hmem

theorem long_pointer {disk : Disk} {content : List UInt8} {list : Nat} {u : List Nat}
    (h : FileData 512 (fun i => (disk i).bytes) u list content)
    (hu : ∀ i ∈ u, i < COMMON_INDICATOR_32) (hle : 63 * 512 ≤ content.length) :
    getFileDataPointer disk (escape COMMON_INDICATOR_32) list = some COMMON_INDICATOR_32 := by
  obtain ⟨ws, -, hall, hwords⟩ := words64_long (escape COMMON_INDICATOR_32) h hu hle
  have hmem : COMMON_INDICATOR_64 ∉ ws := fun hm => ne_of_lt_indicator (hall _ hm) rfl
  unfold getFileDataPointer
  rw [hwords, scanList_escape hmem (by decide)]
  rfl

/-- **What a launch needs.** -/
theorem launchable_of_onlyPrograms (hsource : o.source = some (dirName, l))
    (hrun : makeListfs o = some image) (hbs : o.blockSize = 512)
    (hcount : o.blockCount.toNat ≤ COMMON_INDICATOR_32) (hl : l.NoneEmpty)
    (hn : ∀ h ∈ l.visible.heads, h.Named) (hname : ∀ b ∈ name, b ≠ 0)
    (h : OnlyPrograms image l name) : Launchable o (l.visible.entry? name) := by
  obtain ⟨hd, hlt, hsize, -⟩ := image_dirData hsource hrun hbs hcount hl
  have hu : ∀ i ∈ image.allocated, i < COMMON_INDICATOR_32 :=
    fun i hi => Nat.lt_of_lt_of_le (hlt i hi) hsize
  cases he : l.visible.entry? name with
  | none => trivial
  | some e =>
    -- the header that the search comes to, and the launch, on a disk with the image
    have hsearch : ∀ (disk : Disk) (rest : List UInt8),
        (∀ i < image.fsHeader.size, disk i = image.disk i) →
        ∃ n cur data v, findHeader disk rest (name ++ [0]) n (uint32 image.fsHeader.firstFile) =
            some (some cur) ∧ headerData (bufferAt disk rest cur) = data % 2 ^ 64 ∧
          v ⊆ image.allocated ∧ EntryData disk v cur data e := by
      intro disk rest hdisk
      obtain ⟨n, r, hfind, hfinds⟩ :=
        image_finds hsource hrun hbs hcount hl hn hname rest [] hdisk
      rw [he] at hfinds
      obtain ⟨cur, data, v, rfl, hdata, hv, hentry⟩ := hfinds
      exact ⟨n, cur, data, v, hfind, hdata, hv, hentry⟩
    have hlaunch := fun disk rest => h disk rest []
    unfold Listing.program? at hlaunch
    rw [he] at hlaunch
    have hsame : ∀ i < image.fsHeader.size, image.disk i = image.disk i := fun _ _ => rfl
    cases e with
    | dir entries =>
      obtain ⟨n, cur, data, v, hfind, hdata, hv, hentry⟩ := hsearch image.disk (escape 5) hsame
      have hp := (launches_none_iff hfind).mp (hlaunch _ _ hsame)
      rw [hdata] at hp
      exact (dir_noBlock_iff hentry (fun i hi => hu i (hv hi)) (hl.2.entry he)).mp
        (noBlock_of_pointer hp)
    | leaf kind =>
      cases kind with
      | closedFile =>
        obtain ⟨n, cur, data, v, hfind, hdata, -, hentry⟩ := hsearch _ [] (zeroBehind_eq hsize)
        exact absurd ((launches_none_iff hfind).mp (hlaunch _ _ (zeroBehind_eq hsize)))
          (zeroBehind_pointer hdata hentry.1)
      | closedDir =>
        obtain ⟨n, cur, data, v, hfind, hdata, -, hentry⟩ := hsearch _ [] (zeroBehind_eq hsize)
        exact absurd ((launches_none_iff hfind).mp (hlaunch _ _ (zeroBehind_eq hsize)))
          (zeroBehind_pointer hdata hentry.1)
      | special =>
        obtain ⟨n, cur, data, v, hfind, hdata, hv, rfl, -⟩ := hsearch image.disk (escape 5) hsame
        have hp := (launches_none_iff hfind).mp (hlaunch _ _ hsame)
        rw [hdata] at hp
        exact (special_noBlock_iff hsource hrun hbs hcount hl hsame).mp (noBlock_of_pointer hp)
      | file content =>
        by_contra hlong
        have hle : 63 * 512 ≤ content.length := Nat.not_lt.mp hlong
        have hc : content ≠ [] := by
          rintro rfl
          exact absurd hle (by decide)
        obtain ⟨n, cur, data, v, hfind, hdata, hv, hentry⟩ :=
          hsearch image.disk (escape COMMON_INDICATOR_32) hsame
        have hdataLt := hu data (hv (FileData.list_mem hentry))
        have hmod : uint32 (data % 2 ^ 64) = data := by
          unfold COMMON_INDICATOR_32 at hdataLt
          unfold uint32
          omega
        have hl' := hlaunch image.disk (escape COMMON_INDICATOR_32) hsame
        dsimp only at hl'
        rw [if_neg hc] at hl'
        apply hl'.pointer_ne hfind
        rw [hdata, hmod]
        exact long_pointer hentry (fun i hi => hu i (hv hi)) hle

/-- **Only programs are launched**, for which names. -/
theorem onlyPrograms_iff (hsource : o.source = some (dirName, l))
    (hrun : makeListfs o = some image) (hbs : o.blockSize = 512)
    (hcount : o.blockCount.toNat ≤ COMMON_INDICATOR_32) (hl : l.NoneEmpty)
    (hn : ∀ h ∈ l.visible.heads, h.Named) (hname : ∀ b ∈ name, b ≠ 0) :
    OnlyPrograms image l name ↔ Launchable o (l.visible.entry? name) :=
  ⟨launchable_of_onlyPrograms hsource hrun hbs hcount hl hn hname,
    onlyPrograms_of_launchable hsource hrun hbs hcount hl hn hname⟩

/-- A boot sector, and 128 blocks for a directory with a file in it. -/
def nestedOptions : Options :=
  ⟨512, 128, some (List.replicate 512 0), some ([115], nestedListing), 0, zeros⟩

theorem makeListfs_nested : ∃ image, makeListfs nestedOptions = some image := by
  have hok : (makeListfs nestedOptions).isSome = true := by decide +kernel
  exact Option.isSome_iff_exists.mp hok

theorem noneEmpty_nested : nestedListing.NoneEmpty := ⟨nofun, nofun, trivial, trivial⟩

theorem onlyPrograms_iff_nested : ∃ image, makeListfs nestedOptions = some image ∧
    (OnlyPrograms image nestedListing [100] ↔
      Launchable nestedOptions (nestedListing.visible.entry? [100])) := by
  obtain ⟨image, hrun⟩ := makeListfs_nested
  exact ⟨image, hrun, onlyPrograms_iff rfl hrun rfl (by decide) noneEmpty_nested named_nested
    (by decide +kernel)⟩

/-- **A directory is launched**: the scan of its first header finds the number `0`. -/
theorem directory_launched : ∃ image, makeListfs nestedOptions = some image ∧
    nestedListing.program? [100] = none ∧ ¬ OnlyPrograms image nestedListing [100] := by
  obtain ⟨image, hrun⟩ := makeListfs_nested
  refine ⟨image, hrun, rfl, fun h => ?_⟩
  have hscan : scanList (words64 (nameField [102]) ++ [COMMON_INDICATOR_64]) COMMON_INDICATOR_32 =
      some COMMON_INDICATOR_32 :=
    launchable_of_onlyPrograms rfl hrun rfl (by decide) noneEmpty_nested named_nested
      (by decide +kernel) h
  revert hscan
  decide +kernel

end

end C4os
