import C4os.ListFs.Directory
import C4os.ListFs.RootListing

/-!
# The image as a tree (`make_listfs.c`)

* `Decoded`: a directory as it is read back; `decodeFile`, `decodeDir`: the decoders, with fuel for
  the lists and links.
* `IsTree`: the directory that was read is the one that was stored.
* `decodeFile_spec`, `decodeDir_spec`: what is read of a stored file and of a stored directory.
* `Listing.Regular`: regular files and directories with entries and names; `RoundTrip`: the image
  is built, and it decodes to the tree.
* **`roundTrip_iff`**: when it does.
-/

namespace C4os

open Blocks LittleEndian Outcome

/-! ## The decoders -/

/-- The entries of a directory, each with its block and the fields of its header. -/
inductive Decoded where
  | nil
  | file (cur : Nat) (name : List UInt8) (prev parent size : Nat) (bytes : List UInt8) (rest : Decoded)
  | dir (cur : Nat) (name : List UInt8) (prev parent size : Nat) (entries rest : Decoded)

/-- The blocks in the lists of a file, from the list `list` on. -/
def decodeFile (bs : Nat) (blk : Nat → List UInt8) : Nat → Nat → Option (List UInt8)
  | 0, _ => none
  | fuel + 1, list =>
    if list = minusOne then some []
    else
      (words64 (blk list))[listEntries bs]?.bind fun next =>
        (decodeFile bs blk fuel next).map fun bytes =>
          (((words64 (blk list)).take (listEntries bs)).takeWhile (· ≠ minusOne)).flatMap blk ++ bytes

/-- The chain of headers from the block `cur` on. Bit `0` of the flags is the one of a directory. -/
def decodeDir (bs : Nat) (blk : Nat → List UInt8) : Nat → Nat → Option Decoded
  | 0, _ => none
  | fuel + 1, cur =>
    if cur = minusOne then some .nil
    else
      (cString (blk cur)).bind fun name =>
        (decodeDir bs blk fuel (headerNext (blk cur))).bind fun rest =>
          if headerFlags (blk cur) &&& 1 <<< 0 ≠ 0 then
            (decodeDir bs blk fuel (headerData (blk cur))).map fun entries =>
              .dir cur name (headerPrev (blk cur)) (headerParent (blk cur)) (headerSize (blk cur))
                entries rest
          else
            (decodeFile bs blk fuel (headerData (blk cur))).map fun bytes =>
              .file cur name (headerPrev (blk cur)) (headerParent (blk cur)) (headerSize (blk cur))
                bytes rest

/-- The bytes of a file, filled up with zeros to whole blocks. -/
def padded (bs : Nat) (content : List UInt8) : List UInt8 :=
  content ++ List.replicate (bs * ((content.length + bs - 1) / bs) - content.length) 0

/-- What was read is the directory, in the same order: names, kinds, sizes and bytes; `prev` is the
block of the entry before, whose link leads here, and `parent` the block of the directory. -/
inductive IsTree (bs : Nat) : Nat → Nat → Decoded → Listing → Prop where
  | nil {parent prev : Nat} : IsTree bs parent prev .nil .nil
  | file {parent prev cur : Nat} {name content : List UInt8} {stat : Stat} {t : Decoded} {l : Listing}
      (rest : IsTree bs parent cur t l) :
      IsTree bs parent prev (.file cur name prev parent content.length (padded bs content) t)
        (.leaf name stat (.file content) l)
  | dir {parent prev cur : Nat} {name : List UInt8} {stat : Stat} {t t' : Decoded} {l l' : Listing}
      (entries : IsTree bs cur minusOne t' l') (rest : IsTree bs parent cur t l) :
      IsTree bs parent prev (.dir cur name prev parent 0 t' t) (.dir name stat l' l)

/-! ## A stored file -/

section

variable {bs n m list : Nat} {blk : Nat → List UInt8} {u data : List Nat} {content l : List UInt8}

theorem flatten_chunks_padded (hbs : 0 < bs) (h : l.length ≤ n * bs) :
    (chunks bs n l).flatten = padded bs l := by
  have hle : (l.length + bs - 1) / bs ≤ n := by
    apply Nat.le_of_lt_succ
    rw [Nat.div_lt_iff_lt_mul hbs, Nat.succ_mul]
    omega
  rw [flatten_chunks h, length_chunks hbs, Nat.min_eq_right hle]
  rfl

theorem words64_isList {b : List UInt8} {entries : List Nat} {next : Nat} (h : IsList b entries next)
    (hlt : ∀ w ∈ entries ++ [next], w < 2 ^ 64) :
    ∃ ws, words64 b = entries ++ next :: ws := by
  refine ⟨words64 (b.drop (8 * (entries.length + 1))), ?_⟩
  have hb := List.take_append_drop (8 * (entries.length + 1)) b
  rw [show b.take (8 * (entries.length + 1)) = _ from h] at hb
  rw [← hb, words64_flatMap hlt, List.append_assoc, hb]
  rfl

theorem takeWhile_data (h : ∀ i ∈ data, i ≠ minusOne) (k : Nat) :
    (data ++ List.replicate k minusOne).takeWhile (· ≠ minusOne) = data := by
  induction data with
  | nil =>
    cases k with
    | zero => rfl
    | succ k => exact List.takeWhile_cons_of_neg (by simp)
  | cons i data ih =>
    rw [List.cons_append, List.takeWhile_cons_of_pos (by simpa using h i List.mem_cons_self),
      ih fun j hj => h j (List.mem_cons_of_mem i hj)]

theorem decodeFile_list {entries : List Nat} {next fuel : Nat} {bytes : List UInt8}
    (hlist : list ≠ minusOne) (h : IsList (blk list) entries next)
    (hlen : entries.length = listEntries bs) (hlt : ∀ w ∈ entries ++ [next], w < 2 ^ 64)
    (hnext : decodeFile bs blk fuel next = some bytes) :
    decodeFile bs blk (fuel + 1) list =
      some ((entries.takeWhile (· ≠ minusOne)).flatMap blk ++ bytes) := by
  obtain ⟨ws, hws⟩ := words64_isList h hlt
  have hget : (entries ++ next :: ws)[listEntries bs]? = some next := by
    rw [← hlen, List.getElem?_append_right (Nat.le_refl _), Nat.sub_self]
    rfl
  rw [decodeFile, if_neg hlist, hws, hget, Option.bind_some, hnext, ← hlen, List.take_left]
  rfl

/-- **A stored file is read back.** -/
theorem decodeFile_spec (hbs : 0 < bs) (h : FileData bs blk u list content)
    (hu : ∀ i ∈ u, i < minusOne) :
    ∃ N, ∀ fuel, N ≤ fuel → decodeFile bs blk fuel list = some (padded bs content) := by
  have hend : minusOne < 2 ^ 64 := by decide
  induction h with
  | @last list data content short isList hchunks =>
    have hdata : ∀ i ∈ data, i < minusOne := fun i hi => hu i (List.mem_cons_of_mem _ hi)
    have hle : data.length ≤ listEntries bs := by
      rw [← List.length_map, hchunks, length_chunks hbs]
      exact Nat.min_le_left _ _
    refine ⟨2, fun fuel hfuel => ?_⟩
    obtain ⟨fuel, rfl⟩ := Nat.exists_eq_add_of_le' hfuel
    rw [decodeFile_list (Nat.ne_of_lt (hu list List.mem_cons_self)) isList _ _
      (show decodeFile bs blk (fuel + 1) minusOne = some [] from if_pos rfl),
      takeWhile_data fun i hi => Nat.ne_of_lt (hdata i hi), List.append_nil, List.flatMap_def, hchunks,
      flatten_chunks_padded hbs (Nat.le_of_lt short)]
    · rw [List.length_append, List.length_replicate]
      omega
    · intro w hw
      rw [List.mem_append, List.mem_append] at hw
      rcases hw with (hw | hw) | hw
      · exact Nat.lt_trans (hdata w hw) hend
      · rwa [List.eq_of_mem_replicate hw]
      · rwa [List.mem_singleton.mp hw]
  | @more list next data u content long isList hchunks htail ih =>
    obtain ⟨N, hN⟩ := ih fun i hi => hu i (List.mem_cons_of_mem _ (List.mem_append_right _ hi))
    have hdata : ∀ i ∈ data, i < minusOne :=
      fun i hi => hu i (List.mem_cons_of_mem _ (List.mem_append_left _ hi))
    have hnext : next < minusOne :=
      hu next (List.mem_cons_of_mem _ (List.mem_append_right _ htail.list_mem))
    have hlen : data.length = listEntries bs := by
      rw [← List.length_map, hchunks, length_chunks_of_le hbs long]
    have hall : (chunks bs (listEntries bs) content).flatten ++
        padded bs (content.drop (listEntries bs * bs)) = padded bs content := by
      have hrest : (content.drop (listEntries bs * bs)).length ≤
          (content.drop (listEntries bs * bs)).length * bs := Nat.le_mul_of_pos_right _ hbs
      rw [← flatten_chunks_padded hbs hrest, ← List.flatten_append, ← chunks_append,
        flatten_chunks_padded hbs]
      rw [Nat.add_mul]
      rw [List.length_drop] at hrest ⊢
      omega
    refine ⟨N + 1, fun fuel hfuel => ?_⟩
    obtain ⟨fuel, rfl⟩ : ∃ n, fuel = n + 1 := ⟨fuel - 1, by omega⟩
    rw [decodeFile_list (Nat.ne_of_lt (hu list List.mem_cons_self)) isList hlen _
      (hN fuel (Nat.le_of_succ_le_succ hfuel))]
    · have hwhole := takeWhile_data (fun i hi => Nat.ne_of_lt (hdata i hi)) 0
      rw [List.replicate_zero, List.append_nil] at hwhole
      rw [hwhole, List.flatMap_def, hchunks, hall]
    · intro w hw
      rcases List.mem_append.mp hw with hw | hw
      · exact Nat.lt_trans (hdata w hw) hend
      · rw [List.mem_singleton.mp hw]
        exact Nat.lt_trans hnext hend

end

/-! ## A stored directory -/

namespace Listing

/-- Regular files and directories with entries, with names of `1` to `255` bytes. -/
def Regular : Listing → Prop
  | nil => True
  | leaf name _ kind rest =>
    (name ≠ [] ∧ name.length ≤ 255 ∧ ∀ b ∈ name, b ≠ 0) ∧ (∃ content, kind = .file content) ∧
      rest.Regular
  | dir name _ entries rest =>
    (name ≠ [] ∧ name.length ≤ 255 ∧ ∀ b ∈ name, b ≠ 0) ∧ entries ≠ nil ∧ entries.Regular ∧
      rest.Regular

end Listing

section

variable {bs parent prev cur next data fuel : Nat} {blk : Nat → List UInt8} {u : List Nat}
  {l : Listing} {h : Head}

theorem Listing.Regular.inhabited (h : l.Regular) : l.Inhabited := by
  induction l with
  | nil => trivial
  | leaf name stat kind rest ih => exact ih h.2.2
  | dir name stat entries rest ihe ih => exact ⟨h.2.1, ihe h.2.2.1, ih h.2.2.2⟩

theorem DirData.start_le (h : DirData bs blk parent prev cur l u) (hu : ∀ i ∈ u, i < minusOne) :
    cur ≤ minusOne := by
  rcases h.start with ⟨-, rfl⟩ | ⟨-, hmem⟩
  · exact Nat.le_refl _
  · exact Nat.le_of_lt (hu cur hmem)

/-- **One header** is read. -/
theorem decodeDir_header (hbs : fileHeaderSize ≤ bs)
    (hblk : blk cur = (h.header parent prev next data).bytes bs) (hcur : cur < minusOne) (hn : h.Named)
    (hparent : parent ≤ minusOne) (hprev : prev ≤ minusOne) (hnext : next ≤ minusOne)
    (hdata : data ≤ minusOne) (hsize : h.size < 2 ^ 64) :
    decodeDir bs blk (fuel + 1) cur = (decodeDir bs blk fuel next).bind fun rest =>
      if h.isDir then
        (decodeDir bs blk fuel data).map fun entries =>
          .dir cur h.name prev parent h.size entries rest
      else
        (decodeFile bs blk fuel data).map fun bytes =>
          .file cur h.name prev parent h.size bytes rest := by
  have hmod : ∀ x, x ≤ minusOne → x % 2 ^ 64 = x :=
    fun x hx => Nat.mod_eq_of_lt (Nat.lt_of_le_of_lt hx (by decide))
  obtain ⟨h1, h2, h3, h4, h5, h6, h7⟩ := headerBytes_fields hbs (h.header parent prev next data) []
  rw [List.append_nil, ← hblk] at h1 h2 h3 h4 h5 h6 h7
  have hflag : headerFlags (blk cur) &&& 1 <<< 0 ≠ 0 ↔ h.isDir = true := by
    rw [h4]
    show (if h.isDir then 1 else 0) % 2 ^ 64 &&& 1 <<< 0 ≠ 0 ↔ _
    cases h.isDir <;> decide
  have hname : cString (blk cur) = some h.name := h7 hn.1 hn.2
  rw [decodeDir, if_neg (Nat.ne_of_lt hcur), hname, Option.bind_some,
    h1.trans (hmod next hnext), h2.trans (hmod prev hprev), h3.trans (hmod parent hparent),
    h5.trans (hmod data hdata), h6.trans (Nat.mod_eq_of_lt hsize)]
  exact congrArg _ (funext fun rest => if_congr hflag rfl rfl)

theorem le_mul_fileBlocks (hbs : 0 < bs) (len : Nat) : len ≤ bs * fileBlocks bs len := by
  have hdiv := Nat.div_add_mod (len + bs - 1) bs
  have hmod := Nat.mod_lt (len + bs - 1) hbs
  have hle : bs * ((len + bs - 1) / bs) ≤ bs * fileBlocks bs len :=
    Nat.mul_le_mul_left bs (Nat.le_add_right _ _)
  omega

/-- **A stored directory is read back.** -/
theorem decodeDir_spec (hbs : fileHeaderSize ≤ bs) (h : DirData bs blk parent prev cur l u)
    (hl : l.Regular) (hu : ∀ i ∈ u, i < minusOne) (hparent : parent ≤ minusOne)
    (hprev : prev ≤ minusOne) (hsize : bs * l.blocks bs < 2 ^ 64) :
    ∃ N t, IsTree bs parent prev t l ∧ ∀ fuel, N ≤ fuel → decodeDir bs blk fuel cur = some t := by
  have hpos : 0 < bs := Nat.lt_of_lt_of_le (by decide) hbs
  induction h with
  | nil =>
    refine ⟨1, .nil, .nil, fun fuel hfuel => ?_⟩
    obtain ⟨fuel, rfl⟩ := Nat.exists_eq_add_of_le' hfuel
    exact if_pos rfl
  | @leaf parent prev cur next data name stat kind rest u v header leafData tail ih =>
    obtain ⟨⟨-, hname⟩, ⟨content, rfl⟩, hrest⟩ := hl
    have hu₁ : ∀ i ∈ u, i < minusOne :=
      fun i hi => hu i (List.mem_cons_of_mem _ (List.mem_append_left _ hi))
    have hu₂ : ∀ i ∈ v, i < minusOne :=
      fun i hi => hu i (List.mem_cons_of_mem _ (List.mem_append_right _ hi))
    have hcur := hu cur List.mem_cons_self
    rw [Listing.blocks, Nat.mul_add, Nat.mul_add] at hsize
    have hlen : content.length < 2 ^ 64 := by
      have hle : content.length ≤ bs * Listing.leafBlocks bs (.file content) :=
        le_mul_fileBlocks hpos content.length
      omega
    obtain ⟨N, t, htree, ht⟩ := ih hrest hu₂ hparent (Nat.le_of_lt hcur) (by omega)
    obtain ⟨M, hM⟩ := decodeFile_spec hpos leafData hu₁
    refine ⟨max N M + 1, _, .file htree, fun fuel hfuel => ?_⟩
    obtain ⟨fuel, rfl⟩ : ∃ n, fuel = n + 1 := ⟨fuel - 1, by omega⟩
    rw [decodeDir_header hbs header hcur hname hparent hprev (tail.start_le hu₂)
      (Nat.le_of_lt (hu₁ data (FileData.list_mem leafData))) hlen, ht fuel (by omega),
      hM fuel (by omega)]
    rfl
  | @dir parent prev cur next data name stat entries rest u v header children tail ihe ih =>
    obtain ⟨⟨-, hname⟩, -, hentries, hrest⟩ := hl
    have hu₁ : ∀ i ∈ u, i < minusOne :=
      fun i hi => hu i (List.mem_cons_of_mem _ (List.mem_append_left _ hi))
    have hu₂ : ∀ i ∈ v, i < minusOne :=
      fun i hi => hu i (List.mem_cons_of_mem _ (List.mem_append_right _ hi))
    have hcur := hu cur List.mem_cons_self
    rw [Listing.blocks, Nat.mul_add, Nat.mul_add] at hsize
    obtain ⟨N, t, htree, ht⟩ := ih hrest hu₂ hparent (Nat.le_of_lt hcur) (by omega)
    obtain ⟨M, t', htree', ht'⟩ :=
      ihe hentries hu₁ (Nat.le_of_lt hcur) (Nat.le_refl _) (by omega)
    refine ⟨max N M + 1, _, .dir htree' htree, fun fuel hfuel => ?_⟩
    obtain ⟨fuel, rfl⟩ : ∃ n, fuel = n + 1 := ⟨fuel - 1, by omega⟩
    rw [decodeDir_header hbs header hcur hname hparent hprev (tail.start_le hu₂)
      (children.start_le hu₁) (Nat.two_pow_pos 64), ht fuel (by omega), ht' fuel (by omega)]
    rfl

end

/-! ## The round trip -/

/-- The image is built, and from `first_file` on it decodes to the tree. -/
def RoundTrip (s : Builder) (dirName : List UInt8) (l : Listing) : Prop :=
  ∃ first s', processDir minusOne dirName l s = .ok first s' ∧
    ∃ N t, IsTree s.blockSize minusOne minusOne t l.visible ∧
      ∀ fuel, N ≤ fuel → decodeDir s.blockSize s'.block fuel first = some t

section

variable {s : Builder} {dirName : List UInt8} {l : Listing}

theorem length_free_le (s : Builder) : s.free.length ≤ s.fsHeader.size := by
  unfold Builder.free
  exact (List.length_filter_le _ _).trans (Nat.le_of_eq List.length_range)

/-- **The image decodes to the source tree exactly if headers fit into blocks and paths into
`file_name`.** -/
theorem roundTrip_iff (hs : s.Ready) (hb : 0 < s.blockSize) (hne : l.visible ≠ .nil)
    (hl : l.visible.Regular) (hfree : l.visible.blocks s.blockSize ≤ s.free.length) :
    RoundTrip s dirName l ↔ l.visible.Fits s.blockSize dirName := by
  have hends : Ends _ _ (processEntries minusOne dirName l.visible minusOne none minusOne s) :=
    processEntries_ends l.visible hs hb (noDots_visible l) hl.inhabited .none fun _ => hne
  unfold RoundTrip processDir
  rw [processEntries_visible]
  constructor
  · rintro ⟨first, s', hrun, -⟩
    exact (hends.of_ok hrun).1
  · intro hfits
    obtain ⟨first, s', hrun, -, cur, u, w, hg, -, -, hdir, hcur, -⟩ := hends.returns (by
      rintro e s' ⟨-, u, w, hg, -, ⟨hnone, hlen⟩ | hnot⟩
      · have hu := hg.free
        rw [hnone, List.append_nil] at hu
        rw [hu] at hfree
        omega
      · exact hnot hfits)
    rw [if_neg (not_not.mpr rfl)] at hcur
    subst hcur
    have hu : ∀ i ∈ u, i < minusOne := by
      intro i hi
      have hi' := lt_of_mem_free (hg.mem_free hi)
      have hle : s.fsHeader.size ≤ s.blockSize * s.fsHeader.size := Nat.le_mul_of_pos_left _ hb
      have := hs.offsets
      unfold minusOne
      omega
    have hsize : s.blockSize * l.visible.blocks s.blockSize < 2 ^ 64 := by
      have hle := Nat.mul_le_mul_left s.blockSize (hfree.trans (length_free_le s))
      have := hs.offsets
      omega
    have hbs : fileHeaderSize ≤ s.blockSize := by
      cases hv : l.visible with
      | nil => exact absurd hv hne
      | leaf => exact (hv ▸ hfits).1.1
      | dir => exact (hv ▸ hfits).1.1
    exact ⟨first, s', hrun, decodeDir_spec hbs hdir hl hu (Nat.le_refl _) (Nat.le_refl _) hsize⟩

theorem roundTrip_iff_nested :
    RoundTrip emptyImage [115] nestedListing ↔ nestedListing.visible.Fits 512 [115] := by
  have hl : nestedListing.Regular :=
    ⟨⟨by decide, by decide, by decide +kernel⟩, nofun,
      ⟨⟨by decide, by decide, by decide +kernel⟩, ⟨[7], rfl⟩, trivial⟩, trivial⟩
  have hfree : nestedListing.visible.blocks 512 ≤ emptyImage.free.length := by
    rw [length_free_emptyImage]
    decide
  exact roundTrip_iff emptyImage_ready (by decide) nofun hl hfree

/-- A directory whose name has 255 bytes, and a file `abc` in it. -/
def longPathListing : Listing :=
  .dir (List.replicate 255 100) ⟨0, 0, 0⟩ (.leaf [97, 98, 99] ⟨0, 0, 0⟩ (.file []) .nil) .nil

/-- **A long path overruns `file_name`.** -/
theorem long_path_overruns : ¬ RoundTrip emptyImage [115] longPathListing := by
  have hover : (match processDir minusOne [115] longPathListing emptyImage with
    | .ok _ _ => false
    | .error _ _ => true) = true := by decide +kernel
  rintro ⟨first, s', hrun, -⟩
  rw [hrun] at hover
  cases hover

end

end C4os
