import C4os.ListFs.Programs

/-!
# Paths (`load_file` in `boot.asm`)

* `splitFileName`, `resolvePath`, `loadFile`: the functions of the boot loader.
* `Listing.firstFile`: the first file on a path through a source directory.
* `dirData_find`: a stored directory as a chain, and what the search in it ends with.
* `resolvePath_dirData`: a path is followed through the stored directories.
* **`loadFile_firstFile`**: the boot loader loads the first file on a path.
-/

namespace C4os

open Blocks LittleEndian

/-! ## The loader -/

/-- `split_file_name`: the string at `DS:SI`, cut at the first `/`, and the memory from `AX` on. The
`0` that it stores over the `/` stands in the string that `find_file` is given; the path is no part of
the memory that `loadFile` returns. -/
def splitFileName : List UInt8 → Option (List UInt8 × List UInt8)
  | [] => none
  | al :: si =>
    if al = 0x2F ∨ al = 0 then some ([], si)
    else (splitFileName si).map fun r => (al :: r.1, r.2)

/-- `byte[f_info + off]`. -/
def field8 (off : Nat) (mem : List UInt8) : Nat := decode ((mem.drop off).take 1)

/-- The loop of `load_file` over the names in the path at `DS:SI`, in the directory `DX:AX`: the
sector of the header that is left at `f_info`, or `NOT FOUND`. -/
def resolvePath (disk : Disk) (rest : List UInt8) (fuel : Nat) :
    Nat → List UInt8 → Nat → Nat → Option (Option Nat)
  | 0, _, _, _ => none
  | n + 1, si, dx, ax =>
    (splitFileName si).bind fun name =>
      (bootFindFile disk rest (name.1 ++ 0 :: name.2) fuel dx ax).bind fun found =>
        match found with
        | none => some none
        | some cur =>
          let fInfo := bufferAt disk rest cur
          if field8 280 fInfo &&& 1 = 0 then some (some cur)
          else resolvePath disk rest fuel n name.2 (field16 290 fInfo) (field16 288 fInfo)

/-- `fs_first_file`, in the boot sector at `0x7C00`. -/
def fsFirstFile : Nat := 0x7C00 + 48

/-- The memory behind the buffer at `f_info`. -/
def behindInfo (m : Bytes) : List UInt8 := (List.range (2 ^ 16 - 0xA00)).map fun i => m (0xA00 + i)

/-- `load_file`: the file with the path at `DS:SI` is loaded to `BX:0`, or `NOT FOUND`. -/
def loadFile (disk : Disk) (fuel n bx : Nat) (si : List UInt8) (m : Bytes) :
    Option (Option (Nat × Load)) :=
  (resolvePath disk (behindInfo m) fuel n si (memWord m (fsFirstFile + 2))
      (memWord m fsFirstFile)).bind fun found =>
    match found with
    | none => some none
    | some cur =>
      (loadFileData disk fuel bx (overwrite m 0x800 (disk cur).bytes)).map some

/-! ## What stands on a path -/

/-- The names of a path, with `/` between them and a NUL behind them. -/
def pathString : List (List UInt8) → List UInt8 → List UInt8
  | [], tail => tail
  | [name], tail => name ++ 0 :: tail
  | name :: name' :: names, tail => name ++ 0x2F :: pathString (name' :: names) tail

/-- The bytes of the first file on the path, and `some none` if a name before it is in no directory.
Names behind the first file are not looked at, and a file that could not be opened has no bytes, as it
is stored. Paths that end in a directory or meet a special file are left out. -/
def Listing.firstFile : List (List UInt8) → Listing → Option (Option (List UInt8))
  | [], _ => none
  | name :: names, l =>
    match l.entry? name with
    | none => some none
    | some (.leaf (.file content)) => some (some content)
    | some (.leaf .closedFile) => some (some [])
    | some (.leaf .closedDir) => if names = [] then none else some none
    | some (.leaf .special) => none
    | some (.dir entries) => entries.firstFile names

/-- All names fit into their fields. -/
def Listing.Named : Listing → Prop
  | .nil => True
  | .leaf name _ _ rest => (name.length ≤ 255 ∧ ∀ b ∈ name, b ≠ 0) ∧ rest.Named
  | .dir name _ entries rest =>
    (name.length ≤ 255 ∧ ∀ b ∈ name, b ≠ 0) ∧ entries.Named ∧ rest.Named

/-- A name in a path. -/
def IsName (name : List UInt8) : Prop := ∀ b ∈ name, b ≠ 0x2F ∧ b ≠ 0

theorem splitFileName_append {name tail : List UInt8} {b : UInt8} (hname : IsName name)
    (hb : b = 0x2F ∨ b = 0) : splitFileName (name ++ b :: tail) = some (name, tail) := by
  induction name with
  | nil => exact if_pos hb
  | cons a name ih =>
    have ha := hname a List.mem_cons_self
    rw [List.cons_append, splitFileName, if_neg (not_or.mpr ha),
      ih fun c hc => hname c (List.mem_cons_of_mem a hc)]
    rfl

theorem splitFileName_pathString {name : List UInt8} (names : List (List UInt8)) (tail : List UInt8)
    (hname : IsName name) : ∃ tail', splitFileName (pathString (name :: names) tail) =
      some (name, tail') ∧ (names ≠ [] → tail' = pathString names tail) := by
  cases names with
  | nil => exact ⟨tail, splitFileName_append hname (Or.inr rfl), fun h => absurd rfl h⟩
  | cons name' names =>
    exact ⟨_, splitFileName_append hname (Or.inl rfl), fun _ => rfl⟩

/-! ## Headers -/

section

variable {disk : Disk} {rest name mem : List UInt8} {parent prev cur next data off : Nat} {h : Head}

theorem field16_field64 : field16 (off + 2) mem * 2 ^ 16 + field16 off mem =
    uint32 (field64 off mem) := by
  have h8 := decode_take_add 4 4 (mem.drop off)
  have h4 : decode ((mem.drop off).take 4) =
      decode ((mem.drop off).take 2) + 256 ^ 2 * decode ((mem.drop (off + 2)).take 2) := by
    rw [← show (mem.drop off).drop 2 = mem.drop (off + 2) from List.drop_drop]
    exact decode_take_add 2 2 (mem.drop off)
  have hlt : decode ((mem.drop off).take 4) < 256 ^ 4 := by
    refine Nat.lt_of_lt_of_le (decode_lt _) ?_
    exact Nat.pow_le_pow_right (by decide) (List.length_take_le 4 _)
  unfold uint32 field64 field16
  rw [h8]
  omega

theorem field16_div_mod : field16 (off + 2) mem = uint32 (field64 off mem) / 2 ^ 16 ∧
    field16 off mem = uint32 (field64 off mem) % 2 ^ 16 := by
  have h : field16 (off + 2) mem * 2 ^ 16 + field16 off mem = _ := field16_field64
  have h1 := field16_lt off mem
  omega

theorem field8_eq : field8 off mem = field64 off mem % 256 := by
  have h := decode_take_add 1 7 (mem.drop off)
  have hlt : decode ((mem.drop off).take 1) < 256 ^ 1 := by
    refine Nat.lt_of_lt_of_le (decode_lt _) ?_
    exact Nat.pow_le_pow_right (by decide) (List.length_take_le 1 _)
  unfold field8 field64
  rw [h]
  omega

theorem take_headerBytes (h : FileHeader) : (h.bytes 512).take 256 = nameField h.name := by
  have hlen : (nameField h.name).length = 256 := length_fillBuffer _ _ _
  unfold FileHeader.bytes
  rw [fillBuffer_zeros (by simp only [List.length_append, length_encode, hlen]; decide)]
  simp only [List.append_assoc]
  exact List.take_left' hlen

theorem header_read (header : (disk cur).bytes = (h.header parent prev next data).bytes 512)
    (hn : h.Named) (hnext : next ≤ minusOne) : 0 ∈ (disk cur).bytes.take 256 ∧
      headerName disk cur = some h.name ∧ headerNext (disk cur).bytes = next ∧
      headerFlags (disk cur).bytes = (if h.isDir then 1 else 0) ∧
      headerData (disk cur).bytes = data % 2 ^ 64 := by
  obtain ⟨h1, -, -, h4, h5, -, -⟩ :=
    headerBytes_fields (by decide : fileHeaderSize ≤ 512) (h.header parent prev next data) []
  have htake : (disk cur).bytes.take 256 = nameField h.name := by
    rw [header]
    exact take_headerBytes _
  obtain ⟨pad, hpad⟩ := nameField_eq hn.1
  rw [List.append_nil, ← header] at h1 h4 h5
  refine ⟨?_, ?_, ?_, ?_, h5⟩
  · rw [htake, hpad]
    exact List.mem_append_right _ List.mem_cons_self
  · unfold headerName
    rw [htake, hpad]
    exact cString_name hn.2 pad
  · rw [h1]
    exact Nat.mod_eq_of_lt (Nat.lt_of_le_of_lt hnext (by decide))
  · rw [h4]
    show (if h.isDir then 1 else 0) % 2 ^ 64 = _
    cases h.isDir <;> rfl

end

/-! ## A directory as a chain -/

/-- The flag of the entry's header. -/
def Entry.isDir : Entry → Bool
  | .leaf kind => kind.isDir
  | .dir _ => true

/-- The search for the entry `e` ends with `r`: the sector of its header, or nothing. -/
def Locates (disk : Disk) (u : List Nat) : Option Entry → Option Nat → Prop
  | none, r => r = none
  | some e, r => ∃ cur data v, r = some cur ∧
      headerFlags (disk cur).bytes = (if e.isDir then 1 else 0) ∧
      headerData (disk cur).bytes = data % 2 ^ 64 ∧ v ⊆ u ∧ EntryData disk v cur data e

section

variable {disk : Disk} {rest name tail : List UInt8} {parent prev cur next data fuel : Nat}
  {h : Head} {l : Listing} {u v : List Nat}

theorem Locates.mono {e : Option Entry} {r : Option Nat} (hf : Locates disk v e r) (hv : v ⊆ u) :
    Locates disk u e r := by
  cases e with
  | none => exact hf
  | some e =>
    obtain ⟨cur, data, w, hr, hflags, hdata, hw, he⟩ := hf
    exact ⟨cur, data, w, hr, hflags, hdata, fun i hi => hv (hw hi), he⟩

theorem locates_step {rest' : Listing} {e : Entry}
    (header : (disk cur).bytes = (h.header parent prev next data).bytes 512) (hn : h.Named)
    (hdir : h.isDir = e.isDir) (hcur : cur < COMMON_INDICATOR_32) (he : EntryData disk u cur data e)
    (hd : DirData 512 (fun i => (disk i).bytes) parent cur next rest' v)
    (hv : ∀ i ∈ v, i < COMMON_INDICATOR_32)
    (ih : rest' ≠ .nil → ∃ secs, Chain disk secs ∧ secs.head? = some next ∧
      Locates disk v (rest'.entry? name) (secs.find? fun x => headerName disk x = some name)) :
    ∃ secs, Chain disk secs ∧ secs.head? = some cur ∧
      Locates disk (cur :: (u ++ v)) (if h.name = name then some e else rest'.entry? name)
        (secs.find? fun x => headerName disk x = some name) := by
  have hnext : next ≤ minusOne := by
    rcases hd.start with ⟨-, rfl⟩ | ⟨-, hmem⟩
    · exact Nat.le_refl _
    · exact Nat.le_of_lt (Nat.lt_trans (hv next hmem) (by decide))
  obtain ⟨hnul, hname, hlink, hflags, hdata⟩ := header_read header hn hnext
  have hfound : Locates disk (cur :: (u ++ v)) (some e) (some cur) :=
    ⟨cur, data, u, rfl, by rw [hflags, hdir], hdata,
      fun i hi => List.mem_cons_of_mem _ (List.mem_append_left _ hi), he⟩
  rcases hd.start with ⟨rfl, rfl⟩ | ⟨hne, hmem⟩
  · refine ⟨[cur], .last hnul hcur hlink, rfl, ?_⟩
    rw [List.find?_singleton, hname]
    by_cases hsame : h.name = name
    · rw [if_pos hsame, if_pos (by simp [hsame])]
      exact hfound
    · rw [if_neg hsame, if_neg (by simp [hsame])]
      rfl
  · obtain ⟨secs, hchain, hhead, hloc⟩ := ih hne
    cases secs with
    | nil => cases hhead
    | cons x secs =>
      obtain rfl := Option.some.inj hhead
      refine ⟨cur :: x :: secs, .cons hnul hcur hlink hchain, rfl, ?_⟩
      by_cases hsame : h.name = name
      · rw [if_pos hsame, List.find?_cons_of_pos (by simp [hname, hsame])]
        exact hfound
      · rw [if_neg hsame, List.find?_cons_of_neg (by simp [hname, hsame])]
        exact hloc.mono fun i hi => List.mem_cons_of_mem _ (List.mem_append_right _ hi)

/-- **A stored directory is a chain**, in which the name is found. -/
theorem dirData_find (hd : DirData 512 (fun i => (disk i).bytes) parent prev cur l u)
    (hne : l ≠ .nil) (hn : l.Named) (hu : ∀ i ∈ u, i < COMMON_INDICATOR_32) :
    ∃ secs, Chain disk secs ∧ secs.head? = some cur ∧
      Locates disk u (l.entry? name) (secs.find? fun x => headerName disk x = some name) := by
  induction hd with
  | nil => exact absurd rfl hne
  | @leaf parent prev cur next data n stat kind rest' u v header leafData hd ih =>
    have hv : ∀ i ∈ v, i < COMMON_INDICATOR_32 :=
      fun i hi => hu i (List.mem_cons_of_mem _ (List.mem_append_right _ hi))
    exact locates_step header hn.1 rfl (hu cur List.mem_cons_self) leafData hd hv fun hne' =>
      ih hne' hn.2 hv
  | @dir parent prev cur next data n stat entries rest' u v header children hd ihe ih =>
    have hv : ∀ i ∈ v, i < COMMON_INDICATOR_32 :=
      fun i hi => hu i (List.mem_cons_of_mem _ (List.mem_append_right _ hi))
    exact locates_step header hn.1 rfl (hu cur List.mem_cons_self) children hd hv fun hne' =>
      ih hne' hn.2.2 hv

theorem bootFindFile_dirData (rest tail : List UInt8)
    (hd : DirData 512 (fun i => (disk i).bytes) parent prev cur l u) (hn : l.Named)
    (hu : ∀ i ∈ u, i < COMMON_INDICATOR_32) (hname : ∀ b ∈ name, b ≠ 0) :
    ∃ r, Locates disk u (l.entry? name) r ∧ ∃ N, ∀ fuel ≥ N,
      bootFindFile disk rest (name ++ 0 :: tail) fuel (uint32 cur / 2 ^ 16) (uint32 cur % 2 ^ 16) =
        some r := by
  rcases hd.start with ⟨rfl, rfl⟩ | ⟨hne, hmem⟩
  · refine ⟨none, rfl, 1, fun fuel hfuel => ?_⟩
    obtain ⟨fuel, rfl⟩ := Nat.exists_eq_add_of_le' hfuel
    exact if_pos ⟨by decide, by decide⟩
  · obtain ⟨secs, hchain, hhead, hloc⟩ : ∃ secs, Chain disk secs ∧ secs.head? = some cur ∧
      Locates disk u (l.entry? name) (secs.find? fun x => headerName disk x = some name) :=
        dirData_find hd hne hn hu
    have hmod : uint32 cur = cur := Nat.mod_eq_of_lt (Nat.lt_trans (hu cur hmem) (by decide))
    refine ⟨_, hloc, secs.length + 1, fun fuel hfuel => ?_⟩
    rw [hmod]
    exact (hchain.find [] rest tail [] hhead hname hfuel).1

/-! ## Paths in a stored directory -/

theorem Listing.Named.entry {entries : Listing} (hn : l.Named)
    (he : l.entry? name = some (.dir entries)) : entries.Named := by
  induction l with
  | nil => cases he
  | leaf n stat kind rest ih =>
    rw [Listing.entry?] at he
    split_ifs at he
    · cases he
    · exact ih hn.2 he
  | dir n stat es rest ihe ih =>
    rw [Listing.entry?] at he
    split_ifs at he
    · cases he
      exact hn.2.1
    · exact ih hn.2.2 he

/-- What following a path ends with: nothing, or the header of a file with these bytes. -/
def Opens (disk : Disk) (u : List Nat) : Option (List UInt8) → Option Nat → Prop
  | none, r => r = none
  | some content, r => ∃ cur data v, r = some cur ∧
      headerData (disk cur).bytes = data % 2 ^ 64 ∧ v ⊆ u ∧
      (FileData 512 (fun i => (disk i).bytes) v data content ∨ data = minusOne ∧ content = [])

theorem Opens.mono {c : Option (List UInt8)} {r : Option Nat} (hf : Opens disk v c r) (hv : v ⊆ u) :
    Opens disk u c r := by
  cases c with
  | none => exact hf
  | some content =>
    obtain ⟨cur, data, w, hr, hdata, hw, hfile⟩ := hf
    exact ⟨cur, data, w, hr, hdata, fun i hi => hv (hw hi), hfile⟩

theorem field8_flags {b : Bool} (rest : List UInt8)
    (h : headerFlags (disk cur).bytes = if b then 1 else 0) :
    field8 280 (bufferAt disk rest cur) &&& 1 = if b then 1 else 0 := by
  have hbuf : field64 280 (bufferAt disk rest cur) = headerFlags (disk cur).bytes :=
    field64_bufferAt (by decide) rest
  rw [field8_eq, hbuf, h]
  cases b <;> rfl

theorem field16_data (rest : List UInt8) (h : headerData (disk cur).bytes = data % 2 ^ 64) :
    field16 290 (bufferAt disk rest cur) = uint32 data / 2 ^ 16 ∧
      field16 288 (bufferAt disk rest cur) = uint32 data % 2 ^ 16 := by
  have hbuf : field64 288 (bufferAt disk rest cur) = headerData (disk cur).bytes :=
    field64_bufferAt (by decide) rest
  have hmod : uint32 (data % 2 ^ 64) = uint32 data := by
    unfold uint32
    omega
  have h1 : field16 (288 + 2) (bufferAt disk rest cur) = _ := field16_div_mod.1
  have h2 : field16 288 (bufferAt disk rest cur) = _ := field16_div_mod.2
  rw [hbuf, h, hmod] at h1 h2
  exact ⟨h1, h2⟩

section Round

variable {si name' : List UInt8} {fuel n dx ax : Nat}
  (hsplit : splitFileName si = some (name, name'))

include hsplit

theorem resolvePath_none
    (hfind : bootFindFile disk rest (name ++ 0 :: name') fuel dx ax = some none) :
    resolvePath disk rest fuel (n + 1) si dx ax = some none := by
  rw [resolvePath, hsplit, Option.bind_some, hfind, Option.bind_some]

variable (hfind : bootFindFile disk rest (name ++ 0 :: name') fuel dx ax = some (some cur))

include hfind

theorem resolvePath_file (h : headerFlags (disk cur).bytes = 0) :
    resolvePath disk rest fuel (n + 1) si dx ax = some (some cur) := by
  rw [resolvePath, hsplit, Option.bind_some, hfind, Option.bind_some]
  exact if_pos (field8_flags (b := false) rest h)

theorem resolvePath_dir (h : headerFlags (disk cur).bytes = 1)
    (hdata : headerData (disk cur).bytes = data % 2 ^ 64) :
    resolvePath disk rest fuel (n + 1) si dx ax =
      resolvePath disk rest fuel n name' (uint32 data / 2 ^ 16) (uint32 data % 2 ^ 16) := by
  have hflag := field8_flags (b := true) rest h
  obtain ⟨hdx, hax⟩ := field16_data rest hdata
  rw [resolvePath, hsplit, Option.bind_some, hfind, Option.bind_some]
  dsimp only
  rw [if_neg (by rw [hflag]; decide), hdx, hax]

end Round

/-- The path is followed from the directory `cur` to the result `r`, with enough fuel. -/
def Resolved (disk : Disk) (rest path : List UInt8) (length cur : Nat) (r : Option Nat) : Prop :=
  ∃ N, ∀ fuel ≥ N, ∀ n ≥ length,
    resolvePath disk rest fuel n path (uint32 cur / 2 ^ 16) (uint32 cur % 2 ^ 16) = some r

/-- **The path is followed** through the stored directories. -/
theorem resolvePath_dirData (rest tail : List UInt8) {names : List (List UInt8)}
    {c : Option (List UInt8)}
    (hd : DirData 512 (fun i => (disk i).bytes) parent prev cur l u) (hn : l.Named)
    (hu : ∀ i ∈ u, i < COMMON_INDICATOR_32) (hnames : ∀ name ∈ names, IsName name)
    (hfile : l.firstFile names = some c) :
    ∃ r, Opens disk u c r ∧ Resolved disk rest (pathString names tail) names.length cur r := by
  induction names generalizing l parent prev cur u with
  | nil => cases hfile
  | cons name names ih =>
    have hname := hnames name List.mem_cons_self
    obtain ⟨tail', hsplit, htail⟩ := splitFileName_pathString names tail hname
    obtain ⟨r, hloc, N, hN⟩ :=
      bootFindFile_dirData rest tail' hd hn hu fun b hb => (hname b hb).2
    have hsucc : ∀ n ≥ (name :: names).length, ∃ n', n = n' + 1 ∧ n' ≥ names.length :=
      fun n hlen => ⟨n - 1, by rw [List.length_cons] at hlen; omega, by
        rw [List.length_cons] at hlen
        omega⟩
    rw [Listing.firstFile] at hfile
    cases he : l.entry? name with
    | none =>
      rw [he] at hfile hloc
      obtain rfl := Option.some.inj hfile
      obtain rfl : r = none := hloc
      refine ⟨none, rfl, N, fun fuel hfuel n hlen => ?_⟩
      obtain ⟨n, rfl, -⟩ := hsucc n hlen
      exact resolvePath_none hsplit (hN fuel hfuel)
    | some e =>
      rw [he] at hfile hloc
      obtain ⟨x, data, v, rfl, hflags, hdata, hv, hentry⟩ := hloc
      have hend : e.isDir = false →
          Resolved disk rest (pathString (name :: names) tail) (name :: names).length cur
            (some x) := by
        intro hdir
        rw [hdir, if_neg Bool.false_ne_true] at hflags
        refine ⟨N, fun fuel hfuel n hlen => ?_⟩
        obtain ⟨n, rfl, -⟩ := hsucc n hlen
        exact resolvePath_file hsplit (hN fuel hfuel) hflags
      -- the rest of the path is followed from the directory on
      have hnext : e.isDir = true → names ≠ [] → ∀ {l' : Listing} {parent' prev' : Nat},
          DirData 512 (fun i => (disk i).bytes) parent' prev' data l' v → l'.Named →
          l'.firstFile names = some c → ∃ r, Opens disk u c r ∧
            Resolved disk rest (pathString (name :: names) tail) (name :: names).length cur r := by
        intro hdir hnil l' parent' prev' hd' hn' hfile'
        obtain ⟨r, hopens, M, hM⟩ := ih hd' hn' (fun i hi => hu i (hv hi))
          (fun x hx => hnames x (List.mem_cons_of_mem _ hx)) hfile'
        rw [hdir, if_pos rfl] at hflags
        refine ⟨r, hopens.mono hv, max N M, fun fuel hfuel n hlen => ?_⟩
        obtain ⟨n, rfl, hlen'⟩ := hsucc n hlen
        rw [resolvePath_dir hsplit (hN fuel (Nat.le_trans (Nat.le_max_left N M) hfuel)) hflags
          hdata, htail hnil]
        exact hM fuel (Nat.le_trans (Nat.le_max_right N M) hfuel) n hlen'
      match e with
      | .leaf (.file content) =>
        obtain rfl := Option.some.inj hfile
        exact ⟨some x, ⟨x, data, v, rfl, hdata, hv, Or.inl hentry⟩, hend rfl⟩
      | .leaf .closedFile =>
        obtain rfl := Option.some.inj hfile
        obtain ⟨rfl, rfl⟩ := hentry
        exact ⟨some x, ⟨x, minusOne, [], rfl, hdata, hv, Or.inr ⟨rfl, rfl⟩⟩, hend rfl⟩
      | .leaf .closedDir =>
        obtain ⟨rfl, rfl⟩ := hentry
        dsimp only at hfile
        split_ifs at hfile with hnil
        obtain rfl := Option.some.inj hfile
        refine hnext rfl hnil (DirData.nil : DirData 512 _ x minusOne minusOne .nil []) trivial ?_
        cases names with
        | nil => exact absurd rfl hnil
        | cons name' names => rfl
      | .leaf .special => cases hfile
      | .dir entries =>
        have hnil : names ≠ [] := by
          rintro rfl
          cases hfile
        exact hnext rfl hnil hentry (hn.entry he) hfile

end

/-! ## The file at a path -/

section

variable {disk : Disk} {content : List UInt8} {u : List Nat} {cur data bx : Nat} {m : Bytes}

theorem loadFileData_fileData (hfile : FileData 512 (fun i => (disk i).bytes) u data content)
    (hu : ∀ i ∈ u, i < COMMON_INDICATOR_32) (hm : Stands m fData (encode 8 data)) (hbx : 0xA0 ≤ bx)
    (hlt : bx < 2 ^ 16) (hroom : bx + 0x20 * sectorCount content.length ≤ 2 ^ 16) {fuel : Nat}
    (hfuel : content.length / (63 * 512) + 1 < fuel) :
    ∃ l, loadFileData disk fuel bx m = some (sectorCount content.length, l) ∧
      Stands l.mem (16 * bx) (content ++
        List.replicate (512 * sectorCount content.length - content.length) 0) ∧
      ∀ a, 0xA00 ≤ a → a < 16 * bx → l.mem a = m a := by
  have hdata : data < COMMON_INDICATOR_32 := hu _ hfile.list_mem
  unfold COMMON_INDICATOR_32 at hdata
  obtain ⟨hax, hdx⟩ := memWord_of_stands hm
  have hmod : data / 2 ^ 16 % 2 ^ 16 = data / 2 ^ 16 := by omega
  obtain ⟨l, blocks, hload, hloaded, hchunks⟩ := loadLists_spec (l := ⟨m, bx, []⟩) hfile hu
    (Nat.mod_eq_of_lt hlt).symm hbx hroom hfuel
  have hcount : (chunks 512 (sectorCount content.length) content).length =
      sectorCount content.length := by
    rw [length_chunks (by decide)]
    exact Nat.min_self _
  have hlen : blocks.length = sectorCount content.length := by
    rw [← hcount, ← hchunks, List.length_map]
  have hbytes : (blocks.flatMap fun i => (disk i).bytes) = content ++
      List.replicate (512 * sectorCount content.length - content.length) 0 := by
    rw [List.flatMap_def, hchunks, flatten_chunks (by unfold sectorCount; omega), hcount]
  refine ⟨l, ?_, ?_, fun a ha hab => hloaded.other a ha hab⟩
  · unfold loadFileData
    rw [hax, hdx, hmod, hload, Option.map_some, hloaded.bx, hlen]
    congr 2
    rw [Nat.shiftRight_eq_div_pow]
    omega
  · rw [← hbytes]
    exact hloaded.bytes

theorem encode_mod (x : Nat) : encode 8 (x % 2 ^ 64) = encode 8 x := by
  have h := encode_decode (encode 8 x)
  rw [length_encode, decode_encode_mod] at h
  exact h

theorem stands_fData (m : Bytes) (h : headerData (disk cur).bytes = data % 2 ^ 64) :
    Stands (overwrite m 0x800 (disk cur).bytes) fData (encode 8 data) := by
  have hlen := (disk cur).length_eq
  have hfield : ((disk cur).bytes.drop 288).take 8 = encode 8 data := by
    have henc := encode_decode (((disk cur).bytes.drop 288).take 8)
    rw [show decode (((disk cur).bytes.drop 288).take 8) = data % 2 ^ 64 from h] at henc
    rw [← henc, List.length_take, List.length_drop, hlen]
    exact encode_mod data
  have hsplit : (disk cur).bytes = (disk cur).bytes.take 288 ++
      (encode 8 data ++ ((disk cur).bytes.drop 288).drop 8) := by
    rw [← hfield, List.take_append_drop, List.take_append_drop]
  have hall := stands_overwrite m 0x800 (disk cur).bytes
  rw [hsplit, stands_append, stands_append, List.length_take, hlen] at hall
  rw [hsplit]
  exact hall.2.1

theorem stands_firstFile {h : ListfsHeader} (hb : 4 ≤ h.block.length)
    (hm : Stands m 0x7C04 (h.bytes.drop 4)) : Stands m fsFirstFile (encode 8 h.firstFile) := by
  have htake : (h.block.take 4).length = 4 := by
    rw [List.length_take]
    omega
  obtain ⟨post, hbytes⟩ : ∃ post, h.bytes = h.block.take 4 ++ ((encode 4 h.magic ++
      encode 4 h.version ++ encode 4 h.flags ++ encode 8 h.base ++ encode 8 h.size ++
      encode 8 h.mapBase ++ encode 8 h.mapSize) ++ (encode 8 h.firstFile ++ post)) := by
    unfold ListfsHeader.bytes
    simp only [List.append_assoc]
    exact ⟨_, rfl⟩
  rw [hbytes, List.drop_left' htake] at hm
  have hfirst := (stands_append.mp (stands_append.mp hm).2).1
  simp only [List.length_append, length_encode] at hfirst
  exact hfirst

/-- What `load_file` does for the file with these bytes, or for none: the number of its sectors in
`AX`, and its bytes at `BX:0`. Memory between the buffer and the file stays as it is, but for `P`. -/
def LoadsFile (P : Nat → Prop) (bx : Nat) (m : Bytes) :
    Option (List UInt8) → Option (Nat × Load) → Prop
  | none, r => r = none
  | some content, r => ∃ l, r = some (sectorCount content.length, l) ∧
      Stands l.mem (16 * bx) (content ++
        List.replicate (512 * sectorCount content.length - content.length) 0) ∧
      ∀ a, 0xA00 ≤ a → a < 16 * bx → ¬ P a → l.mem a = m a

theorem loadFileData_minusOne (hm : Stands m fData (encode 8 minusOne)) {fuel : Nat}
    (hfuel : 0 < fuel) : loadFileData disk fuel bx m = some (0, ⟨m, bx, []⟩) := by
  obtain ⟨hax, hdx⟩ := memWord_of_stands hm
  obtain ⟨fuel, rfl⟩ := Nat.exists_eq_add_of_le' hfuel
  have hload : loadLists disk (fuel + 1) (memWord m (fData + 2)) (memWord m fData) ⟨m, bx, []⟩ =
      some ⟨m, bx, []⟩ := by
    rw [hax, hdx]
    exact loadLists_minusOne
  unfold loadFileData
  rw [hload, Option.map_some, Nat.add_sub_cancel_left]
  rfl

theorem loadFileData_opens {v : List Nat} (hu : ∀ i ∈ v, i < COMMON_INDICATOR_32)
    (hdata : headerData (disk cur).bytes = data % 2 ^ 64)
    (hfile : FileData 512 (fun i => (disk i).bytes) v data content ∨ data = minusOne ∧ content = [])
    (hbx : 0xA0 ≤ bx) (hlt : bx < 2 ^ 16)
    (hroom : bx + 0x20 * sectorCount content.length ≤ 2 ^ 16) (m : Bytes) {fuel : Nat}
    (hfuel : content.length / (63 * 512) + 1 < fuel) :
    ∃ r, loadFileData disk fuel bx (overwrite m 0x800 (disk cur).bytes) = some r ∧
      LoadsFile (fun _ => False) bx m (some content) (some r) := by
  have hstands := stands_fData m hdata
  have hother : ∀ a, 0xA00 ≤ a → overwrite m 0x800 (disk cur).bytes a = m a := fun a ha =>
    overwrite_of_le (by rw [(disk cur).length_eq]; exact ha)
  rcases hfile with hfile | ⟨rfl, rfl⟩
  · obtain ⟨l, hload, hbytes, hkeep⟩ :=
      loadFileData_fileData hfile hu hstands hbx hlt hroom hfuel
    exact ⟨_, hload, l, rfl, hbytes, fun a ha hab _ => (hkeep a ha hab).trans (hother a ha)⟩
  · refine ⟨_, loadFileData_minusOne hstands (by omega), _, rfl, fun i b hi => ?_, fun a ha _ _ =>
      hother a ha⟩
    cases hi

end

section

variable {o : Options} {image : Builder} {dirName tail : List UInt8} {l : Listing} {disk : Disk}
  {names : List (List UInt8)} {c : Option (List UInt8)} {bx : Nat} {m : Bytes}

theorem image_fsFirstFile (hsource : o.source = some (dirName, l))
    (hrun : makeListfs o = some image) (hbs : o.blockSize = 512)
    (hcount : o.blockCount.toNat ≤ COMMON_INDICATOR_32) (hl : l.NoneEmpty)
    (hdisk : ∀ i < image.fsHeader.size, disk i = image.disk i)
    (hm : Stands m 0x7C04 ((disk 0).bytes.drop 4)) :
    DirData 512 (fun i => (disk i).bytes) minusOne minusOne image.fsHeader.firstFile l.visible
        image.allocated ∧
      (∀ i ∈ image.allocated, i < COMMON_INDICATOR_32) ∧
      memWord m fsFirstFile = uint32 image.fsHeader.firstFile % 2 ^ 16 ∧
      memWord m (fsFirstFile + 2) = uint32 image.fsHeader.firstFile / 2 ^ 16 := by
  obtain ⟨hd, hlti, hsize, hzero, mapBase, mapSize, hheader, -, -⟩ :=
    image_dirData hsource hrun hbs hcount hl
  have hu : ∀ i ∈ image.allocated, i < COMMON_INDICATOR_32 :=
    fun i hi => Nat.lt_of_lt_of_le (hlti i hi) hsize
  have hpos : 0 < image.fsHeader.size := by
    rcases hd.start with ⟨hnil, -⟩ | ⟨-, hmem⟩
    · exact absurd hnil hl.1
    · exact Nat.zero_lt_of_lt (hlti _ hmem)
  have hblock : image.fsHeader.block.length = 512 := by
    rw [hheader]
    dsimp only
    exact length_header_block o 512
  rw [hdisk 0 hpos, hzero] at hm
  obtain ⟨hax, hdx⟩ := memWord_of_stands (stands_firstFile (by rw [hblock]; decide) hm)
  refine ⟨hd.congr fun i hi => congrArg Sector.bytes (hdisk i (hlti i hi)), hu, ?_, ?_⟩
  · rw [hax]
    unfold uint32
    omega
  · rw [hdx]
    unfold uint32
    omega

/-- **`load_file`** in a stored directory. -/
theorem loadFile_dirData {parent prev cur : Nat} {u : List Nat}
    (hd : DirData 512 (fun i => (disk i).bytes) parent prev cur l u) (hn : l.Named)
    (hu : ∀ i ∈ u, i < COMMON_INDICATOR_32) (hax : memWord m fsFirstFile = uint32 cur % 2 ^ 16)
    (hdx : memWord m (fsFirstFile + 2) = uint32 cur / 2 ^ 16)
    (hnames : ∀ name ∈ names, IsName name) (hfile : l.firstFile names = some c) (tail : List UInt8)
    (hbx : 0xA0 ≤ bx) (hlt : bx < 2 ^ 16)
    (hroom : ∀ content, c = some content → bx + 0x20 * sectorCount content.length ≤ 2 ^ 16) :
    ∃ N, ∀ fuel ≥ N, ∀ n ≥ names.length, ∃ r,
      loadFile disk fuel n bx (pathString names tail) m = some r ∧
        LoadsFile (fun _ => False) bx m c r := by
  obtain ⟨r, hopens, N, hN⟩ := resolvePath_dirData (behindInfo m) tail hd hn hu hnames hfile
  have hload : ∀ fuel ≥ N, ∀ n ≥ names.length,
      loadFile disk fuel n bx (pathString names tail) m = (some r).bind fun found =>
        match found with
        | none => some none
        | some cur =>
          (loadFileData disk fuel bx (overwrite m 0x800 (disk cur).bytes)).map some := by
    intro fuel hfuel n hlen
    unfold loadFile
    rw [hax, hdx, hN fuel hfuel n hlen]
  cases c with
  | none =>
    obtain rfl : r = none := hopens
    exact ⟨N, fun fuel hfuel n hlen => ⟨none, hload fuel hfuel n hlen, rfl⟩⟩
  | some content =>
    obtain ⟨x, data, v, rfl, hdata, hv, hstored⟩ := hopens
    refine ⟨max N (content.length / (63 * 512) + 2), fun fuel hfuel n hlen => ?_⟩
    obtain ⟨r, hr, hloads⟩ := loadFileData_opens (fun i hi => hu i (hv hi)) hdata hstored hbx hlt
      (hroom content rfl) m (Nat.le_trans (Nat.le_max_right N _) hfuel)
    refine ⟨some r, ?_, hloads⟩
    rw [hload fuel (Nat.le_trans (Nat.le_max_left N _) hfuel) n hlen, Option.bind_some]
    dsimp only
    rw [hr]
    rfl

theorem LoadsFile.mono {P : Nat → Prop} {r : Option (Nat × Load)}
    (h : LoadsFile (fun _ => False) bx m c r) : LoadsFile P bx m c r := by
  cases c with
  | none => exact h
  | some content =>
    obtain ⟨l, hr, hbytes, hkeep⟩ := h
    exact ⟨l, hr, hbytes, fun a ha hab _ => hkeep a ha hab id⟩

/-- The bytes of the path at the address `si`. -/
def PathBytes (si : Nat) (names : List (List UInt8)) (a : Nat) : Prop :=
  si ≤ a ∧ a < si + (pathString names []).length

/-- **The boot loader loads the first file on a path**, through the directories of the image, or says
that there is none. Memory below of the file changes in the buffer and in the path only. -/
theorem loadFile_firstFile (si : Nat) (hsource : o.source = some (dirName, l))
    (hrun : makeListfs o = some image) (hbs : o.blockSize = 512)
    (hcount : o.blockCount.toNat ≤ COMMON_INDICATOR_32)
    (hl : l.NoneEmpty) (hn : l.visible.Named) (hnames : ∀ name ∈ names, IsName name)
    (hfile : l.visible.firstFile names = some c)
    (hdisk : ∀ i < image.fsHeader.size, disk i = image.disk i)
    (hm : Stands m 0x7C04 ((disk 0).bytes.drop 4)) (hbx : 0xA0 ≤ bx) (hlt : bx < 2 ^ 16)
    (hroom : ∀ content, c = some content → bx + 0x20 * sectorCount content.length ≤ 2 ^ 16) :
    ∃ N, ∀ fuel ≥ N, ∀ n ≥ names.length, ∃ r,
      loadFile disk fuel n bx (pathString names tail) m = some r ∧
        LoadsFile (PathBytes si names) bx m c r := by
  obtain ⟨hd, hu, hax, hdx⟩ := image_fsFirstFile hsource hrun hbs hcount hl hdisk hm
  obtain ⟨N, hN⟩ := loadFile_dirData hd hn hu hax hdx hnames hfile tail hbx hlt hroom
  refine ⟨N, fun fuel hfuel n hlen => ?_⟩
  obtain ⟨r, hr, hloads⟩ := hN fuel hfuel n hlen
  exact ⟨r, hr, hloads.mono⟩

theorem named_visible_nested : nestedListing.visible.Named := by
  show nestedListing.Named
  exact ⟨⟨by decide +kernel, by decide +kernel⟩,
    ⟨⟨by decide +kernel, by decide +kernel⟩, trivial⟩, trivial⟩

/-- The file `f` in the directory `d`. -/
theorem loadFile_firstFile_nested : ∃ image, makeListfs nestedOptions = some image ∧
    ∀ m : Bytes, Stands m 0x7C04 ((image.disk 0).bytes.drop 4) → ∃ N, ∀ fuel ≥ N, ∀ n ≥ 2, ∃ r,
      loadFile image.disk fuel n 0x1100 [100, 0x2F, 102, 0] m = some r ∧
        LoadsFile (PathBytes 0x7C50 [[100], [102]]) 0x1100 m (some [7]) r := by
  obtain ⟨image, hrun⟩ := makeListfs_nested
  refine ⟨image, hrun, fun m hm => ?_⟩
  have hnames : ∀ name ∈ [[100], [102]], IsName name := by
    intro name hname
    simp only [List.mem_cons, List.not_mem_nil, or_false] at hname
    rcases hname with rfl | rfl <;> simp [IsName]
  have hroom : ∀ content : List UInt8, some [7] = some content →
      0x1100 + 0x20 * sectorCount content.length ≤ 2 ^ 16 := by
    intro content hc
    obtain rfl := Option.some.inj hc
    decide
  have h : ∃ N, ∀ fuel ≥ N, ∀ n ≥ 2, ∃ r,
      loadFile image.disk fuel n 0x1100 (pathString [[100], [102]] []) m = some r ∧
        LoadsFile (PathBytes 0x7C50 [[100], [102]]) 0x1100 m (some [7]) r :=
    loadFile_firstFile 0x7C50 rfl hrun rfl (by decide) noneEmpty_nested named_visible_nested hnames rfl
      (fun _ _ => rfl) hm (by decide) (by decide) hroom
  exact h

end

end C4os
