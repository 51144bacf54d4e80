import C4os.Lib.Blocks
import C4os.Lib.LittleEndian

/-!
# The image builder (`make_listfs.c`)

* `Builder`: the output file and the variables of the program; `Build`: programs that end with a
  failure or a result. A `long` has 64 bits.
* `Listing`: what `readdir`, `stat` and `fopen` find in a directory.
* `initListfsHeader`, `initDiskMap`, `allocDiskBlock`, `writeBlock`, `storeFileData`,
  `processEntries`, `makeListfs`: the functions. Reads from and writes to open files succeed.
-/

namespace C4os

open Blocks LittleEndian

/-- `-1` as a `uint64`. -/
def minusOne : Nat := 2 ^ 64 - 1

/-- The first `n` bytes of a buffer that holds `l` over `old`. -/
def fillBuffer (n : Nat) (old : Nat → UInt8) (l : List UInt8) : List UInt8 :=
  (List.range n).map fun i => l[i]?.getD (old i)

/-- A file of zeros. -/
def zeros : Nat → UInt8 := fun _ => 0

/-! ## Headers -/

/-- The magic number of a file system. -/
def LISTFS_MAGIC : Nat := 0x84837376

/-- The version that the program stores. -/
def LISTFS_VERSION : Nat := 1

/-- `listfs_header`, in the block `block` that the boot loader was read into. -/
structure ListfsHeader where
  magic : Nat
  version : Nat
  flags : Nat
  base : Nat
  size : Nat
  mapBase : Nat
  mapSize : Nat
  firstFile : Nat
  uid : Nat
  blockSize : Nat
  block : List UInt8

/-- `sizeof(listfs_header)`. -/
def listfsHeaderSize : Nat := 68

/-- The block with the header in it. The field `jump` is the boot loader's. -/
def ListfsHeader.bytes (h : ListfsHeader) : List UInt8 :=
  h.block.take 4 ++ encode 4 h.magic ++ encode 4 h.version ++ encode 4 h.flags ++ encode 8 h.base ++
    encode 8 h.size ++ encode 8 h.mapBase ++ encode 8 h.mapSize ++ encode 8 h.firstFile ++
    encode 8 h.uid ++ encode 4 h.blockSize ++ h.block.drop listfsHeaderSize

/-- `listfs_file_header`. -/
structure FileHeader where
  name : List UInt8
  next : Nat
  prev : Nat
  parent : Nat
  flags : Nat
  data : Nat
  size : Nat
  createTime : Nat
  modifyTime : Nat
  accessTime : Nat
  deriving DecidableEq

/-- `sizeof(listfs_file_header)`. -/
def fileHeaderSize : Nat := 328

/-- `strncpy(header->name, name, 255)` into zeros. -/
def nameField (name : List UInt8) : List UInt8 := fillBuffer 256 zeros (name.take 255)

/-- The block of a file header. -/
def FileHeader.bytes (bs : Nat) (h : FileHeader) : List UInt8 :=
  fillBuffer bs zeros
    (nameField h.name ++ encode 8 h.next ++ encode 8 h.prev ++ encode 8 h.parent ++
      encode 8 h.flags ++ encode 8 h.data ++ encode 8 h.size ++ encode 8 h.createTime ++
      encode 8 h.modifyTime ++ encode 8 h.accessTime)

/-! ## The program's state -/

/-- How the program ends early. -/
inductive Failure where
  /-- `exit(-3)`. -/
  | full
  /-- An access outside of a buffer. -/
  | overrun
  /-- A recursion without an end. -/
  | endless
  deriving DecidableEq

/-- The variables of the program and its output file. -/
structure Builder where
  blockSize : Nat
  /-- The bytes of the output file; behind its end they are zeros. -/
  output : Nat → UInt8
  /-- The file position. -/
  position : Nat
  fsHeader : ListfsHeader
  diskMap : List UInt8
  bootLoaderExtraBlocks : Nat
  /-- What `malloc` returns. -/
  junk : Nat → UInt8
  /-- The blocks that `alloc_disk_block` has returned. -/
  allocated : List Nat
  /-- The block that each call of `write_block` was for, and the offset it wrote at. -/
  writes : List (Nat × Nat)

/-- A function of the program, which may fail. -/
abbrev Build := EStateM Failure Builder

/-! ## Blocks -/

/-- `write_block`. A negative offset fails and leaves the file position. -/
def writeBlock (index : Nat) (data : List UInt8) : Build PUnit :=
  modify fun s =>
    let offset := s.blockSize * index % 2 ^ 64
    let position := if offset < 2 ^ 63 then offset else s.position
    { s with
      output := overwrite s.output position data
      position := position + data.length
      writes := s.writes ++ [(index, position)] }

/-- `disk_map[index >> 3] & (1 << (index & 7))`; `none` is an access outside of the map. -/
def mapBit (map : List UInt8) (index : Nat) : Option Bool :=
  map[index >>> 3]?.map fun b => b &&& 1 <<< UInt8.ofNat (index &&& 7) ≠ 0

/-- `get_disk_block`. -/
def getDiskBlock (index : Nat) : Build PUnit := do
  let s ← get
  match s.diskMap[index >>> 3]? with
  | none => throw .overrun
  | some b =>
    set { s with
      diskMap := s.diskMap.set (index >>> 3) (b ||| 1 <<< UInt8.ofNat (index &&& 7)) }

/-- The loop of `alloc_disk_block`. -/
def allocLoop : Nat → Nat → Build Nat
  | 0, _ => throw .endless
  | fuel + 1, index => do
    let s ← get
    match mapBit s.diskMap index with
    | none => throw .overrun
    | some true => if index + 1 ≥ s.fsHeader.size then throw .full else allocLoop fuel (index + 1)
    | some false => return index

/-- `alloc_disk_block`. -/
def allocDiskBlock : Build Nat := do
  let s ← get
  let index ← allocLoop (s.fsHeader.size + 1) 0
  getDiskBlock index
  modify fun s => { s with allocated := s.allocated ++ [index] }
  return index

/-! ## Files -/

/-- An open file: the bytes behind its position, and `feof`. -/
structure File where
  rest : List UInt8
  eof : Bool

/-- `fread` of `n` bytes. -/
def File.fread (n : Nat) (f : File) : List UInt8 × File :=
  (f.rest.take n, ⟨f.rest.drop n, f.eof || f.rest.length < n⟩)

/-- The loop of `store_file_data`: the entries of the list. -/
def storeBlocks : Nat → File → Build (List Nat × File)
  | 0, f => return ([], f)
  | n + 1, f => do
    let s ← get
    if f.eof then
      let (entries, f) ← storeBlocks n f
      return (minusOne :: entries, f)
    else
      let (data, f) := f.fread s.blockSize
      if data = [] then
        let (entries, f) ← storeBlocks n f
        return (minusOne :: entries, f)
      else
        let index ← allocDiskBlock
        writeBlock index (fillBuffer s.blockSize zeros data)
        let (entries, f) ← storeBlocks n f
        return (index :: entries, f)

/-- `store_file_data`. -/
def storeFileData : Nat → File → Build Nat
  | 0, _ => throw .endless
  | fuel + 1, f => do
    if f.eof then
      return minusOne
    else
      let s ← get
      let list ← allocDiskBlock
      let (entries, f) ← storeBlocks (s.blockSize / 8 - 1) f
      let next ← storeFileData fuel f
      writeBlock list (fillBuffer s.blockSize s.junk ((entries ++ [next]).flatMap (encode 8)))
      return list

/-! ## Directories -/

/-- The times of `struct stat`. -/
structure Stat where
  createTime : Nat
  modifyTime : Nat
  accessTime : Nat

/-- A directory entry without entries of its own. -/
inductive Leaf where
  /-- A regular file with its bytes. -/
  | file (content : List UInt8)
  /-- A regular file that cannot be opened. -/
  | closedFile
  /-- A directory that cannot be opened. -/
  | closedDir
  /-- Neither a directory nor a regular file. -/
  | special

/-- The entries of a directory, in the order of `readdir`. -/
inductive Listing where
  | nil
  | leaf (name : List UInt8) (stat : Stat) (kind : Leaf) (rest : Listing)
  | dir (name : List UInt8) (stat : Stat) (entries rest : Listing)

/-- `.` and `..`. -/
def isDot (name : List UInt8) : Bool := name = [46] || name = [46, 46]

/-- `sprintf(file_name, "%s/%s", dir_name, entry->d_name)`. -/
def filePath (dirName name : List UInt8) : List UInt8 := dirName ++ 47 :: name

/-- `write_block(prev_file, file_header, 1)`; `none` is a buffer that nothing was stored in. -/
def writeHeader (prev : Nat) (header : Option FileHeader) : Build PUnit := do
  let s ← get
  writeBlock prev (header.elim (fillBuffer s.blockSize s.junk []) (FileHeader.bytes s.blockSize))

/-- The link from the previous header to the block `cur`. -/
def linkHeader (prev cur : Nat) (header : Option FileHeader) : Build PUnit :=
  if prev ≠ minusOne then
    writeHeader prev (header.map fun h => { h with next := cur })
  else
    return ⟨⟩

/-- The stores to `*file_header`, of `block_size` bytes, and to `char file_name[260]`. -/
def checkBuffers (path : List UInt8) : Build PUnit := do
  let s ← get
  if s.blockSize < fileHeaderSize ∨ path.length + 1 > 260 then
    throw .overrun
  else
    return ⟨⟩

/-- The start of a round of `process_dir`: the block of the entry, its header, and `first_file`. -/
def newEntry (parent : Nat) (dirName name : List UInt8) (stat : Stat) (prev : Nat)
    (header : Option FileHeader) (first : Nat) : Build (Nat × FileHeader × Nat) := do
  let cur ← allocDiskBlock
  linkHeader prev cur header
  checkBuffers (filePath dirName name)
  return (cur, ⟨name, minusOne, prev, parent, 0, 0, 0, stat.createTime, stat.modifyTime,
    stat.accessTime⟩, if prev ≠ minusOne then first else cur)

/-- What a round stores for an entry that is no open directory. -/
def storeLeaf (header : FileHeader) : Leaf → Build FileHeader
  | .file content => do
    let data ← storeFileData (content.length + 2) ⟨content, false⟩
    return { header with size := content.length, data := data }
  | .closedFile => return { header with data := minusOne }
  | .closedDir => return { header with flags := 1, data := minusOne }
  | .special => return header

/-- The loop of `process_dir`, with `prev_file`, the buffer `file_header` and `first_file`. -/
def processEntries (parent : Nat) (dirName : List UInt8) :
    Listing → Nat → Option FileHeader → Nat → Build Nat
  | .nil, prev, header, first => do
    writeHeader prev header
    return first
  | .leaf name stat kind rest, prev, header, first => do
    if isDot name then
      processEntries parent dirName rest prev header first
    else
      let (cur, new, first) ← newEntry parent dirName name stat prev header first
      let new ← storeLeaf new kind
      processEntries parent dirName rest cur (some new) first
  | .dir name stat entries rest, prev, header, first => do
    if isDot name then
      processEntries parent dirName rest prev header first
    else
      let (cur, new, first) ← newEntry parent dirName name stat prev header first
      let data ← processEntries cur (filePath dirName name) entries minusOne none minusOne
      processEntries parent dirName rest cur (some { new with flags := 1, data := data }) first

/-- `process_dir`, on a directory that can be opened. -/
def processDir (parent : Nat) (dirName : List UInt8) (entries : Listing) : Build Nat :=
  processEntries parent dirName entries minusOne none minusOne

/-! ## The whole image -/

/-- The command line, the boot loader's bytes if the file can be opened, the contents of the source
directory, and what the program takes from outside. -/
structure Options where
  blockSize : Int
  blockCount : Int
  bootLoader : Option (List UInt8)
  source : Option (List UInt8 × Listing)
  uid : Nat
  junk : Nat → UInt8

/-- `check_options`. -/
def checkOptions (o : Options) : Bool :=
  !(o.blockSize < 512 && o.blockSize % 8 = 0) && !(o.blockCount < 2)

/-- The loop of `init_listfs_header` over the rest of the boot loader. -/
def bootLoop : Nat → Nat → List UInt8 → File → Build PUnit
  | 0, _, _, _ => throw .endless
  | fuel + 1, i, buffer, f => do
    if f.eof then
      return ⟨⟩
    else
      let s ← get
      let (data, f) := f.fread s.blockSize
      let buffer := fillBuffer s.blockSize (fun k => buffer[k]?.getD 0) data
      writeBlock i buffer
      modify fun s => { s with bootLoaderExtraBlocks := s.bootLoaderExtraBlocks + 1 }
      bootLoop fuel (i + 1) buffer f

/-- `init_listfs_header`. -/
def initListfsHeader (o : Options) : Build PUnit := do
  let s ← get
  let content := o.bootLoader.getD []
  let (data, f) := File.fread s.blockSize ⟨content, false⟩
  if o.bootLoader.isSome then
    bootLoop (content.length + 2) 1 (fillBuffer s.blockSize zeros []) f
  if s.blockSize < listfsHeaderSize then
    throw .overrun
  modify fun s => { s with
    fsHeader := ⟨LISTFS_MAGIC, LISTFS_VERSION, 0, 0, o.blockCount.toNat, 0, 0, minusOne, o.uid,
      s.blockSize, fillBuffer s.blockSize zeros data⟩ }

/-- `fs_header->map_size`. -/
def mapBlocks (blockCount blockSize : Nat) : Nat :=
  let mapSize := blockCount / 8
  let mapSize := if mapSize % blockSize ≠ 0 then mapSize + blockSize else mapSize
  mapSize / blockSize

/-- `init_disk_map`. -/
def initDiskMap (o : Options) : Build PUnit := do
  let s ← get
  let mapSize := mapBlocks o.blockCount.toNat s.blockSize
  set { s with
    fsHeader := { s.fsHeader with mapBase := s.bootLoaderExtraBlocks, mapSize := mapSize }
    diskMap := List.replicate (s.blockSize * mapSize) 0 }
  (List.range (s.bootLoaderExtraBlocks + mapSize)).forM getDiskBlock

/-- `open_output_file`: the file is as long as the image. -/
def openOutputFile (o : Options) : Except Failure Builder :=
  if o.blockSize ≤ 0 then .error .overrun
  else .ok
    { blockSize := o.blockSize.toNat
      output := zeros
      position := o.blockSize.toNat * o.blockCount.toNat
      fsHeader := ⟨0, 0, 0, 0, 0, 0, 0, 0, 0, 0, []⟩
      diskMap := []
      bootLoaderExtraBlocks := 0
      junk := o.junk
      allocated := []
      writes := [] }

/-- `store_disk_map`. -/
def storeDiskMap : Build PUnit := do
  let s ← get
  writeBlock s.fsHeader.mapBase s.diskMap

/-- `store_listfs_header`. -/
def storeListfsHeader : Build PUnit := do
  let s ← get
  writeBlock 0 s.fsHeader.bytes

/-- `main` behind `check_options` and `open_output_file`. -/
def buildImage (o : Options) : Build PUnit := do
  initListfsHeader o
  initDiskMap o
  match o.source with
  | none => pure ⟨⟩
  | some (dirName, entries) =>
    let first ← processDir minusOne dirName entries
    modify fun s => { s with fsHeader := { s.fsHeader with firstFile := first } }
  storeDiskMap
  storeListfsHeader

/-- `main`, if it returns `0`: the output file and the variables. -/
def makeListfs (o : Options) : Option Builder :=
  if checkOptions o then
    match openOutputFile o with
    | .error _ => none
    | .ok s =>
      match buildImage o s with
      | .ok _ s' => some s'
      | .error _ _ => none
  else
    none

end C4os
