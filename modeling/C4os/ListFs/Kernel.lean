import C4os.Lib.LittleEndian
import C4os.Lib.Walk
import C4os.Stdlib.Char

/-!
# ListFS in the kernel (`kernel.c`, `listfs.c`)

* `Sector`, `Disk`: 512 bytes at every sector number; sector reads succeed.
* `headerNext` to `headerSize`: the fields of a file header.
* `strcmp`, `getFileDataPointer`, `findFile`, `isThereExe`, `showFiles`: the functions, with fuel
  for the recursion along the `next` links; `none` is a call that has not returned.
* `FindEnds`, `ShowEnds`: the links from a header have an end.
* **`walks_end_iff`**: when the two walks of the root directory return.
-/

namespace C4os

open LittleEndian Walk

/-- The bytes of a sector. -/
structure Sector where
  bytes : List UInt8
  length_eq : bytes.length = 512

/-- The first 512 bytes, filled up with zeros. -/
def Sector.ofBytes (l : List UInt8) : Sector where
  bytes := (l ++ List.replicate 512 0).take 512
  length_eq := by
    rw [List.length_take, List.length_append, List.length_replicate]
    omega

/-- The sectors of a disk. -/
abbrev Disk := Nat → Sector

/-- Memory from the DMA buffer on after the sector `s` was read: its bytes, then `rest`, up to the
first page that is not mapped. -/
def bufferAt (disk : Disk) (rest : List UInt8) (s : Nat) : List UInt8 := (disk s).bytes ++ rest

/-- `(uint32)x`. -/
def uint32 (x : Nat) : Nat := x % 2 ^ 32

/-- `LISTFS_COMMON_INDICATOR` as a 64-bit and as a 32-bit number. -/
def COMMON_INDICATOR_64 : Nat := 2 ^ 64 - 1

/-- The terminator of a list, as 32 bits. -/
def COMMON_INDICATOR_32 : Nat := 2 ^ 32 - 1

/-! ## The file header -/

/-- The 64-bit field at the offset `off`. -/
def field64 (off : Nat) (mem : List UInt8) : Nat := decode ((mem.drop off).take 8)

/-- The field `next` of a file header. -/
def headerNext : List UInt8 → Nat := field64 256

/-- The field `prev`. -/
def headerPrev : List UInt8 → Nat := field64 264

/-- The field `parent`. -/
def headerParent : List UInt8 → Nat := field64 272

/-- The field `flags`. -/
def headerFlags : List UInt8 → Nat := field64 280

/-- The field `data`. -/
def headerData : List UInt8 → Nat := field64 288

/-- The field `size`. -/
def headerSize : List UInt8 → Nat := field64 296

/-- A string in memory: the bytes before the first NUL. -/
def cString : List UInt8 → Option (List UInt8)
  | [] => none
  | b :: mem => if b = 0 then some [] else (cString mem).map (b :: ·)

/-! ## The functions -/

/-- `strcmp`, on memory from the two strings on. -/
def strcmp : List UInt8 → List UInt8 → Option Int
  | c1 :: str1, c2 :: str2 =>
    if c1 = 0 then some (charOf c1 - charOf c2)
    else if c1 = c2 then strcmp str1 str2
    else some (charOf c1 - charOf c2)
  | _, _ => none

/-- `sector_list[i]` for every `i` in memory. -/
def words64 : List UInt8 → List Nat
  | b0 :: b1 :: b2 :: b3 :: b4 :: b5 :: b6 :: b7 :: mem =>
    decode [b0, b1, b2, b3, b4, b5, b6, b7] :: words64 mem
  | _ => []

/-- The loop of `get_file_data_pointer`; the end of the list is a page fault. -/
def scanList : List Nat → Nat → Option Nat
  | [], _ => none
  | w :: ws, result => if w = COMMON_INDICATOR_64 then some result else scanList ws (uint32 w)

/-- `get_file_data_pointer`. -/
def getFileDataPointer (disk : Disk) (rest : List UInt8) (sectorListSectorNumber : Nat) :
    Option Nat :=
  scanList (words64 (bufferAt disk rest sectorListSectorNumber)) COMMON_INDICATOR_32

/-- The recursion of `find_file`: the header that matches, if any. `fileName` is memory from the
name on. -/
def findHeader (disk : Disk) (rest fileName : List UInt8) : Nat → Nat → Option (Option Nat)
  | 0, _ => none
  | fuel + 1, s =>
    (strcmp fileName (bufferAt disk rest s)).bind fun r =>
      if r = 0 then some (some s)
      else if headerNext (bufferAt disk rest s) = COMMON_INDICATOR_64 then some none
      else findHeader disk rest fileName fuel (uint32 (headerNext (bufferAt disk rest s)))

/-- `find_file`. -/
def findFile (disk : Disk) (rest fileName : List UInt8) (fuel s : Nat) : Option Nat :=
  (findHeader disk rest fileName fuel s).bind fun r =>
    match r with
    | some s => getFileDataPointer disk rest (uint32 (headerData (bufferAt disk rest s)))
    | none => some COMMON_INDICATOR_32

/-- `is_there_exe`. -/
def isThereExe (disk : Disk) (rest fileName : List UInt8) (fuel s : Nat) : Option Bool :=
  (findFile disk rest fileName fuel s).map fun p => p ≠ COMMON_INDICATOR_32

/-- What `show_files` prints about a file. -/
structure FileReport where
  name : List UInt8
  isDirectory : Bool
  isRoot : Bool
  size : Nat
  deriving DecidableEq

/-- The output for one header. The bit for a directory is bit `1`. -/
def fileReport (mem : List UInt8) : Option FileReport :=
  (cString mem).map fun name =>
    ⟨name, headerFlags mem &&& 1 <<< 1 ≠ 0, headerParent mem = COMMON_INDICATOR_64,
      uint32 (headerSize mem)⟩

/-- `show_files`. -/
def showFiles (disk : Disk) (rest : List UInt8) : Nat → Nat → Option (List FileReport)
  | 0, _ => none
  | fuel + 1, s =>
    (fileReport (bufferAt disk rest s)).bind fun report =>
      if headerNext (bufferAt disk rest s) ≠ COMMON_INDICATOR_64 then
        (showFiles disk rest fuel (uint32 (headerNext (bufferAt disk rest s)))).map (report :: ·)
      else some [report]

/-! ## Strings -/

variable {disk : Disk} {rest mem name tail : List UInt8} {s fuel : Nat}

/-- **`strcmp` returns `0` exactly for equal strings.** -/
theorem strcmp_eq_zero_iff (hn : ∀ b ∈ name, b ≠ 0) :
    strcmp (name ++ 0 :: tail) mem = some 0 ↔ cString mem = some name := by
  induction name generalizing mem with
  | nil =>
    cases mem with
    | nil => simp [strcmp, cString]
    | cons b mem =>
      rw [List.nil_append, strcmp, if_pos rfl, cString]
      constructor
      · intro h
        rw [if_pos (charOf_inj (Option.some.inj h)).symm]
      · intro h
        split_ifs at h with hb
        · rw [hb, Int.sub_self]
        · obtain ⟨_, _, he⟩ := Option.map_eq_some_iff.mp h
          exact absurd he (List.cons_ne_nil _ _)
  | cons c name ih =>
    have hc : c ≠ 0 := hn c List.mem_cons_self
    cases mem with
    | nil => simp [strcmp, cString]
    | cons b mem =>
      rw [List.cons_append, strcmp, if_neg hc, cString]
      by_cases hcb : c = b
      · subst hcb
        rw [if_pos rfl, if_neg hc, ih fun b hb => hn b (List.mem_cons_of_mem c hb)]
        constructor
        · rintro h
          rw [h]
          rfl
        · intro h
          obtain ⟨n, hn, he⟩ := Option.map_eq_some_iff.mp h
          rw [hn, (List.cons.inj he).2]
      · rw [if_neg hcb]
        constructor
        · exact fun h => absurd (charOf_inj (Option.some.inj h)) hcb
        · intro h
          split_ifs at h with hb
          · exact absurd (Option.some.inj h) (List.cons_ne_nil _ _).symm
          · obtain ⟨_, _, he⟩ := Option.map_eq_some_iff.mp h
            exact absurd (List.cons.inj he).1.symm hcb

theorem strcmp_isSome {m : List UInt8} (h : cString mem = some m) :
    ∃ r, strcmp (name ++ 0 :: tail) mem = some r := by
  induction name generalizing mem m with
  | nil =>
    cases mem with
    | nil => cases h
    | cons b mem => exact ⟨_, if_pos rfl⟩
  | cons c name ih =>
    cases mem with
    | nil => cases h
    | cons b mem =>
      rw [List.cons_append, strcmp]
      rw [cString] at h
      by_cases hc : c = 0
      · exact ⟨_, if_pos hc⟩
      rw [if_neg hc]
      by_cases hcb : c = b
      · rw [if_pos hcb]
        rw [if_neg (hcb ▸ hc)] at h
        obtain ⟨m', hm, -⟩ := Option.map_eq_some_iff.mp h
        exact ih hm
      · exact ⟨_, if_neg hcb⟩

theorem cString_isSome_iff : (∃ n, cString mem = some n) ↔ 0 ∈ mem := by
  induction mem with
  | nil => simp [cString]
  | cons b mem ih =>
    rw [cString]
    by_cases hb : b = 0
    · rw [if_pos hb, hb]
      exact iff_of_true ⟨_, rfl⟩ List.mem_cons_self
    · rw [if_neg hb, List.mem_cons, or_iff_right fun h => hb h.symm, ← ih]
      constructor
      · rintro ⟨n, h⟩
        obtain ⟨m, hm, -⟩ := Option.map_eq_some_iff.mp h
        exact ⟨m, hm⟩
      · rintro ⟨n, h⟩
        exact ⟨b :: n, by rw [h]; rfl⟩

theorem scanList_isSome_iff {ws : List Nat} {r : Nat} :
    (∃ p, scanList ws r = some p) ↔ COMMON_INDICATOR_64 ∈ ws := by
  induction ws generalizing r with
  | nil => simp [scanList]
  | cons w ws ih =>
    rw [scanList]
    by_cases hw : w = COMMON_INDICATOR_64
    · rw [if_pos hw, hw]
      exact iff_of_true ⟨_, rfl⟩ List.mem_cons_self
    · rw [if_neg hw, ih, List.mem_cons, or_iff_right fun h => hw h.symm]

/-! ## The walks -/

/-- The header that the header at `s` links to. -/
def nextHeader (disk : Disk) (rest : List UInt8) (s : Nat) : Nat :=
  uint32 (headerNext (bufferAt disk rest s))

/-- The header at `s` is the last one. -/
def Last (disk : Disk) (rest : List UInt8) (s : Nat) : Prop :=
  headerNext (bufferAt disk rest s) = COMMON_INDICATOR_64

/-- The name of the header at `s` is the given one, or the comparison finds that it differs. -/
def Matches (disk : Disk) (rest fileName : List UInt8) (s : Nat) : Prop :=
  strcmp fileName (bufferAt disk rest s) = some 0

/-- The comparison with the name in the sector `s` ends, and finds a difference. -/
def Differs (disk : Disk) (rest fileName : List UInt8) (s : Nat) : Prop :=
  ∃ r, strcmp fileName (bufferAt disk rest s) = some r ∧ r ≠ 0

/-- The list of sectors of the file at `s` has an end in memory. -/
def ListEnds (disk : Disk) (rest : List UInt8) (s : Nat) : Prop :=
  COMMON_INDICATOR_64 ∈ words64 (bufferAt disk rest (uint32 (headerData (bufferAt disk rest s))))

/-- Through headers with another name and a link, the walk from `s` comes to a header with the name,
whose list of sectors has an end, or to the last header. -/
def FindEnds (disk : Disk) (rest fileName : List UInt8) : Nat → Prop :=
  Reaches (nextHeader disk rest)
    (fun s => Differs disk rest fileName s ∧ ¬ Last disk rest s)
    fun s => Matches disk rest fileName s ∧ ListEnds disk rest s ∨
      Differs disk rest fileName s ∧ Last disk rest s

/-- Through headers whose names have an end, the walk from `s` comes to the last header. -/
def ShowEnds (disk : Disk) (rest : List UInt8) : Nat → Prop :=
  Reaches (nextHeader disk rest)
    (fun s => 0 ∈ bufferAt disk rest s ∧ ¬ Last disk rest s)
    fun s => 0 ∈ bufferAt disk rest s ∧ Last disk rest s

theorem findFile_succ (fileName : List UInt8) (s : Nat) :
    (∃ p, findFile disk rest fileName (fuel + 1) s = some p) ↔
      (Matches disk rest fileName s ∧ ListEnds disk rest s ∨
        Differs disk rest fileName s ∧ Last disk rest s) ∨
      (Differs disk rest fileName s ∧ ¬ Last disk rest s) ∧
        ∃ p, findFile disk rest fileName fuel (nextHeader disk rest s) = some p := by
  unfold findFile Matches Differs ListEnds Last
  rw [findHeader]
  cases hr : strcmp fileName (bufferAt disk rest s) with
  | none => simp
  | some r =>
    rw [Option.bind_some]
    by_cases h0 : r = 0
    · rw [if_pos h0, Option.bind_some, h0]
      dsimp only
      unfold getFileDataPointer
      rw [scanList_isSome_iff]
      simp
    · rw [if_neg h0]
      by_cases hlast : headerNext (bufferAt disk rest s) = COMMON_INDICATOR_64
      · rw [if_pos hlast]
        exact iff_of_true ⟨_, rfl⟩ (Or.inl (Or.inr ⟨⟨r, rfl, h0⟩, hlast⟩))
      · rw [if_neg hlast]
        constructor
        · exact fun h => Or.inr ⟨⟨⟨r, rfl, h0⟩, hlast⟩, h⟩
        · rintro ((⟨h, -⟩ | ⟨-, h⟩) | ⟨-, h⟩)
          · exact absurd (Option.some.inj h) h0
          · exact absurd h hlast
          · exact h

theorem showFiles_succ (s : Nat) : (∃ l, showFiles disk rest (fuel + 1) s = some l) ↔
      0 ∈ bufferAt disk rest s ∧ Last disk rest s ∨
      (0 ∈ bufferAt disk rest s ∧ ¬ Last disk rest s) ∧
        ∃ l, showFiles disk rest fuel (nextHeader disk rest s) = some l := by
  unfold Last
  rw [showFiles, ← cString_isSome_iff]
  unfold fileReport
  cases hn : cString (bufferAt disk rest s) with
  | none => simp
  | some n =>
    rw [Option.map_some, Option.bind_some]
    by_cases hlast : headerNext (bufferAt disk rest s) = COMMON_INDICATOR_64
    · rw [if_neg (not_not.mpr hlast)]
      exact iff_of_true ⟨_, rfl⟩ (Or.inl ⟨⟨n, rfl⟩, hlast⟩)
    · rw [if_pos hlast]
      constructor
      · rintro ⟨l, h⟩
        obtain ⟨l', h', -⟩ := Option.map_eq_some_iff.mp h
        exact Or.inr ⟨⟨⟨n, rfl⟩, hlast⟩, l', h'⟩
      · rintro (⟨-, h⟩ | ⟨-, l, h⟩)
        · exact absurd h hlast
        · exact ⟨_, by rw [show showFiles disk rest fuel (uint32 _) = some l from h]; rfl⟩

/-- **The walks of the root directory return exactly when the links and lists end**: `is_there_exe`
and `show_files`, from the header at `s`. -/
theorem walks_end_iff (disk : Disk) (rest fileName : List UInt8) (s : Nat) :
    ((∃ fuel b, isThereExe disk rest fileName fuel s = some b) ∧
        ∃ fuel l, showFiles disk rest fuel s = some l) ↔
      FindEnds disk rest fileName s ∧ ShowEnds disk rest s := by
  refine and_congr (Iff.trans ?_ (returns_iff (g := findFile disk rest fileName) (fun _ => rfl)
    fun _ _ => findFile_succ _ _)) (returns_iff (fun _ => rfl) fun _ _ => showFiles_succ _)
  unfold isThereExe
  simp only [Option.map_eq_some_iff]
  constructor
  · rintro ⟨fuel, b, p, hp, -⟩
    exact ⟨fuel, p, hp⟩
  · rintro ⟨fuel, p, hp⟩
    exact ⟨fuel, _, p, hp, rfl⟩

/-- A disk of zeros. -/
def zeroDisk : Disk := fun _ => .ofBytes []

/-- **On a disk of zeros neither walk returns**: every header links to the sector `0`. -/
theorem zeroDisk_never_ends : (¬ ∃ fuel b, isThereExe zeroDisk [] [120, 0] fuel 0 = some b) ∧
    ¬ ∃ fuel l, showFiles zeroDisk [] fuel 0 = some l := by
  have hnext : ∀ s, headerNext (bufferAt zeroDisk [] s) = 0 := fun s => by
    unfold bufferAt zeroDisk
    decide +kernel
  have hname : ∀ s, strcmp [120, 0] (bufferAt zeroDisk [] s) = some 120 := fun s => by
    unfold bufferAt zeroDisk
    decide +kernel
  constructor
  · rintro ⟨fuel, b, h⟩
    obtain ⟨p, hp, -⟩ := Option.map_eq_some_iff.mp h
    clear h
    induction fuel generalizing p with
    | zero => cases hp
    | succ fuel ih =>
      unfold findFile at hp
      rw [findHeader, hname, hnext, Option.bind_some, if_neg (by decide), if_neg (by decide)] at hp
      exact ih p hp
  · rintro ⟨fuel, l, h⟩
    induction fuel generalizing l with
    | zero => cases h
    | succ fuel ih =>
      rw [showFiles] at h
      obtain ⟨r, -, h⟩ := Option.bind_eq_some_iff.mp h
      rw [hnext, if_pos (by decide)] at h
      obtain ⟨l', h', -⟩ := Option.map_eq_some_iff.mp h
      exact ih l' h'

end C4os
