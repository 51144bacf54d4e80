import C4os.ListFs.FileRead
import C4os.ListFs.HeadChain

/-!
# The listing of the root directory (`kernel.c`)

* `headerBytes_fields`: the kernel's fields of a header that the image builder stored.
* `headReport`: what `show_files` prints about an entry; `showFiles_chain`: the listing of a chain.
* `ListsRoot`: the listing matches the directory.
* **`listsRoot_iff`**: when it does.
-/

namespace C4os

open Blocks LittleEndian Outcome

/-! ## The fields of a stored header -/

section

variable {name mem l : List UInt8} {n off x : Nat}

theorem field64_append (h : l.length = n) (off : Nat) (mem : List UInt8) :
    field64 (n + off) (l ++ mem) = field64 off mem := by
  unfold field64
  rw [← h, List.drop_append, List.drop_eq_nil_of_le (Nat.le_add_right _ _), Nat.add_sub_cancel_left]
  rfl

theorem field64_encode (x : Nat) (mem : List UInt8) : field64 0 (encode 8 x ++ mem) = x % 2 ^ 64 := by
  have hpow : 256 ^ 8 = 2 ^ 64 := by decide
  unfold field64
  rw [List.drop_zero, List.take_left' (length_encode 8 x), decode_encode_mod, hpow]

theorem cString_name (hn : ∀ b ∈ name, b ≠ 0) (mem : List UInt8) :
    cString (name ++ 0 :: mem) = some name := by
  induction name with
  | nil => exact if_pos rfl
  | cons b name ih =>
    rw [List.cons_append, cString, if_neg (hn b List.mem_cons_self),
      ih fun c hc => hn c (List.mem_cons_of_mem b hc)]
    rfl

theorem nameField_eq (h : name.length ≤ 255) : ∃ pad, nameField name = name ++ 0 :: pad := by
  refine ⟨List.replicate (255 - name.length) 0, ?_⟩
  unfold nameField
  rw [List.take_of_length_le h, fillBuffer_zeros (by omega), Nat.succ_sub h, List.replicate_succ]

/-- **What the kernel reads in a stored header.** -/
theorem headerBytes_fields {bs : Nat} (hbs : fileHeaderSize ≤ bs) (h : FileHeader)
    (rest : List UInt8) :
    headerNext (h.bytes bs ++ rest) = h.next % 2 ^ 64 ∧
      headerPrev (h.bytes bs ++ rest) = h.prev % 2 ^ 64 ∧
      headerParent (h.bytes bs ++ rest) = h.parent % 2 ^ 64 ∧
      headerFlags (h.bytes bs ++ rest) = h.flags % 2 ^ 64 ∧
      headerData (h.bytes bs ++ rest) = h.data % 2 ^ 64 ∧
      headerSize (h.bytes bs ++ rest) = h.size % 2 ^ 64 ∧
      (h.name.length ≤ 255 → (∀ b ∈ h.name, b ≠ 0) →
        cString (h.bytes bs ++ rest) = some h.name) := by
  have hlen : (nameField h.name).length = 256 := length_fillBuffer _ _ _
  obtain ⟨tail, hbytes⟩ : ∃ tail, h.bytes bs ++ rest = nameField h.name ++ (encode 8 h.next ++
      (encode 8 h.prev ++ (encode 8 h.parent ++ (encode 8 h.flags ++ (encode 8 h.data ++
        (encode 8 h.size ++ tail)))))) := by
    unfold FileHeader.bytes
    rw [fillBuffer_zeros (by simp only [List.length_append, length_encode, hlen]; exact hbs)]
    simp only [List.append_assoc]
    exact ⟨_, rfl⟩
  have hskip : ∀ x off m, field64 (8 + off) (encode 8 x ++ m) = field64 off m :=
    fun x off m => field64_append (length_encode 8 x) off m
  rw [hbytes]
  refine ⟨?_, ?_, ?_, ?_, ?_, ?_, ?_⟩
  · exact (field64_append hlen 0 _).trans (field64_encode _ _)
  · refine (field64_append hlen 8 _).trans ?_
    rw [hskip _ 0, field64_encode]
  · refine (field64_append hlen 16 _).trans ?_
    rw [hskip _ 8, hskip _ 0, field64_encode]
  · refine (field64_append hlen 24 _).trans ?_
    rw [hskip _ 16, hskip _ 8, hskip _ 0, field64_encode]
  · refine (field64_append hlen 32 _).trans ?_
    rw [hskip _ 24, hskip _ 16, hskip _ 8, hskip _ 0, field64_encode]
  · refine (field64_append hlen 40 _).trans ?_
    rw [hskip _ 32, hskip _ 24, hskip _ 16, hskip _ 8, hskip _ 0, field64_encode]
  · intro hn hnul
    obtain ⟨pad, hpad⟩ := nameField_eq hn
    rw [hpad, List.append_assoc, List.cons_append]
    exact cString_name hnul _

end

/-! ## The listing of a chain -/

/-- What `show_files` prints about an entry. The flag of a directory is bit `0`. -/
def headReport (parent : Nat) (h : Head) : FileReport where
  name := h.name
  isDirectory := false
  isRoot := parent = COMMON_INDICATOR_64
  size := uint32 h.size

/-- The name fits into its field. -/
def Head.Named (h : Head) : Prop := h.name.length ≤ 255 ∧ ∀ b ∈ h.name, b ≠ 0

section

variable {disk : Disk} {rest : List UInt8} {parent prev cur next data s : Nat} {h : Head}
  {heads : List Head} {secs : List Nat}

theorem bufferAt_eq {l : List UInt8} (h : (disk s).bytes = l) : bufferAt disk rest s = l ++ rest := by
  rw [bufferAt, h]

theorem fileReport_header (hparent : parent < 2 ^ 64) (hn : h.Named) :
    fileReport ((h.header parent prev next data).bytes 512 ++ rest) =
      some (headReport parent h) := by
  have hle : fileHeaderSize ≤ 512 := by decide
  obtain ⟨-, -, hp, hf, -, hs, hname⟩ := headerBytes_fields hle (h.header parent prev next data) rest
  have hflag : (h.header parent prev next data).flags % 2 ^ 64 &&& 1 <<< 1 = 0 := by
    show (if h.isDir then 1 else 0) % 2 ^ 64 &&& 1 <<< 1 = 0
    cases h.isDir <;> decide
  have hsize : uint32 ((h.header parent prev next data).size % 2 ^ 64) = uint32 h.size := by
    show h.size % 2 ^ 64 % 2 ^ 32 = h.size % 2 ^ 32
    omega
  have hroot : (h.header parent prev next data).parent % 2 ^ 64 = parent := Nat.mod_eq_of_lt hparent
  unfold fileReport
  rw [hname hn.1 hn.2, Option.map_some, hp, hf, hs, hsize, hroot, hflag]
  rfl

/-- **`show_files`** prints a report for every header of the chain. -/
theorem showFiles_chain (hc : HeadChain 512 (fun i => (disk i).bytes) parent prev cur heads secs)
    (hne : heads ≠ []) (hlt : ∀ i ∈ secs, i < COMMON_INDICATOR_32) (hparent : parent < 2 ^ 64)
    (hn : ∀ h ∈ heads, h.Named) :
    showFiles disk rest secs.length cur = some (heads.map (headReport parent)) := by
  induction hc with
  | nil => exact absurd rfl hne
  | @cons prev cur next data h heads secs header tail ih =>
    have hnext : headerNext ((h.header parent prev next data).bytes 512 ++ rest) = next % 2 ^ 64 :=
      (headerBytes_fields (by decide : fileHeaderSize ≤ 512) _ rest).1
    have hreport : fileReport ((h.header parent prev next data).bytes 512 ++ rest) = _ :=
      fileReport_header hparent (hn h List.mem_cons_self)
    rw [List.length_cons, showFiles, bufferAt_eq header, hreport, Option.bind_some, hnext]
    cases tail with
    | nil => exact if_neg (not_not.mpr rfl)
    | @cons _ _ next' data' h' heads secs header' tail' =>
      have hlt' : next < COMMON_INDICATOR_32 :=
        hlt _ (List.mem_cons_of_mem _ List.mem_cons_self)
      have hmod : next % 2 ^ 64 = next := Nat.mod_eq_of_lt (Nat.lt_trans hlt' (by decide))
      have hu : uint32 next = next := Nat.mod_eq_of_lt (Nat.lt_trans hlt' (by decide))
      rw [hmod, if_pos (ne_of_lt_indicator hlt'), hu, ih (List.cons_ne_nil _ _)
        (fun i hi => hlt i (List.mem_cons_of_mem _ hi)) fun x hx => hn x (List.mem_cons_of_mem _ hx)]
      rfl

end

/-! ## When the listing matches -/

/-- The report matches the entry: its name, whether it is stored as a directory, and the size of a
file that is not too long. -/
def Reports (r : FileReport) (h : Head) : Prop :=
  r.name = h.name ∧ r.isDirectory = h.isDir ∧ (h.isDir = false → h.size < 2 ^ 32 → r.size = h.size)

/-- `show_files` from `first_file` on reports every entry of the directory once, in its order. -/
def ListsRoot (disk : Disk) (rest : List UInt8) (first : Nat) (l : Listing) : Prop :=
  ∃ fuel reports, showFiles disk rest fuel (uint32 first) = some reports ∧
    List.Forall₂ Reports reports l.heads

section

variable {s s' : Builder} {l : Listing} {dirName : List UInt8} {first : Nat}

theorem reports_headReport (parent : Nat) (h : Head) :
    Reports (headReport parent h) h ↔ h.isDir = false := by
  constructor
  · rintro ⟨-, hdir, -⟩
    exact hdir.symm
  · intro hdir
    refine ⟨rfl, hdir.symm, fun _ hlt => Nat.mod_eq_of_lt hlt⟩

theorem forall₂_map_headReport (parent : Nat) (heads : List Head) :
    List.Forall₂ Reports (heads.map (headReport parent)) heads ↔ ∀ h ∈ heads, h.isDir = false := by
  rw [List.forall₂_map_left_iff, List.forall₂_same]
  simp only [reports_headReport]

theorem showFiles_unique {disk : Disk} {rest : List UInt8} {fuel fuel' s : Nat}
    {l l' : List FileReport} (h : showFiles disk rest fuel s = some l)
    (h' : showFiles disk rest fuel' s = some l') : l = l' := by
  induction fuel generalizing fuel' s l l' with
  | zero => cases h
  | succ fuel ih =>
    cases fuel' with
    | zero => cases h'
    | succ fuel' =>
      rw [showFiles] at h h'
      obtain ⟨r, hr, h⟩ := Option.bind_eq_some_iff.mp h
      obtain ⟨r', hr', h'⟩ := Option.bind_eq_some_iff.mp h'
      rw [hr] at hr'
      obtain rfl := Option.some.inj hr'
      split_ifs at h h'
      · obtain ⟨m, hm, rfl⟩ := Option.map_eq_some_iff.mp h
        obtain ⟨m', hm', rfl⟩ := Option.map_eq_some_iff.mp h'
        rw [ih hm hm']
      · exact Option.some.inj (h.symm.trans h')

/-- **The listing of an image**: every entry of the root, and none as a directory. -/
theorem showFiles_processDir (rest : List UInt8) (hbs : s.blockSize = 512)
    (hpos : 0 < s.fsHeader.size) (hsize : s.fsHeader.size ≤ COMMON_INDICATOR_32)
    (hne : l.heads ≠ []) (hn : ∀ h ∈ l.heads, h.Named)
    (hrun : processDir minusOne dirName l s = .ok first s') :
    ∃ fuel, showFiles s'.disk rest fuel (uint32 first) =
      some (l.heads.map (headReport minusOne)) := by
  have hs := ready_of_size hbs hpos hsize
  obtain ⟨hbs', -, cur, secs, hchain, hsecs, hcur, -⟩ :=
    (processEntries_heads l hs (by rw [hbs]; decide) .none fun _ => rfl).of_ok hrun
  rw [if_neg (not_not.mpr rfl)] at hcur
  subst hcur
  have hlt : ∀ i ∈ secs, i < COMMON_INDICATOR_32 :=
    fun i hi => Nat.lt_of_lt_of_le (hsecs i hi) hsize
  have hu : uint32 first = first :=
    Nat.mod_eq_of_lt (Nat.lt_trans (hlt first (hchain.mem hne)) (by decide))
  rw [hbs, block_eq_disk (hbs'.trans hbs)] at hchain
  rw [hu]
  exact ⟨secs.length, showFiles_chain hchain hne hlt (by decide) hn⟩

theorem listsRoot_of_showFiles {disk : Disk} {rest : List UInt8} {fuel : Nat} {rs : List FileReport}
    (h : showFiles disk rest fuel (uint32 first) = some rs) :
    ListsRoot disk rest first l ↔ List.Forall₂ Reports rs l.heads := by
  constructor
  · rintro ⟨fuel', reports, hreports, hmatch⟩
    rwa [showFiles_unique hreports h] at hmatch
  · intro hmatch
    exact ⟨fuel, rs, h, hmatch⟩

/-- **The kernel's listing matches the image exactly if no entry of the root is stored as a
directory.** -/
theorem listsRoot_iff (rest : List UInt8) (hbs : s.blockSize = 512) (hpos : 0 < s.fsHeader.size)
    (hsize : s.fsHeader.size ≤ COMMON_INDICATOR_32) (hne : l.heads ≠ [])
    (hn : ∀ h ∈ l.heads, h.Named) (hrun : processDir minusOne dirName l s = .ok first s') :
    ListsRoot s'.disk rest first l ↔ ∀ h ∈ l.heads, h.isDir = false := by
  obtain ⟨fuel, hshow⟩ := showFiles_processDir rest hbs hpos hsize hne hn hrun
  rw [listsRoot_of_showFiles hshow]
  exact forall₂_map_headReport minusOne l.heads

/-- A directory with a directory in it. -/
def nestedListing : Listing := .dir [100] ⟨0, 0, 0⟩ (.leaf [102] ⟨0, 0, 0⟩ (.file [7]) .nil) .nil

theorem processDir_nested :
    ∃ first s', processDir minusOne [115] nestedListing emptyImage = .ok first s' := by
  have hok : (match processDir minusOne [115] nestedListing emptyImage with
    | .ok _ _ => true
    | .error _ _ => false) = true := by decide +kernel
  cases hrun : processDir minusOne [115] nestedListing emptyImage with
  | ok first s' => exact ⟨first, s', rfl⟩
  | error e s' =>
    rw [hrun] at hok
    cases hok

theorem named_nested : ∀ h ∈ nestedListing.heads, h.Named := by
  intro h hh
  obtain rfl := List.mem_singleton.mp hh
  exact ⟨by decide, by decide +kernel⟩

theorem listsRoot_iff_nested :
    ∃ first s', processDir minusOne [115] nestedListing emptyImage = .ok first s' ∧
      (ListsRoot s'.disk [] first nestedListing ↔ ∀ h ∈ nestedListing.heads, h.isDir = false) := by
  obtain ⟨first, s', hrun⟩ := processDir_nested
  exact ⟨first, s', hrun, listsRoot_iff [] rfl (by decide) (by decide) (by decide) named_nested hrun⟩

/-- **The directory is listed as a file.** -/
theorem directory_listed_as_file :
    ∃ first s', processDir minusOne [115] nestedListing emptyImage = .ok first s' ∧
      ∀ rest, ¬ ListsRoot s'.disk rest first nestedListing := by
  obtain ⟨first, s', hrun⟩ := processDir_nested
  refine ⟨first, s', hrun, fun rest hlists => ?_⟩
  obtain ⟨fuel, hshow⟩ := showFiles_processDir rest rfl (by decide) (by decide) (by decide)
    named_nested hrun
  rw [listsRoot_of_showFiles hshow, forall₂_map_headReport] at hlists
  exact absurd (hlists _ List.mem_cons_self) (by decide)

end

end C4os
