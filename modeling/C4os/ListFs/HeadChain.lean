import C4os.ListFs.Store

/-!
# The headers of a directory (`make_listfs.c`)

* `Builder.Past`: none of the first `b` blocks is free, and the file position is behind them.
* `Builder.Keeps`: a part of a run that leaves such blocks; `processEntries_keeps`: `process_dir`
  does, also where it writes at the file position because a directory is empty.
* `Head`, `Listing.heads`: the entries of a directory and what their headers say of them.
* `HeadChain`: the headers of a directory in their blocks, each linked to the next one.
* **`processEntries_heads`**: `process_dir` stores the chain of the headers, whatever is below.
-/

namespace C4os

open Blocks LittleEndian Outcome

/-! ## Blocks that are left alone -/

/-- The writer is past the first `b` blocks. -/
structure Builder.Past (s : Builder) (b : Nat) : Prop where
  free : ∀ j ∈ s.free, b ≤ j
  position : s.blockSize * b ≤ s.position

/-- From `s` to `s'` the writer stays past the first `b` blocks, which keep their bytes. -/
structure Builder.Keeps (b : Nat) (s s' : Builder) : Prop where
  blockSize : s'.blockSize = s.blockSize
  fsHeader : s'.fsHeader = s.fsHeader
  free : s'.free <:+ s.free
  past : s'.Past b
  block : ∀ i < b, s'.block i = s.block i
  writes : s.writes <+: s'.writes

section

variable {s s' s'' : Builder} {b j prev cur first parent : Nat} {header : Option FileHeader}
  {dirName name : List UInt8} {stat : Stat}

theorem sorted_free (s : Builder) : s.free.Pairwise (· < ·) := List.pairwise_lt_range.filter _

theorem Builder.past_zero (s : Builder) : s.Past 0 := ⟨fun _ _ => Nat.zero_le _, Nat.zero_le _⟩

theorem Builder.Keeps.refl (h : s.Past b) : s.Keeps b s :=
  ⟨rfl, rfl, List.suffix_rfl, h, fun _ _ => rfl, List.prefix_rfl⟩

theorem Builder.Keeps.trans (h : s.Keeps b s') (h' : s'.Keeps b s'') : s.Keeps b s'' where
  blockSize := h'.blockSize.trans h.blockSize
  fsHeader := h'.fsHeader.trans h.fsHeader
  free := h'.free.trans h.free
  past := h'.past
  block := fun i hi => (h'.block i hi).trans (h.block i hi)
  writes := h.writes.trans h'.writes

theorem Builder.Keeps.ready (h : s.Keeps b s') (hs : s.Ready) : s'.Ready := by
  obtain ⟨h1, h2⟩ := hs
  exact ⟨h.fsHeader ▸ h1, by rwa [h.blockSize, h.fsHeader]⟩

theorem Builder.Past.write (h : s.Past b) {offset : Nat} (ho : s.blockSize * b ≤ offset)
    (data : List UInt8) : s.Keeps b (s.write j offset data) where
  blockSize := rfl
  fsHeader := rfl
  free := List.suffix_rfl
  past := ⟨h.free, Nat.le_add_right_of_le ho⟩
  block := by
    intro i hi
    apply block_congr
    intro k hk
    apply overwrite_of_lt
    have hle : s.blockSize * (i + 1) ≤ offset := Nat.le_trans (Nat.mul_le_mul_left _ hi) ho
    rw [Nat.mul_succ] at hle
    exact Nat.lt_of_lt_of_le (Nat.add_lt_add_left hk _) hle
  writes := List.prefix_append _ _

theorem minusOne_offset (hs : s.Ready) (hb : 0 < s.blockSize) :
    ¬ s.blockSize * minusOne % 2 ^ 64 < 2 ^ 63 := by
  have hle : s.blockSize ≤ s.blockSize * s.fsHeader.size := Nat.le_mul_of_pos_right _ hs.size
  have hlt := hs.offsets
  have hneg : s.blockSize * minusOne = 2 ^ 64 * (s.blockSize - 1) + (2 ^ 64 - s.blockSize) := by
    unfold minusOne
    omega
  rw [hneg, Nat.mul_add_mod]
  omega

theorem offset_eq (hs : s.Ready) (hj : j < s.fsHeader.size) :
    s.blockSize * j % 2 ^ 64 = s.blockSize * j ∧ s.blockSize * j < 2 ^ 63 := by
  have hle : s.blockSize * j ≤ s.blockSize * s.fsHeader.size :=
    Nat.mul_le_mul_left _ (Nat.le_of_lt hj)
  have := hs.offsets
  omega

/-- **`write_block`**, for a later block or for `-1`. -/
theorem writeBlock_keeps (hs : s.Ready) (hb : 0 < s.blockSize) (h : s.Past b)
    (hj : j = minusOne ∨ b ≤ j ∧ j < s.fsHeader.size) (data : List UInt8) :
    Ends (fun _ s' => s.Keeps b s') (fun _ _ => True) (writeBlock j data s) := by
  rw [writeBlock_eq]
  rcases hj with rfl | ⟨hlt, hsize⟩
  · rw [if_neg (minusOne_offset hs hb)]
    exact h.write h.position data
  · obtain ⟨hmod, hneg⟩ := offset_eq hs hsize
    rw [hmod, if_pos hneg]
    exact h.write (Nat.mul_le_mul_left _ hlt) data

/-- **`alloc_disk_block`** takes a later block. -/
theorem allocDiskBlock_keeps (hs : s.Ready) (h : s.Past b) :
    Ends (fun j s' => s.Keeps b s' ∧ b ≤ j ∧ j < s'.fsHeader.size) (fun _ _ => True)
      (allocDiskBlock s) := by
  have hspec := allocDiskBlock_spec hs.size
  cases hf : s.free with
  | nil =>
    rw [hf] at hspec
    obtain ⟨e, -, heq⟩ := hspec
    rw [heq]
    trivial
  | cons j l =>
    rw [hf] at hspec
    have hmem : j ∈ s.free := by
      rw [hf]
      exact List.mem_cons_self
    rw [hspec.1]
    refine ⟨⟨rfl, rfl, ?_, ⟨?_, h.position⟩, fun _ _ => rfl, List.prefix_rfl⟩, h.free j hmem, (mem_free.mp hmem).1⟩
    · rw [hspec.2, hf]
      exact List.suffix_cons j l
    · intro k hk
      apply h.free
      rw [hf]
      exact List.mem_cons_of_mem j (hspec.2 ▸ hk)

/-! ## Runs that leave a block alone -/

theorem Builder.Keeps.bind {α β : Type} {x : Build α} {f : α → Build β} {Q : α → Builder → Prop}
    (hx : Ends (fun a s' => s.Keeps b s' ∧ Q a s') (fun _ _ => True) (x s))
    (hf : ∀ a s', s.Keeps b s' → Q a s' →
      Ends (fun _ s'' => s'.Keeps b s'') (fun _ _ => True) (f a s')) :
    Ends (fun _ s'' => s.Keeps b s'') (fun _ _ => True) ((x >>= f) s) :=
  hx.bind fun a s' ⟨hk, hq⟩ => (hf a s' hk hq).mono (fun _ _ h => hk.trans h) fun _ _ h => h

theorem storeBlocks_keeps (hs : s.Ready) (hb : 0 < s.blockSize) (h : s.Past b) (n : Nat) (f : File) :
    Ends (fun _ s' => s.Keeps b s') (fun _ _ => True) (storeBlocks n f s) := by
  induction n generalizing s f with
  | zero => exact .refl h
  | succ n ih =>
    rw [storeBlocks, bind_get]
    by_cases heof : f.eof = true
    · rw [if_pos heof]
      exact (ih hs hb h f).bind fun _ _ h => h
    rw [if_neg heof]
    dsimp only
    by_cases hdata : (f.fread s.blockSize).1 = []
    · rw [if_pos hdata]
      exact (ih hs hb h _).bind fun _ _ h => h
    rw [if_neg hdata]
    refine Builder.Keeps.bind (allocDiskBlock_keeps hs h) ?_
    rintro j s₁ h₁ ⟨hij, hj⟩
    refine Builder.Keeps.bind ((writeBlock_keeps (h₁.ready hs) (h₁.blockSize ▸ hb) h₁.past
      (Or.inr ⟨hij, hj⟩) _).mono (fun _ _ h => ⟨h, trivial⟩) fun _ _ h => h) ?_
    rintro - s₂ h₂ -
    have h₁₂ := h₁.trans h₂
    exact (ih (h₁₂.ready hs) (h₁₂.blockSize ▸ hb) h₂.past _).bind fun _ _ h => h

theorem storeFileData_keeps (hs : s.Ready) (hb : 0 < s.blockSize) (h : s.Past b) (fuel : Nat)
    (f : File) : Ends (fun _ s' => s.Keeps b s') (fun _ _ => True) (storeFileData fuel f s) := by
  induction fuel generalizing s f with
  | zero => trivial
  | succ fuel ih =>
    rw [storeFileData]
    by_cases heof : f.eof = true
    · rw [if_pos heof]
      exact .refl h
    rw [if_neg heof, bind_get]
    refine Builder.Keeps.bind (allocDiskBlock_keeps hs h) ?_
    rintro list s₁ h₁ ⟨hij, hlist⟩
    refine Builder.Keeps.bind ((storeBlocks_keeps (h₁.ready hs) (h₁.blockSize ▸ hb) h₁.past _ _).mono
      (fun _ _ h => ⟨h, trivial⟩) fun _ _ h => h) ?_
    rintro ⟨entries, f'⟩ s₂ h₂ -
    have h₁₂ := h₁.trans h₂
    refine Builder.Keeps.bind ((ih (h₁₂.ready hs) (h₁₂.blockSize ▸ hb) h₂.past f').mono
      (fun _ _ h => ⟨h, trivial⟩) fun _ _ h => h) ?_
    rintro next s₃ h₃ -
    have h₁₃ := h₁₂.trans h₃
    refine (writeBlock_keeps (h₁₃.ready hs) (h₁₃.blockSize ▸ hb) h₃.past (Or.inr ⟨hij, ?_⟩) _).bind
      fun _ _ h => h
    rw [h₃.fsHeader, h₂.fsHeader]
    exact hlist

theorem writeHeader_keeps (hs : s.Ready) (hb : 0 < s.blockSize) (h : s.Past b)
    (hprev : prev = minusOne ∨ b ≤ prev ∧ prev < s.fsHeader.size) (header : Option FileHeader) :
    Ends (fun _ s' => s.Keeps b s') (fun _ _ => True) (writeHeader prev header s) := by
  rw [writeHeader, bind_get]
  exact writeBlock_keeps hs hb h hprev _

theorem linkHeader_keeps (hs : s.Ready) (hb : 0 < s.blockSize) (h : s.Past b)
    (hprev : prev = minusOne ∨ b ≤ prev ∧ prev < s.fsHeader.size) (cur : Nat)
    (header : Option FileHeader) :
    Ends (fun _ s' => s.Keeps b s') (fun _ _ => True) (linkHeader prev cur header s) := by
  unfold linkHeader
  split_ifs
  · exact writeHeader_keeps hs hb h hprev _
  · exact .refl h

theorem checkBuffers_eq (path : List UInt8) (s : Builder) : checkBuffers path s =
    if s.blockSize < fileHeaderSize ∨ path.length + 1 > 260 then .error .overrun s
    else .ok ⟨⟩ s := by
  rw [checkBuffers, bind_get]
  split_ifs <;> rfl

theorem newEntry_keeps (hs : s.Ready) (hb : 0 < s.blockSize) (h : s.Past b)
    (hprev : prev = minusOne ∨ b ≤ prev ∧ prev < s.fsHeader.size) :
    Ends (fun r s' => s.Keeps b s' ∧ b ≤ r.1 ∧ r.1 < s'.fsHeader.size) (fun _ _ => True)
      (newEntry parent dirName name stat prev header first s) := by
  unfold newEntry
  refine (allocDiskBlock_keeps hs h).bind ?_
  rintro cur s₁ ⟨h₁, hcur, hlt⟩
  have hprev₁ : prev = minusOne ∨ b ≤ prev ∧ prev < s₁.fsHeader.size := by
    rwa [h₁.fsHeader]
  refine (linkHeader_keeps (h₁.ready hs) (h₁.blockSize ▸ hb) h₁.past hprev₁ cur header).bind ?_
  intro _ s₂ h₂
  have hcheck := checkBuffers_eq (filePath dirName name) s₂
  split_ifs at hcheck
  · rw [bind_error hcheck]
    trivial
  · rw [bind_ok hcheck]
    refine ⟨h₁.trans h₂, hcur, ?_⟩
    rw [h₂.fsHeader]
    exact hlt

theorem storeLeaf_keeps (hs : s.Ready) (hb : 0 < s.blockSize) (h : s.Past b) (new : FileHeader)
    (kind : Leaf) :
    Ends (fun _ s' => s.Keeps b s') (fun _ _ => True) (storeLeaf new kind s) := by
  cases kind with
  | file content => exact (storeFileData_keeps hs hb h _ _).bind fun _ _ h => h
  | closedFile => exact .refl h
  | closedDir => exact .refl h
  | special => exact .refl h

/-- **`process_dir`** leaves the blocks that the writer is past. An empty directory is written for
`-1`, at the file position, which is behind them. -/
theorem processEntries_keeps (l : Listing) (hs : s.Ready) (hb : 0 < s.blockSize) (h : s.Past b)
    (hprev : prev = minusOne ∨ b ≤ prev ∧ prev < s.fsHeader.size) :
    Ends (fun _ s' => s.Keeps b s') (fun _ _ => True)
      (processEntries parent dirName l prev header first s) := by
  induction l generalizing s parent dirName prev header first with
  | nil => exact (writeHeader_keeps hs hb h hprev header).bind fun _ _ h => h
  | leaf name stat kind rest ih =>
    rw [processEntries]
    split_ifs
    · exact ih hs hb h hprev
    refine Builder.Keeps.bind (newEntry_keeps hs hb h hprev) ?_
    rintro ⟨cur, new, first'⟩ s₁ h₁ ⟨hcur, hlt⟩
    refine Builder.Keeps.bind ((storeLeaf_keeps (h₁.ready hs) (h₁.blockSize ▸ hb) h₁.past new kind).mono
      (fun _ _ h => ⟨h, trivial⟩) fun _ _ h => h) ?_
    rintro new' s₂ h₂ -
    have h₁₂ := h₁.trans h₂
    refine ih (h₁₂.ready hs) (h₁₂.blockSize ▸ hb) h₂.past (Or.inr ⟨hcur, ?_⟩)
    rw [h₂.fsHeader]
    exact hlt
  | dir name stat entries rest ihe ih =>
    rw [processEntries]
    split_ifs
    · exact ih hs hb h hprev
    refine Builder.Keeps.bind (newEntry_keeps hs hb h hprev) ?_
    rintro ⟨cur, new, first'⟩ s₁ h₁ ⟨hcur, hlt⟩
    refine Builder.Keeps.bind ((ihe (h₁.ready hs) (h₁.blockSize ▸ hb) h₁.past (Or.inl rfl)).mono
      (fun _ _ h => ⟨h, trivial⟩) fun _ _ h => h) ?_
    rintro data s₂ h₂ -
    have h₁₂ := h₁.trans h₂
    refine ih (h₁₂.ready hs) (h₁₂.blockSize ▸ hb) h₂.past (Or.inr ⟨hcur, ?_⟩)
    rw [h₂.fsHeader]
    exact hlt

end

/-! ## The chain of the headers -/

/-- An entry of a directory: whether it is stored as a directory, and its size. -/
structure Head where
  name : List UInt8
  stat : Stat
  isDir : Bool
  size : Nat

/-- A leaf is stored as a directory. -/
def Leaf.isDir : Leaf → Bool
  | .closedDir => true
  | _ => false

/-- The size that is stored for a leaf. -/
def Leaf.size : Leaf → Nat
  | .file content => content.length
  | _ => 0

/-- The entries that are stored. -/
def Listing.heads : Listing → List Head
  | .nil => []
  | .leaf name stat kind rest =>
    if isDot name then rest.heads else ⟨name, stat, kind.isDir, kind.size⟩ :: rest.heads
  | .dir name stat _ rest => if isDot name then rest.heads else ⟨name, stat, true, 0⟩ :: rest.heads

/-- The header of an entry. -/
def Head.header (h : Head) (parent prev next data : Nat) : FileHeader :=
  ⟨h.name, next, prev, parent, if h.isDir then 1 else 0, data, h.size, h.stat.createTime,
    h.stat.modifyTime, h.stat.accessTime⟩

/-- The headers of a directory in the blocks `secs`, from the block `cur` on, and `-1` if there is
none. -/
inductive HeadChain (bs : Nat) (blk : Nat → List UInt8) (parent : Nat) :
    Nat → Nat → List Head → List Nat → Prop where
  | nil {prev : Nat} : HeadChain bs blk parent prev minusOne [] []
  | cons {prev cur next data : Nat} {h : Head} {heads : List Head} {secs : List Nat}
      (header : blk cur = (h.header parent prev next data).bytes bs)
      (tail : HeadChain bs blk parent cur next heads secs) :
      HeadChain bs blk parent prev cur (h :: heads) (cur :: secs)

theorem HeadChain.mem {bs parent prev cur : Nat} {blk : Nat → List UInt8} {heads : List Head}
    {secs : List Nat} (h : HeadChain bs blk parent prev cur heads secs) (hne : heads ≠ []) :
    cur ∈ secs := by
  cases h with
  | nil => exact absurd rfl hne
  | cons => exact List.mem_cons_self

section

variable {s s' : Builder} {b prev cur first parent : Nat} {header : Option FileHeader}
  {dirName name : List UInt8} {stat : Stat}

/-- `prev_file` and the buffer at the start of a round. -/
inductive Pending (s : Builder) : Nat → Option FileHeader → Prop where
  | none : Pending s minusOne none
  | some {prev : Nat} {h : FileHeader} (lt : prev < s.fsHeader.size) (free : ∀ j ∈ s.free, prev < j)
      (next : h.next = minusOne) : Pending s prev (some h)

/-- The number of blocks that the writer is past when the pending header is written. -/
def pendingBound (prev : Nat) (header : Option FileHeader) : Nat := header.elim 0 fun _ => prev + 1

/-- The pending header is written with its link. -/
structure LinkStored (s : Builder) (prev : Nat) (header : Option FileHeader) (cur : Nat) : Prop where
  past : s.Past (pendingBound prev header)
  block : ∀ h, header = some h →
    s.block prev = ({ h with next := cur } : FileHeader).bytes s.blockSize

theorem LinkStored.keeps (h : LinkStored s prev header cur) (hk : s.Keeps (pendingBound prev header) s') :
    LinkStored s' prev header cur where
  past := hk.past
  block := by
    intro h' hh
    rw [hk.block prev (by rw [hh]; exact Nat.lt_succ_self prev), h.block h' hh, hk.blockSize]

@[simp] theorem length_headerBytes (bs : Nat) (h : FileHeader) : (h.bytes bs).length = bs :=
  length_fillBuffer _ _ _

theorem linkHeader_linkStored (hs : s.Ready) (hb : 0 < s.blockSize) (hp : Pending s prev header)
    (cur : Nat) :
    Ends (fun _ s' => s'.blockSize = s.blockSize ∧ s'.fsHeader = s.fsHeader ∧ s'.free = s.free ∧
      LinkStored s' prev header cur) (fun _ _ => True) (linkHeader prev cur header s) := by
  cases hp with
  | none =>
    rw [linkHeader, if_neg (not_not.mpr rfl)]
    exact ⟨rfl, rfl, rfl, s.past_zero, fun h hh => (nomatch hh)⟩
  | @some _ h hlt hfree hnext =>
    obtain ⟨hmod, hneg⟩ := offset_eq hs hlt
    rw [linkHeader, if_pos (hs.ne_minusOne hb hlt), writeHeader, bind_get, writeBlock_eq, hmod,
      if_pos hneg]
    refine ⟨rfl, rfl, rfl, ⟨fun j hj => hfree j hj, ?_⟩, ?_⟩
    · show s.blockSize * (prev + 1) ≤ s.blockSize * prev + (FileHeader.bytes _ _).length
      rw [length_headerBytes]
      exact Nat.le_refl _
    · intro h' hh
      cases hh
      exact block_overwrite_self (length_headerBytes _ _)

/-- **The start of a round** writes the pending header. -/
theorem newEntry_linkStored (hs : s.Ready) (hb : 0 < s.blockSize) (hp : Pending s prev header) :
    Ends (fun r s' => s'.blockSize = s.blockSize ∧ s'.fsHeader = s.fsHeader ∧
        r.2.1 = Head.header ⟨name, stat, false, 0⟩ parent prev minusOne 0 ∧
        r.2.2 = (if prev ≠ minusOne then first else r.1) ∧ pendingBound prev header ≤ r.1 ∧
        r.1 < s.fsHeader.size ∧ (∀ j ∈ s'.free, r.1 < j) ∧ LinkStored s' prev header r.1)
      (fun _ _ => True) (newEntry parent dirName name stat prev header first s) := by
  have hspec := allocDiskBlock_spec hs.size
  unfold newEntry
  cases hf : s.free with
  | nil =>
    rw [hf] at hspec
    obtain ⟨e, -, heq⟩ := hspec
    rw [bind_error heq]
    trivial
  | cons cur l =>
    rw [hf] at hspec
    have hmem : cur ∈ s.free := by
      rw [hf]
      exact List.mem_cons_self
    have hlt := lt_of_mem_free hmem
    have hsorted := sorted_free s
    rw [hf, List.pairwise_cons] at hsorted
    have hbound : pendingBound prev header ≤ cur := by
      cases hp with
      | none => exact Nat.zero_le _
      | some _ hfree _ => exact hfree cur hmem
    have hp₁ : Pending (s.take cur) prev header := by
      cases hp with
      | none => exact .none
      | some hlt hfree hnext =>
        refine .some hlt (fun j hj => hfree j ?_) hnext
        rw [hf]
        exact List.mem_cons_of_mem cur (hspec.2 ▸ hj)
    have hs₁ : (s.take cur).Ready := ⟨hs.size, hs.offsets⟩
    rw [bind_ok hspec.1]
    refine (linkHeader_linkStored hs₁ hb hp₁ cur).bind ?_
    rintro - s₂ ⟨hbs, hfs, hfree, hstored⟩
    have hcheck := checkBuffers_eq (filePath dirName name) s₂
    split_ifs at hcheck
    · rw [bind_error hcheck]
      trivial
    · rw [bind_ok hcheck]
      refine ⟨hbs, hfs, rfl, rfl, hbound, hlt, ?_, hstored⟩
      rw [hfree, hspec.2]
      exact hsorted.1

theorem storeLeaf_heads (hs : s.Ready) (hb : 0 < s.blockSize) (h : s.Past b) (kind : Leaf) :
    Ends (fun new s' => (∃ data, new = Head.header ⟨name, stat, kind.isDir, kind.size⟩ parent prev
        minusOne data) ∧ s.Keeps b s') (fun _ _ => True)
      (storeLeaf (Head.header ⟨name, stat, false, 0⟩ parent prev minusOne 0) kind s) := by
  cases kind with
  | file content =>
    exact (storeFileData_keeps hs hb h _ _).bind fun data _ h => ⟨⟨data, rfl⟩, h⟩
  | closedFile => exact ⟨⟨minusOne, rfl⟩, .refl h⟩
  | closedDir => exact ⟨⟨minusOne, rfl⟩, .refl h⟩
  | special => exact ⟨⟨0, rfl⟩, .refl h⟩

/-- What `process_dir` has stored from the round with `prev_file` on. -/
structure StoredHeads (parent prev : Nat) (header : Option FileHeader) (first : Nat)
    (heads : List Head) (s : Builder) (r : Nat) (s' : Builder) : Prop where
  blockSize : s'.blockSize = s.blockSize
  fsHeader : s'.fsHeader = s.fsHeader
  chain : ∃ cur secs, HeadChain s.blockSize s'.block parent prev cur heads secs ∧
    (∀ i ∈ secs, i < s.fsHeader.size) ∧ r = (if prev ≠ minusOne then first else cur) ∧
    ∀ h, header = some h → s'.block prev = ({ h with next := cur } : FileHeader).bytes s.blockSize

theorem round_heads (mid : Nat → FileHeader → Build FileHeader) (h : Head) {rest : Listing}
    (hs : s.Ready) (hb : 0 < s.blockSize) (hp : Pending s prev header)
    (hmid : ∀ cur b (s₁ : Builder), s₁.Ready → 0 < s₁.blockSize → s₁.Past b →
      Ends (fun new s₂ => (∃ data, new = h.header parent prev minusOne data) ∧ s₁.Keeps b s₂)
        (fun _ _ => True) (mid cur (Head.header ⟨h.name, h.stat, false, 0⟩ parent prev minusOne 0) s₁))
    (hrest : ∀ cur first new (s₂ : Builder), s₂.Ready → 0 < s₂.blockSize →
      Pending s₂ cur (some new) → cur ≠ minusOne →
      Ends (StoredHeads parent cur (some new) first rest.heads s₂) (fun _ _ => True)
        (processEntries parent dirName rest cur (some new) first s₂)) :
    Ends (StoredHeads parent prev header first (h :: rest.heads) s) (fun _ _ => True)
      ((do
        let r ← newEntry parent dirName h.name h.stat prev header first
        let new ← mid r.1 r.2.1
        processEntries parent dirName rest r.1 (some new) r.2.2 : Build Nat) s) := by
  refine (newEntry_linkStored hs hb hp).bind ?_
  rintro ⟨cur, new, first'⟩ s₁ ⟨hbs, hfs, hnew, hfirst, hbound, hlt, hfree, hstored⟩
  dsimp only at hnew hfirst hbound hlt hfree hstored ⊢
  subst hnew hfirst
  have hs₁ : s₁.Ready := ⟨hfs ▸ hs.size, by rw [hbs, hfs]; exact hs.offsets⟩
  refine (hmid cur _ s₁ hs₁ (hbs ▸ hb) hstored.past).bind ?_
  rintro new s₂ ⟨⟨data, rfl⟩, h₂⟩
  have hs₂ := h₂.ready hs₁
  have hlt₂ : cur < s₂.fsHeader.size := by rwa [h₂.fsHeader, hfs]
  have hbs₂ : s₂.blockSize = s.blockSize := h₂.blockSize.trans hbs
  have hp₂ : Pending s₂ cur (some (h.header parent prev minusOne data)) :=
    .some hlt₂ (fun j hj => hfree j (h₂.free.subset hj)) rfl
  have hne := hs.ne_minusOne hb hlt
  -- the rounds behind this one leave the block of the header before
  refine ((hrest cur _ _ s₂ hs₂ (hbs₂ ▸ hb) hp₂ hne).and (processEntries_keeps rest hs₂
    (hbs₂ ▸ hb) h₂.past (Or.inr ⟨hbound, hlt₂⟩))).mono ?_ fun _ _ _ => trivial
  rintro r s₃ ⟨⟨hbs₃, hfs₃, next, secs, hchain, hsecs, hr, hlink⟩, h₃⟩
  rw [hbs₂] at hchain hlink
  rw [h₂.fsHeader, hfs] at hsecs
  refine ⟨hbs₃.trans hbs₂, hfs₃.trans (h₂.fsHeader.trans hfs), cur, cur :: secs, ?_, ?_, ?_, ?_⟩
  · exact .cons (hlink (h.header parent prev minusOne data) rfl) hchain
  · intro i hi
    rcases List.mem_cons.mp hi with rfl | hi
    · exact hlt
    · exact hsecs i hi
  · rw [hr, if_pos hne]
  · intro h' hh
    rw [((hstored.keeps h₂).keeps h₃).block h' hh, hbs₃, hbs₂]

/-- What a round stores for an open directory in the block `cur`. -/
def storeDir (path : List UInt8) (entries : Listing) (cur : Nat) (new : FileHeader) :
    Build FileHeader := do
  let data ← processEntries cur path entries minusOne none minusOne
  return { new with flags := 1, data := data }

theorem processRound_dir (path : List UInt8) (entries rest : Listing) (r : Nat × FileHeader × Nat) :
    (do
      let data ← processEntries r.1 path entries minusOne none minusOne
      processEntries parent dirName rest r.1 (some { r.2.1 with flags := 1, data := data }) r.2.2 :
        Build Nat) =
      (do
        let new ← storeDir path entries r.1 r.2.1
        processEntries parent dirName rest r.1 (some new) r.2.2 : Build Nat) := by
  unfold storeDir
  simp only [bind_assoc, pure_bind]

/-- **`process_dir`** stores the chain of the headers of the directory. -/
theorem processEntries_heads (l : Listing) (hs : s.Ready) (hb : 0 < s.blockSize)
    (hp : Pending s prev header) (hfirst : prev = minusOne → first = minusOne) :
    Ends (StoredHeads parent prev header first l.heads s) (fun _ _ => True)
      (processEntries parent dirName l prev header first s) := by
  induction l generalizing s prev header first with
  | nil =>
    cases hp with
    | none =>
      rw [processEntries, writeHeader]
      refine ⟨rfl, rfl, minusOne, [], .nil, fun i hi => (nomatch hi), ?_, fun h hh => (nomatch hh)⟩
      rw [if_neg (not_not.mpr rfl)]
      exact hfirst rfl
    | @some _ h hlt hfree hnext =>
      obtain ⟨hmod, hneg⟩ := offset_eq hs hlt
      have hrun : writeHeader prev (some h) s = _ := writeBlock_eq prev (h.bytes s.blockSize) s
      rw [hmod, if_pos hneg] at hrun
      rw [processEntries, bind_ok hrun]
      refine ⟨rfl, rfl, minusOne, [], .nil, fun i hi => (nomatch hi), ?_, ?_⟩
      · exact (if_pos (hs.ne_minusOne hb hlt)).symm
      · intro h' hh
        cases hh
        rw [← hnext]
        exact block_overwrite_self (length_headerBytes _ _)
  | leaf name stat kind rest ih =>
    rw [processEntries, Listing.heads]
    split_ifs
    · exact ih hs hb hp hfirst
    · refine round_heads (fun _ new => storeLeaf new kind) ⟨name, stat, kind.isDir, kind.size⟩ hs hb
        hp ?_ ?_
      · intro cur b s₁ hs₁ hb₁ hpast
        exact storeLeaf_heads hs₁ hb₁ hpast kind
      · intro cur first' new s₂ hs₂ hb₂ hp₂ hne
        exact ih hs₂ hb₂ hp₂ fun h => absurd h hne
  | dir name stat entries rest ihe ih =>
    rw [processEntries, Listing.heads]
    split_ifs
    · exact ih hs hb hp hfirst
    · simp only [processRound_dir]
      refine round_heads (storeDir (filePath dirName name) entries) ⟨name, stat, true, 0⟩ hs hb hp
        ?_ ?_
      · intro cur b s₁ hs₁ hb₁ hpast
        exact (processEntries_keeps entries hs₁ hb₁ hpast (Or.inl rfl)).bind
          fun data _ h => ⟨⟨data, rfl⟩, h⟩
      · intro cur first' new s₂ hs₂ hb₂ hp₂ hne
        exact ih hs₂ hb₂ hp₂ fun h => absurd h hne

end

end C4os
