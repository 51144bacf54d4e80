import C4os.ListFs.HeadChain

/-!
# Storing a directory (`make_listfs.c`)

* `Listing.visible`: the entries but `.` and `..`; `Listing.Fits`, `Listing.Inhabited`: the paths
  fit into `file_name`, every directory has an entry.
* `LeafData`, `DirData`: a directory in its header blocks, with its files and directories.
* **`processEntries_ends`**: `process_dir` stores the directory in blocks it takes, or the disk is
  full.
-/

namespace C4os

open Blocks LittleEndian Outcome

/-! ## Listings -/

namespace Listing

/-- The entries that `process_dir` does not skip. -/
def visible : Listing → Listing
  | nil => nil
  | leaf name stat kind rest =>
    if isDot name then rest.visible else leaf name stat kind rest.visible
  | dir name stat entries rest =>
    if isDot name then rest.visible else dir name stat entries.visible rest.visible

/-- No entry is `.` or `..`. -/
def NoDots : Listing → Prop
  | nil => True
  | leaf name _ _ rest => isDot name = false ∧ rest.NoDots
  | dir name _ entries rest => isDot name = false ∧ entries.NoDots ∧ rest.NoDots

/-- The header fits into a block, and the path into `file_name`. -/
def EntryFits (bs : Nat) (path : List UInt8) : Prop := fileHeaderSize ≤ bs ∧ path.length < 260

/-- Every entry fits. -/
def Fits (bs : Nat) (dirName : List UInt8) : Listing → Prop
  | nil => True
  | leaf name _ _ rest =>
    EntryFits bs (filePath dirName name) ∧ rest.Fits bs dirName
  | dir name _ entries rest =>
    EntryFits bs (filePath dirName name) ∧ entries.Fits bs (filePath dirName name) ∧
      rest.Fits bs dirName

/-- Every directory has an entry. -/
def Inhabited : Listing → Prop
  | nil => True
  | leaf _ _ _ rest => rest.Inhabited
  | dir _ _ entries rest => entries ≠ nil ∧ entries.Inhabited ∧ rest.Inhabited

/-- The number of blocks of a leaf besides its header. -/
def leafBlocks (bs : Nat) : Leaf → Nat
  | .file content => fileBlocks bs content.length
  | _ => 0

/-- The number of blocks of the directory. -/
def blocks (bs : Nat) : Listing → Nat
  | nil => 0
  | leaf _ _ kind rest => 1 + leafBlocks bs kind + rest.blocks bs
  | dir _ _ entries rest => 1 + entries.blocks bs + rest.blocks bs

end Listing

theorem noDots_visible (l : Listing) : l.visible.NoDots := by
  induction l with
  | nil => trivial
  | leaf name stat kind rest ih =>
    unfold Listing.visible
    by_cases h : isDot name = true
    · rw [if_pos h]
      exact ih
    · rw [if_neg h]
      exact ⟨by simpa using h, ih⟩
  | dir name stat entries rest ihe ih =>
    unfold Listing.visible
    by_cases h : isDot name = true
    · rw [if_pos h]
      exact ih
    · rw [if_neg h]
      exact ⟨by simpa using h, ihe, ih⟩

theorem processEntries_visible (parent : Nat) (dirName : List UInt8) (l : Listing) (prev : Nat)
    (header : Option FileHeader) (first : Nat) :
    processEntries parent dirName l prev header first =
      processEntries parent dirName l.visible prev header first := by
  induction l generalizing parent dirName prev header first with
  | nil => rfl
  | leaf name stat kind rest ih =>
    unfold Listing.visible
    by_cases h : isDot name = true
    · rw [processEntries, if_pos h, if_pos h, ih]
    · rw [processEntries, if_neg h, if_neg h, processEntries, if_neg h]
      simp only [← ih]
  | dir name stat entries rest ihe ih =>
    unfold Listing.visible
    by_cases h : isDot name = true
    · rw [processEntries, if_pos h, if_pos h, ih]
    · rw [processEntries, if_neg h, if_neg h, processEntries, if_neg h]
      simp only [← ih, ← ihe]

/-! ## A stored directory -/

/-- The blocks `u` hold what belongs to a leaf, with `header->data` in `data`. -/
def LeafData (bs : Nat) (blk : Nat → List UInt8) (u : List Nat) (data : Nat) : Leaf → Prop
  | .file content => FileData bs blk u data content
  | .closedFile => data = minusOne ∧ u = []
  | .closedDir => data = minusOne ∧ u = []
  | .special => data = 0 ∧ u = []

/-- The blocks `u` hold the directory `l`, from the header in the block `cur` on; its headers have
the parent `parent`, and the first one has the predecessor `prev`. -/
inductive DirData (bs : Nat) (blk : Nat → List UInt8) :
    Nat → Nat → Nat → Listing → List Nat → Prop where
  | nil {parent prev : Nat} : DirData bs blk parent prev minusOne .nil []
  | leaf {parent prev cur next data : Nat} {name : List UInt8} {stat : Stat} {kind : Leaf}
      {rest : Listing} {u v : List Nat}
      (header : blk cur =
        (Head.header ⟨name, stat, kind.isDir, kind.size⟩ parent prev next data).bytes bs)
      (leafData : LeafData bs blk u data kind)
      (tail : DirData bs blk parent cur next rest v) :
      DirData bs blk parent prev cur (.leaf name stat kind rest) (cur :: (u ++ v))
  | dir {parent prev cur next data : Nat} {name : List UInt8} {stat : Stat}
      {entries rest : Listing} {u v : List Nat}
      (header : blk cur = (Head.header ⟨name, stat, true, 0⟩ parent prev next data).bytes bs)
      (children : DirData bs blk cur minusOne data entries u)
      (tail : DirData bs blk parent cur next rest v) :
      DirData bs blk parent prev cur (.dir name stat entries rest) (cur :: (u ++ v))

section

variable {bs parent prev cur data : Nat} {blk blk' : Nat → List UInt8} {u : List Nat} {l : Listing}
  {kind : Leaf}

theorem LeafData.congr (hl : LeafData bs blk u data kind) (hb : ∀ i ∈ u, blk' i = blk i) :
    LeafData bs blk' u data kind := by
  cases kind with
  | file content => exact FileData.congr hl hb
  | closedFile => exact hl
  | closedDir => exact hl
  | special => exact hl

theorem DirData.congr (hd : DirData bs blk parent prev cur l u) (hb : ∀ i ∈ u, blk' i = blk i) :
    DirData bs blk' parent prev cur l u := by
  induction hd with
  | nil => exact .nil
  | leaf header leafData _ ih =>
    have hl := fun i hi => hb i (List.mem_cons_of_mem _ (List.mem_append_left _ hi))
    have ht := fun i hi => hb i (List.mem_cons_of_mem _ (List.mem_append_right _ hi))
    exact .leaf ((hb _ List.mem_cons_self).trans header) (leafData.congr hl) (ih ht)
  | dir header _ _ ihe ih =>
    have hl := fun i hi => hb i (List.mem_cons_of_mem _ (List.mem_append_left _ hi))
    have ht := fun i hi => hb i (List.mem_cons_of_mem _ (List.mem_append_right _ hi))
    exact .dir ((hb _ List.mem_cons_self).trans header) (ihe hl) (ih ht)

theorem DirData.start (hd : DirData bs blk parent prev cur l u) :
    l = .nil ∧ cur = minusOne ∨ l ≠ .nil ∧ cur ∈ u := by
  cases hd with
  | nil => exact Or.inl ⟨rfl, rfl⟩
  | leaf => exact Or.inr ⟨nofun, List.mem_cons_self⟩
  | dir => exact Or.inr ⟨nofun, List.mem_cons_self⟩

end

/-! ## One entry -/

/-- The block that waits for its header, if any. -/
def waitingBlock (prev : Nat) (header : Option FileHeader) : List Nat :=
  header.toList.map fun _ => prev

section

variable {s s' : Builder} {prev cur first parent : Nat} {header : Option FileHeader}
  {dirName name : List UInt8} {stat : Stat} {u w : List Nat}

theorem Pending.not_mem {h : FileHeader} (hp : Pending s prev (Option.some h)) (hg : s.Grown s' u w) :
    prev ∉ u := by
  intro hm
  cases hp with
  | some _ hfree _ => exact Nat.lt_irrefl _ (hfree prev (hg.mem_free hm))

theorem Pending.grown (hp : Pending s prev header) (hg : s.Grown s' u w) :
    Pending s' prev header := by
  cases hp with
  | none => exact .none
  | some hlt hfree hnext =>
    refine .some (hg.fsHeader ▸ hlt) (fun j hj => hfree j ?_) hnext
    rw [hg.free]
    exact List.mem_append_right _ hj

theorem writeHeader_ends (hs : s.Ready) {i : Nat} (hi : i < s.fsHeader.size) (h : FileHeader) :
    ∃ s', writeHeader i (some h) s = .ok ⟨⟩ s' ∧ s.Grown s' [] [i] ∧
      s'.block i = h.bytes s.blockSize := by
  obtain ⟨s', hw, hg, hb⟩ := writeBlock_ends hs hi (h.bytes s.blockSize) (length_headerBytes _ h)
  exact ⟨s', (bind_get s).trans hw, hg, hb⟩

theorem linkHeader_ends (hs : s.Ready) (hb : 0 < s.blockSize) (hp : Pending s prev header)
    (cur : Nat) :
    ∃ s', linkHeader prev cur header s = .ok ⟨⟩ s' ∧ s.Grown s' [] (waitingBlock prev header) ∧
      ∀ h, header = some h → s'.block prev = { h with next := cur }.bytes s.blockSize := by
  cases hp with
  | none => exact ⟨s, rfl, .refl s, fun h hh => nomatch hh⟩
  | @some _ h hlt hfree hnext =>
    obtain ⟨s', hrun, hg, hb'⟩ := writeHeader_ends hs hlt { h with next := cur }
    refine ⟨s', ?_, hg, ?_⟩
    · rw [linkHeader, if_pos (hs.ne_minusOne hb hlt)]
      exact hrun
    · intro h' hh
      cases hh
      exact hb'

/-- What a run has done that failed: it took the blocks `u` and wrote some of them, or the waiting
header. No block is left, or a buffer overran. -/
def Stopped (bound : Nat) (fits : Prop) (waiting : List Nat) (s : Builder) (e : Failure)
    (s' : Builder) : Prop :=
  e ≠ .endless ∧ ∃ u w : List Nat, s.Grown s' u w ∧ w.Subperm (waiting ++ u) ∧
    (s'.free = [] ∧ u.length < bound ∨ ¬ fits)

/-- **The start of a round.** -/
theorem newEntry_ends (hs : s.Ready) (hb : 0 < s.blockSize) (hp : Pending s prev header) :
    Ends
      (fun r s' => Listing.EntryFits s.blockSize (filePath dirName name) ∧
        r.2.1 = Head.header ⟨name, stat, false, 0⟩ parent prev minusOne 0 ∧
        r.2.2 = (if prev ≠ minusOne then first else r.1) ∧
        s.Grown s' [r.1] (waitingBlock prev header) ∧ (∀ j ∈ s'.free, r.1 < j) ∧
        ∀ h, header = some h → s'.block prev = { h with next := r.1 }.bytes s.blockSize)
      (Stopped 1 (Listing.EntryFits s.blockSize (filePath dirName name))
        (waitingBlock prev header) s)
      (newEntry parent dirName name stat prev header first s) := by
  unfold newEntry
  refine (allocDiskBlock_ends hs).mono (fun _ _ h => h) ?_ |>.bind ?_
  · rintro e s' ⟨he, rfl, hfree⟩
    exact ⟨he, [], [], .refl s', List.nil_subperm, Or.inl ⟨hfree, Nat.one_pos⟩⟩
  intro cur s₁ h₁
  obtain ⟨s₂, hrun, h₂, hlink⟩ :=
    linkHeader_ends (h₁.ready hs) (h₁.blockSize ▸ hb) (hp.grown h₁) cur
  have h₁₂ : s.Grown s₂ [cur] (waitingBlock prev header) := h₁.trans h₂
  have hcheck := checkBuffers_eq (filePath dirName name) s₂
  rw [bind_ok hrun]
  rw [h₁₂.blockSize] at hcheck
  split_ifs at hcheck with hfits
  · rw [bind_error hcheck]
    refine ⟨by decide, [cur], _, h₁₂, (List.sublist_append_left _ _).subperm, Or.inr ?_⟩
    rintro ⟨h1, h2⟩
    omega
  · rw [bind_ok hcheck]
    refine ⟨⟨by omega, by omega⟩, rfl, rfl, h₁₂, ?_, ?_⟩
    · have hsorted := sorted_free s
      rw [h₁₂.free, List.singleton_append, List.pairwise_cons] at hsorted
      exact hsorted.1
    · rw [← h₁.blockSize]
      exact hlink

/-- **What belongs to a leaf.** -/
theorem storeLeaf_ends (hs : s.Ready) (h16 : 16 ≤ s.blockSize) (kind : Leaf) :
    Ends
      (fun h s' => ∃ data, h = Head.header ⟨name, stat, kind.isDir, kind.size⟩ parent prev minusOne
          data ∧
        ∃ u w : List Nat, s.Grown s' u w ∧ w.Perm u ∧
          u.length = Listing.leafBlocks s.blockSize kind ∧
          LeafData s.blockSize s'.block u data kind)
      (Stopped (Listing.leafBlocks s.blockSize kind) True [] s)
      (storeLeaf (Head.header ⟨name, stat, false, 0⟩ parent prev minusOne 0) kind s) := by
  cases kind with
  | file content =>
    refine (storeFileData_ends hs h16 (content.length + 2) content (Nat.le_refl _)).mono
      (fun _ _ h => h) ?_ |>.bind ?_
    · rintro e s' ⟨he, hfree, u, w, hg, hsub, hlen⟩
      exact ⟨he, u, w, hg, hsub, Or.inl ⟨hfree, hlen⟩⟩
    · rintro data s' ⟨u, w, hg, hperm, hlen, hfile⟩
      exact ⟨data, rfl, u, w, hg, hperm, hlen, hfile⟩
  | closedFile => exact ⟨minusOne, rfl, [], [], .refl s, .nil, rfl, rfl, rfl⟩
  | closedDir => exact ⟨minusOne, rfl, [], [], .refl s, .nil, rfl, rfl, rfl⟩
  | special => exact ⟨0, rfl, [], [], .refl s, .nil, rfl, rfl, rfl⟩

theorem Stopped.after {s₁ s' : Builder} {u₁ w₁ waiting waiting' : List Nat} {bound bound' : Nat}
    {fits fits' : Prop} {e : Failure} (h : Stopped bound' fits' waiting' s₁ e s')
    (hg : s.Grown s₁ u₁ w₁) (hw : (w₁ ++ waiting').Subperm (waiting ++ u₁))
    (hb : u₁.length + bound' ≤ bound) (hf : fits → fits') : Stopped bound fits waiting s e s' := by
  obtain ⟨he, u, w, hg', hsub, hend⟩ := h
  refine ⟨he, u₁ ++ u, w₁ ++ w, hg.trans hg', ?_, ?_⟩
  · have h₁ := (List.Subperm.refl w₁).append hsub
    have h₂ := hw.append (List.Subperm.refl u)
    rw [← List.append_assoc] at h₁
    rw [List.append_assoc waiting] at h₂
    exact h₁.trans h₂
  · rcases hend with ⟨hfree, hlen⟩ | hnot
    · left
      rw [List.length_append]
      exact ⟨hfree, by omega⟩
    · exact Or.inr fun h => hnot (hf h)

theorem Stopped.weaken {waiting : List Nat} {bound : Nat} {fits fits' : Prop} {e : Failure}
    (h : Stopped bound fits' waiting s e s') (hf : fits → fits') :
    Stopped bound fits waiting s e s' := by
  obtain ⟨he, u, w, hg, hsub, hend⟩ := h
  exact ⟨he, u, w, hg, hsub, hend.imp_right fun hnot h => hnot (hf h)⟩

/-- What `process_dir` has done from the round with `prev_file` on. -/
def Stored (parent : Nat) (l : Listing) (prev : Nat) (header : Option FileHeader) (first : Nat)
    (s : Builder) (r : Nat) (s' : Builder) : Prop :=
  ∃ (cur : Nat) (u w : List Nat), s.Grown s' u w ∧ w.Perm (waitingBlock prev header ++ u) ∧
    u.length = l.blocks s.blockSize ∧ DirData s.blockSize s'.block parent prev cur l u ∧
    r = (if prev ≠ minusOne then first else cur) ∧
    ∀ h, header = some h → s'.block prev = { h with next := cur }.bytes s.blockSize

theorem round_ends (mid : Nat → FileHeader → Build FileHeader) (h : Head)
    (D : (Nat → List UInt8) → Nat → Nat → List Nat → Prop) (bound : Nat) (fits : Prop)
    {rest : Listing} (hs : s.Ready) (hb : 0 < s.blockSize) (hp : Pending s prev header)
    (hD : ∀ blk blk' cur data u, D blk cur data u → (∀ i ∈ u, blk' i = blk i) → D blk' cur data u)
    (hmid : ∀ cur (s₁ : Builder), s₁.Ready → s₁.blockSize = s.blockSize → 16 ≤ s.blockSize → Ends
      (fun new s' => fits ∧ ∃ data, new = h.header parent prev minusOne data ∧
        ∃ u w : List Nat, s₁.Grown s' u w ∧ w.Perm u ∧ u.length = bound ∧ D s'.block cur data u)
      (Stopped bound fits [] s₁)
      (mid cur (Head.header ⟨h.name, h.stat, false, 0⟩ parent prev minusOne 0) s₁))
    (hrest : ∀ cur first new (s₂ : Builder), s₂.Ready → s₂.blockSize = s.blockSize →
      Pending s₂ cur (some new) → Ends
      (fun r s' => rest.Fits s.blockSize dirName ∧ Stored parent rest cur (some new) first s₂ r s')
      (Stopped (rest.blocks s.blockSize) (rest.Fits s.blockSize dirName) [cur] s₂)
      (processEntries parent dirName rest cur (some new) first s₂)) :
    Ends
      (fun r s' => (Listing.EntryFits s.blockSize (filePath dirName h.name) ∧ fits ∧
          rest.Fits s.blockSize dirName) ∧
        ∃ (cur next data : Nat) (u v w : List Nat),
          s.Grown s' (cur :: (u ++ v)) w ∧
          w.Perm (waitingBlock prev header ++ cur :: (u ++ v)) ∧ u.length = bound ∧
          v.length = rest.blocks s.blockSize ∧
          s'.block cur = (h.header parent prev next data).bytes s.blockSize ∧
          D s'.block cur data u ∧ DirData s.blockSize s'.block parent cur next rest v ∧
          r = (if prev ≠ minusOne then first else cur) ∧
          ∀ h, header = some h → s'.block prev = { h with next := cur }.bytes s.blockSize)
      (Stopped (1 + bound + rest.blocks s.blockSize)
        (Listing.EntryFits s.blockSize (filePath dirName h.name) ∧ fits ∧
          rest.Fits s.blockSize dirName) (waitingBlock prev header) s)
      ((do
        let r ← newEntry parent dirName h.name h.stat prev header first
        let new ← mid r.1 r.2.1
        processEntries parent dirName rest r.1 (some new) r.2.2 : Build Nat) s) := by
  refine (newEntry_ends hs hb hp).mono (fun _ _ h => h) ?_ |>.bind ?_
  · intro e s' h
    refine h.after (.refl s) ?_ (by rw [List.length_nil]; omega) (fun h => h.1)
    simpa using List.Subperm.refl _
  rintro ⟨cur, new, first'⟩ s₁ ⟨hfits, hnew, hfirst, h₁, hbehind, hlink⟩
  dsimp only at hnew hfirst h₁ hbehind hlink ⊢
  subst hnew hfirst
  have h16 : 16 ≤ s.blockSize := Nat.le_trans (by decide) hfits.1
  refine (hmid cur s₁ (h₁.ready hs) h₁.blockSize h16).mono (fun _ _ h => h) ?_ |>.bind ?_
  · intro e s' h
    refine h.after h₁ ?_ (Nat.le_add_right _ _) (fun h => h.2.1)
    rw [List.append_nil]
    exact (List.sublist_append_left _ _).subperm
  rintro new s₂ ⟨hmidFits, data, rfl, u, w, h₂, hperm, hlen, hdata⟩
  have h₁₂ : s.Grown s₂ (cur :: u) (waitingBlock prev header ++ w) := h₁.trans h₂
  have hlt : cur < s.fsHeader.size := lt_of_mem_free (h₁₂.mem_free List.mem_cons_self)
  have hne : cur ≠ minusOne := hs.ne_minusOne hb hlt
  have hp₂ : Pending s₂ cur (some (h.header parent prev minusOne data)) := by
    refine .some (h₁₂.fsHeader ▸ hlt) (fun j hj => hbehind j ?_) rfl
    rw [h₂.free]
    exact List.mem_append_right _ hj
  refine (hrest cur _ _ s₂ (h₁₂.ready hs) h₁₂.blockSize hp₂).mono ?_ ?_
  · rintro r s₃ ⟨hrestFits, next, v, w', h₃, hperm', hlen', hdir, hr, hlink'⟩
    rw [h₁₂.blockSize] at hlen' hdir hlink'
    have hkeep : ∀ i, i ∉ cur :: v → s₃.block i = s₂.block i := by
      intro i hi
      exact h₃.block i (fun h => hi (hperm'.subset h))
    have hnd : (cur :: u).Nodup := h₁₂.nodup
    have hgrown : s.Grown s₃ (cur :: (u ++ v)) (waitingBlock prev header ++ w ++ w') :=
      h₁₂.trans h₃
    refine ⟨⟨hfits, hmidFits, hrestFits⟩, cur, next, data, u, v, _, hgrown, ?_, hlen, hlen',
      hlink' (h.header parent prev minusOne data) rfl, ?_, hdir, hr.trans (if_pos hne), ?_⟩
    · rw [List.append_assoc]
      exact ((hperm.append hperm').trans List.perm_middle).append_left _
    · apply hD s₂.block _ cur data u hdata
      intro i hi
      apply hkeep
      rw [List.mem_cons, not_or]
      exact ⟨fun h => (List.nodup_cons.mp hnd).1 (h ▸ hi),
        h₁₂.disjoint h₃ (List.mem_cons_of_mem _ hi)⟩
    · intro h' hh
      subst hh
      have hprev := hp.not_mem hgrown
      rw [List.mem_cons, List.mem_append, not_or, not_or] at hprev
      rw [hkeep prev (by rw [List.mem_cons, not_or]; exact ⟨hprev.1, hprev.2.2⟩),
        h₂.block prev (fun h => hprev.2.1 (hperm.subset h))]
      exact hlink h' rfl
  · intro e s₃ h
    refine h.after h₁₂ ?_ (by rw [List.length_cons]; omega) (fun h => h.2.2)
    rw [List.append_assoc]
    exact ((hperm.append_right [cur]).trans (List.perm_append_singleton cur u)).append_left _
      |>.subperm

/-- **`process_dir`** stores a directory with entries in blocks that it takes, or no block is left, or
a buffer overruns. -/
theorem processEntries_ends (l : Listing) (hs : s.Ready) (hb : 0 < s.blockSize) (hd : l.NoDots)
    (hin : l.Inhabited) (hp : Pending s prev header) (hne : header = none → l ≠ .nil) :
    Ends
      (fun r s' => l.Fits s.blockSize dirName ∧ Stored parent l prev header first s r s')
      (Stopped (l.blocks s.blockSize) (l.Fits s.blockSize dirName) (waitingBlock prev header) s)
      (processEntries parent dirName l prev header first s) := by
  induction l generalizing s parent dirName prev header first with
  | nil =>
    cases hp with
    | none => exact absurd rfl (hne rfl)
    | @some _ h hlt hfree hnext =>
      obtain ⟨s', hrun, hg, hb'⟩ := writeHeader_ends hs hlt h
      rw [processEntries, bind_ok hrun]
      refine ⟨trivial, minusOne, [], [prev], hg, .refl _, rfl, .nil, ?_, ?_⟩
      · exact (if_pos (hs.ne_minusOne hb hlt)).symm
      · intro h' hh
        cases hh
        rw [hb', ← hnext]
  | leaf name stat kind rest ih =>
    obtain ⟨hdot, hrestDots⟩ := hd
    rw [processEntries, if_neg (by rw [hdot]; exact Bool.false_ne_true)]
    refine (round_ends (fun _ new => storeLeaf new kind) ⟨name, stat, kind.isDir, kind.size⟩
      (fun blk _ data u => LeafData s.blockSize blk u data kind)
      (Listing.leafBlocks s.blockSize kind) True hs hb hp
      (fun _ _ _ _ _ hl hbl => hl.congr hbl) ?_ ?_).mono ?_ ?_
    · intro cur s₁ hs₁ hbs h16
      have hleaf : Ends _ _ (storeLeaf (Head.header ⟨name, stat, false, 0⟩ parent prev minusOne 0)
          kind s₁) := storeLeaf_ends hs₁ (hbs.symm ▸ h16) kind
      rw [hbs] at hleaf
      exact hleaf.mono (fun _ _ h => ⟨trivial, h⟩) (fun _ _ h => h)
    · intro cur first' new s₂ hs₂ hbs hp₂
      have hrest : Ends _ _ (processEntries parent dirName rest cur (some new) first' s₂) :=
        ih hs₂ (hbs.symm ▸ hb) hrestDots hin hp₂ fun h => absurd h (Option.some_ne_none new)
      rw [hbs] at hrest
      exact hrest
    · rintro r s' ⟨⟨hf, -, hr⟩, cur, next, data, u, v, w, hg, hperm, hu, hv, hblock, hleaf, hdir, hres⟩
      refine ⟨⟨hf, hr⟩, cur, cur :: (u ++ v), w, hg, hperm, ?_, .leaf hblock hleaf hdir, hres⟩
      rw [List.length_cons, List.length_append, hu, hv, Listing.blocks]
      omega
    · intro e s' h
      exact h.weaken fun h => ⟨h.1, trivial, h.2⟩
  | dir name stat entries rest ihe ih =>
    obtain ⟨hdot, hentryDots, hrestDots⟩ := hd
    obtain ⟨hempty, hentries, hin⟩ := hin
    rw [processEntries, if_neg (by rw [hdot]; exact Bool.false_ne_true)]
    simp only [processRound_dir]
    refine (round_ends (storeDir (filePath dirName name) entries) ⟨name, stat, true, 0⟩
      (fun blk cur data u => DirData s.blockSize blk cur minusOne data entries u)
      (entries.blocks s.blockSize) (entries.Fits s.blockSize (filePath dirName name)) hs hb hp
      (fun _ _ _ _ _ hl hbl => hl.congr hbl) ?_ ?_).mono ?_ ?_
    · intro cur s₁ hs₁ hbs _
      have hentry : Ends _ _ (processEntries cur (filePath dirName name) entries minusOne none minusOne
          s₁) := ihe hs₁ (hbs.symm ▸ hb) hentryDots hentries .none fun _ => hempty
      rw [hbs] at hentry
      refine hentry.bind ?_
      rintro data s' ⟨hf, first'', u, w, hg, hperm, hu, hdir, hdata, -⟩
      rw [if_neg (not_not.mpr rfl)] at hdata
      subst hdata
      rw [hbs] at hu hdir
      exact ⟨hf, data, rfl, u, w, hg, hperm, hu, hdir⟩
    · intro cur first' new s₂ hs₂ hbs hp₂
      have hrest : Ends _ _ (processEntries parent dirName rest cur (some new) first' s₂) :=
        ih hs₂ (hbs.symm ▸ hb) hrestDots hin hp₂ fun h => absurd h (Option.some_ne_none new)
      rw [hbs] at hrest
      exact hrest
    · rintro r s' ⟨⟨hf, he, hr⟩, cur, next, data, u, v, w, hg, hperm, hu, hv, hblock, hdir, hdir', hres⟩
      refine ⟨⟨hf, he, hr⟩, cur, cur :: (u ++ v), w, hg, hperm, ?_, .dir hblock hdir hdir', hres⟩
      rw [List.length_cons, List.length_append, hu, hv, Listing.blocks]
      omega
    · exact fun _ _ h => h

end

end C4os
