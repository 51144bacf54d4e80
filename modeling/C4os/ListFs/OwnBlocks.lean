import C4os.ListFs.Directory
import C4os.ListFs.FileRead

/-!
# Which blocks the image builder writes (`make_listfs.c`)

* `OwnBlocks`: a run writes blocks that it took, each one once, and changes no other block.
* `Listing.NoneEmpty`: the directory and all directories in it have entries.
* `Builder.Wrote`: a part of a run has written for some block; `processEntries_wrote`: an empty
  directory is written for `-1`.
* **`ownBlocks_iff`**: `process_dir` writes its own blocks exactly if no directory is empty.
-/

namespace C4os

open Blocks Outcome

/-- From `s` to `s'` the run took the blocks `u` and wrote some of them, each one at its place and
once; the other blocks keep their bytes. -/
def OwnBlocks (s s' : Builder) : Prop :=
  ∃ u w : List Nat, (∀ i ∈ u, i ∈ s.free) ∧ s'.allocated = s.allocated ++ u ∧
    s'.writes = s.writes ++ w.map (fun i => (i, s.blockSize * i)) ∧ w ⊆ u ∧ w.Nodup ∧
    ∀ i, i ∉ w → s'.block i = s.block i

/-- The directory and the directories in it have entries. -/
def Listing.NoneEmpty (l : Listing) : Prop := l.visible ≠ .nil ∧ l.visible.Inhabited

/-- From `s` to `s'` there was a write for the block `j`. -/
def Builder.Wrote (j : Nat) (s s' : Builder) : Prop :=
  ∃ W p, s'.writes = s.writes ++ W ∧ (j, p) ∈ W

section

variable {s s' s'' : Builder} {u w : List Nat} {j prev first parent : Nat}
  {header : Option FileHeader} {dirName : List UInt8} {l : Listing}

theorem Builder.Grown.ownBlocks (h : s.Grown s' u w) (hw : w.Subperm u) : OwnBlocks s s' := by
  obtain ⟨v, hperm, hsub⟩ := hw
  refine ⟨u, w, fun i hi => h.mem_free hi, h.allocated, h.writes, ?_, ?_, h.block⟩
  · exact fun i hi => hsub.subset (hperm.symm.subset hi)
  · exact hperm.nodup_iff.mp (h.nodup.sublist hsub)

theorem ownBlocks_of_noneEmpty (hs : s.Ready) (hb : 0 < s.blockSize) (hl : l.NoneEmpty) :
    Ends (fun _ s' => OwnBlocks s s') (fun _ s' => OwnBlocks s s')
      (processDir parent dirName l s) := by
  unfold processDir
  rw [processEntries_visible]
  refine (processEntries_ends l.visible hs hb (noDots_visible l) hl.2 .none fun _ => hl.1).mono ?_ ?_
  · rintro r s' ⟨-, cur, u, w, hg, hperm, -⟩
    exact hg.ownBlocks hperm.subperm
  · rintro e s' ⟨-, u, w, hg, hsub, -⟩
    exact hg.ownBlocks hsub

theorem Builder.Wrote.keeps (h : Builder.Wrote j s s') (hk : s'.Keeps 0 s'') :
    Builder.Wrote j s s'' := by
  obtain ⟨W, p, hW, hp⟩ := h
  obtain ⟨V, hV⟩ := hk.writes
  exact ⟨W ++ V, p, by rw [← hV, hW, List.append_assoc], List.mem_append_left V hp⟩

theorem Builder.Keeps.wrote (hk : s.Keeps 0 s') (h : Builder.Wrote j s' s'') :
    Builder.Wrote j s s'' := by
  obtain ⟨V, hV⟩ := hk.writes
  obtain ⟨W, p, hW, hp⟩ := h
  exact ⟨V ++ W, p, by rw [hW, ← hV, List.append_assoc], List.mem_append_right V hp⟩

/-- **An empty directory is written for the block `-1`.** -/
theorem processEntries_wrote (l : Listing) (hs : s.Ready) (hb : 0 < s.blockSize) (hd : l.NoDots)
    (hprev : prev = minusOne ∨ prev < s.fsHeader.size)
    (hl : l = .nil ∧ prev = minusOne ∨ ¬ l.Inhabited) :
    Ends (fun _ s' => Builder.Wrote minusOne s s') (fun _ _ => True)
      (processEntries parent dirName l prev header first s) := by
  induction l generalizing s parent dirName prev header first with
  | nil =>
    rcases hl with ⟨-, rfl⟩ | hl
    · refine Ends.bind (Q := fun _ s' => Builder.Wrote minusOne s s') ?_ fun _ _ h => h
      exact ⟨_, _, rfl, List.mem_singleton.mpr rfl⟩
    · exact absurd trivial hl
  | leaf name stat kind rest ih =>
    obtain ⟨hdot, hrest⟩ := hd
    have hl' : ¬ rest.Inhabited := hl.resolve_left (by rintro ⟨⟨⟩, -⟩)
    rw [processEntries, if_neg (by rw [hdot]; exact Bool.false_ne_true)]
    refine (newEntry_keeps hs hb s.past_zero (hprev.imp_right fun h => ⟨Nat.zero_le _, h⟩)).bind ?_
    rintro ⟨cur, new, first'⟩ s₁ ⟨h₁, -, hlt⟩
    refine (storeLeaf_keeps (h₁.ready hs) (h₁.blockSize ▸ hb) h₁.past new kind).bind ?_
    intro new' s₂ h₂
    have h₁₂ := h₁.trans h₂
    have hlt₂ : cur < s₂.fsHeader.size := by rwa [h₂.fsHeader]
    exact (ih (h₁₂.ready hs) (h₁₂.blockSize ▸ hb) hrest (Or.inr hlt₂) (Or.inr hl')).mono
      (fun _ _ h => h₁₂.wrote h) fun _ _ h => h
  | dir name stat entries rest ihe ih =>
    obtain ⟨hdot, hentries, hrest⟩ := hd
    have hl' : ¬ (entries ≠ .nil ∧ entries.Inhabited ∧ rest.Inhabited) :=
      hl.resolve_left (by rintro ⟨⟨⟩, -⟩)
    rw [processEntries, if_neg (by rw [hdot]; exact Bool.false_ne_true)]
    refine (newEntry_keeps hs hb s.past_zero (hprev.imp_right fun h => ⟨Nat.zero_le _, h⟩)).bind ?_
    rintro ⟨cur, new, first'⟩ s₁ ⟨h₁, -, hlt⟩
    have hs₁ := h₁.ready hs
    have hb₁ : 0 < s₁.blockSize := h₁.blockSize ▸ hb
    have hkeeps : Ends _ _ (processEntries cur (filePath dirName name) entries minusOne none minusOne
        s₁) := processEntries_keeps entries hs₁ hb₁ h₁.past (Or.inl rfl)
    by_cases hrestIn : rest.Inhabited
    · -- the empty directory is the entry, or in it
      have hin : entries = .nil ∧ minusOne = minusOne ∨ ¬ entries.Inhabited := by
        by_cases he : entries = .nil
        · exact Or.inl ⟨he, rfl⟩
        · exact Or.inr fun h => hl' ⟨he, h, hrestIn⟩
      refine ((ihe hs₁ hb₁ hentries (Or.inl rfl) hin).and hkeeps).mono (fun _ _ h => h)
        (fun _ _ _ => trivial) |>.bind ?_
      rintro data s₂ ⟨hwrote, h₂⟩
      have hlt₂ : cur < s₂.fsHeader.size := by rwa [h₂.fsHeader]
      exact (processEntries_keeps rest (h₂.ready hs₁) (h₂.blockSize ▸ hb₁) h₂.past
        (Or.inr ⟨Nat.zero_le _, hlt₂⟩)).mono (fun _ _ h => h₁.wrote (hwrote.keeps h)) fun _ _ h => h
    · refine hkeeps.bind ?_
      intro data s₂ h₂
      have h₁₂ := h₁.trans h₂
      have hlt₂ : cur < s₂.fsHeader.size := by rwa [h₂.fsHeader]
      exact (ih (h₁₂.ready hs) (h₁₂.blockSize ▸ hb) hrest (Or.inr hlt₂) (Or.inr hrestIn)).mono
        (fun _ _ h => h₁₂.wrote h) fun _ _ h => h

theorem Builder.Wrote.not_ownBlocks (hs : s.Ready) (hb : 0 < s.blockSize)
    (h : Builder.Wrote minusOne s s') : ¬ OwnBlocks s s' := by
  rintro ⟨u, w, hu, -, hwrites, hsub, -⟩
  obtain ⟨W, p, hW, hp⟩ := h
  rw [hwrites] at hW
  rw [← List.append_cancel_left hW] at hp
  obtain ⟨i, hi, heq⟩ := List.mem_map.mp hp
  have hfree := hu i (hsub hi)
  exact hs.ne_minusOne hb (lt_of_mem_free hfree) (congrArg Prod.fst heq)

/-- **`process_dir` writes its own blocks**, in every run, when no directory is empty; and a run that
returns does so only then. -/
theorem ownBlocks_iff (hs : s.Ready) (hb : 0 < s.blockSize) (parent : Nat) (dirName : List UInt8)
    (l : Listing) :
    (l.NoneEmpty → Ends (fun _ s' => OwnBlocks s s') (fun _ s' => OwnBlocks s s')
        (processDir parent dirName l s)) ∧
      ∀ first s', processDir parent dirName l s = .ok first s' →
        (OwnBlocks s s' ↔ l.NoneEmpty) := by
  refine ⟨ownBlocks_of_noneEmpty hs hb, ?_⟩
  intro first s' hrun
  constructor
  · intro hown
    by_contra hempty
    have hl : l.visible = .nil ∧ minusOne = minusOne ∨ ¬ l.visible.Inhabited := by
      by_cases he : l.visible = .nil
      · exact Or.inl ⟨he, rfl⟩
      · exact Or.inr fun h => hempty ⟨he, h⟩
    unfold processDir at hrun
    rw [processEntries_visible] at hrun
    have hwrote := (processEntries_wrote l.visible hs hb (noDots_visible l) (Or.inl rfl) hl).of_ok hrun
    exact hwrote.not_ownBlocks hs hb hown
  · intro hl
    exact (ownBlocks_of_noneEmpty hs hb hl).of_ok hrun

/-- A file `a` and an empty directory `b`. -/
def emptyDirListing : Listing :=
  .leaf [97] ⟨0, 0, 0⟩ (.file [7]) (.dir [98] ⟨0, 0, 0⟩ .nil .nil)

theorem ownBlocks_iff_emptyDir :
    (emptyDirListing.NoneEmpty → Ends (fun _ s' => OwnBlocks emptyImage s')
        (fun _ s' => OwnBlocks emptyImage s') (processDir minusOne [115] emptyDirListing emptyImage)) ∧
      ∀ first s', processDir minusOne [115] emptyDirListing emptyImage = .ok first s' →
        (OwnBlocks emptyImage s' ↔ emptyDirListing.NoneEmpty) :=
  ownBlocks_iff emptyImage_ready (by decide) minusOne [115] emptyDirListing

/-- The writes of the run: the data and the list of `a`, its header, the empty directory, and the
header of `b`. -/
theorem processDir_emptyDir :
    ∃ first s', processDir minusOne [115] emptyDirListing emptyImage = .ok first s' ∧
      s'.writes = [(3, 512 * 3), (2, 512 * 2), (1, 512 * 1), (minusOne, 512 * 2), (4, 512 * 4)] := by
  have hok : (match processDir minusOne [115] emptyDirListing emptyImage with
    | .ok _ s' => decide (s'.writes =
        [(3, 512 * 3), (2, 512 * 2), (1, 512 * 1), (minusOne, 512 * 2), (4, 512 * 4)])
    | .error _ _ => false) = true := by decide +kernel
  cases hrun : processDir minusOne [115] emptyDirListing emptyImage with
  | ok first s' =>
    rw [hrun] at hok
    exact ⟨first, s', rfl, of_decide_eq_true hok⟩
  | error e s' =>
    rw [hrun] at hok
    cases hok

/-- **The list block of `a` is overwritten** at the empty directory. -/
theorem list_block_overwritten :
    ∃ first s', processDir minusOne [115] emptyDirListing emptyImage = .ok first s' ∧
      (2, 512 * 2) ∈ s'.writes ∧ (minusOne, 512 * 2) ∈ s'.writes ∧ ¬ OwnBlocks emptyImage s' := by
  obtain ⟨first, s', hrun, hwrites⟩ := processDir_emptyDir
  have hwrote : Builder.Wrote minusOne emptyImage s' := ⟨_, 512 * 2, hwrites, by simp⟩
  refine ⟨first, s', hrun, ?_, ?_, hwrote.not_ownBlocks emptyImage_ready (by decide)⟩
  · simp [hwrites]
  · simp [hwrites]

end

end C4os
