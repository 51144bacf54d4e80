import C4os.Memory.BlockTable
import C4os.Memory.Keeps

/-!
# Two page directories

The tables of a process and those of the kernel belong to different frames, but for the page table of
the window.

* `Unseen A s s' dir`: a step that the directory `dir` does not see.
* `Foreign A s dir dir' R`: the directory `dir'` and its page tables for the pages in `R` do not
  belong to `dir`.
* **`Foreign.mapPages`**: mapping such pages in `dir'`.
* `Serves A s s' dir Q`: an operation for the directory `dir`, as the others see it;
  `Serves.bystander`, `Serves.foreign`: it keeps their entries, and their frames.
-/

namespace C4os

open Machine Pages Word

variable {A : PhysAllocator} {s s' s'' : Machine} {dir dir' v paddr flags count i t : Nat}
  {R : Nat → Prop}

/-- A step that changes no entry of the directory `dir`, and takes no frame from others. -/
structure Unseen (A : PhysAllocator) (s s' : Machine) (dir : Nat) : Prop
    extends Keeps A s s' dir fun _ => False where
  apart : ∀ q, Apart A s dir q → Apart A s' dir q

theorem Unseen.trans (h : Unseen A s s' dir) (h' : Unseen A s' s'' dir) : Unseen A s s'' dir :=
  ⟨h.toKeeps.trans h'.toKeeps, fun q hq => h'.apart q (h.apart q hq)⟩

theorem Unseen.refl (hd : Directory A s dir) : Unseen A s s dir :=
  ⟨⟨hd, fun _ _ => Iff.rfl, fun _ _ _ _ => rfl⟩, fun _ => id⟩

theorem Machine.Mapped.unseen (h : Mapped A s s' dir fun _ => False) : Unseen A s s' dir :=
  ⟨⟨h.directory, h.shares, h.info⟩, fun _ hq => (h.apart hq).1⟩

theorem Machine.Directory.unseen (hd : Directory A s dir) (hok : A.Ok s')
    (hwin : s'.kernelPageTable = s.kernelPageTable) (hf : ∀ q, A.Free s' q → A.Free s q)
    (hmem : ∀ q j, q = dir ∨ IsTable s dir q → ¬ (q = s.kernelPageTable ∧ j = 1023) →
      s'.mem q j = s.mem q j) : Unseen A s s' dir := by
  have hdir : ∀ i, s'.mem dir i = s.mem dir i := fun i =>
    hmem dir i (Or.inl rfl) fun h => hd.dir_ne h.1
  refine ⟨⟨⟨hok, hd.frame, ?_, fun h => hd.dir_used (hf _ h), ?_, ?_, ?_⟩, fun w k => ?_,
    fun w _ hs _ => ?_⟩, fun q hq => ⟨hq.frame, ?_, ?_⟩⟩
  · unfold DistinctTables
    simp only [hdir]
    exact hd.tables
  · rw [hwin]
    exact fun h => hd.window_used (hf _ h)
  · simp only [hdir]
    exact fun i hi hp h => hd.table_used i hi hp (hf _ h)
  · rw [hwin]
    exact hd.dir_ne
  · unfold SharesEntry
    rw [hdir, hwin]
  · unfold Machine.info
    dsimp only
    rw [hdir]
    split_ifs with hp
    · exact hmem _ _ (Or.inr ⟨_, dirIndex_lt w, hp, rfl⟩) fun h => hs ⟨hp, h.1, h.2⟩
    · rfl
  · rintro (h | h | ⟨i, hi, hp, he⟩)
    · exact hq.not_free (hf q h)
    · exact hq.not_owned (Or.inr (Or.inl h))
    · rw [hdir] at hp he
      exact hq.not_owned (Or.inr (Or.inr ⟨i, hi, hp, he⟩))
  · rw [hwin]
    exact hq.ne_window

theorem Machine.Directory.unseen_store {P : Nat → Prop} (hd : Directory A s dir) (ht : Touch P s s')
    (hP : ∀ q, P q → Apart A s dir q) : Unseen A s s' dir := by
  obtain ⟨hok, hfree⟩ := A.touch hd.ok ht fun q hq => (hP q hq).not_free
  exact hd.unseen hok ht.kernelPageTable (fun q => (hfree q).mp) fun q j hq hw =>
    ht.mem q j (fun hp => (hP q hp).not_owned (Or.inr hq)) hw

/-- The directory `dir'` and its page tables for the pages in `R` do not belong to `dir`. -/
structure Foreign (A : PhysAllocator) (s : Machine) (dir dir' : Nat) (R : Nat → Prop) : Prop where
  directory : Directory A s dir
  own : Directory A s dir'
  apart : Apart A s dir dir'
  tables : ∀ w, R w → Present (s.mem dir' (getPageDirectoryIndex w)) →
    Apart A s dir (frameOf (s.mem dir' (getPageDirectoryIndex w)))

theorem Machine.NextTable.unseen (h : NextTable A s s' dir' i t) (hd : Directory A s dir)
    (hdir : Apart A s dir dir') (ht : Present (s.mem dir' i) → Apart A s dir t) :
    Unseen A s s' dir ∧ Apart A s' dir t := by
  -- the frame of the table is free, or belongs to somebody else
  have hne : ∀ q, q = dir ∨ IsTable s dir q → q ≠ t := by
    rintro q hq rfl
    by_cases hp : Present (s.mem dir' i)
    · exact (ht hp).not_owned (Or.inr hq)
    · rcases hq with rfl | ⟨j, hj, hpj, rfl⟩
      · exact hd.dir_used (h.fresh hp)
      · exact hd.table_used j hj hpj (h.fresh hp)
  have hused : ∀ q, q = dir ∨ IsTable s dir q → ¬ A.Free s q := by
    rintro q (rfl | ⟨j, hj, hpj, rfl⟩)
    · exact hd.dir_used
    · exact hd.table_used j hj hpj
  have hmem : ∀ q j, q = dir ∨ IsTable s dir q → ¬ (q = s.kernelPageTable ∧ j = 1023) →
      s'.mem q j = s.mem q j := fun q j hq hw =>
    h.other q j (fun e => hdir.not_owned (Or.inr (e ▸ hq))) (hne q hq) (hused q hq) hw
  have hu : Unseen A s s' dir := hd.unseen h.ok h.kernelPageTable h.free hmem
  refine ⟨hu, ?_⟩
  by_cases hp : Present (s.mem dir' i)
  · exact hu.apart t (ht hp)
  refine ⟨A.frame hd.ok (h.fresh hp), ?_, ?_⟩
  · rintro (hf | rfl | ⟨j, hj, hpj, he⟩)
    · exact h.not_free hf
    · exact hd.dir_used (h.fresh hp)
    · rw [hmem dir j (Or.inl rfl) fun h => hd.dir_ne h.1] at hpj he
      exact hne t (Or.inr ⟨j, hj, hpj, he⟩) rfl
  · rw [h.kernelPageTable]
    rintro rfl
    exact hd.window_used (h.fresh hp)

theorem Foreign.walk {r : Bool × Machine} (h : Foreign A s dir dir' R) (hv : v < 2 ^ 32) (hR : R v)
    (hw : Machine.walk (A.alloc 1) v paddr flags walkShifts dir' s = some r) :
    Unseen A s r.2 dir ∧ Foreign A r.2 dir dir' R := by
  have hown := (walk_mapped h.own hv hw).directory
  rw [walk_eq] at hw
  obtain ⟨⟨o, s₂⟩, hnext, hw⟩ := Option.bind_eq_some_iff.mp hw
  obtain hnone | ⟨e, he, hn⟩ := nextTable_spec h.own (dirIndex_lt v) hnext
  · have hm := nextTable_none h.directory hnext hnone
    have hm' := nextTable_none h.own hnext hnone
    dsimp only at hnone hm hm'
    rw [hnone] at hw
    obtain rfl := Option.some.inj hw
    refine ⟨hm.unseen, hm.directory, hown, hm.unseen.apart _ h.apart, fun w hRw hp => ?_⟩
    have hmem : s₂.mem dir' (getPageDirectoryIndex w) = s.mem dir' (getPageDirectoryIndex w) :=
      (hm.apart h.apart).2 _
    dsimp only at hp ⊢
    rw [hmem] at hp ⊢
    exact hm.unseen.apart _ (h.tables w hRw hp)
  · dsimp only at he hn
    rw [he] at hw
    obtain rfl := Option.some.inj hw
    obtain ⟨hu, ht⟩ := hn.unseen h.directory h.apart fun hp => by
      have := h.tables v hR hp
      rwa [← hn.old hp, hn.linked.2] at this
    have htouch : Touch (· = frameOf e) s₂ ((s₂.tempMapPage e).tempSet (getPageTableIndex v)
        (andNot paddr PAGE_OFFSET_BITS ||| flags)) :=
      (touch_tempMapPage _ s₂ e).trans ((touch_tempSet _ _ _).mono fun q hq =>
        hq.trans (window_tempMapPage s₂ e))
    have hu' := hu.directory.unseen_store htouch fun q hq => hq ▸ ht
    have hall := hu.trans hu'
    refine ⟨hall, hu'.directory, hown, hall.apart _ h.apart, fun w hRw hp => ?_⟩
    have hmem : ∀ j, ((s₂.tempMapPage e).tempSet (getPageTableIndex v)
        (andNot paddr PAGE_OFFSET_BITS ||| flags)).mem dir' j = s₂.mem dir' j := fun j =>
      htouch.mem dir' j (fun e => hn.ne_dir e.symm) fun hw => by
        rw [hn.kernelPageTable] at hw
        exact h.own.dir_ne hw.1
    dsimp only at hp ⊢
    rw [hmem] at hp ⊢
    by_cases hi : getPageDirectoryIndex w = getPageDirectoryIndex v
    · rw [hi, hn.linked.2]
      exact hu'.apart _ ht
    · rw [hn.dirOther _ hi] at hp ⊢
      exact hall.apart _ (h.tables w hRw hp)

/-- **Mapping pages of `dir'`**, whether it succeeds or not, does not touch `dir`. -/
theorem Foreign.mapPages {r : Bool × Machine} (h : Foreign A s dir dir' R) (hv : v < 2 ^ 32)
    (hR : ∀ i < count, R (pageAt v i))
    (hm : Machine.mapPages (A.alloc 1) dir' v paddr count flags s = some r) :
    Unseen A s r.2 dir ∧ Foreign A r.2 dir dir' R := by
  induction count generalizing v paddr s with
  | zero =>
    obtain rfl := Option.some.inj hm
    exact ⟨.refl h.directory, h⟩
  | succ count ih =>
    rw [Machine.mapPages] at hm
    obtain ⟨⟨b, s₁⟩, hwalk, hm⟩ := Option.bind_eq_some_iff.mp hm
    have hv0 := hR 0 (Nat.succ_pos count)
    rw [pageAt_zero hv] at hv0
    obtain ⟨hu, h₁⟩ := h.walk hv hv0 hwalk
    cases b with
    | false =>
      obtain rfl := Option.some.inj hm
      exact ⟨hu, h₁⟩
    | true =>
      obtain ⟨hu', h₂⟩ := ih h₁ (add32_lt _ _) (fun i hi => by
        rw [pageAt_succ]
        exact hR (i + 1) (by omega)) hm
      exact ⟨hu.trans hu', h₂⟩

/-! ## Operations for another directory -/

variable {d d' w : Nat} {Q Q' R' : Nat → Prop}

/-- An operation for the directory `dir`: it frees frames of `Q` only, and leaves the other frames of
others alone. -/
structure Serves (A : PhysAllocator) (s s' : Machine) (dir : Nat) (Q : Nat → Prop) : Prop where
  directory : Directory A s' dir
  kernelPageTable : s'.kernelPageTable = s.kernelPageTable
  free : ∀ q, A.Free s' q → A.Free s q ∨ Q q
  apart : ∀ q, Apart A s dir q → ¬ Q q → Apart A s' dir q ∧ ∀ j, s'.mem q j = s.mem q j

theorem Serves.trans (h : Serves A s s' dir Q) (h' : Serves A s' s'' dir Q) :
    Serves A s s'' dir Q := by
  refine ⟨h'.directory, h'.kernelPageTable.trans h.kernelPageTable, fun q hq => ?_, fun q hq hQ => ?_⟩
  · exact (h'.free q hq).elim (h.free q) Or.inr
  · obtain ⟨hq', hmem⟩ := h.apart q hq hQ
    obtain ⟨hq'', hmem'⟩ := h'.apart q hq' hQ
    exact ⟨hq'', fun j => (hmem' j).trans (hmem j)⟩

theorem Serves.mono (h : Serves A s s' dir Q) (hQ : ∀ q, Q q → Q' q) : Serves A s s' dir Q' :=
  ⟨h.directory, h.kernelPageTable, fun q hq => (h.free q hq).imp id (hQ q),
    fun q hq hq' => h.apart q hq fun hQ' => hq' (hQ q hQ')⟩

theorem Serves.all {ι : Type*} {P : ι → Prop} {Q : ι → Nat → Prop} (hne : ∃ p, P p)
    (h : ∀ p, P p → Serves A s s' dir (Q p)) : Serves A s s' dir fun q => ∀ p, P p → Q p q := by
  obtain ⟨p₀, hp₀⟩ := hne
  refine ⟨(h p₀ hp₀).directory, (h p₀ hp₀).kernelPageTable, fun q hq => ?_, fun q hq hQ => ?_⟩
  · by_cases hf : A.Free s q
    · exact Or.inl hf
    · exact Or.inr fun p hp => ((h p hp).free q hq).resolve_left hf
  · by_contra hno
    exact hQ fun p hp => by_contra fun hq' => hno ((h p hp).apart q hq hq')

theorem Machine.Mapped.serves (h : Mapped A s s' dir R) : Serves A s s' dir Q :=
  ⟨h.directory, h.kept.kernelPageTable, fun q hq => Or.inl (h.free q hq), fun _ hq _ => h.apart hq⟩

/-- An operation that frees frames which were free before it frees none. -/
theorem Serves.taken (h : Serves A s s' dir Q) (hQ : ∀ q, Q q → A.Free s q) :
    Serves A s s' dir fun _ => False :=
  ⟨h.directory, h.kernelPageTable, fun q hq => Or.inl ((h.free q hq).elim id (hQ q)),
    fun q hq _ => h.apart q hq fun hq' => hq.not_free (hQ q hq')⟩

theorem serves_free {r : Range} (hd : Directory A s dir) (hv : r.Valid)
    (hr : ∀ p ∈ r.pages, Apart A s dir p) (h : A.free r.base r.count s = some s') :
    Serves A s s' dir (· ∈ r.pages) := by
  obtain ⟨-, hfree, -, hwin, -⟩ := hd.free_apart hv hr h
  have hs := spares_free hd hv hr h
  exact ⟨hs.directory, hwin, fun q hq => (hfree q).mp hq, hs.apart⟩

/-- **A directory that the operation does not serve** keeps its entries and its frames. -/
theorem Serves.bystander (h : Serves A s s' dir Q) (hd : Directory A s d) (hap : Apart A s dir d)
    (hQ : ∀ q, Q q → Apart A s d q) :
    (∀ i, s'.mem d i = s.mem d i) ∧ Directory A s' d ∧
      ∀ q, Apart A s d q → ¬ A.Free s' q → Apart A s' d q := by
  have hself : ¬ Q d := fun h => (hQ d h).not_owned (Or.inr (Or.inl rfl))
  have hmem := (h.apart d hap hself).2
  have hfree : ∀ q, A.Free s' q → ¬ A.Free s q → Apart A s d q := fun q hq hn =>
    hQ q ((h.free q hq).resolve_left hn)
  refine ⟨hmem, ⟨h.directory.ok, hd.frame, ?_, fun hf => ?_, fun hf => ?_, ?_, ?_⟩,
    fun q hq hnq => ⟨hq.frame, ?_, ?_⟩⟩
  · unfold DistinctTables
    simp only [hmem]
    exact hd.tables
  · exact (hfree d hf hd.dir_used).not_owned (Or.inr (Or.inl rfl))
  · rw [h.kernelPageTable] at hf
    exact (hfree _ hf hd.window_used).ne_window rfl
  · simp only [hmem]
    intro i hi hp hf
    exact (hfree _ hf (hd.table_used i hi hp)).not_owned (Or.inr (Or.inr ⟨i, hi, hp, rfl⟩))
  · rw [h.kernelPageTable]
    exact hd.dir_ne
  · rintro (hf | rfl | ⟨i, hi, hp, he⟩)
    · exact hnq hf
    · exact hq.not_owned (Or.inr (Or.inl rfl))
    · rw [hmem] at hp he
      exact hq.not_owned (Or.inr (Or.inr ⟨i, hi, hp, he⟩))
  · rw [h.kernelPageTable]
    exact hq.ne_window

theorem Foreign.mono (h : Foreign A s d d' R) (hR : ∀ w, R' w → R w) : Foreign A s d d' R' :=
  ⟨h.directory, h.own, h.apart, fun w hw => h.tables w (hR w hw)⟩

theorem Foreign.kept (h : Foreign A s d d' R)
    (hm : Mapped A s s' d fun _ => False) (hm' : Mapped A s s' d' fun _ => False) :
    Foreign A s' d d' R := by
  obtain ⟨hap, hmem⟩ := hm.apart h.apart
  refine ⟨hm.directory, hm'.directory, hap, fun w hw hp => ?_⟩
  rw [hmem] at hp ⊢
  exact (hm.apart (h.tables w hw hp)).1

theorem not_table {P : Prop} (hd : Apart A s d (frameOf (s.mem d (getPageDirectoryIndex w))))
    (hp : Present (s.mem d (getPageDirectoryIndex w))) : P :=
  absurd (Or.inr (Or.inr ⟨_, dirIndex_lt w, hp, rfl⟩)) hd.not_owned

theorem Serves.foreign_self (h : Serves A s s' dir Q) (hf : Foreign A s dir d R)
    (hQ : ∀ q, Q q → Apart A s d q) : Foreign A s' dir d R := by
  obtain ⟨hmem, hd, -⟩ := h.bystander hf.own hf.apart hQ
  have hself : ¬ Q d := fun h => (hQ d h).not_owned (Or.inr (Or.inl rfl))
  refine ⟨h.directory, hd, (h.apart d hf.apart hself).1, fun w hw hp => ?_⟩
  rw [hmem] at hp ⊢
  exact (h.apart _ (hf.tables w hw hp) fun hq => not_table (hQ _ hq) hp).1

/-- Nor to a third one. -/
theorem Serves.foreign (h : Serves A s s' dir Q) (hf : Foreign A s d d' R) (hap : Apart A s dir d)
    (hap' : Apart A s dir d') (hQ : ∀ q, Q q → Apart A s d q ∧ Apart A s d' q) :
    Foreign A s' d d' R := by
  obtain ⟨-, hd, hkeep⟩ := h.bystander hf.directory hap fun q hq => (hQ q hq).1
  obtain ⟨hmem, hd', -⟩ := h.bystander hf.own hap' fun q hq => (hQ q hq).2
  refine ⟨hd, hd', hkeep d' hf.apart hd'.dir_used, fun w hw hp => ?_⟩
  have hused := hd'.table_used _ (dirIndex_lt w) hp
  rw [hmem] at hp hused ⊢
  exact hkeep _ (hf.tables w hw hp) hused

theorem Foreign.pageInfo (h : Foreign A s d d' R) (hw : R w) :
    (s.getPageInfo d' w).1 = s.info d' w :=
  getPageInfo_eq h.own.frame h.own.dir_ne fun hs => (h.tables w hw hs.1).ne_window hs.2.1

theorem Serves.pageInfo (h : Serves A s s' dir Q) (hf : Foreign A s dir d R)
    (hQ : ∀ q, Q q → Apart A s d q) (hw : R w) :
    (s'.getPageInfo d w).1 = (s.getPageInfo d w).1 := by
  obtain ⟨hmem, -, -⟩ := h.bystander hf.own hf.apart hQ
  rw [(h.foreign_self hf hQ).pageInfo hw, hf.pageInfo hw]
  unfold Machine.info
  dsimp only
  rw [hmem]
  split_ifs with hp
  · exact (h.apart _ (hf.tables w hw hp) fun hq => not_table (hQ _ hq) hp).2 _
  · rfl

end C4os
