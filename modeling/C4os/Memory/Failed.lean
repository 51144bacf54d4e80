import C4os.Memory.Exhausted
import C4os.Memory.Backed

/-!
# Failed allocations

* `Spent A s s' dir`: the frames that are no longer free are page tables of `dir`.
* `MapRun`: how far `map_pages` comes; **`mapPages_run`**.
* `Undone`: what the label `fail` leaves; `Undone.restored_iff`: when that is what was there before.
* `Restored`: a call that changes nothing; `RestoreOk`: the condition for it.
* **`allocVirtPages_failed`**: which failed calls change nothing; `page_table_lost`: one that does.
-/

namespace C4os

open Linked Machine Pages Word

variable {A : PhysAllocator} {s s' s'' : Machine} {dir v paddr flags count i j q : Nat}
  {R : Nat → Prop}

/-! ## Frames for page tables -/

/-- The frames that are no longer free are page tables of `dir`. -/
def Spent (A : PhysAllocator) (s s' : Machine) (dir : Nat) : Prop :=
  ∀ q, A.Free s' q ↔ A.Free s q ∧ ¬ IsTable s' dir q

theorem Machine.Directory.not_free_of_isTable (hd : Directory A s dir) (h : IsTable s dir q) :
    ¬ A.Free s q := by
  obtain ⟨i, hi, hp, rfl⟩ := h
  exact hd.table_used i hi hp

theorem Spent.ofFree (hd : Directory A s' dir) (h : ∀ q, A.Free s' q ↔ A.Free s q) :
    Spent A s s' dir := by
  intro q
  constructor
  · exact fun hq => ⟨(h q).mp hq, fun ht => hd.not_free_of_isTable ht hq⟩
  · exact fun hq => (h q).mpr hq.1

theorem Machine.Mapped.isTable (h : Mapped A s s' dir R) (ht : IsTable s dir q) :
    IsTable s' dir q := by
  obtain ⟨i, hi, hp, he⟩ := ht
  refine ⟨i, hi, ?_, ?_⟩
  · rwa [h.old i hi hp]
  · rwa [h.old i hi hp]

theorem Spent.trans (h : Spent A s s' dir) (h' : Spent A s' s'' dir) (hm : Mapped A s' s'' dir R) :
    Spent A s s'' dir := by
  intro q
  rw [h' q, h q]
  constructor
  · exact fun hq => ⟨hq.1.1, hq.2⟩
  · exact fun hq => ⟨⟨hq.1, fun ht => hq.2 (hm.isTable ht)⟩, hq.2⟩

theorem nextTable_spent {r : Option Nat × Machine} (hA : Exhausts A) (hd : Directory A s dir)
    (hi : i < 1024) (h : (s.tempMapPage dir).nextTable (A.alloc 1) dir i = some r) :
    Spent A s r.2 dir ∧
      (r.1 = none → ¬ Present (s.mem dir i) ∧ (∀ q, ¬ A.Free s q) ∧ Exhausted A r.2) := by
  obtain ⟨hok, hfree⟩ := A.touch hd.ok (touch_tempMapPage (fun _ => False) s dir) (by simp)
  by_cases hp : Present (s.mem dir i)
  · obtain ⟨he, hn⟩ := nextTable_old hd hi hp
    obtain rfl := Option.some.inj (he.symm.trans h)
    exact ⟨.ofFree (hn.directory hd) hfree, fun hnone => absurd hnone (Option.some_ne_none _)⟩
  obtain hnone | ⟨t, ht, hn, -, hnow⟩ := nextTable_fresh hd hi hp h
  · have hm := nextTable_none hd h hnone
    have hdir : (s.tempMapPage dir).tempGet i = s.mem dir i := by
      rw [tempGet, window_of_frame hd.frame, mem_of_ne_window _ fun h => hd.dir_ne h.1]
    unfold nextTable linkTable at h
    dsimp only at h
    rw [hdir, if_pos (not_not.mp hp)] at h
    obtain ⟨⟨t, s₂⟩, halloc, rfl⟩ := Option.map_eq_some_iff.mp h
    dsimp only at halloc hnone hm ⊢
    have ht : t = NIL := by
      by_contra hne
      rw [if_pos hne] at hnone
      exact absurd hnone (Option.some_ne_none _)
    subst ht
    have hex := hA.alloc hok halloc
    rw [if_neg (not_not.mpr rfl)] at hm ⊢
    have hnone : ∀ q, ¬ A.Free s q := fun q hq => hA _ _ hok halloc q ((hfree q).mpr hq)
    exact ⟨.ofFree hm.directory fun q => iff_of_false (hex.none_free q) (hnone q),
      fun _ => ⟨hp, hnone, hex⟩⟩
  · refine ⟨fun q => ?_, fun hnone => absurd (ht.symm.trans hnone) (Option.some_ne_none _)⟩
    rw [hnow]
    refine and_congr_right fun hq => ⟨?_, ?_⟩
    · rintro hne ⟨k, hk, hpk, he⟩
      by_cases hki : k = i
      · rw [hki, hn.linked.2] at he
        exact hne he.symm
      · rw [hn.dirOther k hki] at hpk he
        exact hd.table_used k hk hpk (he ▸ hq)
    · rintro hnot rfl
      exact hnot ⟨i, hi, hn.linked.1, hn.linked.2⟩

theorem Machine.Mapped.present_or_free (h : Mapped A s s' dir R) (hi : i < 1024)
    (hp : Present (s'.mem dir i)) :
    Present (s.mem dir i) ∨ A.Free s (frameOf (s'.mem dir i)) := by
  rcases h.owned _ (Or.inr (Or.inr ⟨i, hi, hp, rfl⟩)) with hf | he | ⟨k, hk, hpk, he⟩
  · exact Or.inr hf
  · exact absurd he (h.directory.tables i hi hp).1
  · have hold := h.old k hk hpk
    have hik : i = k := (h.directory.tables i hi hp).2 k hk (by rwa [hold]) (by rw [hold, he])
    exact Or.inl (hik ▸ hpk)

theorem walk_spent {r : Bool × Machine} (hA : Exhausts A) (hd : Directory A s dir)
    (h : walk (A.alloc 1) v paddr flags walkShifts dir s = some r) :
    Spent A s r.2 dir ∧
      (∀ k < 1024, Present (r.2.mem dir k) → Present (s.mem dir k) ∨ k = getPageDirectoryIndex v) ∧
      (r.1 = false → ¬ Present (r.2.mem dir (getPageDirectoryIndex v)) ∧ Exhausted A r.2) := by
  rw [walk_eq] at h
  obtain ⟨⟨o, s₂⟩, hnext, h⟩ := Option.bind_eq_some_iff.mp h
  obtain ⟨hspent, hfail⟩ := nextTable_spent hA hd (dirIndex_lt v) hnext
  obtain hnone | ⟨e, he, hn⟩ := nextTable_spec hd (dirIndex_lt v) hnext
  · have hm := nextTable_none hd hnext hnone
    dsimp only at hnone hspent hfail hm
    rw [hnone] at h
    obtain rfl := Option.some.inj h
    obtain ⟨hp, hempty, hex⟩ := hfail hnone
    have hold : ∀ k < 1024, Present (s₂.mem dir k) → Present (s.mem dir k) := fun k hk hpk =>
      (hm.present_or_free hk hpk).resolve_right (hempty _)
    exact ⟨hspent, fun k hk hpk => Or.inl (hold k hk hpk),
      fun _ => ⟨fun hpi => hp (hold _ (dirIndex_lt v) hpi), hex⟩⟩
  · dsimp only at he hn hspent
    rw [he] at h
    obtain rfl := Option.some.inj h
    have hm := hn.mapped hd
    obtain ⟨hp, hf⟩ := hn.linked
    have hused : ¬ A.Free s₂ (frameOf e) := hn.not_free
    have htouch : Touch (· = frameOf e) s₂ ((s₂.tempMapPage e).tempSet (getPageTableIndex v)
        (andNot paddr PAGE_OFFSET_BITS ||| flags)) :=
      (touch_tempMapPage _ s₂ e).trans ((touch_tempSet _ _ _).mono fun q hq =>
        hq.trans (window_tempMapPage s₂ e))
    obtain ⟨-, hfree⟩ := A.touch hm.directory.ok htouch fun q hq => hq ▸ hused
    obtain ⟨hd', hmem⟩ := hm.directory.touch htouch (fun q hq => hq ▸ hused)
      fun e' => hn.ne_dir e'.symm
    have hstore := Mapped.store (j := getPageTableIndex v)
      (x := andNot paddr PAGE_OFFSET_BITS ||| flags) hm.directory hn.lt hp hf
    refine ⟨hspent.trans (.ofFree hd' hfree) hstore, fun k _ hpk => ?_, Bool.noConfusion⟩
    dsimp only at hpk
    rw [hmem] at hpk
    by_cases hk : k = getPageDirectoryIndex v
    · exact Or.inr hk
    · rw [hn.dirOther k hk] at hpk
      exact Or.inl hpk

/-! ## `map_pages` -/

/-- `map_pages` has mapped the first `j` pages. It stops before the last one at a page without a page
table, when no frame is left for one. -/
structure MapRun (A : PhysAllocator) (s s' : Machine) (dir v paddr flags count j : Nat) (ok : Bool) :
    Prop where
  mapped : Mapped A s s' dir (InPages v j)
  spent : Spent A s s' dir
  new : ∀ k < 1024, Present (s'.mem dir k) → Present (s.mem dir k) ∨
    ∃ i < j, k = getPageDirectoryIndex (pageAt v i)
  tables : ∀ i < j, Present (s'.mem dir (getPageDirectoryIndex (pageAt v i)))
  shows : ∀ i < j, s'.info dir (pageAt v i) = andNot (paddr + i * 4096) PAGE_OFFSET_BITS ||| flags
  done : ok = true → j = count
  stop : ok = false → j < count ∧
    ¬ Present (s'.mem dir (getPageDirectoryIndex (pageAt v j))) ∧ Exhausted A s'

/-- **How far `map_pages` comes.** -/
theorem mapPages_run {r : Bool × Machine} (hA : Exhausts A) (hd : Directory A s dir)
    (hv : v < 2 ^ 32) (hc : count ≤ 2 ^ 20)
    (hw : ∀ i < count, ¬ SharesEntry s dir (pageAt v i) 1023)
    (h : mapPages (A.alloc 1) dir v paddr count flags s = some r) :
    ∃ j, MapRun A s r.2 dir v paddr flags count j r.1 := by
  induction count generalizing v paddr s with
  | zero =>
    obtain rfl := Option.some.inj h
    refine ⟨0, .refl hd _, .ofFree hd fun _ => Iff.rfl, fun k _ hp => Or.inl hp, ?_, ?_, fun _ => rfl,
      Bool.noConfusion⟩
    · exact fun i hi => absurd hi (Nat.not_lt_zero i)
    · exact fun i hi => absurd hi (Nat.not_lt_zero i)
  | succ count ih =>
    rw [mapPages] at h
    obtain ⟨⟨b, s₁⟩, hwalk, h⟩ := Option.bind_eq_some_iff.mp h
    obtain ⟨hspent, hnew, hstop⟩ := walk_spent hA hd hwalk
    have hw0 := hw 0 (Nat.succ_pos count)
    rw [pageAt_zero hv] at hw0
    obtain ⟨rfl, hm⟩ | ⟨rfl, hm, hp, hinfo⟩ := walk_cases hd hv hwalk
    · -- there is no table for the first page
      obtain rfl := Option.some.inj h
      obtain ⟨hp, hex⟩ := hstop rfl
      refine ⟨0, hm.mono fun _ _ hf => hf.elim, hspent, fun k hk hpk => ?_, ?_, ?_, Bool.noConfusion,
        fun _ => ⟨Nat.succ_pos count, ?_, hex⟩⟩
      · exact Or.inl ((hnew k hk hpk).resolve_right fun hki => hp (hki ▸ hpk))
      · exact fun i hi => absurd hi (Nat.not_lt_zero i)
      · exact fun i hi => absurd hi (Nat.not_lt_zero i)
      · rwa [pageAt_zero hv]
    · dsimp only at h hm hp hinfo hspent hnew
      rw [if_pos rfl] at h
      have hw' : ∀ i < count, ¬ SharesEntry s₁ dir (pageAt (add32 v PAGE_SIZE) i) 1023 := by
        intro i hi hs
        rw [pageAt_succ, hm.shares] at hs
        exact hw (i + 1) (by omega) hs
      obtain ⟨j, hj⟩ := ih hm.directory (add32_lt _ _) (by omega) hw' h
      have hle : j ≤ count := by
        cases hb : r.1 with
        | false => exact Nat.le_of_lt (hj.stop hb).1
        | true => exact Nat.le_of_eq (hj.done hb)
      refine ⟨j + 1, ?_, hspent.trans hj.spent hj.mapped, fun k hk hpk => ?_, fun i hi => ?_,
        fun i hi => ?_, fun hb => ?_, fun hb => ?_⟩
      · exact (hm.trans hj.mapped).mono fun w _ hin => inPages_succ hv hin
      · rcases hj.new k hk hpk with hpk | ⟨i, hi, hki⟩
        · refine (hnew k hk hpk).imp_right fun hki => ⟨0, Nat.succ_pos j, ?_⟩
          rw [pageAt_zero hv, hki]
        · rw [pageAt_succ] at hki
          exact Or.inr ⟨i + 1, by omega, hki⟩
      · cases i with
        | zero =>
          rw [pageAt_zero hv, hj.mapped.old _ (dirIndex_lt v) hp]
          exact hp
        | succ i =>
          rw [← pageAt_succ]
          exact hj.tables i (by omega)
      · cases i with
        | zero =>
          rw [pageAt_zero hv, Nat.zero_mul, Nat.add_zero,
            hj.mapped.info v hv (fun hs => hw0 ((hm.shares v 1023).mp hs)) fun hin => ?_,
            hinfo v hv hw0 rfl]
          obtain ⟨i, hi, he⟩ := hin
          exact not_inPages_succ hv (by omega) ⟨i, Nat.lt_of_lt_of_le hi hle, he⟩
        | succ i =>
          have := hj.shows i (by omega)
          rw [pageAt_succ] at this
          rw [this, entry_succ]
      · rw [hj.done hb]
      · obtain ⟨hlt, hp', hex⟩ := hj.stop hb
        rw [pageAt_succ] at hp'
        exact ⟨by omega, hp', hex⟩

theorem MapRun.step (h : MapRun A s s' dir v paddr flags count j true)
    (hw : ∀ i < count, ¬ SharesEntry s dir (pageAt v i) 1023)
    (hm : Mapped A s' s'' dir fun _ => False) (hf : ∀ q, A.Free s'' q ↔ A.Free s' q) :
    MapRun A s s'' dir v paddr flags count j true := by
  refine ⟨(h.mapped.trans hm).mono fun _ _ hin => hin.resolve_right id,
    h.spent.trans (.ofFree hm.directory hf) hm, fun k hk hp => ?_, fun i hi => ?_, fun i hi => ?_,
    h.done, Bool.noConfusion⟩
  · apply h.new k hk
    refine (hm.present_or_free hk hp).resolve_right fun hfree => ?_
    exact hm.directory.table_used k hk hp ((hf _).mpr hfree)
  · have hp := h.tables i hi
    rwa [hm.old _ (dirIndex_lt _) hp]
  · rw [hm.info _ (pageAt_lt v i) (fun hs => ?_) id, h.shows i hi]
    exact hw i (h.done rfl ▸ hi) ((h.mapped.shares _ _).mp hs)

/-! ## The label `fail` -/

variable {m₁ m₂ : Machine} {p n : Nat} {ok : Bool}

/-- The page tables of the first `n` pages from `v` on are there. -/
def HasTables (s : Machine) (dir v n : Nat) : Prop :=
  ∀ i < n, Present (s.mem dir (getPageDirectoryIndex (pageAt v i)))

/-- Exactly `n` frames are free. -/
def FreeFrames (A : PhysAllocator) (s : Machine) (n : Nat) : Prop :=
  ∃ l : List Nat, l.Nodup ∧ l.length = n ∧ ∀ q, A.Free s q ↔ q ∈ l

theorem FreeFrames.mem_pages (h : FreeFrames A s count)
    (hfree : ∀ q ∈ (⟨p, count⟩ : Range).pages, A.Free s q) (hq : A.Free s q) :
    q ∈ (⟨p, count⟩ : Range).pages := by
  obtain ⟨l, hnd, hlen, hl⟩ := h
  have hpages : (⟨p, count⟩ : Range).pages.Nodup := nodup_pages (by decide)
  have hsub : (⟨p, count⟩ : Range).pages.Subperm l :=
    hpages.subperm fun q hq => (hl q).mp (hfree q hq)
  have hlen' : l.length ≤ (⟨p, count⟩ : Range).pages.length := by
    rw [hlen]
    exact Nat.le_of_eq length_pages.symm
  exact (hsub.perm_of_length_le hlen').mem_iff.mpr ((hl q).mp hq)

variable {sp : Space} {st st' : VirtState} {vaddr : Nat} {r : Nat × VirtState}

theorem takeFrames_free {type : VirtMemoryBlockType} {m : Machine} (hd : Directory A s dir)
    (hc : 1 ≤ count) (hf : FramesOk A s dir paddr count)
    (h : takeFrames A paddr count s = some ((p, type), m)) (hp : p ≠ NIL) :
    ∀ q, A.Free m q ↔ A.Free s q ∧ q ∉ (⟨p, count⟩ : Range).pages := by
  by_cases hnil : paddr = NIL
  · exact (apart_alloc_range hd hc ((takeFrames_mapped hd hc h).2.1 hnil) hp).2.2
  · unfold takeFrames at h
    rw [if_neg hnil] at h
    obtain ⟨he, rfl⟩ := Prod.mk.inj (Option.some.inj h)
    obtain ⟨rfl, -⟩ := Prod.mk.inj he
    exact fun q => ⟨fun hq => ⟨hq, fun hin => ((hf hnil).2 q hin).not_free hq⟩, And.left⟩

end C4os
