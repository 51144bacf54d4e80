import C4os.Memory.Paging

/-!
# What `map_pages` leaves alone

* `Owned A s dir q`: the frame `q` is free, or the directory `dir`, or one of its tables.
* `Mapped A s s' dir R`: an operation on the tables of `dir` changes the entries of pages in `R`
  only, writes to owned frames only and frees none.
* **`mapPages_mapped`**: `map_pages`, whether it succeeds or not; `mapPages_shows`: the entries that
  it writes.
* `Held A s dir qs`: the frames `qs` belong to somebody else; `Held.mapped`: their words stay.
-/

namespace C4os

open Pages Word

namespace Machine

variable {A : PhysAllocator} {s s' s'' : Machine} {dir v paddr flags count : Nat}

/-- The frame `q` is a page table of `dir`. -/
def IsTable (s : Machine) (dir q : Nat) : Prop :=
  ∃ i < 1024, Present (s.mem dir i) ∧ frameOf (s.mem dir i) = q

/-- The frames that belong to the directory `dir`, or to nobody. -/
def Owned (A : PhysAllocator) (s : Machine) (dir q : Nat) : Prop :=
  A.Free s q ∨ q = dir ∨ IsTable s dir q

/-- The step from `s` to `s'` works on the tables of `dir`, and on entries of pages in `R`. -/
structure Mapped (A : PhysAllocator) (s s' : Machine) (dir : Nat) (R : Nat → Prop) : Prop where
  directory : Directory A s' dir
  kept : Kept (Owned A s dir) s s'
  free : ∀ q, A.Free s' q → A.Free s q
  owned : ∀ q, Owned A s' dir q → Owned A s dir q
  old : ∀ i < 1024, Present (s.mem dir i) → s'.mem dir i = s.mem dir i
  shares : ∀ w k, SharesEntry s' dir w k ↔ SharesEntry s dir w k
  info : ∀ w < 2 ^ 32, ¬ SharesEntry s dir w 1023 → ¬ R w → s'.info dir w = s.info dir w

variable {R R' : Nat → Prop}

theorem Mapped.trans (h : Mapped A s s' dir R) (h' : Mapped A s' s'' dir R') :
    Mapped A s s'' dir fun w => R w ∨ R' w := by
  refine ⟨h'.directory, ?_, fun q hq => h.free q (h'.free q hq),
    fun q hq => h.owned q (h'.owned q hq), fun i hi hp => ?_,
    fun w k => (h'.shares w k).trans (h.shares w k), fun w hw hs hr => ?_⟩
  · exact h.kept.trans (h'.kept.mono h.owned)
  · have he := h.old i hi hp
    rw [h'.old i hi (by rwa [he]), he]
  · rw [not_or] at hr
    rw [h'.info w hw (fun hs' => hs ((h.shares w 1023).mp hs')) hr.2, h.info w hw hs hr.1]

theorem Mapped.mono (h : Mapped A s s' dir R) (hR : ∀ w < 2 ^ 32, R w → R' w) :
    Mapped A s s' dir R' :=
  ⟨h.directory, h.kept, h.free, h.owned, h.old, h.shares, fun w hw hs hr => h.info w hw hs
    fun hw' => hr (hR w hw hw')⟩

theorem Mapped.refl (hd : Directory A s dir) (R : Nat → Prop) : Mapped A s s dir R :=
  ⟨hd, Kept.refl _ s, fun _ => id, fun _ => id, fun _ _ _ => rfl, fun _ _ => Iff.rfl,
    fun _ _ _ _ => rfl⟩

theorem Mapped.ofKept (hd : Directory A s dir) (hok : A.Ok s') (hk : Kept (A.Free s) s s')
    (hf : ∀ q, A.Free s' q → A.Free s q) (R : Nat → Prop) : Mapped A s s' dir R := by
  have hdir : ∀ i, s'.mem dir i = s.mem dir i := fun i =>
    hk.mem dir i hd.dir_used fun h => hd.dir_ne h.1
  refine ⟨⟨hok, hd.frame, ?_, fun h => hd.dir_used (hf _ h), ?_, ?_, ?_⟩, hk.mono fun q => Or.inl,
    hf, ?_, fun i _ _ => hdir i, ?_, ?_⟩
  · unfold DistinctTables
    simp only [hdir]
    exact hd.tables
  · rw [hk.kernelPageTable]
    exact fun h => hd.window_used (hf _ h)
  · simp only [hdir]
    exact fun i hi hp h => hd.table_used i hi hp (hf _ h)
  · rw [hk.kernelPageTable]
    exact hd.dir_ne
  · rintro q (h | h | ⟨i, hi, hp, he⟩)
    · exact Or.inl (hf q h)
    · exact Or.inr (Or.inl h)
    · rw [hdir] at hp he
      exact Or.inr (Or.inr ⟨i, hi, hp, he⟩)
  · intro w k
    unfold SharesEntry
    rw [hdir, hk.kernelPageTable]
  · intro w _ hs _
    unfold Machine.info
    dsimp only
    rw [hdir]
    split_ifs with hp
    · exact hk.mem _ _ (hd.table_used _ (dirIndex_lt w) hp) fun h => hs ⟨hp, h.1, h.2⟩
    · rfl

theorem Mapped.alloc {r : Nat} (hd : Directory A s dir) (hc : 1 ≤ count)
    (h : A.alloc count s = some (r, s')) : Mapped A s s' dir fun _ => False := by
  obtain ⟨hok, hk, hcase⟩ := A.alloc_spec hd.ok hc h
  refine .ofKept hd hok hk (fun q hq => ?_) _
  obtain ⟨-, hfree⟩ | ⟨-, -, hfree⟩ := hcase
  · exact (hfree q).mp hq
  · exact ((hfree q).mp hq).1

theorem Mapped.tempMapPage (hd : Directory A s dir) (a : Nat) :
    Mapped A s (s.tempMapPage a) dir fun _ => False := by
  have ht := touch_tempMapPage (A.Free s) s a
  obtain ⟨hok, hfree⟩ := A.touch hd.ok (touch_tempMapPage (fun _ => False) s a) (by simp)
  exact .ofKept hd hok ht.toKept (fun q => (hfree q).mp) _

theorem getPageInfo_mapped (hd : Directory A s dir) (v : Nat) :
    Mapped A s (s.getPageInfo dir v).2 dir fun _ => False := by
  unfold getPageInfo
  dsimp only
  have hm := Mapped.tempMapPage hd dir
  split_ifs
  · exact hm
  · exact (hm.trans (.tempMapPage hm.directory _)).mono fun _ _ h => h.elim id id

theorem NextTable.mapped {i t : Nat} (h : NextTable A s s' dir i t) (hd : Directory A s dir) :
    Mapped A s s' dir fun _ => False := by
  have ht : Owned A s dir t := by
    by_cases hp : Present (s.mem dir i)
    · exact Or.inr (Or.inr ⟨i, h.lt, hp, by rw [← h.old hp]; exact h.linked.2⟩)
    · exact Or.inl (h.fresh hp)
  refine ⟨h.directory hd, ⟨h.kernelPageTable, fun q j hq hslot => ?_⟩, h.free, ?_,
    fun j _ hp => ?_, fun w k => h.sharesEntry hd, fun w _ hs _ => h.info hd hs⟩
  · exact h.other q j (fun e => hq (Or.inr (Or.inl e))) (fun e => hq (e ▸ ht))
      (fun hf => hq (Or.inl hf)) hslot
  · rintro q (hf | rfl | ⟨j, hj, hp, rfl⟩)
    · exact Or.inl (h.free q hf)
    · exact Or.inr (Or.inl rfl)
    · by_cases hji : j = i
      · rw [hji, h.linked.2]
        exact ht
      · rw [h.dirOther j hji] at hp ⊢
        exact Or.inr (Or.inr ⟨j, hj, hp, rfl⟩)
  · by_cases hji : j = i
    · subst hji
      exact h.old hp
    · exact h.dirOther j hji

theorem Mapped.store {i j e x : Nat} (hd : Directory A s dir) (hi : i < 1024)
    (hp : Present (s.mem dir i)) (he : frameOf (s.mem dir i) = frameOf e) :
    Mapped A s ((s.tempMapPage e).tempSet j x) dir
      fun w => getPageDirectoryIndex w = i ∧ getPageTableIndex w = j := by
  obtain ⟨hd', hs, hinfo⟩ := store_spec (j := j) (x := x) hd hi hp he
  have hwin : (s.tempMapPage e).window = frameOf e := window_tempMapPage s e
  have htouch : Touch (· = frameOf e) s ((s.tempMapPage e).tempSet j x) :=
    (touch_tempMapPage _ s e).trans ((touch_tempSet _ j x).mono fun q hq => hq.trans hwin)
  have hused : ¬ A.Free s (frameOf e) := he ▸ hd.table_used i hi hp
  have htable : IsTable s dir (frameOf e) := ⟨i, hi, hp, he⟩
  obtain ⟨-, hfree⟩ := A.touch hd.ok htouch fun q hq => hq ▸ hused
  obtain ⟨-, hmem⟩ := hd.touch htouch (fun q hq => hq ▸ hused)
    fun e' => (hd.tables i hi hp).1 (he.trans e'.symm)
  refine ⟨hd', htouch.toKept.mono ?_, fun q => (hfree q).mp, ?_, fun k _ _ => hmem k, hs,
    fun w _ hw hr => ?_⟩
  · rintro q rfl
    exact Or.inr (Or.inr htable)
  · unfold Owned IsTable
    simp only [hfree, hmem]
    exact fun _ => id
  · rw [hinfo w hw, if_neg hr]

theorem nextTable_none {dir' i : Nat} {r : Option Nat × Machine} (hd : Directory A s dir)
    (h : (s.tempMapPage dir').nextTable (A.alloc 1) dir' i = some r) (hnone : r.1 = none) :
    Mapped A s r.2 dir fun _ => False := by
  have hm := Mapped.tempMapPage hd dir'
  unfold nextTable linkTable at h
  dsimp only at h
  split_ifs at h
  · obtain ⟨⟨t, s₂⟩, halloc, rfl⟩ := Option.map_eq_some_iff.mp h
    split_ifs at hnone ⊢
    exact (hm.trans (.alloc hm.directory (Nat.le_refl 1) halloc)).mono fun _ _ => by simp
  · rw [← Option.some.inj h] at hnone
    cases hnone

theorem walk_eq (alloc : Machine → Option (Nat × Machine)) :
    walk alloc v paddr flags walkShifts dir s =
      ((s.tempMapPage dir).nextTable alloc dir (getPageDirectoryIndex v)).bind fun r =>
        match r.1 with
        | some table => some (true, (r.2.tempMapPage table).tempSet (getPageTableIndex v)
            (andNot paddr PAGE_OFFSET_BITS ||| flags))
        | none => some (false, r.2) := rfl

/-- **The walk of one page** changes no entry, or stores the entry of the page in its table. -/
theorem walk_cases {r : Bool × Machine} (hd : Directory A s dir) (hv : v < 2 ^ 32)
    (h : walk (A.alloc 1) v paddr flags walkShifts dir s = some r) :
    r.1 = false ∧ Mapped A s r.2 dir (fun _ => False) ∨
      r.1 = true ∧ Mapped A s r.2 dir (fun w => w / 4096 = v / 4096) ∧
        Present (r.2.mem dir (getPageDirectoryIndex v)) ∧
        ∀ w < 2 ^ 32, ¬ SharesEntry s dir w 1023 → w / 4096 = v / 4096 →
          r.2.info dir w = andNot paddr PAGE_OFFSET_BITS ||| flags := by
  rw [walk_eq] at h
  obtain ⟨⟨o, s₂⟩, hnext, h⟩ := Option.bind_eq_some_iff.mp h
  obtain hnone | ⟨e, he, hn⟩ := nextTable_spec hd (dirIndex_lt v) hnext
  · have hm := nextTable_none hd hnext hnone
    dsimp only at hnone hm
    rw [hnone] at h
    obtain rfl := Option.some.inj h
    exact Or.inl ⟨rfl, hm⟩
  · dsimp only at he hn
    rw [he] at h
    obtain rfl := Option.some.inj h
    have hm := hn.mapped hd
    obtain ⟨hp, hf⟩ := hn.linked
    have hstore := Mapped.store (j := getPageTableIndex v)
      (x := andNot paddr PAGE_OFFSET_BITS ||| flags) hm.directory hn.lt hp hf
    refine Or.inr ⟨rfl, (hm.trans hstore).mono ?_, ?_, fun w hw hs hwv => ?_⟩
    · rintro w hw32 (hf | hw)
      · exact hf.elim
      · exact (same_entry_iff hv hw32).mp hw
    · dsimp only
      rw [hstore.old _ hn.lt hp]
      exact hp
    · obtain ⟨-, -, hinfo⟩ := store_spec (j := getPageTableIndex v)
        (x := andNot paddr PAGE_OFFSET_BITS ||| flags) hm.directory hn.lt hp hf
      rw [hinfo w fun h => hs ((hm.shares w 1023).mp h), if_pos ((same_entry_iff hv hw).mpr hwv)]

theorem walk_mapped {r : Bool × Machine} (hd : Directory A s dir) (hv : v < 2 ^ 32)
    (h : walk (A.alloc 1) v paddr flags walkShifts dir s = some r) :
    Mapped A s r.2 dir fun w => w / 4096 = v / 4096 := by
  obtain ⟨-, hm⟩ | ⟨-, hm, -⟩ := walk_cases hd hv h
  · exact hm.mono fun _ _ hf => hf.elim
  · exact hm

theorem frameOf_or {a f : Nat} (ha : Frame a) (hf : f < 4096) : frameOf (a ||| f) = a := by
  rw [or_low (k := 12) ha.1 hf]
  exact andNot_mask_add ha.2 ha.1 hf

theorem flags_or {a f g : Nat} (ha : Frame a) (hg : g < 4096) : (a ||| f) &&& g = f &&& g :=
  or_low_and (k := 12) ha.1 hg

/-- An entry with the frame `t`. -/
def Shows (e t : Nat) : Prop := Present e ∧ frameOf e = t

theorem shows_or {t g : Nat} (ht : Frame t) (hg : g < 4096) (hp : g &&& PAGE_PRESENT ≠ 0) :
    Shows (t ||| g) t := by
  refine ⟨?_, frameOf_or ht hg⟩
  unfold Present
  rwa [flags_or ht (by decide)]

theorem entry_mod (e : Nat) : e % 2 ^ 32 = frameOf e + e % 4096 := by
  have he : frameOf e = e % 2 ^ 32 / 4096 * 4096 := by
    unfold frameOf
    rw [← andNot_mod _ (by decide), andNot_mask (Nat.mod_lt _ (by decide))]
  omega

/-- The entry that `map_pages` writes `k` pages on keeps the flags of the old entry `e`, all but
bits 2 and 3. -/
theorem entry_kept {e k : Nat} (h : frameOf e + k * 4096 < 2 ^ 32) :
    andNot (e + k * 4096) PAGE_OFFSET_BITS =
      (frameOf e + k * 4096) ||| andNot (e % 4096) PAGE_OFFSET_BITS := by
  have hf : 2 ^ 12 ∣ frameOf e + k * 4096 :=
    Nat.dvd_add (frame_frameOf e).1 (Nat.dvd_mul_left 4096 k)
  have hlt : e % 4096 < 2 ^ 12 := Nat.mod_lt _ (by decide)
  have he := entry_mod e
  have hsum : (e + k * 4096) % 2 ^ 32 = (frameOf e + k * 4096) ||| e % 4096 := by
    rw [or_low hf hlt]
    omega
  rw [← andNot_mod _ (by decide), hsum, andNot_or, andNot_eq_self h hf (by decide)]

theorem frameOf_page (e i : Nat) : frameOf (e + i * 4096) = (frameOf e + i * 4096) % 2 ^ 32 := by
  have h1 := entry_mod (e + i * 4096)
  have h2 := entry_mod e
  have h3 := (frame_frameOf (e + i * 4096)).1
  have h4 := (frame_frameOf e).1
  omega

theorem shows_entry {e f : Nat} (hf : f < 4096) (hp : f &&& PAGE_PRESENT ≠ 0) :
    Shows (andNot e PAGE_OFFSET_BITS ||| f) (frameOf e) := by
  have hframe := frame_frameOf e
  have hlt : frameOf e + 0 * 4096 < 2 ^ 32 := hframe.2
  have hkept := entry_kept hlt
  rw [Nat.zero_mul, Nat.add_zero, Nat.add_zero] at hkept
  have hlow : andNot (e % 4096) PAGE_OFFSET_BITS < 4096 := by
    unfold andNot
    exact Nat.lt_of_le_of_lt Nat.and_le_left (Nat.mod_lt _ (by decide))
  rw [hkept, Nat.or_assoc]
  refine shows_or hframe (Nat.or_lt_two_pow (n := 12) hlow hf) fun h => hp ?_
  rw [Nat.and_or_distrib_right] at h
  exact (Nat.or_eq_zero_iff.mp h).2

theorem walk_present (alloc : Machine → Option (Nat × Machine)) (paddr flags : Nat) (hd : Frame dir)
    (hne : dir ≠ s.kernelPageTable) (hp : Present (s.mem dir (getPageDirectoryIndex v))) :
    walk alloc v paddr flags walkShifts dir s =
      some (true, ((s.tempMapPage dir).tempMapPage (s.mem dir (getPageDirectoryIndex v))).tempSet
        (getPageTableIndex v) (andNot paddr PAGE_OFFSET_BITS ||| flags)) := by
  have hpde : (s.tempMapPage dir).tempGet (getPageDirectoryIndex v) =
      s.mem dir (getPageDirectoryIndex v) := by
    rw [tempGet, window_of_frame hd, mem_of_ne_window _ fun h => hne h.1]
  have hnext : (s.tempMapPage dir).nextTable alloc dir (getPageDirectoryIndex v) =
      some (some (s.mem dir (getPageDirectoryIndex v)), s.tempMapPage dir) := by
    unfold nextTable
    rw [hpde]
    exact if_neg hp
  rw [walk_eq, hnext]
  rfl

theorem mapPages_present {alloc : Machine → Option (Nat × Machine)} (hd : Frame dir)
    (hne : dir ≠ s.kernelPageTable) (hp : Present (s.mem dir (getPageDirectoryIndex v))) :
    mapPages alloc dir v paddr 1 flags s =
      some (true, ((s.tempMapPage dir).tempMapPage (s.mem dir (getPageDirectoryIndex v))).tempSet
        (getPageTableIndex v) (andNot paddr PAGE_OFFSET_BITS ||| flags)) := by
  rw [mapPages, walk_present _ _ _ hd hne hp]
  rfl

/-- The page of `w` is one of the `count` pages from `v` on, which may wrap. -/
def InPages (v count w : Nat) : Prop := ∃ i < count, w / 4096 = (v + i * 4096) % 2 ^ 32 / 4096

theorem inPages_one {w : Nat} (hv : v < 2 ^ 32) : InPages v 1 w ↔ w / 4096 = v / 4096 := by
  constructor
  · rintro ⟨i, hi, h⟩
    obtain rfl : i = 0 := by omega
    rwa [Nat.zero_mul, Nat.add_zero, Nat.mod_eq_of_lt hv] at h
  · exact fun h => ⟨0, Nat.one_pos, by rwa [Nat.zero_mul, Nat.add_zero, Nat.mod_eq_of_lt hv]⟩

theorem inPages_succ {w : Nat} (hv : v < 2 ^ 32)
    (h : w / 4096 = v / 4096 ∨ InPages (add32 v PAGE_SIZE) count w) : InPages v (count + 1) w := by
  rcases h with h | ⟨i, hi, h⟩
  · exact ⟨0, by omega, by rw [h, Nat.zero_mul, Nat.add_zero, Nat.mod_eq_of_lt hv]⟩
  · refine ⟨i + 1, by omega, ?_⟩
    rw [h]
    unfold add32 PAGE_SIZE
    rw [Nat.mod_add_mod, Nat.add_mul, Nat.one_mul, Nat.add_right_comm, Nat.add_assoc]

/-- **What `map_pages` leaves alone**, whether it succeeds or not. -/
theorem mapPages_mapped {r : Bool × Machine} (hd : Directory A s dir) (hv : v < 2 ^ 32)
    (h : mapPages (A.alloc 1) dir v paddr count flags s = some r) :
    Mapped A s r.2 dir (InPages v count) := by
  induction count generalizing v paddr s with
  | zero =>
    obtain rfl := Option.some.inj h
    exact .refl hd _
  | succ count ih =>
    rw [mapPages] at h
    obtain ⟨⟨b, s₁⟩, hwalk, h⟩ := Option.bind_eq_some_iff.mp h
    have hm := walk_mapped hd hv hwalk
    cases b with
    | false =>
      obtain rfl := Option.some.inj h
      exact hm.mono fun w _ hw => inPages_succ hv (Or.inl hw)
    | true =>
      exact (hm.trans (ih hm.directory (add32_lt _ _) h)).mono fun w _ hw => inPages_succ hv hw

/-! ## What `map_pages` maps -/

variable {i j : Nat}

/-- The page `i` of a range, which may wrap. -/
def pageAt (v i : Nat) : Nat := (v + i * 4096) % 2 ^ 32

theorem pageAt_lt (v i : Nat) : pageAt v i < 2 ^ 32 := Nat.mod_lt _ (by decide)

theorem pageAt_zero (hv : v < 2 ^ 32) : pageAt v 0 = v := by
  unfold pageAt
  omega

theorem pageAt_succ (v i : Nat) : pageAt (add32 v PAGE_SIZE) i = pageAt v (i + 1) := by
  unfold pageAt add32 PAGE_SIZE
  omega

theorem pageAt_inj (hi : i < 2 ^ 20) (hj : j < 2 ^ 20)
    (h : pageAt v i / 4096 = pageAt v j / 4096) : i = j := by
  unfold pageAt at h
  omega

theorem not_inPages_succ (hv : v < 2 ^ 32) (hc : count < 2 ^ 20) :
    ¬ InPages (add32 v PAGE_SIZE) count v := by
  rintro ⟨i, hi, he⟩
  have := pageAt_inj (v := v) (i := 0) (j := i + 1) (by omega) (by omega) (by
    rw [pageAt_zero hv, ← pageAt_succ]
    exact he)
  omega

theorem entry_succ (paddr i : Nat) : andNot (add32 paddr PAGE_SIZE + i * 4096) PAGE_OFFSET_BITS =
    andNot (paddr + (i + 1) * 4096) PAGE_OFFSET_BITS := by
  rw [← andNot_mod _ (by decide), ← andNot_mod (paddr + (i + 1) * 4096) (by decide)]
  unfold add32 PAGE_SIZE
  rw [Nat.mod_add_mod]
  congr 2
  omega

/-- **Mapping a range**, page by page. -/
theorem mapPages_shows (hd : Directory A s dir) (hv : v < 2 ^ 32) (hc : count ≤ 2 ^ 20)
    (hw : ∀ i < count, ¬ SharesEntry s dir (pageAt v i) 1023)
    (h : mapPages (A.alloc 1) dir v paddr count flags s = some (true, s')) :
    ∀ i < count, s'.info dir (pageAt v i) =
      andNot (paddr + i * 4096) PAGE_OFFSET_BITS ||| flags := by
  induction count generalizing v paddr s with
  | zero => simp
  | succ count ih =>
    rw [mapPages] at h
    obtain ⟨⟨b, s₁⟩, hwalk, h⟩ := Option.bind_eq_some_iff.mp h
    obtain ⟨hb, -⟩ | ⟨hb, hm, -, hinfo⟩ := walk_cases hd hv hwalk
    · dsimp only at hb h
      rw [hb] at h
      simp at h
    dsimp only at hb h hm hinfo
    rw [hb, if_pos rfl] at h
    have hm' := mapPages_mapped hm.directory (add32_lt _ _) h
    intro i hi
    cases i with
    | zero =>
      have hw0 := hw 0 (by omega)
      rw [pageAt_zero hv] at hw0 ⊢
      rw [Nat.zero_mul, Nat.add_zero, hm'.info v hv (fun hs => hw0 ((hm.shares v 1023).mp hs))
        (not_inPages_succ hv (by omega)), hinfo v hv hw0 rfl]
    | succ i =>
      have := ih hm.directory (add32_lt _ _) (by omega) (fun i hi hs => by
        rw [pageAt_succ, hm.shares] at hs
        exact hw (i + 1) (by omega) hs) h i (by omega)
      rw [pageAt_succ] at this
      rw [this, entry_succ]

/-! ## The frames of others -/

/-- The frame `q` is in use, but not by the directory `dir` or the window. -/
structure Apart (A : PhysAllocator) (s : Machine) (dir q : Nat) : Prop where
  frame : Frame q
  not_owned : ¬ Owned A s dir q
  ne_window : q ≠ s.kernelPageTable

variable {p q : Nat}

theorem Apart.not_free (h : Apart A s dir q) : ¬ A.Free s q := fun hf => h.not_owned (Or.inl hf)

theorem Mapped.apart (h : Mapped A s s' dir R) (hq : Apart A s dir q) :
    Apart A s' dir q ∧ ∀ j, s'.mem q j = s.mem q j := by
  refine ⟨⟨hq.frame, fun ho => hq.not_owned (h.owned q ho), ?_⟩, fun j => ?_⟩
  · rw [h.kept.kernelPageTable]
    exact hq.ne_window
  · exact h.kept.mem q j hq.not_owned fun hw => hq.ne_window hw.1

theorem apart_alloc_range (hd : Directory A s dir) (hc : 1 ≤ count)
    (h : A.alloc count s = some (p, s')) (hp : p ≠ NIL) :
    (⟨p, count⟩ : Range).Valid ∧
      (∀ q ∈ (⟨p, count⟩ : Range).pages, A.Free s q ∧ Apart A s' dir q) ∧
      ∀ q, A.Free s' q ↔ A.Free s q ∧ q ∉ (⟨p, count⟩ : Range).pages := by
  obtain ⟨-, hk, ⟨hnil, -⟩ | ⟨hv, hwas, hnow⟩⟩ := A.alloc_spec hd.ok hc h
  · exact absurd hnil hp
  have hdir : ∀ i, s'.mem dir i = s.mem dir i := fun i =>
    hk.mem dir i hd.dir_used fun h => hd.dir_ne h.1
  refine ⟨hv, fun q hq => ?_, hnow⟩
  have hfree := hwas q hq
  refine ⟨hfree, A.frame hd.ok hfree, ?_, ?_⟩
  · rintro (h | rfl | ⟨i, hi, hpres, rfl⟩)
    · exact ((hnow q).mp h).2 hq
    · exact hd.dir_used hfree
    · rw [hdir] at hpres hfree
      exact hd.table_used i hi hpres hfree
  · rintro rfl
    rw [hk.kernelPageTable] at hfree
    exact hd.window_used hfree

theorem apart_alloc (hd : Directory A s dir) (h : A.alloc 1 s = some (p, s')) (hp : p ≠ NIL) :
    A.Free s p ∧ Apart A s' dir p := by
  obtain ⟨-, h, -⟩ := apart_alloc_range hd (Nat.le_refl 1) h hp
  exact h p (base_mem_pages Nat.one_pos)

theorem Directory.store_apart {P : Nat → Prop} (hd : Directory A s dir) (ht : Touch P s s')
    (hP : ∀ q, P q → Apart A s dir q) :
    Directory A s' dir ∧ (∀ q, A.Free s' q ↔ A.Free s q) ∧
      (∀ q, Apart A s' dir q ↔ Apart A s dir q) ∧ ∀ i, s'.mem dir i = s.mem dir i := by
  have hused : ∀ q, P q → ¬ A.Free s q := fun q hq => (hP q hq).not_free
  have hdir : ¬ P dir := fun h => (hP dir h).not_owned (Or.inr (Or.inl rfl))
  obtain ⟨hd', hmem⟩ := hd.touch ht hused hdir
  obtain ⟨-, hfree⟩ := A.touch hd.ok ht hused
  refine ⟨hd', hfree, fun q => ?_, hmem⟩
  have howned : Owned A s' dir q ↔ Owned A s dir q := by
    unfold Owned IsTable
    simp only [hfree, hmem]
  constructor
  · rintro ⟨h1, h2, h3⟩
    exact ⟨h1, fun h => h2 (howned.mpr h), by rwa [← ht.kernelPageTable]⟩
  · rintro ⟨h1, h2, h3⟩
    exact ⟨h1, fun h => h2 (howned.mp h), by rwa [ht.kernelPageTable]⟩

theorem Directory.free_apart {r : Range} (hd : Directory A s dir) (hv : r.Valid)
    (hr : ∀ p ∈ r.pages, Apart A s dir p) (h : A.free r.base r.count s = some s') :
    Directory A s' dir ∧ (∀ q, A.Free s' q ↔ A.Free s q ∨ q ∈ r.pages) ∧
      (∀ i, s'.mem dir i = s.mem dir i) ∧ s'.kernelPageTable = s.kernelPageTable ∧
      ∀ w, ¬ SharesEntry s dir w 1023 → s'.info dir w = s.info dir w := by
  obtain ⟨hok, hk, hfree⟩ := A.free_spec hd.ok hv (fun p hp => (hr p hp).not_free) h
  have hused : ∀ q, ¬ A.Free s q → q = dir ∨ IsTable s dir q → ¬ (A.Free s q ∨ q ∈ r.pages) := by
    rintro q hq ho (hf | hp)
    · exact hq hf
    · exact (hr q hp).not_owned (Or.inr ho)
  have hdir : ∀ i, s'.mem dir i = s.mem dir i := fun i =>
    hk.mem dir i (hused dir hd.dir_used (Or.inl rfl)) fun h => hd.dir_ne h.1
  refine ⟨⟨hok, hd.frame, ?_, ?_, ?_, ?_, ?_⟩, hfree, hdir, hk.kernelPageTable, ?_⟩
  · unfold DistinctTables
    simp only [hdir]
    exact hd.tables
  · rw [hfree]
    exact hused dir hd.dir_used (Or.inl rfl)
  · rw [hk.kernelPageTable, hfree]
    rintro (hf | hp)
    · exact hd.window_used hf
    · exact (hr _ hp).ne_window rfl
  · simp only [hdir, hfree]
    exact fun i hi hp => hused _ (hd.table_used i hi hp) (Or.inr ⟨i, hi, hp, rfl⟩)
  · rw [hk.kernelPageTable]
    exact hd.dir_ne
  · intro w hs
    unfold Machine.info
    dsimp only
    rw [hdir]
    split_ifs with hp
    · have hi := dirIndex_lt w
      exact hk.mem _ _ (hused _ (hd.table_used _ hi hp) (Or.inr ⟨_, hi, hp, rfl⟩))
        fun h => hs ⟨hp, h.1, h.2⟩
    · rfl

/-- Distinct frames that belong to somebody else than the directory `dir`. -/
structure Held (A : PhysAllocator) (s : Machine) (dir : Nat) (qs : List Nat) : Prop where
  directory : Directory A s dir
  apart : ∀ q ∈ qs, Apart A s dir q
  nodup : qs.Nodup

variable {qs : List Nat}

/-- **Operations on the tables of `dir` leave held frames alone.** -/
theorem Held.mapped (h : Held A s dir qs) (hm : Mapped A s s' dir R) :
    Held A s' dir qs ∧ ∀ q ∈ qs, ∀ j, s'.mem q j = s.mem q j :=
  ⟨⟨hm.directory, fun q hq => (hm.apart (h.apart q hq)).1, h.nodup⟩,
    fun q hq => (hm.apart (h.apart q hq)).2⟩

theorem Held.alloc (h : Held A s dir qs) (ha : A.alloc 1 s = some (p, s')) (hp : p ≠ NIL) :
    Held A s' dir (p :: qs) ∧ ∀ q ∈ qs, ∀ j, s'.mem q j = s.mem q j := by
  obtain ⟨hfree, hap⟩ := apart_alloc h.directory ha hp
  obtain ⟨h', hmem⟩ := h.mapped (.alloc h.directory (Nat.le_refl 1) ha)
  refine ⟨⟨h'.directory, fun q hq => ?_, List.nodup_cons.mpr ⟨fun hpq => ?_, h.nodup⟩⟩, hmem⟩
  · rcases List.mem_cons.mp hq with rfl | hq
    · exact hap
    · exact h'.apart q hq
  · exact (h.apart p hpq).not_free hfree

theorem Held.store (h : Held A s dir qs) (ht : Touch (· = p) s s') (hp : p ∈ qs) :
    Held A s' dir qs ∧ (∀ q ∈ qs, q ≠ p → ∀ j, s'.mem q j = s.mem q j) ∧
      ∀ i, s'.mem dir i = s.mem dir i := by
  obtain ⟨hd, -, hap, hmem⟩ := h.directory.store_apart ht fun q hq => hq ▸ h.apart p hp
  refine ⟨⟨hd, fun q hq => (hap q).mpr (h.apart q hq), h.nodup⟩, fun q hq hne j => ?_, hmem⟩
  exact ht.mem q j hne fun hw => (h.apart q hq).ne_window hw.1

end Machine

end C4os
