import C4os.Memory.Backed
import C4os.Memory.Separate

/-!
# Requests of a process at a given address

* `findPlace_of_free`: a free range is kept.
* `Supplied`: the frames that a request asks for are there; `allocVirtPages_hint`: how it ends then.
* `HoldsPages`: the kernel's table holds pages; `MoveReady`: the block table of a process may move;
  `growProcess_leaves`.
* **`SeparateSpaces.hint`**: a request at a free range leaves the other processes alone.
-/

namespace C4os

open Machine Pages Word

variable {A : PhysAllocator} {sp : Space} {as : AddressSpace} {st st' : VirtState} {P : Nat → Prop}
  {v count flags i j k p r f : Nat} {m m' m₁ m₂ : Machine} {ts : List Nat} {b : VirtMemoryBlock}

theorem VirtState.kernel_setSpace (st : VirtState) (as : AddressSpace) :
    (st.setSpace (.process p) as).spaces .kernel = st.spaces .kernel :=
  spaces_setSpace_of_ne _ _ Space.noConfusion

theorem VirtState.kernel_locked (st : VirtState) :
    (st.locked (.process p)).spaces .kernel = st.spaces .kernel := by
  unfold locked
  rw [kernel_setSpace]

theorem VirtState.process_setSpace (st : VirtState) (as : AddressSpace) {q : Nat} (h : q ≠ p) :
    (st.setSpace (.process p) as).spaces (.process q) = st.spaces (.process q) :=
  spaces_setSpace_of_ne _ _ fun e => h (Space.process.inj e)

/-! ## The place -/

theorem searchHint_free (h : ∀ j, i ≤ j → j < i + k →
      ¬ isBlocksOverlapped (as.blocks j).base (as.blocks j).length v (pageShift count)) :
    (searchHint as v count k i).1 = v := by
  induction k generalizing i with
  | zero => rfl
  | succ k ih =>
    rw [searchHint, if_neg (h i (Nat.le_refl i) (by omega))]
    split_ifs
    · rfl
    · exact ih fun j hj hk => h j (by omega) (by omega)

/-- **A free range is kept.** -/
theorem findPlace_of_free (hend : as.endAddr + 1 < 2 ^ 32) (hs : Sorted as (blockList as))
    (hv : v ≠ 0) (hc : 1 ≤ count) (h : HintFree as v count) : (findPlace as v count).1 = v := by
  obtain ⟨hstart, hlt, hfree⟩ := h
  unfold findPlace
  rw [if_neg hv, pageShift_eq (by omega), add32_eq (by omega), if_pos ⟨hstart, hlt⟩]
  apply searchHint_free
  intro j _ hj
  have hmem : as.blocks j ∈ blockList as := blocks_mem (by omega)
  have hle := hs.le_end _ hmem
  have hpos := hs.pos _ hmem
  have hdis := hfree _ hmem
  rw [pageShift_eq (by omega), isBlocksOverlapped_iff (by omega) (by omega)]
  omega

/-! ## The request -/

/-- The frames that a request at the address `v` asks for are there: those for its pages, those for
its page tables, those for a larger block table and those for its page tables. -/
structure Supplied (A : PhysAllocator) (sp : Space) (v count flags : Nat) (st : VirtState) : Prop where
  frames : ∀ m, A.alloc count st.machine ≠ some (NIL, m)
  tables : ∀ f m r, A.alloc count st.machine = some (f, m) →
    mapPages (A.alloc 1) (st.spaces sp).pageDir v f count flags m = some r → r.1 = true
  growth : ¬ Stays sp (st.spaces sp) → ∀ f m m' r, A.alloc count st.machine = some (f, m) →
    mapPages (A.alloc 1) (st.spaces sp).pageDir v f count flags m = some (true, m') →
    growProcess A sp ((st.locked sp).setMachine m') = some r → r.1 = true
  table : ¬ Stays sp (st.spaces sp) → ∀ m, AtGrowth A sp v NIL count flags st m →
    ∀ m', A.alloc (st.spaces sp).newTablePages m ≠ some (NIL, m')

/-- **How a request at a free range ends**, when the frames for it are there. -/
theorem allocVirtPages_hint (hend : (st.spaces sp).endAddr + 1 < 2 ^ 32)
    (hs : Sorted (st.spaces sp) (blockList (st.spaces sp))) (hv : v ≠ 0) (hc : 1 ≤ count)
    (hfree : HintFree (st.spaces sp) v count) (hsup : Supplied A sp v count flags st)
    (hsp : sp ≠ .kernel)
    (hcall : allocVirtPages A sp v NIL count flags st = some (r, st')) :
    r = v ∧ ∃ j f m₁ m₂ st₁, A.alloc count st.machine = some (f, m₁) ∧
      mapPages (A.alloc 1) (st.spaces sp).pageDir v f count flags m₁ = some (true, m₂) ∧
      recordBlock (growTable A sp) sp j ⟨.memory, v, pageShift count⟩
        ((st.locked sp).setMachine m₂) = some (true, st₁) ∧ st' = st₁.mutexRelease sp := by
  obtain ⟨st₁, hcase, rfl⟩ := allocVirtPages_end hcall
  have hplace : (findPlace ((st.locked sp).spaces sp) v count).1 = v := by
    rw [VirtState.spaces_locked]
    exact findPlace_of_free hend ⟨hs.pairwise, hs.pos, hs.start_le, hs.le_end⟩ hv hc hfree
  generalize hq : (r, st₁) = q at hcase
  cases hcase with
  | noPlace place => exact absurd (hplace.symm.trans place) hv
  | noFrames _ _ frames => exact absurd frames (hsup.frames _)
  | recorded _ frames _ mapped entry =>
    obtain ⟨rfl, rfl⟩ := Prod.mk.inj hq
    obtain ⟨halloc, rfl⟩ := takeFrames_alloc frames
    rw [hplace] at mapped entry ⊢
    rw [VirtState.spaces_locked] at mapped
    exact ⟨rfl, _, _, _, _, _, halloc, mapped, entry, rfl⟩
  | notRecorded _ frames _ mapped entry =>
    obtain ⟨halloc, rfl⟩ := takeFrames_alloc frames
    rw [hplace, VirtState.spaces_locked] at mapped
    -- an entry is refused when the table moves only
    obtain ⟨hfull, hgrow⟩ := recordBlock_failed entry
    rw [VirtState.spaces_setMachine, VirtState.spaces_locked] at hfull
    rw [growTable, if_neg hsp] at hgrow
    exact absurd (hsup.growth (fun h => h.elim hsp fun h => h hfull) _ _ _ _ halloc mapped hgrow)
      Bool.noConfusion
  | notMapped _ frames _ mapped =>
    obtain ⟨halloc, rfl⟩ := takeFrames_alloc frames
    rw [hplace, VirtState.spaces_locked] at mapped
    exact absurd (hsup.tables _ _ _ halloc mapped) Bool.noConfusion

/-! ## The table of the kernel -/

/-- The table of the kernel is right, and holds the pages `ts`. -/
def HoldsPages (as : AddressSpace) (ts : List Nat) : Prop :=
  ∃ live, VirtInv .kernel as live ∧ ∀ t ∈ ts, (⟨t, 1⟩ : Range) ∈ live

theorem HoldsPages.request (h : HoldsPages (st.spaces .kernel) ts) (hc : 1 ≤ count)
    (hc32 : count * 4096 < 2 ^ 32)
    (hreq : RequestOk (st.spaces .kernel) (growRoom .kernel (st.spaces .kernel)) 0 count)
    (hcall : allocVirtPages A .kernel 0 NIL count flags st = some (r, st')) :
    HoldsPages (st'.spaces .kernel) ts := by
  obtain ⟨live, hinv, hmem⟩ := h
  obtain ⟨hinv', -⟩ | ⟨-, hinv'⟩ := hinv.request hc hc32 hreq hcall
  · exact ⟨live, hinv', hmem⟩
  · exact ⟨_, hinv', fun t ht => List.mem_cons_of_mem _ (hmem t ht)⟩

theorem HoldsPages.page (h : HoldsPages (st.spaces .kernel) ts)
    (hreq : RequestOk (st.spaces .kernel) (growRoom .kernel (st.spaces .kernel)) 0 1)
    (hcall : allocVirtPages A .kernel 0 NIL 1 flags st = some (r, st'))
    (hm : (st'.spaces .kernel).blockCount = (st.spaces .kernel).blockCount + 1) :
    HoldsPages (st'.spaces .kernel) (r :: ts) ∧ r ∉ ts := by
  obtain ⟨live, hinv, hmem⟩ := h
  obtain ⟨-, hcount, -⟩ | ⟨-, hinv'⟩ := hinv.request (Nat.le_refl 1) (by decide) hreq hcall
  · omega
  · refine ⟨⟨_, hinv', fun t ht => ?_⟩, fun hr => ?_⟩
    · rcases List.mem_cons.mp ht with rfl | ht
      · exact List.mem_cons_self
      · exact List.mem_cons_of_mem _ (hmem t ht)
    · have hdis := (List.pairwise_cons.mp hinv'.disjoint).1 _ (hmem r hr)
      unfold Range.Disjoint at hdis
      dsimp only at hdis
      omega

theorem HoldsPages.free {q : Bool × VirtState} (h : HoldsPages (st.spaces .kernel) ts)
    (hres : ∀ b ∈ blockList (st.spaces .kernel), b.type = .reserved →
      ¬ (b.base ≤ v ∧ v < b.base + b.length))
    (hts : ∀ t ∈ ts, ¬ (t ≤ v ∧ v < t + 4096)) (hcall : freeVirtPages A .kernel v st = some q) :
    HoldsPages (q.2.spaces .kernel) ts := by
  obtain ⟨live, hinv, hmem⟩ := h
  have hstep : VirtStep A .kernel ⟨st, live⟩ (.free v)
      ⟨q.2, if q.1 then live.filter fun r => ¬ r.Contains v else live⟩ := ⟨q.1, q.2, hcall, rfl⟩
  refine ⟨_, VirtInv.free hinv hstep hres, fun t ht => ?_⟩
  dsimp only
  split_ifs
  · refine List.mem_filter.mpr ⟨hmem t ht, ?_⟩
    have hno : ¬ (⟨t, 1⟩ : Range).Contains v := by
      show ¬ (t ≤ v ∧ v < t + 1 * 4096)
      rw [Nat.one_mul]
      exact hts t ht
    exact decide_eq_true hno
  · exact hmem t ht

/-! ## The table of a process moves -/

/-- The block table of the process `p` may move, in the kernel's address space with the pages `ts`:
the kernel's request finds a free place, and the frames of the old table belong to nobody else. -/
structure MoveReady (A : PhysAllocator) (P : Nat → Prop) (p : Nat) (ts : List Nat) (st : VirtState) :
    Prop where
  move : ∀ q, P q → MoveOk A (st.spaces .kernel) st.machine (st.spaces (.process q)).pageDir
    (st.spaces (.process p)).blocksAddr (st.spaces (.process p)).newTablePages
  fits : (st.spaces (.process p)).TableFits
  request : RequestOk (st.spaces .kernel) (growRoom .kernel (st.spaces .kernel)) 0
    (st.spaces (.process p)).newTablePages
  reserved : ∀ b, b ∈ blockList (st.spaces .kernel) ∨ GrowsKernel .kernel (st.spaces .kernel) ∧
      b = (st.spaces .kernel).growLast ((st.spaces .kernel).blockCount - 1) →
    b.type = .reserved → ¬ (b.base ≤ (st.spaces (.process p)).blocksAddr ∧
      (st.spaces (.process p)).blocksAddr < b.base + b.length)
  pages : ∀ t ∈ ts, ¬ (t ≤ (st.spaces (.process p)).blocksAddr ∧
    (st.spaces (.process p)).blocksAddr < t + 4096)

theorem MoveReady.congr (h : MoveReady A P p ts st)
    (hu : Unseen A st.machine st'.machine (st.spaces .kernel).pageDir)
    (hap : ∀ q, P q → ∀ x, Machine.Apart A st.machine (st.spaces (.process q)).pageDir x →
      Machine.Apart A st'.machine (st.spaces (.process q)).pageDir x)
    (hk : st'.spaces .kernel = st.spaces .kernel)
    (hdir : ∀ q, (st'.spaces (.process q)).pageDir = (st.spaces (.process q)).pageDir)
    (haddr : (st'.spaces (.process p)).blocksAddr = (st.spaces (.process p)).blocksAddr)
    (hsize : (st'.spaces (.process p)).blockTableSize = (st.spaces (.process p)).blockTableSize) :
    MoveReady A P p ts st' := by
  have hpages : (st'.spaces (.process p)).newTablePages = (st.spaces (.process p)).newTablePages := by
    unfold AddressSpace.newTablePages
    rw [hsize]
  refine ⟨fun q hq => ?_, ?_, ?_, ?_, ?_⟩
  · rw [hk, hdir, haddr, hpages]
    exact (h.move q hq).unseen hu (hap q hq)
  · unfold AddressSpace.TableFits
    rw [hsize]
    exact h.fits
  · rw [hk, hpages]
    exact h.request
  · rw [hk, haddr]
    exact h.reserved
  · rw [haddr]
    exact h.pages

/-- **The move of the table of `p`** leaves the other processes alone, and keeps the pages of the
kernel. -/
theorem growProcess_leaves {r : Bool × VirtState} (h : SeparateSpaces A st P) (hp : P p)
    (hm : MoveReady A P p ts st)
    (hframes : TableFrames A (st.spaces .kernel) (st.spaces (.process p)).newTablePages st.machine)
    (hgrow : growProcess A (.process p) st = some r) (hr : r.1 = true) :
    Leaves A P (· = p) st r.2 ∧
      (HoldsPages (st.spaces .kernel) ts → HoldsPages (r.2.spaces .kernel) ts) := by
  have hserves := fun q hq => growProcess_serves h.kernel (hm.move q hq) hm.fits
    hframes hgrow hr
  obtain ⟨a, st₁, hcall, ⟨-, rfl⟩ | ⟨-, m, ⟨ok, st₂⟩, -, hfree, rfl⟩⟩ := growProcess_cases hgrow
  · exact absurd hr Bool.noConfusion
  dsimp only at hserves hfree ⊢
  have hothers : ∀ q, st₂.spaces (.process q) = st.spaces (.process q) := fun q =>
    (freeVirtPages_others hfree _ Space.noConfusion).trans
      (allocVirt_others (fun _ _ => growKernel_others) hcall _ Space.noConfusion)
  obtain ⟨st₃, hend, rfl⟩ := allocVirtPages_end hcall
  have hdir : (st₂.spaces .kernel).pageDir = (st.spaces .kernel).pageDir := by
    have hd := hend.pageDir
    rw [VirtState.spaces_locked] at hd
    obtain ⟨-, ⟨-, he⟩ | ⟨-, i, -, -, -, m, -, he⟩⟩ := freeVirtPages_cases rfl hfree
    all_goals
      dsimp only at he
      rw [he, VirtState.spaces_setSpace, VirtState.spaces_setMachine, VirtState.spaces_mutexRelease]
      exact hd
  have hb : ∀ q, SameBounds (st.spaces (.process q)) ((st₂.setSpace (.process p)
      { st₂.spaces (.process p) with blocksAddr := a }).spaces (.process q)) := fun q => by
    by_cases hqp : q = p
    · subst hqp
      rw [VirtState.spaces_setSpace, hothers]
      exact ⟨rfl, rfl, rfl⟩
    · rw [VirtState.process_setSpace _ _ hqp, hothers]
      exact .refl _
  obtain ⟨hsep, hinfo⟩ := Separate.serves h (Serves.all ⟨p, hp⟩ hserves) fun q hq x hx => hx q hq
  refine ⟨⟨.of_bounds hsep (by rw [VirtState.kernel_setSpace]; exact hdir) hb, hb, fun q hq => ?_,
    fun q hq _ => hinfo q hq⟩, fun hpages => ?_⟩
  · rw [VirtState.process_setSpace _ _ hq, hothers]
  · rw [VirtState.kernel_setSpace]
    refine HoldsPages.free ?_ ?_ hm.pages hfree
    · rw [VirtState.spaces_setMachine]
      exact hpages.request (hm.move p hp).pos (newTablePages_lt _) hm.request hcall
    · intro b hb hres
      rw [VirtState.spaces_setMachine, VirtState.spaces_mutexRelease] at hb
      have hcase := hend.of_mem hb
      rw [VirtState.spaces_locked] at hcase
      rcases hcase with hb | hb | ⟨-, -, -, -, htype⟩
      · exact hm.reserved b (Or.inl hb) hres
      · exact hm.reserved b (Or.inr hb) hres
      · exact absurd hres htype

/-! ## The request and the other processes -/

theorem SeparateSpaces.setSpace (h : SeparateSpaces A st P)
    (hb : SameBounds (st.spaces (.process p)) as) :
    Leaves A P (· = p) st (st.setSpace (.process p) as) := by
  have hbounds : ∀ q, SameBounds (st.spaces (.process q))
      ((st.setSpace (.process p) as).spaces (.process q)) := fun q => by
    by_cases hqp : q = p
    · subst hqp
      rwa [VirtState.spaces_setSpace]
    · rw [VirtState.process_setSpace _ _ hqp]
      exact .refl _
  exact ⟨.of_bounds h (by rw [VirtState.kernel_setSpace]) hbounds, hbounds,
    fun q hq => VirtState.process_setSpace _ _ hq, fun _ _ _ _ _ => rfl⟩

theorem SeparateSpaces.mapped {paddr : Nat} {ok : Bool} (h : SeparateSpaces A st P) (hp : P p)
    (hv : v < 2 ^ 32) (hc : 1 ≤ count)
    (hR : ∀ i < count, InSpace (st.spaces (.process p)) (pageAt v i))
    (halloc : A.alloc count st.machine = some (f, m₁))
    (hmap : mapPages (A.alloc 1) (st.spaces (.process p)).pageDir v paddr count flags m₁ =
      some (ok, m₂)) :
    Leaves A P (· = p) st (st.setMachine m₂) ∧
      Unseen A st.machine m₂ (st.spaces .kernel).pageDir ∧
      ∀ q, P q → ∀ x, Machine.Apart A st.machine (st.spaces (.process q)).pageDir x →
        Machine.Apart A m₂ (st.spaces (.process q)).pageDir x := by
  have hk : Mapped A st.machine m₁ (st.spaces .kernel).pageDir fun _ => False :=
    .alloc h.kernel hc halloc
  obtain ⟨hsep₁, hinfo₁⟩ := Separate.serves (Q := fun _ => False) h hk.serves fun _ _ _ h => h.elim
  obtain ⟨hsep₂, hinfo₂⟩ := hsep₁.mapPages hp hv hR hmap
  refine ⟨⟨hsep₂, fun _ => .refl _, fun _ _ => rfl, fun q hq hqp w hw => ?_⟩, ?_,
    fun q hq x hx => ?_⟩
  · exact (hinfo₂ q hq hqp w hw).trans (hinfo₁ q hq w hw)
  · exact hk.unseen.trans ((hsep₁.foreign p hp).mapPages hv hR hmap).1
  · have hx₁ := ((Mapped.alloc (h.foreign q hq).own hc halloc).apart hx).1
    by_cases hqp : q = p
    · subst hqp
      exact ((mapPages_mapped (hsep₁.foreign q hq).own hv hmap).apart hx₁).1
    · exact ((hsep₁.others p q hp hq (Ne.symm hqp)).mapPages hv hR hmap).1.apart x hx₁

theorem SeparateSpaces.record (h : SeparateSpaces A st P) (hp : P p)
    (hmove : ¬ Stays (.process p) (st.spaces (.process p)) → MoveReady A P p ts st)
    (hframes : ¬ Stays (.process p) (st.spaces (.process p)) →
      TableFrames A (st.spaces .kernel) (st.spaces (.process p)).newTablePages st.machine)
    (hentry : recordBlock (growTable A (.process p)) (.process p) j b st = some (true, st')) :
    Leaves A P (· = p) st st' ∧
      (HoldsPages (st.spaces .kernel) ts → HoldsPages (st'.spaces .kernel) ts) := by
  rcases recordBlock_cases hentry with ⟨-, rfl⟩ | ⟨hfull, st₁, hgrow, rfl⟩
  · rw [VirtState.kernel_setSpace]
    exact ⟨h.setSpace ⟨rfl, rfl, rfl⟩, id⟩
  · rw [growTable, if_neg Space.noConfusion] at hgrow
    have hmoves : ¬ Stays (.process p) (st.spaces (.process p)) := fun hs =>
      hs.elim Space.noConfusion fun hs => hs hfull
    obtain ⟨hleaves, hpages⟩ := growProcess_leaves h hp (hmove hmoves) (hframes hmoves) hgrow rfl
    rw [VirtState.kernel_setSpace]
    exact ⟨hleaves.trans (hleaves.separate.setSpace ⟨rfl, rfl, rfl⟩), hpages⟩

theorem HintFree.inSpace (h : HintFree as v count) (hend : as.endAddr + 1 < 2 ^ 32)
    (hi : i < count) : InSpace as (pageAt v i) := by
  obtain ⟨hstart, hlt, -⟩ := h
  unfold InSpace pageAt
  omega

theorem SeparateSpaces.virtRequest (h : SeparateSpaces A st P) (hp : P p)
    (hend : (st.spaces (.process p)).endAddr + 1 < 2 ^ 32)
    (hs : Sorted (st.spaces (.process p)) (blockList (st.spaces (.process p)))) (hv : v ≠ 0)
    (hc : 1 ≤ count) (hf : flags < 4096) (hfree : HintFree (st.spaces (.process p)) v count) :
    VirtRequest A (.process p) st v count flags := by
  have hlt := hfree.2.1
  refine ⟨(h.foreign p hp).own, hs, hend, by omega, hc, hf, fun w hw hstops i hi k _ hshare => ?_⟩
  unfold Stops at hstops
  rw [if_neg hv] at hstops
  rw [hstops.1] at hshare
  exact ((h.foreign p hp).tables _ (hfree.inSpace hend hi) hshare.1).ne_window hshare.2.1

theorem HintFree.place {w : Nat} (h : HintFree as v count) (hend : as.endAddr + 1 < 2 ^ 32)
    (hv : v ≠ 0) (hw : Place as v count w) : InSpace as w := by
  obtain ⟨u, -, hstops, i, hi, hpage⟩ := hw
  unfold Stops at hstops
  rw [if_neg hv] at hstops
  rw [hstops.1] at hpage
  have hin := h.inSpace hend hi
  unfold InSpace pageAt at hin
  unfold InSpace
  rwa [hpage]

/-- **A request of a process at a free range**, when the frames for it are there, is backed, and leaves
the other processes alone. -/
theorem SeparateSpaces.hint (h : SeparateSpaces A st P) (hp : P p)
    (hend : (st.spaces (.process p)).endAddr + 1 < 2 ^ 32)
    (hs : Sorted (st.spaces (.process p)) (blockList (st.spaces (.process p)))) (hv : v ≠ 0)
    (hc : 1 ≤ count) (hf : flags < 4096) (hpres : flags &&& PAGE_PRESENT ≠ 0)
    (hfree : HintFree (st.spaces (.process p)) v count)
    (hsup : Supplied A (.process p) v count flags st)
    (hmove : ¬ Stays (.process p) (st.spaces (.process p)) → MoveReady A P p ts st)
    (hcall : allocVirtPages A (.process p) v NIL count flags st = some (r, st')) :
    r = v ∧ Leaves A P (· = p) st st' ∧ Backed st' (.process p) NIL count v ∧
      (HoldsPages (st.spaces .kernel) ts → HoldsPages (st'.spaces .kernel) ts) := by
  obtain ⟨rfl, j, f, m₁, m₂, st₁, halloc, hmap, hentry, rfl⟩ :=
    allocVirtPages_hint hend hs hv hc hfree hsup Space.noConfusion hcall
  have hlt := hfree.2.1
  obtain ⟨hmapped, hunseen, hapart⟩ := h.mapped hp (by omega) hc
    (fun i hi => hfree.inSpace hend hi) halloc hmap
  -- the mutex is taken, the entry recorded, the mutex released
  have hlocked : Leaves A P (· = p) st ((st.locked (.process p)).setMachine m₂) :=
    hmapped.trans (hmapped.separate.setSpace ⟨rfl, rfl, rfl⟩)
  have hlock : ((st.locked (.process p)).setMachine m₂).spaces (.process p) =
      { st.spaces (.process p) with mutex := true } := VirtState.spaces_locked
  have hlockKernel : ((st.locked (.process p)).setMachine m₂).spaces .kernel =
      st.spaces .kernel := by
    rw [VirtState.spaces_setMachine, VirtState.kernel_locked]
  -- the table moves behind the request's own frames and page tables
  have hgrowth : AtGrowth A (.process p) r NIL count flags st m₂ := by
    refine ⟨f, .memory, m₁, ?_, ?_⟩
    · unfold takeFrames
      rw [if_pos rfl, halloc]
      rfl
    · rw [findPlace_of_free hend hs hv hc hfree]
      exact hmap
  obtain ⟨hrecord, hpages⟩ := hlocked.separate.record hp (by
    intro hstays
    rw [hlock] at hstays
    refine (hmove hstays).congr hunseen hapart hlockKernel (fun q => (hlocked.bounds q).1) ?_ ?_
    · rw [hlock]
    · rw [hlock]) (by
    intro hstays
    rw [hlock] at hstays
    rw [hlock]
    exact Or.inl (hsup.table hstays m₂ hgrowth)) hentry
  rw [hlockKernel] at hpages
  refine ⟨rfl, hlocked.trans (hrecord.trans (hrecord.separate.setSpace ⟨rfl, rfl, rfl⟩)), ?_, ?_⟩
  · refine (h.virtRequest hp hend hs hv hc hf hfree).backed hpres ⟨fun _ => hsup.frames, by omega,
      fun hg => absurd hg.1 Space.noConfusion, fun hstays => ?_⟩ hcall hv
    exact ⟨(hmove hstays).move p hp, (h.foreign p hp).mono fun w => hfree.place hend hv,
      (hmove hstays).fits, fun m hm => Or.inl (hsup.table hstays m hm)⟩
  · unfold VirtState.mutexRelease
    rw [VirtState.kernel_setSpace]
    exact hpages

end C4os
