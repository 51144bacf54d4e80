import C4os.Memory.VirtMapped

/-!
# Which frames are mapped

* `InUse A s dir`: the present pages of `dir` translate to frames that are not free.
* `Mapping A s dir r v i k`: the frames `r` are mapped at the pages `i` to `k - 1` from `v` on, at
  most.
* **`inUse_of_run`**: runs whose calls free no block; `freed_page_present`: one that frees a page.
-/

namespace C4os

open Linked Machine Pages Word Transition

variable {A : PhysAllocator} {s s' : Machine} {dir v i j k n paddr flags : Nat} {r : Range}

/-- The present pages of `dir` translate to frames that are not free. -/
structure InUse (A : PhysAllocator) (s : Machine) (dir : Nat) : Prop where
  directory : Directory A s dir
  unshared : ∀ w, ¬ SharesEntry s dir w 1023
  used : ∀ w < 2 ^ 32, Present (s.info dir w) → ¬ A.Free s (frameOf (s.info dir w))

/-- The page of `w` is one of the pages `i` to `k - 1` from `v` on. -/
def InPart (v i k w : Nat) : Prop :=
  ∃ j, i ≤ j ∧ j < k ∧ w / 4096 = (v + j * 4096) % 2 ^ 32 / 4096

/-- The frames `r` belong to a range of pages from `v` on. They are mapped at the pages `i` to
`k - 1` of it at most, whose page tables are there. -/
structure Mapping (A : PhysAllocator) (s : Machine) (dir : Nat) (r : Range) (v i k : Nat) : Prop
    extends InUse A s dir where
  valid : r.Valid
  taken : ∀ p ∈ r.pages, Apart A s dir p
  tables : ∀ j, i ≤ j → j < k →
    Present (s.mem dir (getPageDirectoryIndex ((v + j * 4096) % 2 ^ 32)))
  only : ∀ w < 2 ^ 32, Present (s.info dir w) → frameOf (s.info dir w) ∈ r.pages → InPart v i k w

/-! ## Steps that change no entry -/

theorem InUse.mapped (h : InUse A s dir) (hm : Mapped A s s' dir fun _ => False) :
    InUse A s' dir := by
  have hinfo : ∀ w < 2 ^ 32, s'.info dir w = s.info dir w := fun w hw =>
    hm.info w hw (h.unshared w) id
  refine ⟨hm.directory, fun w hs => h.unshared w ((hm.shares w 1023).mp hs), fun w hw hp hf => ?_⟩
  rw [hinfo w hw] at hp hf
  exact h.used w hw hp (hm.free _ hf)

theorem Mapping.mapped (h : Mapping A s dir r v i k) (hm : Mapped A s s' dir fun _ => False) :
    Mapping A s' dir r v i k := by
  refine ⟨h.toInUse.mapped hm, h.valid, fun p hp => (hm.apart (h.taken p hp)).1, fun j hi hj => ?_,
    fun w hw hp hr => ?_⟩
  · rw [hm.old _ (dirIndex_lt _) (h.tables j hi hj)]
    exact h.tables j hi hj
  · rw [hm.info w hw (h.unshared w) id] at hp hr
    exact h.only w hw hp hr

theorem InUse.alloc {count p : Nat} (h : InUse A s dir) (hc : 1 ≤ count)
    (ha : A.alloc count s = some (p, s')) (hp : p ≠ NIL) (v : Nat) :
    Mapping A s' dir ⟨p, count⟩ v 0 0 := by
  have hm := Mapped.alloc h.directory hc ha
  obtain ⟨hv, hwas, -⟩ := apart_alloc_range h.directory hc ha hp
  refine ⟨h.mapped hm, hv, fun q hq => (hwas q hq).2, fun j _ hj => absurd hj (Nat.not_lt_zero j),
    fun w hw hpres hr => ?_⟩
  rw [hm.info w hw (h.unshared w) id] at hpres hr
  exact absurd (hwas _ hr).1 (h.used w hw hpres)

/-! ## `map_pages` -/

theorem InPart.mono {i' k' w : Nat} (h : InPart v i k w) (hi : i' ≤ i) (hk : k ≤ k') :
    InPart v i' k' w := by
  obtain ⟨j, h1, h2, h3⟩ := h
  exact ⟨j, by omega, by omega, h3⟩

theorem add32_page : add32 ((v + k * 4096) % 2 ^ 32) PAGE_SIZE = (v + (k + 1) * 4096) % 2 ^ 32 := by
  unfold add32 PAGE_SIZE
  rw [Nat.mod_add_mod, Nat.add_mul, Nat.one_mul, Nat.add_assoc]

theorem Mapping.walk {q : Bool × Machine} (h : Mapping A s dir r v 0 k) (hk : k < r.count)
    (hf : flags < 4096) (hw : walk (A.alloc 1) ((v + k * 4096) % 2 ^ 32) (r.base + k * 4096) flags
      walkShifts dir s = some q) : Mapping A q.2 dir r v 0 (if q.1 then k + 1 else k) := by
  obtain ⟨hb, hm⟩ | ⟨hb, hm, hp, hinfo⟩ :=
    walk_cases h.directory (Nat.mod_lt _ (by decide)) hw
  · rw [hb]
    exact h.mapped hm
  rw [hb, if_pos rfl]
  have hpage : r.base + k * 4096 ∈ r.pages := mem_pages.mpr ⟨k, hk, by rw [Nat.mul_comm]⟩
  have hframe : Frame (r.base + k * 4096) := (h.taken _ hpage).frame
  rw [andNot_eq_self (k := 12) hframe.2 hframe.1 (by decide)] at hinfo
  refine ⟨⟨hm.directory, fun w hs => h.unshared w ((hm.shares w 1023).mp hs), fun w hw hpres => ?_⟩,
    h.valid, fun p hp => (hm.apart (h.taken p hp)).1, fun j _ hj => ?_, fun w hw hpres hr => ?_⟩
  · by_cases hwv : w / 4096 = (v + k * 4096) % 2 ^ 32 / 4096
    · rw [hinfo w hw (h.unshared w) hwv, frameOf_or hframe hf]
      exact (hm.apart (h.taken _ hpage)).1.not_free
    · rw [hm.info w hw (h.unshared w) hwv] at hpres ⊢
      exact fun hfree => h.used w hw hpres (hm.free _ hfree)
  · by_cases hjk : j = k
    · rw [hjk]
      exact hp
    · have hj' := h.tables j (Nat.zero_le j) (by omega)
      rw [hm.old _ (dirIndex_lt _) hj']
      exact hj'
  · by_cases hwv : w / 4096 = (v + k * 4096) % 2 ^ 32 / 4096
    · exact ⟨k, Nat.zero_le k, Nat.lt_succ_self k, hwv⟩
    · rw [hm.info w hw (h.unshared w) hwv] at hpres hr
      exact (h.only w hw hpres hr).mono (Nat.le_refl 0) (Nat.le_succ k)

/-- **Mapping the frames**, whether it succeeds or not. -/
theorem Mapping.map {q : Bool × Machine} (h : Mapping A s dir r v 0 k) (hn : k + n = r.count)
    (hf : flags < 4096) (hm : mapPages (A.alloc 1) dir ((v + k * 4096) % 2 ^ 32)
      (r.base + k * 4096) n flags s = some q) : ∃ k' ≤ r.count, Mapping A q.2 dir r v 0 k' := by
  induction n generalizing k s with
  | zero =>
    obtain rfl := Option.some.inj hm
    exact ⟨k, by omega, h⟩
  | succ n ih =>
    rw [mapPages] at hm
    obtain ⟨⟨b, s₁⟩, hwalk, hm⟩ := Option.bind_eq_some_iff.mp hm
    have h₁ := h.walk (by omega) hf hwalk
    cases b with
    | false =>
      obtain rfl := Option.some.inj hm
      exact ⟨k, by omega, h₁⟩
    | true =>
      have hbase : add32 (r.base + k * 4096) PAGE_SIZE = r.base + (k + 1) * 4096 := by
        have := h.valid.bound
        rw [add32_eq (by unfold PAGE_SIZE; omega)]
        unfold PAGE_SIZE
        omega
      rw [if_pos rfl] at hm h₁
      rw [add32_page, hbase] at hm
      exact ih h₁ (by omega) hm

theorem not_present_unmap {p : Nat} (hp : p % 4096 = 0) (hp32 : p < 2 ^ 32) :
    ¬ Present (andNot p PAGE_OFFSET_BITS ||| 0) := by
  have hd : 2 ^ 12 ∣ p := Nat.dvd_of_mod_eq_zero hp
  rw [andNot_eq_self (k := 12) hp32 hd (by decide), Nat.or_zero]
  have hmod : p &&& 1 = p % 2 := Nat.and_one_is_mod p
  unfold Present
  rw [show PAGE_PRESENT = 1 from rfl, hmod]
  omega

theorem Mapping.unwalk {p : Nat} {q : Bool × Machine} (h : Mapping A s dir r v i k)
    (hp : p % 4096 = 0) (hp32 : p < 2 ^ 32)
    (hw : Machine.walk (A.alloc 1) ((v + i * 4096) % 2 ^ 32) p 0 walkShifts dir s = some q) :
    (q.1 = false → k ≤ i) ∧ Mapping A q.2 dir r v (if q.1 then i + 1 else i) k := by
  obtain ⟨hb, hm⟩ | ⟨hb, hm, -, hinfo⟩ := walk_cases h.directory (Nat.mod_lt _ (by decide)) hw
  · rw [hb]
    refine ⟨fun _ => Nat.not_lt.mp fun hik => ?_, h.mapped hm⟩
    have htable := h.tables i (Nat.le_refl i) hik
    rw [walk_present _ _ _ h.directory.frame h.directory.dir_ne htable] at hw
    rw [← Option.some.inj hw] at hb
    exact Bool.noConfusion hb
  rw [hb, if_pos rfl]
  have hclear : ∀ w < 2 ^ 32, w / 4096 = (v + i * 4096) % 2 ^ 32 / 4096 →
      ¬ Present (q.2.info dir w) := fun w hw hwv => by
    rw [hinfo w hw (h.unshared w) hwv]
    exact not_present_unmap hp hp32
  refine ⟨Bool.noConfusion, ⟨hm.directory, fun w hs => h.unshared w ((hm.shares w 1023).mp hs),
    fun w hw hpres => ?_⟩, h.valid, fun p hp => (hm.apart (h.taken p hp)).1, fun j hi hj => ?_,
    fun w hw hpres hr => ?_⟩
  · by_cases hwv : w / 4096 = (v + i * 4096) % 2 ^ 32 / 4096
    · exact absurd hpres (hclear w hw hwv)
    · rw [hm.info w hw (h.unshared w) hwv] at hpres ⊢
      exact fun hfree => h.used w hw hpres (hm.free _ hfree)
  · have hj' := h.tables j (by omega) hj
    rw [hm.old _ (dirIndex_lt _) hj']
    exact hj'
  · by_cases hwv : w / 4096 = (v + i * 4096) % 2 ^ 32 / 4096
    · exact absurd hpres (hclear w hw hwv)
    · rw [hm.info w hw (h.unshared w) hwv] at hpres hr
      obtain ⟨j, hij, hjk, hj⟩ := h.only w hw hpres hr
      refine ⟨j, Nat.lt_of_le_of_ne hij ?_, hjk, hj⟩
      rintro rfl
      exact hwv hj

/-- **Unmapping the pages of a range**, whether it succeeds or not. -/
theorem Mapping.unmap {p : Nat} {q : Bool × Machine} (h : Mapping A s dir r v i k)
    (hn : k ≤ i + n) (hp : p % 4096 = 0) (hp32 : p < 2 ^ 32)
    (hm : mapPages (A.alloc 1) dir ((v + i * 4096) % 2 ^ 32) p n 0 s = some q) :
    ∃ i', k ≤ i' ∧ Mapping A q.2 dir r v i' k := by
  induction n generalizing i p s with
  | zero =>
    obtain rfl := Option.some.inj hm
    exact ⟨i, hn, h⟩
  | succ n ih =>
    rw [mapPages] at hm
    obtain ⟨⟨b, s₁⟩, hwalk, hm⟩ := Option.bind_eq_some_iff.mp hm
    obtain ⟨hend, h₁⟩ := h.unwalk hp hp32 hwalk
    cases b with
    | false =>
      obtain rfl := Option.some.inj hm
      exact ⟨i, hend rfl, h₁⟩
    | true =>
      rw [if_pos rfl] at hm h₁
      rw [add32_page] at hm
      refine ih h₁ (by omega) ?_ (add32_lt _ _) hm
      unfold add32 PAGE_SIZE
      omega

/-- **The label `fail`** leaves no page on the frames that it returns. -/
theorem Mapping.fail (h : Mapping A s dir r v 0 k) (hv : v < 2 ^ 32) (hk : k ≤ r.count)
    (hf : failAlloc A dir v r.base r.count s = some s') : InUse A s' dir := by
  unfold failAlloc at hf
  obtain ⟨⟨b, s₁⟩, hmap, hfree⟩ := Option.bind_eq_some_iff.mp hf
  have hv0 : (v + 0 * 4096) % 2 ^ 32 = v := by omega
  obtain ⟨i, hki, h₁⟩ := h.unmap (by omega) rfl (by decide) (hv0.symm ▸ hmap)
  obtain ⟨hd, hnow, hdir, hwin, hinfo⟩ := h₁.directory.free_apart h.valid h₁.taken hfree
  refine ⟨hd, fun w hs => h₁.unshared w ?_, fun w hw hpres hfr => ?_⟩
  · unfold SharesEntry at hs ⊢
    rwa [hdir, hwin] at hs
  · rw [hinfo w (h₁.unshared w)] at hpres hfr
    rcases (hnow _).mp hfr with hfr | hr
    · exact h₁.used w hw hpres hfr
    · obtain ⟨j, h1, h2, -⟩ := h₁.only w hw hpres hr
      omega

/-! ## `alloc_virt_pages` -/

variable {sp : Space} {vaddr count : Nat} {st st' : VirtState}

theorem Mapping.record {b : VirtMemoryBlock} {q : Bool × VirtState}
    (h : Mapping A s (st.spaces sp).pageDir r v 0 k) (hs : Stays sp (st.spaces sp))
    (hq : recordBlock (growTable A sp) sp i b (st.setMachine s) = some q) :
    InUse A q.2.machine (st.spaces sp).pageDir ∧
      (q.1 = false → Mapping A q.2.machine (st.spaces sp).pageDir r v 0 k) := by
  unfold recordBlock at hq
  dsimp only at hq
  rw [VirtState.spaces_setMachine] at hq
  split_ifs at hq with hfull
  · obtain ⟨⟨ok, st₁⟩, hgrow, rfl⟩ := Option.map_eq_some_iff.mp hq
    rw [growTable, if_pos (hs.resolve_right (not_not.mpr hfull))] at hgrow
    unfold growKernel at hgrow
    dsimp only at hgrow
    rw [VirtState.spaces_setMachine, VirtState.machine_setMachine] at hgrow
    obtain ⟨⟨p, m⟩, halloc, hgrow⟩ := Option.bind_eq_some_iff.mp hgrow
    dsimp only at hgrow
    by_cases hp : p = NIL
    · rw [if_pos hp] at hgrow
      obtain ⟨rfl, rfl⟩ := Prod.mk.inj (Option.some.inj hgrow)
      have h₁ := h.mapped (.alloc h.directory (Nat.le_refl 1) halloc)
      exact ⟨h₁.toInUse, fun _ => h₁⟩
    · rw [if_neg hp] at hgrow
      obtain ⟨⟨mapped, m'⟩, hmap, hgrow⟩ := Option.bind_eq_some_iff.mp hgrow
      dsimp only at hgrow
      split_ifs at hgrow
      obtain ⟨rfl, rfl⟩ := Prod.mk.inj (Option.some.inj hgrow)
      refine ⟨?_, Bool.noConfusion⟩
      generalize hv : add32 ((st.spaces sp).blocks ((st.spaces sp).blockCount - 1)).base
        ((st.spaces sp).blocks ((st.spaces sp).blockCount - 1)).length = v' at hmap
      have hv0 : (v' + 0 * 4096) % 2 ^ 32 = v' := by
        rw [Nat.zero_mul, Nat.add_zero, ← hv]
        exact Nat.mod_eq_of_lt (add32_lt _ _)
      have h₁ := h.toInUse.alloc (Nat.le_refl 1) halloc hp v'
      have hmap' : mapPages (A.alloc 1) (st.spaces sp).pageDir ((v' + 0 * 4096) % 2 ^ 32)
          (p + 0 * 4096) 1 (PAGE_PRESENT ||| PAGE_WRITABLE) m = some (mapped, m') := by
        rw [hv0]
        simpa using hmap
      obtain ⟨k', -, h₂⟩ := h₁.map rfl (by decide) hmap'
      exact h₂.toInUse
  · obtain rfl := Option.some.inj hq
    exact ⟨h.toInUse, Bool.noConfusion⟩

/-- **An allocation maps frames that it took.** -/
theorem InUse.allocEnd {q : Nat × VirtState} (h : InUse A st.machine (st.spaces sp).pageDir)
    (hv : vaddr < 2 ^ 32) (hc : 1 ≤ count) (hf : flags < 4096) (hs : Stays sp (st.spaces sp))
    (hend : AllocEnd A (growTable A sp) sp vaddr NIL count flags st q) :
    InUse A q.2.machine (st.spaces sp).pageDir := by
  have hplace : ((findPlace (st.spaces sp) vaddr count).1 + 0 * 4096) % 2 ^ 32 =
      (findPlace (st.spaces sp) vaddr count).1 := by
    rw [Nat.zero_mul, Nat.add_zero]
    exact Nat.mod_eq_of_lt (findPlace_lt _ _ hv)
  -- the frames that were taken, mapped at some of the pages
  have hmap : ∀ {p : Nat} {type : VirtMemoryBlockType} {m : Machine} {q : Bool × Machine},
      takeFrames A NIL count st.machine = some ((p, type), m) → p ≠ NIL →
      mapPages (A.alloc 1) (st.spaces sp).pageDir (findPlace (st.spaces sp) vaddr count).1 p count
        flags m = some q →
      ∃ k' ≤ count, Mapping A q.2 (st.spaces sp).pageDir ⟨p, count⟩
        (findPlace (st.spaces sp) vaddr count).1 0 k' := by
    intro p type m q hframes hp hmap
    have h₁ := h.alloc hc (takeFrames_alloc hframes).1 hp (findPlace (st.spaces sp) vaddr count).1
    refine h₁.map (n := count) (Nat.zero_add count) hf ?_
    rw [hplace]
    simpa using hmap
  cases hend with
  | noPlace => exact h
  | noFrames _ _ frames => exact h.mapped (.alloc h.directory hc frames)
  | recorded _ frames ne mapped entry =>
    obtain ⟨k', -, hm⟩ := hmap frames ne mapped
    exact (hm.record hs entry).1
  | notRecorded _ frames ne mapped entry fail =>
    obtain ⟨k', hk', hm⟩ := hmap frames ne mapped
    have hm' := (hm.record hs entry).2 rfl
    obtain ⟨-, hspaces⟩ | ⟨h, -⟩ := recordBlock_table entry
    · dsimp only at hspaces
      rw [hspaces] at fail
      exact hm'.fail (findPlace_lt _ _ hv) hk' fail
    · exact absurd h Bool.noConfusion
  | notMapped _ frames ne mapped fail =>
    obtain ⟨k', hk', hm⟩ := hmap frames ne mapped
    exact hm.fail (findPlace_lt _ _ hv) hk' fail

/-! ## Runs -/

/-- The calls on the address space `sp`. -/
def VirtCall (A : PhysAllocator) (sp : Space) (st : VirtState) : VirtOp → VirtState → Prop
  | .alloc vaddr paddr count flags, st' =>
    ∃ r, allocVirtPages A sp vaddr paddr count flags st = some (r, st')
  | .free vaddr, st' => ∃ b, freeVirtPages A sp vaddr st = some (b, st')

/-- The frames `r` are in use, belong neither to the tables of `dir` nor to the window, and no present
page translates to them. -/
structure Unmapped (A : PhysAllocator) (s : Machine) (dir : Nat) (r : Range) : Prop where
  valid : r.Valid
  apart : ∀ p ∈ r.pages, Apart A s dir p
  unmapped : ∀ w < 2 ^ 32, Present (s.info dir w) → frameOf (s.info dir w) ∉ r.pages

/-- A call that returns no mapped frame. An allocation is one of new frames, with flags in the low
bits of an entry; a table that is full is moved, and the old one is freed. -/
def VirtOp.FreesUnmapped (A : PhysAllocator) (sp : Space) (st : VirtState) : VirtOp → Prop
  | .alloc vaddr paddr count flags => paddr = NIL ∧ vaddr < 2 ^ 32 ∧ 1 ≤ count ∧ flags < 4096 ∧
      Stays sp (st.spaces sp)
  | .free vaddr => ∀ i < (st.spaces sp).blockCount, ((st.spaces sp).blocks i).base ≤ vaddr →
      vaddr < add32 ((st.spaces sp).blocks i).base ((st.spaces sp).blocks i).length →
      Unmapped A st.machine (st.spaces sp).pageDir
        ⟨andNot (st.machine.getPageInfo (st.spaces sp).pageDir vaddr).1 PAGE_OFFSET_MASK,
          ((st.spaces sp).blocks i).length >>> PAGE_OFFSET_BITS⟩

/-- The tables of `sp` are empty. -/
structure EmptyTables (A : PhysAllocator) (sp : Space) (st : VirtState) : Prop where
  directory : Directory A st.machine (st.spaces sp).pageDir
  empty : ∀ i < 1024, ¬ Present (st.machine.mem (st.spaces sp).pageDir i)

theorem EmptyTables.inUse (h : EmptyTables A sp st) :
    InUse A st.machine (st.spaces sp).pageDir := by
  refine ⟨h.directory, fun w hs => h.empty _ (dirIndex_lt w) hs.1, fun w _ hp => ?_⟩
  unfold Machine.info at hp
  dsimp only at hp
  rw [if_neg (h.empty _ (dirIndex_lt w))] at hp
  exact absurd rfl hp

theorem InUse.free {s'' : Machine} (h : InUse A s dir) (hu : Unmapped A s dir r)
    (hm : Mapped A s s' dir fun _ => False) (hf : A.free r.base r.count s' = some s'') :
    InUse A s'' dir := by
  have h' := h.mapped hm
  obtain ⟨hd, hnow, hdir, hwin, hinfo⟩ :=
    h'.directory.free_apart hu.valid (fun p hp => (hm.apart (hu.apart p hp)).1) hf
  refine ⟨hd, fun w hs => h'.unshared w ?_, fun w hw hpres hfr => ?_⟩
  · unfold SharesEntry at hs ⊢
    rwa [hdir, hwin] at hs
  · rw [hinfo w (h'.unshared w)] at hpres hfr
    rcases (hnow _).mp hfr with hfr | hr
    · exact h'.used w hw hpres hfr
    · rw [hm.info w hw (h.unshared w) id] at hpres hr
      exact hu.unmapped w hw hpres hr

theorem InUse.call {op : VirtOp} (h : InUse A st.machine (st.spaces sp).pageDir)
    (hop : op.FreesUnmapped A sp st) (hc : VirtCall A sp st op st') :
    InUse A st'.machine (st'.spaces sp).pageDir ∧
      (st'.spaces sp).pageDir = (st.spaces sp).pageDir := by
  cases op with
  | alloc vaddr paddr count flags =>
    obtain ⟨rfl, hv, hcount, hf, hs⟩ := hop
    obtain ⟨r, hr⟩ := hc
    obtain ⟨st₁, hend, rfl⟩ := allocVirtPages_end hr
    have hdir := hend.pageDir
    have hin := InUse.allocEnd (by rwa [VirtState.spaces_locked]) hv hcount hf
      (by rwa [VirtState.spaces_locked]) hend
    rw [VirtState.spaces_locked] at hdir hin
    rw [VirtState.spaces_mutexRelease]
    refine ⟨?_, hdir⟩
    show InUse A st₁.machine (st₁.spaces sp).pageDir
    rw [hdir]
    exact hin
  | free vaddr =>
    obtain ⟨b, hb⟩ := hc
    obtain ⟨-, ⟨-, he⟩ | ⟨-, i, hi, h1, h2, m, hm, he⟩⟩ := freeVirtPages_cases rfl hb
    · dsimp only at he
      rw [he, VirtState.spaces_setSpace]
      exact ⟨h, rfl⟩
    · dsimp only at he hm
      rw [he, VirtState.spaces_setSpace]
      exact ⟨h.free (hop i hi h1 h2) (getPageInfo_mapped h.directory vaddr) hm, rfl⟩

/-- **No free frame is mapped** in a run from empty tables whose calls return no mapped frame. -/
theorem inUse_of_run {ops : List VirtOp} (h : EmptyTables A sp st)
    (hrun : Run (fun σ op σ' => VirtCall A sp σ op σ' ∧ op.FreesUnmapped A sp σ) st ops st') :
    ∀ w < 2 ^ 32, Present (st'.machine.getPageInfo (st'.spaces sp).pageDir w).1 →
      ¬ A.Free st'.machine
        (andNot (st'.machine.getPageInfo (st'.spaces sp).pageDir w).1 PAGE_OFFSET_MASK) := by
  have hin := hrun.invariant (I := fun σ => InUse A σ.machine (σ.spaces sp).pageDir)
    (fun _ _ _ hi hs => (hi.call hs.2 hs.1).1) h.inUse
  intro w hw
  rw [getPageInfo_eq hin.directory.frame hin.directory.dir_ne (hin.unshared w)]
  exact hin.used w hw

theorem emptySpaces_empty : EmptyTables safeAllocator (.process 0) emptySpaces :=
  ⟨directory_emptyDirectory, fun _ _ => by simp [emptySpaces, initAddressSpace, emptyDirectory,
    Present]⟩

/-- One page, then a call that finds no block. -/
theorem inUse_of_run_page : ∃ st', Run (fun σ op σ' => VirtCall safeAllocator (.process 0) σ op σ' ∧
      op.FreesUnmapped safeAllocator (.process 0) σ) emptySpaces
      [.alloc 0 NIL 1 3, .free 0x1000] st' ∧
    ¬ OnFreeList st'.machine 0x13000 := by
  have h : ((allocVirtPages safeAllocator (.process 0) 0 NIL 1 3 emptySpaces).bind fun r =>
      (freeVirtPages safeAllocator (.process 0) 0x1000 r.2).map fun q =>
        ((r.2.spaces (.process 0)).blockCount, (r.2.spaces (.process 0)).blocks 0,
          (q.2.machine.getPageInfo (q.2.spaces (.process 0)).pageDir 0x7FFFF000).1)) =
      some (1, ⟨.memory, 0x7FFFF000, 0x1000⟩, 0x13003) := by decide +kernel
  obtain ⟨⟨r, st₁⟩, h₁, h⟩ := Option.bind_eq_some_iff.mp h
  obtain ⟨⟨b, st₂⟩, h₂, h⟩ := Option.map_eq_some_iff.mp h
  simp only [Prod.mk.injEq] at h
  obtain ⟨hcount, hblock, hinfo⟩ := h
  have hrun : Run (fun σ op σ' => VirtCall safeAllocator (.process 0) σ op σ' ∧
      op.FreesUnmapped safeAllocator (.process 0) σ) emptySpaces
      [.alloc 0 NIL 1 3, .free 0x1000] st₂ := by
    refine .cons ⟨⟨r, h₁⟩, rfl, by decide, by decide, by decide, Or.inr (by decide)⟩
      (.cons ⟨⟨b, h₂⟩, fun i hi hle _ => ?_⟩ (.nil _))
    rw [hcount] at hi
    obtain rfl : i = 0 := by omega
    rw [hblock] at hle
    exact absurd hle (by decide)
  have hfree := inUse_of_run emptySpaces_empty hrun 0x7FFFF000 (by decide)
  have hframe : andNot 0x13003 PAGE_OFFSET_MASK = 0x13000 := by decide +kernel
  rw [hinfo, hframe] at hfree
  exact ⟨st₂, hrun, hfree (by decide)⟩

theorem safeAllocator_free {base count : Nat} (h : s.freePhysMemoryPointer = NIL) :
    safeAllocator.free base count s = freePhysPages (2 ^ 20) base count s :=
  if_pos fun hne => absurd h hne

/-- **A page that was freed stays mapped** to its frame, which is on the free list. -/
theorem freed_page_present : ∃ st', EmptyTables safeAllocator (.process 0) emptySpaces ∧
    Run (VirtCall safeAllocator (.process 0)) emptySpaces
      [.alloc 0 NIL 3 3, .free 0x7FFFD000] st' ∧
    (st'.machine.getPageInfo (st'.spaces (.process 0)).pageDir 0x7FFFD000).1 = 0x11003 ∧
    OnFreeList st'.machine 0x11000 := by
  have h : ((allocVirtPages safeAllocator (.process 0) 0 NIL 3 3 emptySpaces).bind fun r =>
      let as := { r.2.spaces (.process 0) with mutex := true }
      let i := findBlock as 0x7FFFD000 as.blockCount 0
      let info := r.2.machine.getPageInfo as.pageDir 0x7FFFD000
      (freePhysPages (2 ^ 20) (andNot info.1 PAGE_OFFSET_MASK)
        ((as.blocks i).length >>> PAGE_OFFSET_BITS) info.2).map fun m =>
          ((r.2.spaces (.process 0)).mutex, [as.blockCount, i, info.2.freePhysMemoryPointer],
            [m.freePhysMemoryPointer, m.next 0x11000, m.prev 0x11000, m.size 0x11000,
              m.freePageCount, (m.getPageInfo as.pageDir 0x7FFFD000).1])) =
      some (false, [1, 0, NIL], [0x11000, 0x11000, 0x11000, 3, 3, 0x11003]) := by decide +kernel
  obtain ⟨⟨r, st₁⟩, h₁, h⟩ := Option.bind_eq_some_iff.mp h
  obtain ⟨m, hm, h⟩ := Option.map_eq_some_iff.mp h
  simp only [Prod.mk.injEq, List.cons.injEq, and_true] at h
  obtain ⟨hmutex, ⟨hcount, hi, hnil⟩, hp, hn, hprev, hs, hc, hinfo⟩ := h
  have hcall := freeVirtPages_found (A := safeAllocator) rfl hmutex
    (hi.trans_lt (hcount ▸ Nat.one_pos)) ((safeAllocator_free hnil).trans hm)
  have hring : m.FreeRing [0x11000] := by
    refine ⟨⟨hp, ring_singleton.mpr ⟨hn, hprev⟩⟩, ?_, ?_, ?_, ?_⟩
    · simp
    · simp [hs]
    · simp [hs]
    · simp [hs, hc]
  refine ⟨_, emptySpaces_empty, .cons ⟨r, h₁⟩ (.cons ⟨true, hcall⟩ (.nil _)), ?_, [0x11000], hring, ?_⟩
  · rw [VirtState.spaces_setSpace]
    exact hinfo
  · refine List.mem_flatMap.mpr ⟨0x11000, List.mem_cons_self, base_mem_pages ?_⟩
    show 0 < m.size 0x11000
    rw [hs]
    decide

end C4os
