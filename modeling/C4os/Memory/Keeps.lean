import C4os.Memory.VirtMapped

/-!
# What an allocation leaves alone

* `Keeps A s s' dir R`: a step keeps the directory `dir`, and its entries outside `R`.
* `Spares A s s' dir R Q`: and the frames of others outside `Q`.
* `Reached`: the pages that an allocation may map; `AddressSpace.Touched`: with the one that the
  table of the kernel grows into.
* `AllocEnd.mapped`, **`AllocEnd.spares`**: an allocation whose table does not move.
-/

namespace C4os

open Machine Pages Word

variable {A : PhysAllocator} {s s' s'' : Machine} {dir v vaddr paddr count flags i p : Nat}
  {R R' Q Q' : Nat → Prop} {sp : Space} {st : VirtState} {q : Nat × VirtState}

/-- A step keeps the directory `dir` and the entries of the pages outside `R`. -/
structure Keeps (A : PhysAllocator) (s s' : Machine) (dir : Nat) (R : Nat → Prop) : Prop where
  directory : Directory A s' dir
  shares : ∀ w k, SharesEntry s' dir w k ↔ SharesEntry s dir w k
  info : ∀ w < 2 ^ 32, ¬ SharesEntry s dir w 1023 → ¬ R w → s'.info dir w = s.info dir w

theorem Keeps.trans (h : Keeps A s s' dir R) (h' : Keeps A s' s'' dir R) : Keeps A s s'' dir R := by
  refine ⟨h'.directory, fun w k => (h'.shares w k).trans (h.shares w k), fun w hw hs hr => ?_⟩
  rw [h'.info w hw (fun hs' => hs ((h.shares w 1023).mp hs')) hr, h.info w hw hs hr]

theorem Keeps.mono (h : Keeps A s s' dir R) (hR : ∀ w, R w → R' w) : Keeps A s s' dir R' :=
  ⟨h.directory, h.shares, fun w hw hs hr => h.info w hw hs fun hw' => hr (hR w hw')⟩

/-- And the frames of others, those of `Q` apart. -/
structure Spares (A : PhysAllocator) (s s' : Machine) (dir : Nat) (R Q : Nat → Prop) : Prop
    extends Keeps A s s' dir R where
  apart : ∀ q, Apart A s dir q → ¬ Q q → Apart A s' dir q ∧ ∀ j, s'.mem q j = s.mem q j

theorem Spares.trans (h : Spares A s s' dir R Q) (h' : Spares A s' s'' dir R Q) :
    Spares A s s'' dir R Q := by
  refine ⟨h.toKeeps.trans h'.toKeeps, fun q hq hQ => ?_⟩
  obtain ⟨hq', hmem⟩ := h.apart q hq hQ
  obtain ⟨hq'', hmem'⟩ := h'.apart q hq' hQ
  exact ⟨hq'', fun j => (hmem' j).trans (hmem j)⟩

theorem Spares.mono (h : Spares A s s' dir R Q) (hR : ∀ w, R w → R' w) (hQ : ∀ q, Q q → Q' q) :
    Spares A s s' dir R' Q' :=
  ⟨h.toKeeps.mono hR, fun q hq hq' => h.apart q hq fun hQ' => hq' (hQ q hQ')⟩

theorem Machine.Mapped.spares (h : Mapped A s s' dir R) : Spares A s s' dir R Q :=
  ⟨⟨h.directory, h.shares, h.info⟩, fun _ hq _ => h.apart hq⟩

theorem spares_free {r : Range} (hd : Directory A s dir) (hv : r.Valid)
    (hr : ∀ p ∈ r.pages, Apart A s dir p) (h : A.free r.base r.count s = some s') :
    Spares A s s' dir (fun _ => False) (· ∈ r.pages) := by
  obtain ⟨hd', hnow, hdir, hwin, hinfo⟩ := hd.free_apart hv hr h
  obtain ⟨-, hk, -⟩ := A.free_spec hd.ok hv (fun p hp => (hr p hp).not_free) h
  refine ⟨⟨hd', fun w k => ?_, fun w _ hs _ => hinfo w hs⟩, fun q hq hQ => ⟨⟨hq.frame, ?_, ?_⟩,
    fun j => ?_⟩⟩
  · unfold SharesEntry
    rw [hdir, hwin]
  · unfold Owned IsTable
    simp only [hnow, hdir]
    rintro ((hf | hp) | ho)
    · exact hq.not_free hf
    · exact hQ hp
    · exact hq.not_owned (Or.inr ho)
  · rw [hwin]
    exact hq.ne_window
  · exact hk.mem q j (fun h => h.elim hq.not_free hQ) fun hw => hq.ne_window hw.1

theorem spares_fail {r : Range} (hd : Directory A s dir) (hv : v < 2 ^ 32) (hr : r.Valid)
    (hap : ∀ p ∈ r.pages, Apart A s dir p) (h : failAlloc A dir v r.base r.count s = some s') :
    Spares A s s' dir (InPages v r.count) (· ∈ r.pages) := by
  unfold failAlloc at h
  obtain ⟨⟨b, s₁⟩, hmap, hfree⟩ := Option.bind_eq_some_iff.mp h
  have hm := mapPages_mapped hd hv hmap
  exact hm.spares.trans ((spares_free hm.directory hr (fun p hp => (hm.apart (hap p hp)).1)
    hfree).mono (fun _ h => h.elim) fun _ => id)

/-! ## The calls -/

/-- The frames of a request are there: new ones, or those of the caller, whole pages in use that
belong to no page table. -/
def FramesOk (A : PhysAllocator) (s : Machine) (dir paddr count : Nat) : Prop :=
  paddr ≠ NIL → (⟨paddr, count⟩ : Range).Valid ∧
    ∀ p ∈ (⟨paddr, count⟩ : Range).pages, Apart A s dir p

/-- The pages that an allocation may map. -/
def Reached (A : PhysAllocator) (as : AddressSpace) (s : Machine) (vaddr paddr count w : Nat) :
    Prop :=
  (∀ m, paddr = NIL → A.alloc count s ≠ some (NIL, m)) ∧
    ∃ v, v ≠ 0 ∧ Stops as vaddr count v ∧ InPages v count w

theorem takeFrames_mapped {type : VirtMemoryBlockType} {m : Machine} (hd : Directory A s dir)
    (hc : 1 ≤ count) (h : takeFrames A paddr count s = some ((p, type), m)) :
    Mapped A s m dir (fun _ => False) ∧ (paddr = NIL → A.alloc count s = some (p, m)) ∧
      (paddr ≠ NIL → p = paddr) := by
  by_cases hnil : paddr = NIL
  · subst hnil
    obtain ⟨halloc, -⟩ := takeFrames_alloc h
    exact ⟨.alloc hd hc halloc, fun _ => halloc, fun h => absurd rfl h⟩
  · unfold takeFrames at h
    rw [if_neg hnil] at h
    obtain ⟨he, rfl⟩ := Prod.mk.inj (Option.some.inj h)
    obtain ⟨rfl, -⟩ := Prod.mk.inj he
    exact ⟨.refl hd _, fun he => absurd he hnil, fun _ => rfl⟩

theorem takeFrames_apart {type : VirtMemoryBlockType} {m : Machine}
    (hd : Directory A s dir) (hc : 1 ≤ count) (hf : FramesOk A s dir paddr count)
    (h : takeFrames A paddr count s = some ((p, type), m)) (hp : p ≠ NIL) :
    Mapped A s m dir (fun _ => False) ∧ (⟨p, count⟩ : Range).Valid ∧
      ∀ q ∈ (⟨p, count⟩ : Range).pages, Apart A m dir q ∧ (A.Free s q ∨ paddr ≠ NIL ∧ p = paddr) := by
  obtain ⟨hm, hnew, hgiven⟩ := takeFrames_mapped hd hc h
  by_cases hnil : paddr = NIL
  · obtain ⟨hv, hap, -⟩ := apart_alloc_range hd hc (hnew hnil) hp
    exact ⟨hm, hv, fun q hq => ⟨(hap q hq).2, Or.inl (hap q hq).1⟩⟩
  · obtain rfl := hgiven hnil
    exact ⟨hm, (hf hnil).1, fun q hq => ⟨(hm.apart ((hf hnil).2 q hq)).1, Or.inr ⟨hnil, rfl⟩⟩⟩

/-- The pages that an allocation may map, for a new block or for the table of the kernel. -/
def AddressSpace.Touched (A : PhysAllocator) (sp : Space) (as : AddressSpace) (s : Machine)
    (vaddr paddr count w : Nat) : Prop :=
  Reached A as s vaddr paddr count w ∨ GrowsKernel sp as ∧ InPages (growPage as) 1 w

/-- The frames that the caller gives. -/
def Given (paddr count q : Nat) : Prop := paddr ≠ NIL ∧ q ∈ (⟨paddr, count⟩ : Range).pages

theorem mapPages_touched {type : VirtMemoryBlockType} {m : Machine} {r : Bool × Machine}
    (hd : Directory A st.machine (st.spaces sp).pageDir) (hv : vaddr < 2 ^ 32) (hc : 1 ≤ count)
    (hplace : (findPlace (st.spaces sp) vaddr count).1 ≠ 0)
    (hframes : takeFrames A paddr count st.machine = some ((p, type), m)) (hp : p ≠ NIL)
    (hmap : mapPages (A.alloc 1) (st.spaces sp).pageDir (findPlace (st.spaces sp) vaddr count).1 p
      count flags m = some r) :
    Mapped A st.machine r.2 (st.spaces sp).pageDir
        ((st.spaces sp).Touched A sp st.machine vaddr paddr count) ∧
      ∀ w, InPages (findPlace (st.spaces sp) vaddr count).1 count w →
        (st.spaces sp).Touched A sp st.machine vaddr paddr count w := by
  obtain ⟨hm, hnew, -⟩ := takeFrames_mapped hd hc hframes
  have hreach : ∀ w, InPages (findPlace (st.spaces sp) vaddr count).1 count w →
      (st.spaces sp).Touched A sp st.machine vaddr paddr count w := by
    intro w hw
    refine Or.inl ⟨fun m' hnil he => hp ?_, _, hplace, findPlace_stops hplace, hw⟩
    exact (Prod.mk.inj (Option.some.inj ((hnew hnil).symm.trans he))).1
  have hm' := mapPages_mapped hm.directory (findPlace_lt _ _ hv) hmap
  exact ⟨(hm.trans hm').mono fun w _ hw => hw.elim False.elim (hreach w), hreach⟩

theorem recordBlock_touched {b : VirtMemoryBlock} {m : Machine} {r : Bool × VirtState}
    (hd : Directory A m (st.spaces sp).pageDir) (hs : Stays sp (st.spaces sp))
    (h : recordBlock (growTable A sp) sp i b (st.setMachine m) = some r) :
    Mapped A m r.2.machine (st.spaces sp).pageDir
      ((st.spaces sp).Touched A sp st.machine vaddr paddr count) :=
  (recordBlock_mapped (by exact hd) (by exact hs) h).mono fun _ _ hw => Or.inr hw

/-- An allocation that returns an address, when the table does not move. -/
theorem AllocEnd.mapped (hd : Directory A st.machine (st.spaces sp).pageDir)
    (hv : vaddr < 2 ^ 32) (hc : 1 ≤ count) (hs : Stays sp (st.spaces sp))
    (hend : AllocEnd A (growTable A sp) sp vaddr paddr count flags st q) (hq : q.1 ≠ 0) :
    Mapped A st.machine q.2.machine (st.spaces sp).pageDir
      ((st.spaces sp).Touched A sp st.machine vaddr paddr count) := by
  cases hend with
  | noPlace => exact absurd rfl hq
  | noFrames _ _ frames => exact (Mapped.alloc hd hc frames).mono fun _ _ h => h.elim
  | recorded place frames ne mapped entry =>
    obtain ⟨hm, -⟩ := mapPages_touched hd hv hc place frames ne mapped
    exact (hm.trans (recordBlock_touched hm.directory hs entry)).mono fun _ _ hw => hw.elim id id
  | notRecorded => exact absurd rfl hq
  | notMapped => exact absurd rfl hq

/-- **An allocation leaves the other pages alone**, and the frames of others, when the table does not
move. -/
theorem AllocEnd.spares (hd : Directory A st.machine (st.spaces sp).pageDir)
    (hv : vaddr < 2 ^ 32) (hc : 1 ≤ count) (hs : Stays sp (st.spaces sp))
    (hf : FramesOk A st.machine (st.spaces sp).pageDir paddr count)
    (hend : AllocEnd A (growTable A sp) sp vaddr paddr count flags st q) :
    Spares A st.machine q.2.machine (st.spaces sp).pageDir
      ((st.spaces sp).Touched A sp st.machine vaddr paddr count) (Given paddr count) := by
  have hlt : (findPlace (st.spaces sp) vaddr count).1 < 2 ^ 32 := findPlace_lt _ _ hv
  -- the frames of the pages that are mapped were free, or are the caller's
  have hmap : ∀ {p : Nat} {type : VirtMemoryBlockType} {m : Machine} {r : Bool × Machine},
      takeFrames A paddr count st.machine = some ((p, type), m) → p ≠ NIL →
      mapPages (A.alloc 1) (st.spaces sp).pageDir (findPlace (st.spaces sp) vaddr count).1 p count
        flags m = some r →
      (⟨p, count⟩ : Range).Valid ∧
        ∀ q ∈ (⟨p, count⟩ : Range).pages, Apart A r.2 (st.spaces sp).pageDir q ∧
          (A.Free st.machine q ∨ Given paddr count q) := by
    intro p type m r hframes hp hmap
    obtain ⟨hm, hvalid, hap⟩ := takeFrames_apart hd hc hf hframes hp
    have hm' := mapPages_mapped hm.directory hlt hmap
    refine ⟨hvalid, fun q hq => ⟨(hm'.apart (hap q hq).1).1, ?_⟩⟩
    rcases (hap q hq).2 with hfree | ⟨hnil, rfl⟩
    · exact Or.inl hfree
    · exact Or.inr ⟨hnil, hq⟩
  -- what the label `fail` returns was free, or the caller's
  have hfail : ∀ {p : Nat} {m m' : Machine}, Spares A st.machine m (st.spaces sp).pageDir
        ((st.spaces sp).Touched A sp st.machine vaddr paddr count) (Given paddr count) →
      (∀ w, InPages (findPlace (st.spaces sp) vaddr count).1 count w →
        (st.spaces sp).Touched A sp st.machine vaddr paddr count w) →
      (⟨p, count⟩ : Range).Valid →
      (∀ q ∈ (⟨p, count⟩ : Range).pages, Apart A m (st.spaces sp).pageDir q ∧
        (A.Free st.machine q ∨ Given paddr count q)) →
      failAlloc A (st.spaces sp).pageDir (findPlace (st.spaces sp) vaddr count).1 p count m =
        some m' →
      Spares A st.machine m' (st.spaces sp).pageDir
        ((st.spaces sp).Touched A sp st.machine vaddr paddr count) (Given paddr count) := by
    intro p m m' hm hreach hvalid hap hfail
    have hf' := spares_fail hm.directory hlt hvalid (fun q hq => (hap q hq).1) hfail
    refine ⟨hm.toKeeps.trans (hf'.toKeeps.mono hreach), fun q hq hQ => ?_⟩
    obtain ⟨hq', hmem⟩ := hm.apart q hq hQ
    obtain ⟨hq'', hmem'⟩ := hf'.apart q hq' fun hin =>
      (hap q hin).2.elim hq.not_free hQ
    exact ⟨hq'', fun j => (hmem' j).trans (hmem j)⟩
  cases hend with
  | noPlace => exact (Mapped.refl hd _).spares
  | noFrames _ _ frames => exact ((Mapped.alloc hd hc frames).mono fun _ _ h => h.elim).spares
  | recorded place frames ne mapped entry =>
    exact (AllocEnd.mapped hd hv hc hs (.recorded place frames ne mapped entry) place).spares
  | notRecorded place frames ne mapped entry fail =>
    obtain ⟨hm, hreach⟩ := mapPages_touched hd hv hc place frames ne mapped
    obtain ⟨hvalid, hap⟩ := hmap frames ne mapped
    have hm' : Mapped A _ _ _ ((st.spaces sp).Touched A sp st.machine vaddr paddr count) :=
      recordBlock_touched hm.directory hs entry
    obtain ⟨-, hspaces⟩ | ⟨h, -⟩ := recordBlock_table entry
    · dsimp only at hspaces
      rw [hspaces] at fail
      refine hfail (hm.spares.trans hm'.spares) hreach hvalid
        (fun q hq => ⟨(hm'.apart (hap q hq).1).1, (hap q hq).2⟩) fail
    · exact absurd h Bool.noConfusion
  | notMapped place frames ne mapped fail =>
    obtain ⟨hm, hreach⟩ := mapPages_touched hd hv hc place frames ne mapped
    obtain ⟨hvalid, hap⟩ := hmap frames ne mapped
    exact hfail hm.spares hreach hvalid hap fail

end C4os
