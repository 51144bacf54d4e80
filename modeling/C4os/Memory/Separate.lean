import C4os.Memory.Foreign

/-!
# The directories of several processes

* `Separate A s dir dirs R P`: the processes `P` and the kernel have directories and page tables of
  their own.
* **`Separate.serves`**, **`Separate.mapPages`**: the steps for the kernel and for a process keep them
  separate, and leave the pages of the other processes alone.
* `Leaves A P S st st'`: what a request leaves alone, the processes `S` apart;
  `SeparateSpaces.page`: a request of the kernel for a page.
-/

namespace C4os

open Machine Pages Word

variable {A : PhysAllocator} {s s' : Machine} {dir v paddr flags count p : Nat} {dirs : Nat → Nat}
  {R : Nat → Nat → Prop} {P Q : Nat → Prop}

/-- The processes `P` have directories and page tables for their pages `R`; these belong neither to
the kernel nor to another process. The other page tables may be shared. -/
structure Separate (A : PhysAllocator) (s : Machine) (dir : Nat) (dirs : Nat → Nat)
    (R : Nat → Nat → Prop) (P : Nat → Prop) : Prop where
  kernel : Directory A s dir
  foreign : ∀ p, P p → Foreign A s dir (dirs p) (R p)
  kernelApart : ∀ p, P p → Machine.Apart A s (dirs p) dir
  others : ∀ p q, P p → P q → p ≠ q → Foreign A s (dirs q) (dirs p) (R p)

/-- **A step for the kernel** keeps the processes separate, and their pages mapped as they are. -/
theorem Separate.serves (h : Separate A s dir dirs R P) (hs : Serves A s s' dir Q)
    (hQ : ∀ p, P p → ∀ q, Q q → Machine.Apart A s (dirs p) q) :
    Separate A s' dir dirs R P ∧ ∀ p, P p → ∀ w, R p w →
      (s'.getPageInfo (dirs p) w).1 = (s.getPageInfo (dirs p) w).1 := by
  refine ⟨⟨hs.directory, fun p hp => hs.foreign_self (h.foreign p hp) (hQ p hp), fun p hp => ?_,
    fun p q hp hq hne => ?_⟩, fun p hp w hw => hs.pageInfo (h.foreign p hp) (hQ p hp) hw⟩
  · obtain ⟨-, -, hkeep⟩ := hs.bystander (h.foreign p hp).own (h.foreign p hp).apart (hQ p hp)
    exact hkeep dir (h.kernelApart p hp) hs.directory.dir_used
  · exact hs.foreign (h.others p q hp hq hne) (h.foreign q hq).apart (h.foreign p hp).apart
      fun x hx => ⟨hQ q hq x hx, hQ p hp x hx⟩

/-- **Mapping pages of a process** keeps them separate, and the pages of the others mapped as they
are. -/
theorem Separate.mapPages {r : Bool × Machine} (h : Separate A s dir dirs R P) (hp : P p)
    (hv : v < 2 ^ 32) (hR : ∀ i < count, R p (pageAt v i))
    (hm : Machine.mapPages (A.alloc 1) (dirs p) v paddr count flags s = some r) :
    Separate A r.2 dir dirs R P ∧ ∀ q, P q → q ≠ p → ∀ w, R q w →
      (r.2.getPageInfo (dirs q) w).1 = (s.getPageInfo (dirs q) w).1 := by
  have hs : Serves A s r.2 (dirs p) fun _ => False :=
    (mapPages_mapped (h.foreign p hp).own hv hm).serves
  have hnone : ∀ {d}, ∀ q, False → Machine.Apart A s d q := fun _ h => h.elim
  have hkernel := ((h.foreign p hp).mapPages hv hR hm).2
  refine ⟨⟨hkernel.directory, fun q hq => ?_, fun q hq => ?_, fun a b ha hb hne => ?_⟩,
    fun q hq hne w hw => hs.pageInfo (h.others q p hq hp hne) hnone hw⟩
  · by_cases hqp : q = p
    · subst hqp
      exact hkernel
    · exact hs.foreign (h.foreign q hq) (h.kernelApart p hp) (h.others q p hq hp hqp).apart
        fun _ h => h.elim
  · by_cases hqp : q = p
    · subst hqp
      exact (hs.apart dir (h.kernelApart q hq) not_false).1
    · obtain ⟨-, -, hkeep⟩ := hs.bystander (h.foreign q hq).own (h.others q p hq hp hqp).apart hnone
      exact hkeep dir (h.kernelApart q hq) hkernel.directory.dir_used
  · by_cases hap : a = p
    · subst hap
      exact ((h.others a b ha hb hne).mapPages hv hR hm).2
    · by_cases hbp : b = p
      · subst hbp
        exact hs.foreign_self (h.others a b ha hb hne) hnone
      · exact hs.foreign (h.others a b ha hb hne) (h.others b p hb hp hbp).apart
          (h.others a p ha hp hap).apart fun _ h => h.elim

/-! ## Requests -/

/-- The page of `w` is one of the address space. -/
def InSpace (as : AddressSpace) (w : Nat) : Prop :=
  as.start / 4096 ≤ w / 4096 ∧ w / 4096 ≤ as.endAddr / 4096

/-- The address spaces of the processes `P` have directories and page tables of their own. -/
def SeparateSpaces (A : PhysAllocator) (st : VirtState) (P : Nat → Prop) : Prop :=
  Separate A st.machine (st.spaces .kernel).pageDir (fun p => (st.spaces (.process p)).pageDir)
    (fun p => InSpace (st.spaces (.process p))) P

/-- The directory and the bounds of an address space. -/
def SameBounds (as as' : AddressSpace) : Prop :=
  as'.pageDir = as.pageDir ∧ as'.start = as.start ∧ as'.endAddr = as.endAddr

/-- The address spaces stay separate, and those of processes outside `S` as they are. -/
structure Leaves (A : PhysAllocator) (P S : Nat → Prop) (st st' : VirtState) : Prop where
  separate : SeparateSpaces A st' P
  bounds : ∀ p, SameBounds (st.spaces (.process p)) (st'.spaces (.process p))
  spaces : ∀ p, ¬ S p → st'.spaces (.process p) = st.spaces (.process p)
  info : ∀ p, P p → ¬ S p → ∀ w, InSpace (st.spaces (.process p)) w →
    (st'.machine.getPageInfo (st.spaces (.process p)).pageDir w).1 =
      (st.machine.getPageInfo (st.spaces (.process p)).pageDir w).1

variable {S : Nat → Prop} {sp : Space} {st st' st'' : VirtState} {q : Nat × VirtState}

theorem SameBounds.refl (as : AddressSpace) : SameBounds as as := ⟨rfl, rfl, rfl⟩

theorem SameBounds.inSpace {as as' : AddressSpace} (h : SameBounds as as') : InSpace as' = InSpace as := by
  unfold InSpace
  rw [h.2.1, h.2.2]

theorem SeparateSpaces.of_bounds (h : Separate A st'.machine (st.spaces .kernel).pageDir
      (fun p => (st.spaces (.process p)).pageDir) (fun p => InSpace (st.spaces (.process p))) P)
    (hk : (st'.spaces .kernel).pageDir = (st.spaces .kernel).pageDir)
    (hb : ∀ p, SameBounds (st.spaces (.process p)) (st'.spaces (.process p))) :
    SeparateSpaces A st' P := by
  unfold SeparateSpaces
  simp only [hk, (hb _).1, (hb _).inSpace]
  exact h

theorem Leaves.trans (h : Leaves A P S st st') (h' : Leaves A P S st' st'') : Leaves A P S st st'' := by
  refine ⟨h'.separate, fun p => ?_, fun p hp => (h'.spaces p hp).trans (h.spaces p hp),
    fun p hp hS w hw => ?_⟩
  · obtain ⟨h1, h2, h3⟩ := h.bounds p
    obtain ⟨h1', h2', h3'⟩ := h'.bounds p
    exact ⟨h1'.trans h1, h2'.trans h2, h3'.trans h3⟩
  · have hi := h'.info p hp hS w
    rw [h.spaces p hS] at hi
    exact (hi hw).trans (h.info p hp hS w hw)

theorem Leaves.mono {S' : Nat → Prop} (h : Leaves A P S st st') (hS : ∀ p, S p → S' p) :
    Leaves A P S' st st' :=
  ⟨h.separate, h.bounds, fun p hp => h.spaces p fun h => hp (hS p h),
    fun p hp hp' => h.info p hp fun h => hp' (hS p h)⟩

/-- **A request of the kernel for a page**, when it is met. -/
theorem SeparateSpaces.page (h : SeparateSpaces A st P)
    (hcall : allocVirtPages A .kernel 0 NIL 1 flags st = some q)
    (hm : (q.2.spaces .kernel).blockCount = (st.spaces .kernel).blockCount + 1) :
    Leaves A P (fun _ => False) st q.2 := by
  obtain ⟨hmap, hdir, -⟩ := allocVirt_mapped h.kernel hcall hm
  have hothers : ∀ p, q.2.spaces (.process p) = st.spaces (.process p) := fun p =>
    allocVirt_others (fun _ _ => growKernel_others) hcall _ Space.noConfusion
  have hs : Serves A st.machine q.2.machine (st.spaces .kernel).pageDir fun _ => False := hmap.serves
  obtain ⟨hsep, hinfo⟩ := Separate.serves h hs fun _ _ _ h => h.elim
  have hb : ∀ p, SameBounds (st.spaces (.process p)) (q.2.spaces (.process p)) := fun p => by
    rw [hothers]
    exact .refl _
  exact ⟨.of_bounds hsep hdir hb, hb, fun p _ => hothers p, fun p hp _ => hinfo p hp⟩

end C4os
