import C4os.Lib.Run
import C4os.Memory.Allocator
import C4os.Memory.PhysSpec
import Mathlib.Data.List.Pairwise

/-!
# Runs of the physical allocator

* `PhysStep`: the calls of `alloc_phys_pages` and `free_phys_pages` on memory that was given to the
  allocator once, and with the ranges that are handed out.
* `NoDoubleAllocation`: what is handed out and what is on the ring share no page.
* `SafeFree`: the branch of `free_phys_pages` neither grows the only block downwards nor inserts
  into a ring of three blocks or more.
* **`no_double_allocation`**: runs through safe branches; `calls_return`: the calls of such a run
  return; `double_allocation_down`: a run that is not safe.
-/

namespace C4os

open Linked Pages Transition

namespace Machine

variable {s : Machine} {bs : List Nat} {a b base count fuel k : Nat}

/-! ## Fuel -/

theorem allocLoop_mono {r : Nat × Machine} (h : allocLoop count fuel a s = some r)
    (hk : fuel ≤ k) : allocLoop count k a s = some r := by
  induction fuel generalizing a s k with
  | zero => simp [allocLoop] at h
  | succ fuel ih =>
    obtain ⟨k, rfl⟩ := Nat.exists_eq_succ_of_ne_zero (Nat.ne_of_gt (Nat.zero_lt_of_lt hk))
    simp only [allocLoop] at h ⊢
    split_ifs at h ⊢ with h1 h2 h3
    · exact h
    · exact h
    · exact ih h (Nat.le_of_succ_le_succ hk)
    · exact h

theorem freeLoop_mono {t : Machine} (h : freeLoop base count fuel a s = some t) (hk : fuel ≤ k) :
    freeLoop base count k a s = some t := by
  induction fuel generalizing a s k with
  | zero => simp [freeLoop] at h
  | succ fuel ih =>
    obtain ⟨k, rfl⟩ := Nat.exists_eq_succ_of_ne_zero (Nat.ne_of_gt (Nat.zero_lt_of_lt hk))
    simp only [freeLoop] at h ⊢
    split_ifs at h ⊢ with h1 h2 h3 h4
    · exact h
    · exact h
    · exact h
    · exact ih h (Nat.le_of_succ_le_succ hk)
    · exact h

theorem allocPhysPages_mono {r : Nat × Machine} (h : allocPhysPages fuel count s = some r)
    (hk : fuel ≤ k) : allocPhysPages k count s = some r := by
  simp only [allocPhysPages, allocLocked] at h ⊢
  split_ifs at h ⊢ with h1
  · exact h
  · cases hm : s.mutexGetPhys with
    | none => simp [hm] at h
    | some t =>
      simp only [hm, Option.bind_some] at h ⊢
      split_ifs at h ⊢ with h2
      · obtain ⟨q, hq, rfl⟩ := Option.map_eq_some_iff.mp h
        obtain ⟨p, hp, rfl⟩ := Option.map_eq_some_iff.mp hq
        rw [allocLoop_mono hp hk]
        rfl
      · exact h

theorem freePhysPages_mono {t : Machine} (h : freePhysPages fuel base count s = some t)
    (hk : fuel ≤ k) : freePhysPages k base count s = some t := by
  simp only [freePhysPages, freeLocked] at h ⊢
  cases hm : s.mutexGetPhys with
  | none => simp [hm] at h
  | some t =>
    simp only [hm, Option.bind_some] at h ⊢
    split_ifs at h ⊢ with h2
    · exact h
    · obtain ⟨q, hq, rfl⟩ := Option.map_eq_some_iff.mp h
      obtain ⟨p, hp, rfl⟩ := Option.map_eq_some_iff.mp hq
      rw [freeLoop_mono hp hk]
      rfl

/-! ## Runs -/

/-- The block `b` is reached from `free_phys_memory_pointer`. -/
def Reachable (s : Machine) (b : Nat) : Prop :=
  s.freePhysMemoryPointer ≠ NIL ∧ ∃ k, s.next^[k] s.freePhysMemoryPointer = b

/-- The branch that `free_phys_pages` takes keeps the ring closed: it grows a block downwards only
when there is another one, and inserts a block only next to at most two. -/
def SafeFree (s : Machine) (r : Range) : Prop :=
  s.freePhysMemoryPointer ≠ NIL → ∀ bs c, s.RingAt bs →
    freeCase s.size r.base r.count bs = some c → c.Safe bs

end Machine

open Machine

/-- The allocator, the memory it was ever given and the ranges that are handed out. -/
structure PhysState where
  machine : Machine
  given : List Range
  out : List Range

/-- A call of the allocator, where `give` is a free of memory that the allocator never had. -/
inductive PhysOp where
  | alloc (count : Nat)
  | give (r : Range)
  | free (r : Range)

/-- The calls of a run. -/
def PhysStep (σ : PhysState) : PhysOp → PhysState → Prop
  | .alloc count, σ' => 1 ≤ count ∧ ∃ fuel p m, σ.machine.allocPhysPages fuel count = some (p, m) ∧
      σ' = { σ with machine := m, out := if p = NIL then σ.out else ⟨p, count⟩ :: σ.out }
  | .give r, σ' => r.Valid ∧ (∀ g ∈ σ.given, r.Disjoint g) ∧
      ∃ fuel m, σ.machine.freePhysPages fuel r.base r.count = some m ∧
        σ' = { σ with machine := m, given := r :: σ.given }
  | .free r, σ' => r ∈ σ.out ∧
      ∃ fuel m, σ.machine.freePhysPages fuel r.base r.count = some m ∧
        σ' = { σ with machine := m, out := σ.out.erase r }

/-- No page is handed out twice or handed out while it is free. -/
structure NoDoubleAllocation (s : Machine) (out : List Range) : Prop where
  outOut : out.Pairwise Range.Disjoint
  outFree : ∀ r ∈ out, ∀ b, s.Reachable b → r.Disjoint ⟨b, s.size b⟩
  freeFree : ∀ a b, s.Reachable a → s.Reachable b → a ≠ b →
    Range.Disjoint ⟨a, s.size a⟩ ⟨b, s.size b⟩
  count : ∃ bs : List Nat, bs.Nodup ∧ (∀ b, b ∈ bs ↔ s.Reachable b) ∧
    s.freePageCount = (bs.map s.size).sum

/-- A free finds a free list on which its branch is safe. -/
def PhysOp.Safe (σ : PhysState) : PhysOp → Prop
  | .alloc _ => True
  | .give r => σ.machine.SafeFree r
  | .free r => σ.machine.SafeFree r

/-- The free list is a ring, and no page is on it or handed out twice. -/
structure PhysInv (σ : PhysState) (bs : List Nat) : Prop where
  ring : σ.machine.FreeRing bs
  unlocked : σ.machine.physMemoryMutex = false
  nodup : (σ.out.flatMap Range.pages ++ σ.machine.freePages bs).Nodup
  given : ∀ x ∈ σ.out.flatMap Range.pages ++ σ.machine.freePages bs, ∃ g ∈ σ.given, x ∈ g.pages
  valid : ∀ r ∈ σ.out, r.Valid

variable {σ σ' : PhysState} {bs : List Nat} {r : Range}

theorem Machine.FreeRing.reachable_iff {s : Machine} (h : s.FreeRing bs) {b : Nat} :
    s.Reachable b ↔ b ∈ bs := by
  cases bs with
  | nil => exact iff_of_false (fun hr => hr.1 (h.pointer_eq_NIL.mpr rfl)) (by simp)
  | cons a l =>
    have hp : s.freePhysMemoryPointer = a := h.ringAt.1
    have hn : s.freePhysMemoryPointer ≠ NIL := fun e => by simpa using h.pointer_eq_NIL.mp e
    rw [h.ringAt.2.mem_iff_iterate, Machine.Reachable, hp]
    exact and_iff_right (hp ▸ hn)

theorem PhysInv.valid_block (h : PhysInv σ bs) {b : Nat} (hb : b ∈ bs) :
    (⟨b, σ.machine.size b⟩ : Range).Valid :=
  ⟨h.ring.aligned b hb, h.ring.bound b hb, h.ring.pos b hb⟩

/-- **The invariant says that no page is allocated twice.** -/
theorem PhysInv.noDoubleAllocation (h : PhysInv σ bs) :
    NoDoubleAllocation σ.machine σ.out := by
  obtain ⟨hout, hfree, hdisj⟩ := List.nodup_append'.mp h.nodup
  refine ⟨?_, fun r hr b hb => ?_, fun a b ha hb hab => ?_,
    bs, h.ring.nodup, fun b => h.ring.reachable_iff.symm, h.ring.count⟩
  · refine ((List.nodup_flatMap.mp hout).2).imp_of_mem fun hr hq hd => ?_
    exact (h.valid _ hr).disjoint (h.valid _ hq) hd
  · have hb := h.ring.reachable_iff.mp hb
    refine (h.valid r hr).disjoint (h.valid_block hb) fun x hx hxb => ?_
    exact hdisj (List.mem_flatMap.mpr ⟨r, hr, hx⟩) (List.mem_flatMap.mpr ⟨b, hb, hxb⟩)
  · have ha := h.ring.reachable_iff.mp ha
    have hb := h.ring.reachable_iff.mp hb
    have hsymm : Std.Symm (Function.onFun List.Disjoint fun b => pages 4096 b (σ.machine.size b)) :=
      ⟨fun _ _ hd _ ha hb => hd hb ha⟩
    exact (h.valid_block ha).disjoint (h.valid_block hb)
      ((List.nodup_flatMap.mp hfree).2.forall ha hb hab)

theorem PhysInv.alloc (h : PhysInv σ bs) {count : Nat} (hs : PhysStep σ (.alloc count) σ') :
    ∃ bs', PhysInv σ' bs' := by
  obtain ⟨hc, fuel, p, m, he, rfl⟩ := hs
  obtain ⟨hout, hfree, hdisj⟩ := List.nodup_append'.mp h.nodup
  obtain ⟨⟨p', m'⟩, bs', he', hm, hring, ha, -⟩ := allocPhysPages_spec h.ring h.unlocked hfree hc
    (Nat.le_max_right fuel bs.length)
  obtain ⟨rfl, rfl⟩ : p = p' ∧ m = m' := by
    simpa using (allocPhysPages_mono he (Nat.le_max_left fuel bs.length)).symm.trans he'
  rcases ha with ⟨rfl, rfl, hp⟩ | ⟨hal, hbd, hperm⟩
  · exact ⟨bs', hring, hm, by simpa [hp] using h.nodup, by simpa [hp] using h.given,
      by simpa using h.valid⟩
  · have hne : p ≠ NIL := fun e => by
      dsimp only at hal
      rw [e] at hal
      exact absurd hal (by decide)
    have hperm' : (σ.out.flatMap Range.pages ++ σ.machine.freePages bs).Perm
        ((⟨p, count⟩ :: σ.out : List Range).flatMap Range.pages ++ m.freePages bs') := by
      refine (hperm.append_left _).trans ?_
      rw [← List.append_assoc]
      exact List.perm_append_comm.append_right _
    refine ⟨bs', hring, hm, ?_, ?_, ?_⟩ <;> simp only [if_neg hne]
    · exact hperm'.nodup_iff.mp h.nodup
    · exact fun x hx => h.given x (hperm'.mem_iff.mpr hx)
    · exact fun r hr => (List.mem_cons.mp hr).elim (fun e => e ▸ ⟨hal, hbd, hc⟩) (h.valid r)

theorem Machine.SafeFree.freeCase {s : Machine} (hs : s.SafeFree r) (h : s.FreeRing bs)
    (c : FreeCase) (hc : Machine.freeCase s.size r.base r.count bs = some c) : c.Safe bs := by
  refine hs (fun e => ?_) bs c h.ringAt hc
  rw [h.pointer_eq_NIL.mp e] at hc
  simp [Machine.freeCase] at hc

theorem PhysInv.freePhysPages_eq (h : PhysInv σ bs) {fuel : Nat} (hr : r.Valid)
    (hs : σ.machine.SafeFree r) (hnd : (r.pages ++ σ.machine.freePages bs).Nodup)
    (hf : bs.length ≤ fuel) :
    ∃ m bs', σ.machine.freePhysPages fuel r.base r.count = some m ∧ m.physMemoryMutex = false ∧
      m.FreeRing bs' ∧ (m.freePages bs').Perm (r.pages ++ σ.machine.freePages bs) := by
  obtain ⟨m, bs', he, hm, hring, hp, -⟩ := freePhysPages_spec h.ring h.unlocked
    ⟨hr.aligned, hr.bound, hr.pos, hnd⟩ (hs.freeCase h.ring) hf
  exact ⟨m, bs', he, hm, hring, hp⟩

theorem PhysInv.insert (h : PhysInv σ bs) {m : Machine} {fuel : Nat} (hr : r.Valid)
    (hs : σ.machine.SafeFree r) (hf : σ.machine.freePhysPages fuel r.base r.count = some m)
    (hnd : (r.pages ++ σ.machine.freePages bs).Nodup) :
    ∃ bs', m.FreeRing bs' ∧ m.physMemoryMutex = false ∧
      (m.freePages bs').Perm (r.pages ++ σ.machine.freePages bs) := by
  obtain ⟨m', bs', he, hm, hring, hp⟩ := h.freePhysPages_eq hr hs hnd
    (Nat.le_max_right fuel bs.length)
  obtain rfl : m = m' := by
    simpa using (freePhysPages_mono hf (Nat.le_max_left fuel bs.length)).symm.trans he
  exact ⟨bs', hring, hm, hp⟩

theorem PhysInv.nodup_give (h : PhysInv σ bs) (hnew : ∀ g ∈ σ.given, r.Disjoint g) :
    (r.pages ++ (σ.out.flatMap Range.pages ++ σ.machine.freePages bs)).Nodup := by
  refine List.nodup_append'.mpr ⟨nodup_pages (by decide), h.nodup, fun x hx hx' => ?_⟩
  obtain ⟨g, hg, hxg⟩ := h.given x hx'
  exact (hnew g hg).pages hx hxg

theorem perm_erase (bs : List Nat) (hr : r ∈ σ.out) :
    (σ.out.flatMap Range.pages ++ σ.machine.freePages bs).Perm
      ((σ.out.erase r).flatMap Range.pages ++ (r.pages ++ σ.machine.freePages bs)) := by
  have hperm : (σ.out.flatMap Range.pages).Perm
      (r.pages ++ (σ.out.erase r).flatMap Range.pages) :=
    (List.perm_cons_erase hr).flatMap_right Range.pages
  rw [← List.append_assoc]
  exact (hperm.trans List.perm_append_comm).append_right _

theorem PhysInv.give (h : PhysInv σ bs) (hs : PhysStep σ (.give r) σ')
    (hsafe : σ.machine.SafeFree r) : ∃ bs', PhysInv σ' bs' := by
  obtain ⟨hr, hnew, fuel, m, hf, rfl⟩ := hs
  have hnd := h.nodup_give hnew
  obtain ⟨bs', hring, hm, hp⟩ := h.insert hr hsafe hf
    (hnd.sublist ((List.sublist_append_right _ _).append_left _))
  have hperm : (σ.out.flatMap Range.pages ++ m.freePages bs').Perm
      (r.pages ++ (σ.out.flatMap Range.pages ++ σ.machine.freePages bs)) := by
    refine (hp.append_left _).trans ?_
    rw [← List.append_assoc, ← List.append_assoc]
    exact List.perm_append_comm.append_right _
  refine ⟨bs', hring, hm, hperm.nodup_iff.mpr hnd, fun x hx => ?_, h.valid⟩
  rcases List.mem_append.mp (hperm.mem_iff.mp hx) with hx | hx
  · exact ⟨r, by simp, hx⟩
  · obtain ⟨g, hg, hxg⟩ := h.given x hx
    exact ⟨g, List.mem_cons_of_mem r hg, hxg⟩

theorem PhysInv.free (h : PhysInv σ bs) (hs : PhysStep σ (.free r) σ')
    (hsafe : σ.machine.SafeFree r) : ∃ bs', PhysInv σ' bs' := by
  obtain ⟨hr, fuel, m, hf, rfl⟩ := hs
  have hperm₁ := perm_erase bs hr
  have hnd := hperm₁.nodup_iff.mp h.nodup
  obtain ⟨bs', hring, hm, hp⟩ := h.insert (h.valid r hr) hsafe hf (List.nodup_append'.mp hnd).2.1
  have hperm := (hp.append_left ((σ.out.erase r).flatMap Range.pages)).trans hperm₁.symm
  exact ⟨bs', hring, hm, hperm.nodup_iff.mpr h.nodup,
    fun x hx => h.given x (hperm.mem_iff.mp hx), fun q hq => h.valid q (List.mem_of_mem_erase hq)⟩

theorem PhysInv.step (h : PhysInv σ bs) {op : PhysOp} (hs : PhysStep σ op σ')
    (hsafe : op.Safe σ) : ∃ bs', PhysInv σ' bs' := by
  cases op with
  | alloc count => exact h.alloc hs
  | give r => exact h.give hs hsafe
  | free r => exact h.free hs hsafe

/-- The empty free list. -/
def Machine.Empty (s : Machine) : Prop :=
  s.freePhysMemoryPointer = NIL ∧ s.freePageCount = 0 ∧ s.physMemoryMutex = false

theorem Machine.Empty.physInv {s : Machine} (h : s.Empty) : PhysInv ⟨s, [], []⟩ [] :=
  ⟨⟨h.1, by simp, by simp, by simp, h.2.1⟩, h.2.2, by simp [freePages], by simp [freePages],
    by simp⟩

/-- A run from the empty free list whose frees take safe branches. -/
abbrev SafeRun (s : Machine) (ops : List PhysOp) (σ : PhysState) : Prop :=
  Run (fun σ op σ' => PhysStep σ op σ' ∧ op.Safe σ) ⟨s, [], []⟩ ops σ

theorem SafeRun.physInv {s : Machine} {ops : List PhysOp} (h : s.Empty) (hrun : SafeRun s ops σ) :
    ∃ bs, PhysInv σ bs :=
  hrun.invariant (I := fun σ => ∃ bs, PhysInv σ bs) (fun _ _ _ ⟨_, hi⟩ hs => hi.step hs.1 hs.2)
    ⟨[], h.physInv⟩

/-- **No page is allocated twice** in a run from the empty free list whose frees take safe
branches. -/
theorem no_double_allocation {s : Machine} {ops : List PhysOp} (h : s.Empty)
    (hrun : SafeRun s ops σ) : NoDoubleAllocation σ.machine σ.out := by
  obtain ⟨bs, hinv⟩ := hrun.physInv h
  exact hinv.noDoubleAllocation

/-- **The calls of such a run return.** -/
theorem calls_return {s : Machine} {ops : List PhysOp} (h : s.Empty) (hrun : SafeRun s ops σ) :
    (∀ count, 1 ≤ count → ∃ σ', PhysStep σ (.alloc count) σ') ∧
      (∀ r, r.Valid → (∀ g ∈ σ.given, r.Disjoint g) → σ.machine.SafeFree r →
        ∃ σ', PhysStep σ (.give r) σ') ∧
      ∀ r ∈ σ.out, σ.machine.SafeFree r → ∃ σ', PhysStep σ (.free r) σ' := by
  obtain ⟨bs, hinv⟩ := hrun.physInv h
  have hfree := (List.nodup_append'.mp hinv.nodup).2.1
  refine ⟨fun count hc => ?_, fun r hr hnew hs => ?_, fun r hr hs => ?_⟩
  · obtain ⟨p, -, he, -⟩ := allocPhysPages_spec hinv.ring hinv.unlocked hfree hc (Nat.le_refl _)
    exact ⟨_, hc, _, p.1, p.2, he, rfl⟩
  · have hnd := (hinv.nodup_give hnew).sublist
      ((List.sublist_append_right _ _).append_left r.pages)
    obtain ⟨m, -, he, -⟩ := hinv.freePhysPages_eq hr hs hnd (Nat.le_refl _)
    exact ⟨_, hr, hnew, _, m, he, rfl⟩
  · have hnd := (List.nodup_append'.mp ((perm_erase bs hr).nodup_iff.mp hinv.nodup)).2.1
    obtain ⟨m, -, he, -⟩ := hinv.freePhysPages_eq (hinv.valid r hr) hs hnd (Nat.le_refl _)
    exact ⟨_, hr, _, m, he, rfl⟩

/-- An empty free list, with the page table of the window at `0xFFE000`. -/
def emptyMachine : Machine := ⟨fun _ _ => 0, 0xFFE000, 0, NIL, false⟩

/-- Three pages given in two ranges, one of which is handed out. -/
theorem no_double_allocation_up :
    ∃ σ, SafeRun emptyMachine [.give ⟨0x1000, 2⟩, .give ⟨0x3000, 1⟩, .alloc 1] σ ∧
      σ.out = [⟨0x3000, 1⟩] ∧ NoDoubleAllocation σ.machine σ.out := by
  obtain ⟨m₁, h₁⟩ : ∃ m, emptyMachine.freePhysPages 1 0x1000 2 = some m :=
    Option.isSome_iff_exists.mp (by decide +kernel)
  have h : ((emptyMachine.freePhysPages 1 0x1000 2).bind fun m =>
      (m.freePhysPages 1 0x3000 1).map fun m₂ => (m.freePhysMemoryPointer, m.size 0x1000,
        (m₂.allocPhysPages 1 1).map Prod.fst)) = some (0x1000, 2, some 0x3000) := by
    decide +kernel
  rw [h₁, Option.bind_some] at h
  obtain ⟨m₂, h₂, h⟩ := Option.map_eq_some_iff.mp h
  simp only [Prod.mk.injEq] at h
  obtain ⟨hp, hs, h⟩ := h
  obtain ⟨⟨p, m₃⟩, h₃, rfl⟩ := Option.map_eq_some_iff.mp h
  have step₁ : PhysStep ⟨emptyMachine, [], []⟩ (.give ⟨0x1000, 2⟩) ⟨m₁, [⟨0x1000, 2⟩], []⟩ :=
    ⟨⟨by decide, by decide, by decide⟩, by simp, 1, m₁, h₁, rfl⟩
  have step₂ : PhysStep ⟨m₁, [⟨0x1000, 2⟩], []⟩ (.give ⟨0x3000, 1⟩)
      ⟨m₂, [⟨0x3000, 1⟩, ⟨0x1000, 2⟩], []⟩ :=
    ⟨⟨by decide, by decide, by decide⟩, by simp [Range.Disjoint], 1, m₂, h₂, rfl⟩
  have step₃ : PhysStep ⟨m₂, [⟨0x3000, 1⟩, ⟨0x1000, 2⟩], []⟩ (.alloc 1)
      ⟨m₃, [⟨0x3000, 1⟩, ⟨0x1000, 2⟩], [⟨0x3000, 1⟩]⟩ :=
    ⟨by decide, 1, _, m₃, h₃, rfl⟩
  have safe₂ : m₁.SafeFree ⟨0x3000, 1⟩ := by
    intro _ bs c hr hc
    match bs with
    | [] => simp [freeCase] at hc
    | b :: bs =>
      obtain rfl : b = 0x1000 := hr.1.symm.trans hp
      rw [freeCase, if_pos (by rw [hs])] at hc
      obtain rfl := Option.some.inj hc
      exact trivial
  have hrun : SafeRun emptyMachine [.give ⟨0x1000, 2⟩, .give ⟨0x3000, 1⟩, .alloc 1]
      ⟨m₃, [⟨0x3000, 1⟩, ⟨0x1000, 2⟩], [⟨0x3000, 1⟩]⟩ :=
    .cons ⟨step₁, fun e => absurd rfl e⟩ (.cons ⟨step₂, safe₂⟩ (.cons ⟨step₃, trivial⟩ (.nil _)))
  exact ⟨_, hrun, rfl, no_double_allocation ⟨rfl, rfl, rfl⟩ hrun⟩

/-- **Growing the only block downwards leaves the old block on the ring**: after `[0x2000, 0x3000)`
and then `[0x1000, 0x2000)` are given, the blocks `(0x1000, 2)` and `(0x2000, 1)` are both free. -/
theorem double_allocation_down : ∃ σ,
    Run PhysStep ⟨emptyMachine, [], []⟩ [.give ⟨0x2000, 1⟩, .give ⟨0x1000, 1⟩] σ ∧
      ¬ NoDoubleAllocation σ.machine σ.out := by
  obtain ⟨m₁, h₁⟩ : ∃ m, emptyMachine.freePhysPages 1 0x2000 1 = some m :=
    Option.isSome_iff_exists.mp (by decide +kernel)
  obtain ⟨m₂, h₂⟩ : ∃ m, m₁.freePhysPages 1 0x1000 1 = some m := by
    have h : ((emptyMachine.freePhysPages 1 0x2000 1).bind (freePhysPages 1 0x1000 1)).isSome :=
      by decide +kernel
    rw [h₁] at h
    exact Option.isSome_iff_exists.mp h
  have h : ((emptyMachine.freePhysPages 1 0x2000 1).bind (freePhysPages 1 0x1000 1)).map
      (fun m => (m.freePhysMemoryPointer, m.next 0x1000, m.size 0x1000, m.size 0x2000)) =
        some (0x1000, 0x2000, 2, 1) := by decide +kernel
  rw [h₁, Option.bind_some, h₂] at h
  simp only [Option.map_some, Option.some.injEq, Prod.mk.injEq] at h
  obtain ⟨hp, hn, hs₁, hs₂⟩ := h
  have step₁ : PhysStep ⟨emptyMachine, [], []⟩ (.give ⟨0x2000, 1⟩) ⟨m₁, [⟨0x2000, 1⟩], []⟩ :=
    ⟨⟨by decide, by decide, by decide⟩, by simp, 1, m₁, h₁, rfl⟩
  have step₂ : PhysStep ⟨m₁, [⟨0x2000, 1⟩], []⟩ (.give ⟨0x1000, 1⟩)
      ⟨m₂, [⟨0x1000, 1⟩, ⟨0x2000, 1⟩], []⟩ :=
    ⟨⟨by decide, by decide, by decide⟩, by simp [Range.Disjoint], 1, m₂, h₂, rfl⟩
  refine ⟨_, .cons step₁ (.cons step₂ (.nil _)), fun hok => ?_⟩
  have hd := hok.freeFree 0x1000 0x2000 ⟨by rw [hp]; decide, 0, hp⟩
    ⟨by rw [hp]; decide, 1, by rw [hp]; exact hn⟩ (by decide)
  simp [Range.Disjoint, hs₁, hs₂] at hd

end C4os
