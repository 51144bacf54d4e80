import C4os.Lib.Pages
import C4os.Memory.Window

/-!
# A correct physical allocator

* `Range`: a range of whole pages.
* `Kept P s s'`, `Touch P s s'`: only frames of `P` and the entry of the window change.
* `PhysAllocator`: what the layers above rely on: an allocation returns `-1` or pages that were
  free, and the allocator writes to free frames only.
-/

namespace C4os

open Pages Word

/-- A range of whole pages. -/
structure Range where
  base : Nat
  count : Nat
deriving DecidableEq

namespace Range

/-- The pages of a range. -/
def pages (r : Range) : List Nat := Pages.pages 4096 r.base r.count

/-- One range ends before the other begins. -/
def Disjoint (r q : Range) : Prop :=
  r.base + r.count * 4096 ≤ q.base ∨ q.base + q.count * 4096 ≤ r.base

/-- A range of pages below the end of memory. -/
structure Valid (r : Range) : Prop where
  aligned : 4096 ∣ r.base
  bound : r.base + r.count * 4096 < 2 ^ 32
  pos : 1 ≤ r.count

variable {r q : Range}

theorem Disjoint.symm (h : r.Disjoint q) : q.Disjoint r := Or.symm h

theorem Disjoint.pages (h : r.Disjoint q) : r.pages.Disjoint q.pages := by
  intro x hr hq
  have h1 := lt_of_mem_pages hr
  have h2 := lt_of_mem_pages hq
  rcases h with h | h <;> omega

theorem Valid.disjoint (hr : r.Valid) (hq : q.Valid) (h : r.pages.Disjoint q.pages) :
    r.Disjoint q :=
  pages_disjoint hr.aligned hq.aligned hr.pos hq.pos h

end Range

/-! ## What an operation writes -/

/-- Only the frames of `P` and the entry of the window change. -/
structure Kept (P : Nat → Prop) (s s' : Machine) : Prop where
  kernelPageTable : s'.kernelPageTable = s.kernelPageTable
  mem : ∀ q i, ¬ P q → ¬ (q = s.kernelPageTable ∧ i = 1023) → s'.mem q i = s.mem q i

/-- And the variables of the allocator do not. -/
structure Touch (P : Nat → Prop) (s s' : Machine) : Prop extends Kept P s s' where
  count : s'.freePageCount = s.freePageCount
  pointer : s'.freePhysMemoryPointer = s.freePhysMemoryPointer
  mutex : s'.physMemoryMutex = s.physMemoryMutex

variable {P Q : Nat → Prop} {s s' s'' : Machine}

theorem Kept.mono (h : Kept P s s') (hPQ : ∀ q, P q → Q q) : Kept Q s s' :=
  ⟨h.kernelPageTable, fun q i hq => h.mem q i fun hp => hq (hPQ q hp)⟩

theorem Kept.trans (h : Kept P s s') (h' : Kept P s' s'') : Kept P s s'' := by
  refine ⟨h'.kernelPageTable.trans h.kernelPageTable, fun q i hq hw => ?_⟩
  rw [h'.mem q i hq (by rwa [h.kernelPageTable]), h.mem q i hq hw]

theorem Kept.setVars (h : Kept P s s') (n p : Nat) (m : Bool) : Kept P s { s' with
    freePageCount := n, freePhysMemoryPointer := p, physMemoryMutex := m } :=
  ⟨h.kernelPageTable, h.mem⟩

theorem Touch.mono (h : Touch P s s') (hPQ : ∀ q, P q → Q q) : Touch Q s s' :=
  ⟨h.toKept.mono hPQ, h.count, h.pointer, h.mutex⟩

theorem Touch.trans (h : Touch P s s') (h' : Touch P s' s'') : Touch P s s'' :=
  ⟨h.toKept.trans h'.toKept, h'.count.trans h.count, h'.pointer.trans h.pointer,
    h'.mutex.trans h.mutex⟩

theorem Kept.refl (P : Nat → Prop) (s : Machine) : Kept P s s := ⟨rfl, fun _ _ _ _ => rfl⟩

theorem Touch.refl (P : Nat → Prop) (s : Machine) : Touch P s s := ⟨Kept.refl P s, rfl, rfl, rfl⟩

theorem touch_tempMapPage (P : Nat → Prop) (s : Machine) (a : Nat) :
    Touch P s (s.tempMapPage a) := by
  refine ⟨⟨rfl, fun q i _ hw => ?_⟩, rfl, rfl, rfl⟩
  rw [mem_tempMapPage_eq, if_neg hw]

theorem touch_tempSet (s : Machine) (i v : Nat) : Touch (· = s.window) s (s.tempSet i v) := by
  refine ⟨⟨rfl, fun q j hq _ => ?_⟩, rfl, rfl, rfl⟩
  rw [mem_tempSet, if_neg fun h => hq h.1]

theorem Touch.map (h : Touch P s s') (a : Nat) : Touch P s (s'.tempMapPage a) :=
  h.trans (touch_tempMapPage P s' a)

theorem Touch.set {a : Nat} (h : Touch P s s') (hw : s'.window = a) (ha : P a) (i v : Nat) :
    Touch P s (s'.tempSet i v) :=
  h.trans ((touch_tempSet s' i v).mono fun _ hq => (hq.trans hw) ▸ ha)

/-- **A correct physical allocator.** `Free s p` says that the frame `p` is free, `Ok` is the
invariant of the allocator's own data, which lies in the free frames. -/
structure PhysAllocator where
  alloc : Nat → Machine → Option (Nat × Machine)
  free : Nat → Nat → Machine → Option Machine
  Ok : Machine → Prop
  Free : Machine → Nat → Prop
  frame {s : Machine} {p : Nat} : Ok s → Free s p → Frame p
  touch {s s' : Machine} {P : Nat → Prop} : Ok s → Touch P s s' → (∀ q, P q → ¬ Free s q) →
    Ok s' ∧ ∀ p, Free s' p ↔ Free s p
  alloc_spec {s s' : Machine} {count r : Nat} : Ok s → 1 ≤ count →
    alloc count s = some (r, s') → Ok s' ∧ Kept (Free s) s s' ∧
      ((r = NIL ∧ ∀ p, Free s' p ↔ Free s p) ∨
        ((⟨r, count⟩ : Range).Valid ∧ (∀ p ∈ (⟨r, count⟩ : Range).pages, Free s p) ∧
          ∀ p, Free s' p ↔ Free s p ∧ p ∉ (⟨r, count⟩ : Range).pages))
  free_spec {s s' : Machine} {r : Range} : Ok s → r.Valid → (∀ p ∈ r.pages, ¬ Free s p) →
    free r.base r.count s = some s' → Ok s' ∧ Kept (fun q => Free s q ∨ q ∈ r.pages) s s' ∧
      ∀ p, Free s' p ↔ Free s p ∨ p ∈ r.pages

end C4os
