import C4os.Memory.Window

/-!
# The physical page allocator (`memory_manager.c`)

Free memory is a ring of blocks; the first page of a block holds its `PhysMemoryBlock`, reached
through the window.

* `allocPhysPages`, `freePhysPages`: the two functions. Their loops run on fuel; `none` is a call
  that does not return.
* `unlinkBlock`, `splitBlock`, `extendUp`, `extendDown`, `insertBlock`: what the branches of the
  loops do to the block at `cur`, which the window shows.
-/

namespace C4os

namespace Machine

/-- `((PhysMemoryBlock*)TEMP_PAGE)->next`, and so on: the words of a block header. -/
def NEXT : Nat := 0

/-- The word of `prev`. -/
def PREV : Nat := 1

/-- The word of `size`. -/
def SIZE : Nat := 2

/-- `mutex_get(&phys_memory_mutex, true)`. -/
def mutexGetPhys (s : Machine) : Option Machine :=
  if s.physMemoryMutex then none else some { s with physMemoryMutex := true }

/-- `mutex_release(&phys_memory_mutex)`. -/
def mutexReleasePhys (s : Machine) : Machine := { s with physMemoryMutex := false }

/-! ## `alloc_phys_pages` -/

/-- The head update after `cur` left the ring. -/
def unlinkHead (cur next : Nat) (s : Machine) : Machine :=
  if cur = s.freePhysMemoryPointer then
    if cur = next then { s with freePhysMemoryPointer := NIL }
    else { s with freePhysMemoryPointer := next }
  else s

/-- An exact fit: the block `cur` leaves the ring. -/
def unlinkBlock (cur : Nat) (s : Machine) : Machine :=
  let next := s.tempGet NEXT
  let prev := s.tempGet PREV
  let s := (s.tempMapPage next).tempSet PREV prev
  let s := (s.tempMapPage prev).tempSet NEXT next
  s.unlinkHead cur next

/-- A larger block: its last `count` pages are taken. -/
def splitBlock (count : Nat) (s : Machine) : Machine :=
  s.tempSet SIZE (sub32 (s.tempGet SIZE) count)

/-- The `do … while` of `alloc_phys_pages`, at `cur_block = cur`. -/
def allocLoop (count : Nat) : Nat → Nat → Machine → Option (Nat × Machine)
  | 0, _, _ => none
  | fuel + 1, cur, s =>
    let s := s.tempMapPage cur
    if s.tempGet SIZE = count then
      some (cur, s.unlinkBlock cur)
    else if s.tempGet SIZE > count then
      let s := s.splitBlock count
      some (add32 cur (pageShift (s.tempGet SIZE)), s)
    else
      let cur := s.tempGet NEXT
      if cur ≠ s.freePhysMemoryPointer then allocLoop count fuel cur s else some (NIL, s)

/-- `alloc_phys_pages` with the mutex held. -/
def allocLocked (fuel count : Nat) (s : Machine) : Option (Nat × Machine) :=
  if s.freePhysMemoryPointer ≠ NIL then
    (allocLoop count fuel s.freePhysMemoryPointer s).map fun r =>
      if r.1 ≠ NIL then (r.1, { r.2 with freePageCount := sub32 r.2.freePageCount count }) else r
  else
    some (NIL, s)

/-- `alloc_phys_pages`. -/
def allocPhysPages (fuel count : Nat) (s : Machine) : Option (Nat × Machine) :=
  if s.freePageCount < count then some (NIL, s)
  else
    s.mutexGetPhys.bind fun s =>
      (allocLocked fuel count s).map fun r => (r.1, r.2.mutexReleasePhys)

/-! ## `free_phys_pages` -/

/-- The range becomes the only block. -/
def firstBlock (base count : Nat) (s : Machine) : Machine :=
  let s := (((s.tempMapPage base).tempSet NEXT base).tempSet PREV base).tempSet SIZE count
  { s with freePhysMemoryPointer := base }

/-- The block after the range joins the block `cur` before it. -/
def absorbNext (cur : Nat) (s : Machine) : Machine :=
  let next1 := s.tempGet NEXT
  let s := s.tempMapPage next1
  let next2 := s.tempGet NEXT
  let newCount := s.tempGet SIZE
  let s := (s.tempMapPage next2).tempSet PREV cur
  let s := (s.tempMapPage cur).tempSet NEXT next2
  s.tempSet SIZE (add32 (s.tempGet SIZE) newCount)

/-- The range starts where the block `cur` ends. -/
def extendUp (base count cur : Nat) (s : Machine) : Machine :=
  let s := s.tempSet SIZE (add32 (s.tempGet SIZE) count)
  if s.tempGet NEXT = add32 base (pageShift count) then s.absorbNext cur else s

/-- The range ends where the block shown in the window starts. -/
def extendDown (base count : Nat) (s : Machine) : Machine :=
  let oldCount := s.tempGet SIZE
  let next := s.tempGet NEXT
  let prev := s.tempGet PREV
  let s := (s.tempMapPage next).tempSet PREV base
  let s := (s.tempMapPage prev).tempSet NEXT base
  let s := ((s.tempMapPage base).tempSet NEXT next).tempSet PREV prev
  s.tempSet SIZE (add32 count oldCount)

/-- A new block before `cur`; `prev` is read from the `next` field, as in the source. -/
def insertBlock (base count cur : Nat) (s : Machine) : Machine :=
  let prev := s.tempGet NEXT
  let s := s.tempSet PREV base
  let s := (s.tempMapPage prev).tempSet NEXT base
  let s := ((s.tempMapPage base).tempSet NEXT cur).tempSet PREV prev
  s.tempSet SIZE count

/-- The `do … while` of `free_phys_pages`, at `cur_block = cur`. -/
def freeLoop (base count : Nat) : Nat → Nat → Machine → Option Machine
  | 0, _, _ => none
  | fuel + 1, cur, s =>
    let s := s.tempMapPage cur
    if add32 cur (pageShift (s.tempGet SIZE)) = base then
      some (s.extendUp base count cur)
    else if add32 base (pageShift count) = cur then
      some (s.extendDown base count)
    else if cur > base ∨ s.tempGet NEXT = s.freePhysMemoryPointer then
      some (s.insertBlock base count cur)
    else
      let cur := s.tempGet NEXT
      if cur ≠ s.freePhysMemoryPointer then freeLoop base count fuel cur s else some s

/-- The head update of `free_phys_pages`. -/
def lowerHead (base : Nat) (s : Machine) : Machine :=
  if base < s.freePhysMemoryPointer then { s with freePhysMemoryPointer := base } else s

/-- `free_phys_pages` with the mutex held, up to the page count. -/
def freeLocked (fuel base count : Nat) (s : Machine) : Option Machine :=
  if s.freePhysMemoryPointer = NIL then some (s.firstBlock base count)
  else (freeLoop base count fuel s.freePhysMemoryPointer s).map (lowerHead base)

/-- `free_phys_pages`. -/
def freePhysPages (fuel base count : Nat) (s : Machine) : Option Machine :=
  s.mutexGetPhys.bind fun s =>
    (freeLocked fuel base count s).map fun s =>
      { s with freePageCount := add32 s.freePageCount count, physMemoryMutex := false }

end Machine

end C4os
