import C4os.Memory.Paging
import C4os.Stdlib.Mem

/-!
# The virtual memory manager (`memory_manager.c`)

An address space holds a table of its blocks, highest address first.

* `VirtMemoryBlock`, `AddressSpace`, `VirtState`: the tables of all address spaces and physical
  memory.
* `findPlace`: the two searches of `alloc_virt_pages`; `insertBlock`, `removeBlock`: its table;
  `copyTable`: the copy of a table through the pages of the kernel.
* `allocVirtPages`, `freeVirtPages`: the two functions. `none` is a call that does not return: it
  waits for a mutex that is held, or faults on a page that is not mapped.
-/

namespace C4os

open Word Machine

/-- `VMB_RESERVED`, `VMB_MEMORY`, `VMB_IO_MEMORY`. -/
inductive VirtMemoryBlockType where
  | reserved
  | memory
  | ioMemory
  deriving DecidableEq

/-- The value of the enumeration constant. -/
def VirtMemoryBlockType.value : VirtMemoryBlockType → Nat
  | .reserved => 0
  | .memory => 1
  | .ioMemory => 2

/-- `VirtMemoryBlock`. -/
structure VirtMemoryBlock where
  type : VirtMemoryBlockType
  base : Nat
  length : Nat
  deriving DecidableEq

/-- `sizeof(VirtMemoryBlock)`. -/
def blockBytes : Nat := 12

/-- The byte `k` of an entry: three double words. -/
def entryByte (b : VirtMemoryBlock) (k : Nat) : UInt8 :=
  if k < 4 then byteOf b.type.value k
  else if k < 8 then byteOf b.base (k - 4)
  else byteOf b.length (k - 8)

/-- `AddressSpace`. The table `blocks` lies at `blocksAddr`; only its first `blockCount` entries mean
anything. -/
structure AddressSpace where
  pageDir : Nat
  start : Nat
  endAddr : Nat
  blockTableSize : Nat
  blockCount : Nat
  blocksAddr : Nat
  blocks : Nat → VirtMemoryBlock
  mutex : Bool

/-- `&kernel_address_space`, or the address space of a process. -/
inductive Space where
  | kernel
  | process (n : Nat)
  deriving DecidableEq

/-- The memory manager: physical memory and the address spaces. -/
structure VirtState where
  machine : Machine
  spaces : Space → AddressSpace

namespace VirtState

/-- The address space `sp` becomes `as`. -/
def setSpace (sp : Space) (as : AddressSpace) (st : VirtState) : VirtState :=
  { st with spaces := Function.update st.spaces sp as }

/-- Memory becomes `m`. -/
def setMachine (m : Machine) (st : VirtState) : VirtState := { st with machine := m }

variable (st : VirtState) (sp sp' : Space) (as : AddressSpace) (m : Machine)

@[simp] theorem spaces_setSpace : (st.setSpace sp as).spaces sp = as := by simp [setSpace]

@[simp] theorem spaces_setMachine : (st.setMachine m).spaces = st.spaces := rfl

@[simp] theorem machine_setSpace : (st.setSpace sp as).machine = st.machine := rfl

@[simp] theorem machine_setMachine : (st.setMachine m).machine = m := rfl

@[simp] theorem setSpace_setSpace (as' : AddressSpace) :
    (st.setSpace sp as).setSpace sp as' = st.setSpace sp as' := by simp [setSpace]

@[simp] theorem setMachine_setSpace :
    (st.setSpace sp as).setMachine m = (st.setMachine m).setSpace sp as := rfl

variable {sp sp'} in
theorem spaces_setSpace_of_ne (h : sp' ≠ sp) : (st.setSpace sp as).spaces sp' = st.spaces sp' :=
  Function.update_of_ne h _ _

end VirtState

/-! ## The searches of `alloc_virt_pages` -/

/-- `is_blocks_overlapped`. -/
def isBlocksOverlapped (base1 size1 base2 size2 : Nat) : Bool :=
  (base2 ≤ base1 && base1 < add32 base2 size2) || (base1 ≤ base2 && base2 < add32 base1 size1)

/-- The loop for a `NULL` hint, with `k` blocks to go. The overlap test gets `count`, as in the
source. -/
def searchDown (as : AddressSpace) (count : Nat) : Nat → Nat → Nat → Nat × Nat
  | 0, i, vaddr => (vaddr, i)
  | k + 1, i, vaddr =>
    if isBlocksOverlapped (as.blocks i).base (as.blocks i).length vaddr count then
      searchDown as count k (i + 1) (sub32 (as.blocks i).base (pageShift count))
    else (vaddr, i)

/-- The loop for a given address. -/
def searchHint (as : AddressSpace) (vaddr count : Nat) : Nat → Nat → Nat × Nat
  | 0, i => (vaddr, i)
  | k + 1, i =>
    if isBlocksOverlapped (as.blocks i).base (as.blocks i).length vaddr (pageShift count) then
      (0, i)
    else if (as.blocks i).base < vaddr then (vaddr, i)
    else searchHint as vaddr count k (i + 1)

/-- The address and the index of the new block; the address `0` is `NULL`. -/
def findPlace (as : AddressSpace) (vaddr count : Nat) : Nat × Nat :=
  if vaddr = 0 then
    searchDown as count as.blockCount 0 (add32 (sub32 as.endAddr (pageShift count)) 1)
  else if as.start ≤ vaddr ∧ add32 vaddr (pageShift count) < as.endAddr then
    searchHint as vaddr count as.blockCount 0
  else (0, 0)

/-! ## The table -/

/-- `memcpy` of `n` entries of a table, first to last; when the destination lies behind the source,
an entry that was just written is copied on. -/
def memcpyBlocks (dest src : Nat) : Nat → (Nat → VirtMemoryBlock) → Nat → VirtMemoryBlock
  | 0, t => t
  | n + 1, t => memcpyBlocks (dest + 1) (src + 1) n (Function.update t dest (t src))

namespace AddressSpace

/-- A new entry at index `i`. -/
def insertBlock (as : AddressSpace) (i : Nat) (b : VirtMemoryBlock) : AddressSpace :=
  { as with
    blocks := Function.update (memcpyBlocks (i + 1) i (as.blockCount - i) as.blocks) i b
    blockCount := as.blockCount + 1 }

/-- The entry at index `i` leaves the table. -/
def removeBlock (as : AddressSpace) (i : Nat) : AddressSpace :=
  { as with
    blocks := memcpyBlocks i (i + 1) (as.blockCount - 1 - i) as.blocks
    blockCount := as.blockCount - 1 }

/-- The pages of a larger table. -/
def newTablePages (as : AddressSpace) : Nat :=
  add32 (andNot (add32 (as.blockTableSize * blockBytes) PAGE_OFFSET_MASK) PAGE_OFFSET_MASK) PAGE_SIZE
    >>> PAGE_OFFSET_BITS

end AddressSpace

/-- `mutex_get(&address_space->mutex, true)`. -/
def VirtState.mutexGet (sp : Space) (st : VirtState) : Option VirtState :=
  if (st.spaces sp).mutex then none else some (st.setSpace sp { st.spaces sp with mutex := true })

/-- `mutex_release(&address_space->mutex)`. -/
def VirtState.mutexRelease (sp : Space) (st : VirtState) : VirtState :=
  st.setSpace sp { st.spaces sp with mutex := false }

/-! ## `free_virt_pages` -/

/-- The index of the first block that holds `vaddr`, with `k` blocks to go. -/
def findBlock (as : AddressSpace) (vaddr : Nat) : Nat → Nat → Nat
  | 0, i => i
  | k + 1, i =>
    if (as.blocks i).base ≤ vaddr ∧ vaddr < add32 (as.blocks i).base (as.blocks i).length then i
    else findBlock as vaddr k (i + 1)

/-- The block at index `i` is freed. Its type is assigned, not compared, so its frames are always
returned; the pages stay mapped. -/
def freeBlock (A : PhysAllocator) (sp : Space) (vaddr i : Nat) (st : VirtState) :
    Option VirtState :=
  let as := st.spaces sp
  let r := st.machine.getPageInfo as.pageDir vaddr
  (A.free (andNot r.1 PAGE_OFFSET_MASK) ((as.blocks i).length >>> PAGE_OFFSET_BITS) r.2).map
    fun m => (st.setMachine m).setSpace sp (as.removeBlock i)

/-- `free_virt_pages`. -/
def freeVirtPages (A : PhysAllocator) (sp : Space) (vaddr : Nat) (st : VirtState) :
    Option (Bool × VirtState) :=
  (st.mutexGet sp).bind fun st =>
    let i := findBlock (st.spaces sp) vaddr (st.spaces sp).blockCount 0
    if i < (st.spaces sp).blockCount then
      (freeBlock A sp vaddr i st).map fun st => (true, st.mutexRelease sp)
    else some (false, st.mutexRelease sp)

/-! ## `alloc_virt_pages` -/

/-- The frames of the new block: new ones when `paddr` is `-1`. -/
def takeFrames (A : PhysAllocator) (paddr count : Nat) (m : Machine) :
    Option ((Nat × VirtMemoryBlockType) × Machine) :=
  if paddr = NIL then (A.alloc count m).map fun r => ((r.1, .memory), r.2)
  else some ((paddr, .ioMemory), m)

/-- The new entry, after the table has grown if it is full; `false` is `goto fail`. -/
def recordBlock (grow : Space → VirtState → Option (Bool × VirtState)) (sp : Space) (i : Nat)
    (b : VirtMemoryBlock) (st : VirtState) : Option (Bool × VirtState) :=
  let as := st.spaces sp
  if as.blockCount = as.blockTableSize then
    (grow sp st).map fun r =>
      if r.1 then
        let as' := { r.2.spaces sp with
          blockTableSize := pageShift as.newTablePages / blockBytes }
        (true, r.2.setSpace sp (as'.insertBlock i b))
      else r
  else some (true, st.setSpace sp (as.insertBlock i b))

/-- The label `fail`: the pages are unmapped and the frames returned. -/
def failAlloc (A : PhysAllocator) (dir vaddr paddr count : Nat) (m : Machine) : Option Machine :=
  (mapPages (A.alloc 1) dir vaddr 0 count 0 m).bind fun r => A.free paddr count r.2

/-- `alloc_virt_pages` from `map_pages` on: the result, or `0`. -/
def mapBlock (A : PhysAllocator) (grow : Space → VirtState → Option (Bool × VirtState))
    (sp : Space) (vaddr paddr count flags i : Nat) (type : VirtMemoryBlockType) (st : VirtState) :
    Option (Nat × VirtState) :=
  let fail := fun st : VirtState =>
    (failAlloc A (st.spaces sp).pageDir vaddr paddr count st.machine).map fun m =>
      (0, st.setMachine m)
  (mapPages (A.alloc 1) (st.spaces sp).pageDir vaddr paddr count flags st.machine).bind fun r =>
    if r.1 then
      (recordBlock grow sp i ⟨type, vaddr, pageShift count⟩ (st.setMachine r.2)).bind fun q =>
        if q.1 then some (vaddr, q.2) else fail q.2
    else fail (st.setMachine r.2)

/-- `alloc_virt_pages` with the mutex held. When there are no frames, the address is returned all the
same. -/
def allocLockedVirt (A : PhysAllocator) (grow : Space → VirtState → Option (Bool × VirtState))
    (sp : Space) (vaddr paddr count flags : Nat) (st : VirtState) : Option (Nat × VirtState) :=
  let place := findPlace (st.spaces sp) vaddr count
  if place.1 ≠ 0 then
    (takeFrames A paddr count st.machine).bind fun r =>
      if r.1.1 ≠ NIL then
        mapBlock A grow sp place.1 r.1.1 count flags place.2 r.1.2 (st.setMachine r.2)
      else some (place.1, st.setMachine r.2)
  else some (0, st)

/-- `alloc_virt_pages`, with the growth of the table as a parameter. -/
def allocVirt (A : PhysAllocator) (grow : Space → VirtState → Option (Bool × VirtState))
    (sp : Space) (vaddr paddr count flags : Nat) (st : VirtState) : Option (Nat × VirtState) :=
  (st.mutexGet sp).bind fun st =>
    (allocLockedVirt A grow sp vaddr paddr count flags st).map fun r => (r.1, r.2.mutexRelease sp)

/-- The table of the kernel grows into the page after its last block. When that page cannot be
mapped the frame is returned, and the store to the new entry, which ends in that page, faults
(`growPage_unmapped`). -/
def growKernel (A : PhysAllocator) (sp : Space) (st : VirtState) : Option (Bool × VirtState) :=
  let as := st.spaces sp
  let main := as.blocks (as.blockCount - 1)
  (A.alloc 1 st.machine).bind fun r =>
    if r.1 = NIL then some (false, st.setMachine r.2)
    else
      (mapPages (A.alloc 1) as.pageDir (add32 main.base main.length) r.1 1
        (PAGE_PRESENT ||| PAGE_WRITABLE) r.2).bind fun q =>
          if q.1 then
            some (true, (st.setMachine q.2).setSpace sp { as with
              blocks := Function.update as.blocks (as.blockCount - 1)
                { main with length := add32 main.length PAGE_SIZE } })
          else none

/-- The word `x` with its byte `i` set. -/
def setByte (x i : Nat) (b : UInt8) : Nat := andNot x (0xFF <<< (8 * i)) ||| b.toNat <<< (8 * i)

/-- The store of a byte to the virtual address `v`; it faults when the page is not mapped. -/
def Machine.storeByte (dir v : Nat) (b : UInt8) (m : Machine) : Option Machine :=
  let p := frameOf (m.info dir v)
  let i := v % 4096 / 4
  if Present (m.info dir v) then some (m.write p i (setByte (m.mem p i) (v % 4) b)) else none

/-- `memcpy(new_table, address_space->blocks, …)`: the `n` bytes from the byte `k` on. They are read
from the table, and stored through the pages of `newTable`. -/
def copyTable (dir newTable : Nat) (t : Nat → VirtMemoryBlock) : Nat → Nat → Machine → Option Machine
  | 0, _, m => some m
  | n + 1, k, m =>
    (m.storeByte dir (add32 newTable k) (entryByte (t (k / blockBytes)) (k % blockBytes))).bind
      (copyTable dir newTable t n (k + 1))

/-- The table of another address space moves to new pages of the kernel: it is copied there, and the
old pages are freed. -/
def growProcess (A : PhysAllocator) (sp : Space) (st : VirtState) : Option (Bool × VirtState) :=
  (allocVirt A (growKernel A) .kernel 0 NIL (st.spaces sp).newTablePages
    (PAGE_PRESENT ||| PAGE_WRITABLE) st).bind fun r =>
      if r.1 = 0 then some (false, r.2)
      else
        (copyTable (r.2.spaces .kernel).pageDir r.1 (st.spaces sp).blocks
          ((st.spaces sp).blockTableSize * blockBytes % 2 ^ 32) 0 r.2.machine).bind fun m =>
            (freeVirtPages A .kernel (st.spaces sp).blocksAddr (r.2.setMachine m)).map fun q =>
              (true, q.2.setSpace sp { q.2.spaces sp with blocksAddr := r.1 })

/-- `alloc_virt_pages`. -/
def allocVirtPages (A : PhysAllocator) (sp : Space) (vaddr paddr count flags : Nat)
    (st : VirtState) : Option (Nat × VirtState) :=
  allocVirt A (if sp = .kernel then growKernel A else growProcess A) sp vaddr paddr count flags st

end C4os
