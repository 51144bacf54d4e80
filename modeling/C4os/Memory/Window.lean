import C4os.Lib.Word

/-!
# Physical memory behind the temporary page (`memory_manager.c`)

* `Machine`: physical memory and the variables of the memory manager. `mem p i` is the 32-bit word
  `i` of the page frame at address `p`.
* `tempMapPage`, `tempGet`, `tempSet`: the window `TEMP_PAGE`. Its page-table entry is the word
  `TEMP_PAGE_INFO`, the last of the frame that `KERNEL_PAGE_TABLE` is mapped to.
-/

namespace C4os

open Word

/-- Addition of 32-bit words. -/
@[irreducible] def add32 (a b : Nat) : Nat := (a + b) % 2 ^ 32

/-- Subtraction of 32-bit words. -/
@[irreducible] def sub32 (a b : Nat) : Nat := (a + 2 ^ 32 - b) % 2 ^ 32

/-- `n << PAGE_OFFSET_BITS`. -/
@[irreducible] def pageShift (n : Nat) : Nat := (n <<< 12) % 2 ^ 32

/-- The value `-1` of a `phyaddr`. -/
def NIL : Nat := 0xFFFFFFFF

/-- The mask for an offset in a page. -/
def PAGE_OFFSET_MASK : Nat := 0xFFF

/-- The page is mapped. -/
def PAGE_PRESENT : Nat := 1 <<< 0

/-- The page may be written. -/
def PAGE_WRITABLE : Nat := 1 <<< 1

/-- User code may access the page. -/
def PAGE_USER : Nat := 1 <<< 2

/-- Writes go to memory at once. -/
def PAGE_WRITE_THROUGH : Nat := 1 <<< 3

/-- The flag of the pages that all directories share. -/
def PAGE_GLOBAL : Nat := 1 <<< 8

/-- Physical memory and the variables of the memory manager. -/
structure Machine where
  mem : Nat → Nat → Nat
  /-- The frame behind the virtual page `KERNEL_PAGE_TABLE`. -/
  kernelPageTable : Nat
  freePageCount : Nat
  freePhysMemoryPointer : Nat
  physMemoryMutex : Bool

namespace Machine

/-- The frame that an entry points to. -/
def frameOf (e : Nat) : Nat := andNot e PAGE_OFFSET_MASK

/-- The word `i` of the frame `p` becomes `v`. -/
def write (s : Machine) (p i v : Nat) : Machine :=
  { s with mem := fun q j => if q = p ∧ j = i then v else s.mem q j }

/-- The frame behind `TEMP_PAGE`. -/
def window (s : Machine) : Nat := andNot (s.mem s.kernelPageTable 1023) PAGE_OFFSET_MASK

/-- `temp_map_page`. -/
def tempMapPage (addr : Nat) (s : Machine) : Machine :=
  s.write s.kernelPageTable 1023 (andNot addr PAGE_OFFSET_MASK ||| PAGE_PRESENT ||| PAGE_WRITABLE)

/-- Word `i` of `TEMP_PAGE`. -/
def tempGet (s : Machine) (i : Nat) : Nat := s.mem s.window i

/-- A store to word `i` of `TEMP_PAGE`. -/
def tempSet (i v : Nat) (s : Machine) : Machine := s.write s.window i v

end Machine

open Machine

theorem andNot_mask {a : Nat} (ha : a < 2 ^ 32) : andNot a PAGE_OFFSET_MASK = a / 4096 * 4096 :=
  andNot_low ha 12

theorem andNot_mask_of_aligned {a : Nat} (ha : a < 2 ^ 32) (h : 4096 ∣ a) :
    andNot a PAGE_OFFSET_MASK = a :=
  andNot_eq_self (k := 12) ha h (by decide)

/-- The address of a page frame. -/
def Frame (a : Nat) : Prop := 4096 ∣ a ∧ a < 2 ^ 32

theorem frame_andNot (a : Nat) : Frame (andNot a PAGE_OFFSET_MASK) :=
  ⟨dvd_andNot a (show 12 ≤ 32 by decide), andNot_lt a (by decide)⟩

theorem Machine.frame_frameOf (e : Nat) : Frame (frameOf e) := frame_andNot e

theorem andNot_mask_add {a f : Nat} (ha : a < 2 ^ 32) (h : 4096 ∣ a) (hf : f < 4096) :
    andNot (a + f) PAGE_OFFSET_MASK = a := by
  rw [andNot_mask (by omega)]
  omega

theorem pageShift_lt (n : Nat) : pageShift n < 2 ^ 32 := by
  unfold pageShift
  exact Nat.mod_lt _ (by decide)

theorem pageShift_eq {n : Nat} (h : n * 4096 < 2 ^ 32) : pageShift n = n * 4096 := by
  rw [pageShift, Nat.shiftLeft_eq]
  exact Nat.mod_eq_of_lt h

theorem add32_eq {a b : Nat} (h : a + b < 2 ^ 32) : add32 a b = a + b := by
  rw [add32]
  exact Nat.mod_eq_of_lt h

theorem add32_lt (a b : Nat) : add32 a b < 2 ^ 32 := by
  unfold add32
  exact Nat.mod_lt _ (by decide)

theorem sub32_lt (a b : Nat) : sub32 a b < 2 ^ 32 := by
  unfold sub32
  exact Nat.mod_lt _ (by decide)

theorem sub32_eq {a b : Nat} (h : b ≤ a) (ha : a < 2 ^ 32) : sub32 a b = a - b := by
  unfold sub32
  omega

/-! ## The window -/

variable (s : Machine) (a b i j p v : Nat)

theorem windowEntry_eq : andNot a PAGE_OFFSET_MASK ||| PAGE_PRESENT ||| PAGE_WRITABLE =
    andNot a PAGE_OFFSET_MASK + 3 := by
  rw [Nat.or_assoc]
  exact or_low (k := 12) (frame_andNot a).1 (by decide)

theorem mem_write : (s.write p i v).mem b j = if b = p ∧ j = i then v else s.mem b j := rfl

@[simp] theorem kernelPageTable_tempMapPage :
    (tempMapPage a s).kernelPageTable = s.kernelPageTable := rfl

@[simp] theorem kernelPageTable_tempSet :
    (tempSet i v s).kernelPageTable = s.kernelPageTable := rfl

@[simp] theorem pointer_tempMapPage :
    (tempMapPage a s).freePhysMemoryPointer = s.freePhysMemoryPointer := rfl

@[simp] theorem pointer_tempSet :
    (tempSet i v s).freePhysMemoryPointer = s.freePhysMemoryPointer := rfl

@[simp] theorem count_tempMapPage : (tempMapPage a s).freePageCount = s.freePageCount := rfl

@[simp] theorem count_tempSet : (tempSet i v s).freePageCount = s.freePageCount := rfl

@[simp] theorem mutex_tempMapPage : (tempMapPage a s).physMemoryMutex = s.physMemoryMutex := rfl

@[simp] theorem mutex_tempSet : (tempSet i v s).physMemoryMutex = s.physMemoryMutex := rfl

theorem window_tempMapPage : (tempMapPage a s).window = andNot a PAGE_OFFSET_MASK := by
  have hf := frame_andNot a
  have he : (tempMapPage a s).mem (tempMapPage a s).kernelPageTable 1023 =
      andNot a PAGE_OFFSET_MASK + 3 := by
    rw [← windowEntry_eq a]
    exact if_pos ⟨rfl, rfl⟩
  rw [window, he, andNot_mask_add hf.2 hf.1 (by omega)]

theorem window_of_frame {s : Machine} {a : Nat} (h : Frame a) : (tempMapPage a s).window = a := by
  rw [window_tempMapPage, andNot_mask_of_aligned h.2 h.1]

theorem window_tempSet {i : Nat} (hi : i < 1023) : (tempSet i v s).window = s.window := by
  unfold window
  rw [tempSet, mem_write, if_neg (by omega)]
  rfl

theorem mem_tempMapPage_eq : (tempMapPage a s).mem p i =
    if p = s.kernelPageTable ∧ i = 1023 then andNot a PAGE_OFFSET_MASK + 3 else s.mem p i := by
  rw [tempMapPage, mem_write, windowEntry_eq]

theorem mem_tempMapPage {i : Nat} (hi : i < 1023) : (tempMapPage a s).mem p i = s.mem p i := by
  rw [tempMapPage, mem_write, if_neg (by omega)]

theorem mem_tempSet :
    (tempSet i v s).mem p j = if p = s.window ∧ j = i then v else s.mem p j := rfl

theorem tempMapPage_tempMapPage : tempMapPage a (tempMapPage b s) = tempMapPage a s := by
  simp only [tempMapPage, write, Machine.mk.injEq, and_self, and_true]
  funext q j
  split_ifs <;> rfl

end C4os
