import Mathlib.Data.UInt
import C4os.Lib.LittleEndian

/-!
# The DMA controller (`dma.c`, `floppy.c`)

* `PortWrite`: a byte that is written to a port; each function gives the writes that it makes.
* `dmaMaskChannel` to `dmaSetExternalPageRegister`: the functions of `dma.c`.
* `dmaInitializeFloppy`: the set-up of channel 2; `IsLegal`: the buffers that channel 2 can fill.
* `IsaDma`: the registers of channel 2; `dmaInitializeFloppy_registers`.
* **`dmaInitializeFloppy_spec`**: exactly the legal buffers are accepted, and programmed.
-/

namespace C4os

open LittleEndian

/-- `outportb`: the port and the byte. -/
abbrev PortWrite := Nat × UInt8

/-! ## Ports -/

/-- The mask register of the first controller (`dma.h`). -/
def DMA0_CHANMASK_REG : Nat := 0x0a

/-- Its mode register. -/
def DMA0_MODE_REG : Nat := 0x0b

/-- A write here resets its flip-flop. -/
def DMA0_CLEARBYTE_FLIPFLOP_REG : Nat := 0x0c

/-- A write here resets the controller. -/
def DMA0_TEMP_REG : Nat := 0x0d

/-- The mask register of the second controller. -/
def DMA1_CHANMASK_REG : Nat := 0xd4

/-- Its mode register. -/
def DMA1_MODE_REG : Nat := 0xd6

/-- A write here resets its flip-flop. -/
def DMA1_CLEARBYTE_FLIPFLOP_REG : Nat := 0xd8

/-- A write here unmasks all channels. -/
def DMA1_UNMASK_ALL_REG : Nat := 0xdc

/-- `DMA0_CHAN0_ADDR_REG` to `DMA1_CHAN7_ADDR_REG`. -/
def DMA_CHAN_ADDR_REG : List Nat := [0, 2, 4, 6, 0xc0, 0xc4, 0xc8, 0xcc]

/-- `DMA0_CHAN0_COUNT_REG` to `DMA1_CHAN7_COUNT_REG`. -/
def DMA_CHAN_COUNT_REG : List Nat := [1, 3, 5, 7, 0xc2, 0xc6, 0xca, 0xce]

/-- `DMA_PAGE_CHAN1_ADDRBYTE2` to `DMA_PAGE_CHAN7_ADDRBYTE2`; the switch has no case `0` and returns
from the case `4`. -/
def DMA_PAGE_CHAN_ADDRBYTE2 : List Nat := [0, 0x83, 0x81, 0x82, 0, 0x89, 0x87, 0x88]

/-- The transfer writes to memory. -/
def DMA_MODE_READ_TRANSFER : UInt8 := 4

/-- One byte at a time. -/
def DMA_MODE_TRANSFER_SINGLE : UInt8 := 0x40

/-! ## The functions of `dma.c` -/

/-- `1 << n`, where a shift takes the low five bits of its count. -/
def bitAt (n : Int) : UInt8 := UInt8.ofNat (1 <<< (n % 32).toNat)

/-- `dma_mask_channel`. -/
def dmaMaskChannel (channel : Nat) : List PortWrite :=
  if channel ≤ 4 then [(DMA0_CHANMASK_REG, bitAt (channel - 1))]
  else [(DMA1_CHANMASK_REG, bitAt (channel - 5))]

/-- `dma_unmask_all`; the argument is not used. -/
def dmaUnmaskAll (_dma : Nat) : List PortWrite := [(DMA1_UNMASK_ALL_REG, 0xff)]

/-- `dma_reset`; the argument is not used. -/
def dmaReset (_dma : Nat) : List PortWrite := [(DMA0_TEMP_REG, 0xff)]

/-- `dma_reset_flipflop`. -/
def dmaResetFlipflop (channel : Nat) : List PortWrite :=
  [(if channel < 4 then DMA0_CLEARBYTE_FLIPFLOP_REG else DMA1_CLEARBYTE_FLIPFLOP_REG, 0xaa)]

/-- Two bytes to the register of a channel; a channel without a case has the port `0`. -/
def dmaSetRegister (ports : List Nat) (channel : Nat) (low high : UInt8) : List PortWrite :=
  if channel > 8 then []
  else [(ports.getD channel 0, low), (ports.getD channel 0, high)]

/-- `dma_set_address`. -/
def dmaSetAddress : Nat → UInt8 → UInt8 → List PortWrite := dmaSetRegister DMA_CHAN_ADDR_REG

/-- `dma_set_count`. -/
def dmaSetCount : Nat → UInt8 → UInt8 → List PortWrite := dmaSetRegister DMA_CHAN_COUNT_REG

/-- `dma_set_mode`. -/
def dmaSetMode (channel : Nat) (mode : UInt8) : List PortWrite :=
  let dma := if channel < 4 then 0 else 1
  let chan := if dma = 0 then channel else channel - 4
  let port := if channel < 4 then DMA0_MODE_REG else DMA1_MODE_REG
  dmaMaskChannel channel ++ (port, UInt8.ofNat chan ||| mode) :: dmaUnmaskAll dma

/-- `dma_set_read`. -/
def dmaSetRead (channel : Nat) : List PortWrite :=
  dmaSetMode channel (DMA_MODE_READ_TRANSFER ||| DMA_MODE_TRANSFER_SINGLE)

/-- `dma_set_external_page_register`. -/
def dmaSetExternalPageRegister (reg : Nat) (val : UInt8) : List PortWrite :=
  if reg > 14 then []
  else if reg = 4 then []
  else [(DMA_PAGE_CHAN_ADDRBYTE2.getD reg 0, val)]

/-! ## The set-up for the floppy drive -/

/-- The channel of the floppy disk controller. -/
def FDC_DMA_CHANNEL : Nat := 2

/-- The byte `i` of the union. -/
def unionByte (l : UInt32) (i : Nat) : UInt8 := (l >>> UInt32.ofNat (8 * i)).toUInt8

/-- The calls of `dma_initialize_floppy` for a buffer that it accepts. -/
def dmaSetUp (a c : UInt32) : List PortWrite :=
  dmaReset 1 ++ dmaMaskChannel FDC_DMA_CHANNEL ++ dmaResetFlipflop FDC_DMA_CHANNEL ++
    dmaSetRead FDC_DMA_CHANNEL ++
    dmaSetAddress FDC_DMA_CHANNEL (unionByte a 0) (unionByte a 1) ++
    dmaSetExternalPageRegister 2 (unionByte a 2) ++
    dmaSetCount FDC_DMA_CHANNEL (unionByte c 0) (unionByte c 1) ++ dmaUnmaskAll 1

/-- `dma_initialize_floppy`: its result, and the writes. -/
def dmaInitializeFloppy (buffer length : UInt32) : Bool × List PortWrite :=
  let a := buffer
  let c := length - 1
  if a >>> 24 ≠ 0 ∨ c >>> 16 ≠ 0 ∨ ((a &&& 0xffff) + c) >>> 16 ≠ 0 then (false, [])
  else (true, dmaSetUp a c)

/-- The bytes that are written to a port. -/
def portBytes (port : Nat) (ws : List PortWrite) : List UInt8 :=
  (ws.filter fun w => w.1 = port).map Prod.snd

/-- The bytes `buffer .. buffer + length - 1` lie below 16 MB and in one 64 KB page. -/
structure IsLegal (buffer length : Nat) : Prop where
  pos : 1 ≤ length
  short : length ≤ 65536
  low : buffer + length ≤ 2 ^ 24
  onePage : ∀ x, buffer ≤ x → x < buffer + length → x / 65536 = buffer / 65536

/-! ## The registers of channel 2 -/

/-- What the controller holds for channel 2, and its byte flip-flop. -/
structure IsaDma where
  flipflop : Bool
  address : Nat
  count : Nat
  page : Nat

namespace IsaDma

/-- A register with its low or its high byte set. -/
def setByte (high : Bool) (b : UInt8) (x : Nat) : Nat :=
  if high then b.toNat * 256 + x % 256 else x / 256 * 256 + b.toNat

/-- The write of a byte to a port. -/
def write (d : IsaDma) (w : PortWrite) : IsaDma :=
  if w.1 = DMA0_CLEARBYTE_FLIPFLOP_REG ∨ w.1 = DMA0_TEMP_REG then { d with flipflop := false }
  else if w.1 = 4 then
    { d with address := setByte d.flipflop w.2 d.address, flipflop := !d.flipflop }
  else if w.1 = 5 then { d with count := setByte d.flipflop w.2 d.count, flipflop := !d.flipflop }
  else if w.1 = 0x81 then { d with page := w.2.toNat }
  else d

end IsaDma

variable {a c buffer length : UInt32}

theorem shift_eq_zero (k : Nat) (hk : k < 32) : a >>> UInt32.ofNat k = 0 ↔ a.toNat < 2 ^ k := by
  rw [← UInt32.toNat_inj, UInt32.toNat_shiftRight, UInt32.toNat_ofNat', Nat.shiftRight_eq_div_pow,
    UInt32.toNat_zero, Nat.mod_eq_of_lt (a := k) (by omega), Nat.mod_eq_of_lt hk,
    Nat.div_eq_zero_iff_lt (Nat.two_pow_pos k)]

theorem toNat_unionByte {i : Nat} (hi : i < 4) :
    (unionByte a i).toNat = a.toNat / 256 ^ i % 256 := by
  rw [unionByte, UInt32.toNat_toUInt8, UInt32.toNat_shiftRight, UInt32.toNat_ofNat',
    Nat.shiftRight_eq_div_pow, Nat.mod_eq_of_lt (a := 8 * i) (by omega),
    Nat.mod_eq_of_lt (a := 8 * i) (by omega), Nat.pow_mul]

/-- **The three tests** find the buffers that are not legal. -/
theorem rejected_iff : (buffer >>> 24 ≠ 0 ∨ (length - 1) >>> 16 ≠ 0 ∨
    ((buffer &&& 0xffff) + (length - 1)) >>> 16 ≠ 0) ↔ ¬ IsLegal buffer.toNat length.toNat := by
  have hb := buffer.toNat_lt
  have hl := length.toNat_lt
  have hc : (length - 1).toNat = if length.toNat = 0 then 2 ^ 32 - 1 else length.toNat - 1 := by
    rw [UInt32.toNat_sub, UInt32.toNat_one]
    split_ifs <;> omega
  have hlow : (buffer &&& 0xffff).toNat = buffer.toNat % 65536 := by
    rw [UInt32.toNat_and]
    exact Nat.and_two_pow_sub_one_eq_mod buffer.toNat 16
  have h24 : buffer >>> 24 = 0 ↔ buffer.toNat < 2 ^ 24 := shift_eq_zero 24 (by decide)
  have h16 : (length - 1) >>> 16 = 0 ↔ (length - 1).toNat < 2 ^ 16 := shift_eq_zero 16 (by decide)
  have hsum : ((buffer &&& 0xffff) + (length - 1)) >>> 16 = 0 ↔
      (buffer.toNat % 65536 + (length - 1).toNat) % 2 ^ 32 < 2 ^ 16 := by
    rw [← hlow, ← UInt32.toNat_add]
    exact shift_eq_zero 16 (by decide)
  rw [← not_iff_not, not_not, not_or, not_or, not_not, not_not, not_not, h24, h16, hsum, hc]
  constructor
  · rintro ⟨h1, h2, h3⟩
    have hpos : length.toNat ≠ 0 := by
      intro h
      rw [if_pos h] at h2
      omega
    rw [if_neg hpos] at h2 h3
    refine ⟨by omega, by omega, by omega, fun x hx hx' => ?_⟩
    omega
  · rintro ⟨h1, h2, h3, h4⟩
    have hlast := h4 (buffer.toNat + length.toNat - 1) (by omega) (by omega)
    rw [if_neg (by omega)]
    omega

theorem portBytes_setUp (a c : UInt32) : portBytes 0x81 (dmaSetUp a c) = [unionByte a 2] ∧
    portBytes 4 (dmaSetUp a c) = [unionByte a 0, unionByte a 1] ∧
    portBytes 5 (dmaSetUp a c) = [unionByte c 0, unionByte c 1] := ⟨rfl, rfl, rfl⟩

theorem dmaInitializeFloppy_legal (h : IsLegal buffer.toNat length.toNat) :
    dmaInitializeFloppy buffer length = (true, dmaSetUp buffer (length - 1)) :=
  if_neg fun hrej => rejected_iff.mp hrej h

theorem dmaInitializeFloppy_illegal (h : ¬ IsLegal buffer.toNat length.toNat) :
    dmaInitializeFloppy buffer length = (false, []) := if_pos (rejected_iff.mpr h)

theorem IsLegal.address (h : IsLegal buffer.toNat length.toNat) :
    (unionByte buffer 2).toNat * 65536 +
      ((unionByte buffer 0).toNat + 256 * (unionByte buffer 1).toNat) = buffer.toNat := by
  have hlow := h.low
  have hpos := h.pos
  rw [toNat_unionByte (by decide), toNat_unionByte (by decide), toNat_unionByte (by decide)]
  omega

theorem IsLegal.count (h : IsLegal buffer.toNat length.toNat) :
    (unionByte (length - 1) 0).toNat + 256 * (unionByte (length - 1) 1).toNat + 1 =
      length.toNat := by
  have hshort := h.short
  have hpos := h.pos
  have hc : (length - 1).toNat = length.toNat - 1 := by
    rw [UInt32.toNat_sub, UInt32.toNat_one]
    omega
  rw [toNat_unionByte (by decide), toNat_unionByte (by decide), hc]
  omega

/-- **DMA set-up accepts exactly the legal buffers**, and programs them: the page byte, the two
address bytes and the two count bytes give the range. A refused buffer writes no port. -/
theorem dmaInitializeFloppy_spec (buffer length : UInt32) :
    ((dmaInitializeFloppy buffer length).1 = true ↔ IsLegal buffer.toNat length.toNat) ∧
      ((dmaInitializeFloppy buffer length).1 = true → ∃ page lo hi lo' hi',
        portBytes 0x81 (dmaInitializeFloppy buffer length).2 = [page] ∧
        portBytes 4 (dmaInitializeFloppy buffer length).2 = [lo, hi] ∧
        portBytes 5 (dmaInitializeFloppy buffer length).2 = [lo', hi'] ∧
        page.toNat * 65536 + decode [lo, hi] = buffer.toNat ∧
        decode [lo', hi'] + 1 = length.toNat) ∧
      ((dmaInitializeFloppy buffer length).1 = false →
        (dmaInitializeFloppy buffer length).2 = []) := by
  by_cases h : IsLegal buffer.toNat length.toNat
  · obtain ⟨hpage, h4, h5⟩ := portBytes_setUp buffer (length - 1)
    rw [dmaInitializeFloppy_legal h]
    refine ⟨iff_of_true rfl h, fun _ => ⟨_, _, _, _, _, hpage, h4, h5, ?_, ?_⟩, ?_⟩
    · simpa [decode] using h.address
    · simpa [decode] using h.count
    · exact fun h => absurd h.symm Bool.false_ne_true
  · rw [dmaInitializeFloppy_illegal h]
    exact ⟨iff_of_false Bool.false_ne_true h, fun h => absurd h Bool.false_ne_true, fun _ => rfl⟩

/-- **The controller then holds the range**, whatever it held before: the flip-flop is reset in
front of the two pairs of bytes. -/
theorem dmaInitializeFloppy_registers (h : IsLegal buffer.toNat length.toNat) (d : IsaDma) :
    ((dmaInitializeFloppy buffer length).2.foldl IsaDma.write d).page * 65536 +
        ((dmaInitializeFloppy buffer length).2.foldl IsaDma.write d).address = buffer.toNat ∧
      ((dmaInitializeFloppy buffer length).2.foldl IsaDma.write d).count + 1 = length.toNat := by
  have hbytes : ∀ (lo hi : UInt8) (x : Nat),
      IsaDma.setByte true hi (IsaDma.setByte false lo x) = lo.toNat + 256 * hi.toNat := by
    intro lo hi x
    have hlo := lo.toNat_lt
    unfold IsaDma.setByte
    rw [if_pos rfl, if_neg Bool.false_ne_true]
    omega
  have hrun : (dmaSetUp buffer (length - 1)).foldl IsaDma.write d =
      ⟨false, IsaDma.setByte true (unionByte buffer 1)
          (IsaDma.setByte false (unionByte buffer 0) d.address),
        IsaDma.setByte true (unionByte (length - 1) 1)
          (IsaDma.setByte false (unionByte (length - 1) 0) d.count),
        (unionByte buffer 2).toNat⟩ := rfl
  rw [dmaInitializeFloppy_legal h, hrun, hbytes, hbytes]
  exact ⟨h.address, h.count⟩

/-- The buffer of the driver is legal. -/
example : (dmaInitializeFloppy 0x20000 512).1 = true := by decide

end C4os
