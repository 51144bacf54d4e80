import Mathlib.Logic.Function.Basic
import Mathlib.Tactic.NormNum

/-!
# Memory functions (`stdlib.c`)

* `memcpy`: the byte loop; `memcpy_apply`: a copy towards lower addresses moves every byte;
  `memcpy_up`: one towards higher addresses repeats the first ones.
* `memsetWord`: the fill with double words; `memsetWord_apply`.
-/

namespace C4os

/-- Memory, byte by byte. -/
abbrev Bytes := Nat → UInt8

/-- `memcpy`. -/
def memcpy (dest src : Nat) : Nat → Bytes → Bytes
  | 0, m => m
  | len + 1, m => memcpy (dest + 1) (src + 1) len (Function.update m dest (m src))

/-- The byte `i` of a machine word. -/
def byteOf (x i : Nat) : UInt8 := UInt8.ofNat (x >>> (8 * i))

/-- The store of a double word. -/
def store32 (a x : Nat) (m : Bytes) : Bytes :=
  fun i => if a ≤ i ∧ i < a + 4 then byteOf x (i - a) else m i

/-- `rep stosl`. -/
def repStosl (eax : Nat) : Nat → Nat → Bytes → Bytes
  | _, 0, m => m
  | edi, ecx + 1, m => repStosl eax (edi + 4) ecx (store32 edi eax m)

/-- `memset_word`. -/
def memsetWord (mem value count : Nat) (m : Bytes) : Bytes :=
  repStosl (value ||| value <<< 16) mem (count >>> 1) m

variable {dest src len i : Nat} {m : Bytes}

/-- **A copy towards lower addresses** moves every byte: the source is read before it is
overwritten. -/
theorem memcpy_apply (h : dest ≤ src) : memcpy dest src len m i =
    if dest ≤ i ∧ i < dest + len then m (src + (i - dest)) else m i := by
  induction len generalizing dest src m with
  | zero => rw [if_neg (by omega), memcpy]
  | succ len ih =>
    rw [memcpy, ih (by omega)]
    by_cases hi : i = dest
    · rw [hi, if_neg (by omega), if_pos (by omega), Function.update_self, Nat.sub_self,
        Nat.add_zero]
    by_cases hin : dest ≤ i ∧ i < dest + (len + 1)
    · rw [if_pos hin, if_pos (by omega), Function.update_of_ne (by omega)]
      congr 1
      omega
    · rw [if_neg hin, if_neg (by omega), Function.update_of_ne hi]

/-- **A copy towards higher addresses** that overlaps repeats the first `d` bytes: each byte that is
read behind them was written before. -/
theorem memcpy_up {d : Nat} (hd : 0 < d) : memcpy (src + d) src len m i =
    if src + d ≤ i ∧ i < src + d + len then m (src + (i - (src + d)) % d) else m i := by
  induction len generalizing src m with
  | zero => rw [if_neg (by omega), memcpy]
  | succ len ih =>
    rw [memcpy, Nat.add_right_comm, ih]
    by_cases hi : i = src + d
    · rw [hi, if_neg (by omega), if_pos (by omega), Function.update_self, Nat.sub_self,
        Nat.zero_mod, Nat.add_zero]
    by_cases hin : src + d ≤ i ∧ i < src + d + (len + 1)
    · obtain ⟨x, rfl⟩ := Nat.exists_eq_add_of_lt (Nat.lt_of_le_of_ne hin.1 (Ne.symm hi))
      rw [if_pos hin, if_pos (by omega), show src + d + x + 1 - (src + 1 + d) = x by omega,
        show src + d + x + 1 - (src + d) = x + 1 by omega]
      have hlt := Nat.mod_lt x hd
      by_cases hx : x % d + 1 = d
      · -- the copy reads the first byte that it wrote
        have hmod : (x + 1) % d = 0 := by
          rw [← Nat.mod_add_mod, hx, Nat.mod_self]
        rw [hmod, show src + 1 + x % d = src + d by omega, Function.update_self, Nat.add_zero]
      · have hmod : (x + 1) % d = x % d + 1 := by
          rw [← Nat.mod_add_mod, Nat.mod_eq_of_lt (by omega)]
        rw [hmod, Function.update_of_ne (by omega), Nat.add_right_comm, Nat.add_assoc]
    · rw [if_neg hin, if_neg (by omega), Function.update_of_ne hi]

theorem repStosl_apply {eax edi ecx : Nat} : repStosl eax edi ecx m i =
    if edi ≤ i ∧ i < edi + 4 * ecx then byteOf eax ((i - edi) % 4) else m i := by
  induction ecx generalizing edi m with
  | zero => rw [if_neg (by omega), repStosl]
  | succ n ih =>
    rw [repStosl, ih, store32]
    by_cases h1 : edi + 4 ≤ i ∧ i < edi + 4 + 4 * n
    · rw [if_pos h1, if_pos (by omega)]
      congr 1
      omega
    rw [if_neg h1]
    by_cases h2 : edi ≤ i ∧ i < edi + 4
    · rw [if_pos h2, if_pos (by omega), Nat.mod_eq_of_lt (by omega)]
    · rw [if_neg h2, if_neg (by omega)]

theorem byteOf_twice {value k : Nat} (hv : value < 2 ^ 16) (hk : k < 4) :
    byteOf (value ||| value <<< 16) k = byteOf value (k % 2) := by
  have hsum : value ||| value <<< 16 = value <<< 16 + value := by
    rw [Nat.or_comm, ← Nat.shiftLeft_add_eq_or_of_lt hv]
  unfold byteOf
  rw [hsum, Nat.shiftLeft_eq, Nat.shiftRight_eq_div_pow, Nat.shiftRight_eq_div_pow]
  apply UInt8.toNat_inj.mp
  rw [UInt8.toNat_ofNat', UInt8.toNat_ofNat']
  have hk' : k = 0 ∨ k = 1 ∨ k = 2 ∨ k = 3 := by omega
  obtain ⟨h, l, hh, hl, rfl⟩ : ∃ h l, h < 256 ∧ l < 256 ∧ value = 256 * h + l :=
    ⟨value / 256, value % 256, by omega, by omega, by omega⟩
  have h0 : ((256 * h + l) * 65536 + (256 * h + l)) % 256 = l := by omega
  have h1 : ((256 * h + l) * 65536 + (256 * h + l)) / 256 = 65536 * h + 256 * l + h := by omega
  have h2 : ((256 * h + l) * 65536 + (256 * h + l)) / 65536 = 256 * h + l := by omega
  have h3 : ((256 * h + l) * 65536 + (256 * h + l)) / 16777216 = h := by omega
  have h4 : (256 * h + l) / 256 = h := by omega
  rcases hk' with rfl | rfl | rfl | rfl <;> norm_num [h0, h1, h2, h3, h4] <;> omega

/-- **A fill with words.** An odd `count` leaves the last word as it was. -/
theorem memsetWord_apply {mem value count : Nat} (hv : value < 2 ^ 16) :
    memsetWord mem value count m i =
      if mem ≤ i ∧ i < mem + 4 * (count / 2) then byteOf value ((i - mem) % 2) else m i := by
  rw [memsetWord, repStosl_apply, Nat.shiftRight_eq_div_pow, Nat.pow_one]
  by_cases h : mem ≤ i ∧ i < mem + 4 * (count / 2)
  · rw [if_pos h, if_pos h, byteOf_twice hv (Nat.mod_lt _ (by decide))]
    congr 1
    omega
  · rw [if_neg h, if_neg h]

end C4os
