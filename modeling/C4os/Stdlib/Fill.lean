import C4os.Stdlib.Mem
import C4os.Stdlib.Strings

/-!
# Copies and fills behind 32-bit addresses (`stdlib.c`)

* `Mem32.flat`: 32-bit memory as the memory of the other modules; `flat_memcpy`, `flat_memsetWord`:
  without a wrap the functions are the ones there.
* **`memcpy_spec`**: a copy to a lower or a disjoint range moves every byte.
* `Mem32.memset`, `Mem32.memsetWord`: the fills with `rep stosl` and `rep stosb`.
* **`fills_iff`**: when they cover their range.
-/

namespace C4os

/-! ## Copies -/

/-- 32-bit memory as memory without an end. -/
def Mem32.flat (m : Mem32) : Bytes := fun i => if i < 2 ^ 32 then m (UInt32.ofNat i) else 0

/-- Neither of two ranges of `n` bytes reaches into the other one. -/
def RangesApart (a b n : Nat) : Prop := a + n ≤ b ∨ b + n ≤ a

section

variable {m : Mem32} {d s len i : Nat} {a dest src : UInt32}

theorem flat_toNat (m : Mem32) (a : UInt32) : m.flat a.toNat = m a := by
  unfold Mem32.flat
  rw [if_pos a.toNat_lt, UInt32.ofNat_toNat]

theorem flat_update (hd : d < 2 ^ 32) (b : UInt8) :
    Mem32.flat (Function.update m (UInt32.ofNat d) b) = Function.update m.flat d b := by
  ext i
  unfold Mem32.flat
  by_cases hi : i < 2 ^ 32
  · by_cases hid : i = d
    · rw [if_pos hi, hid, Function.update_self, Function.update_self]
    · have hne : UInt32.ofNat i ≠ UInt32.ofNat d := by
        intro h
        apply hid
        have := congrArg UInt32.toNat h
        rwa [UInt32.toNat_ofNat', UInt32.toNat_ofNat', Nat.mod_eq_of_lt hi,
          Nat.mod_eq_of_lt hd] at this
      rw [if_pos hi, Function.update_of_ne hne, Function.update_of_ne hid, if_pos hi]
  · have hid : i ≠ d := by omega
    rw [if_neg hi, Function.update_of_ne hid, if_neg hi]

/-- **Without a wrap** the loop with 32-bit pointers is the one with numbers. -/
theorem flat_memcpy (hd : d + len ≤ 2 ^ 32) (hs : s + len ≤ 2 ^ 32) (c : Copy) :
    (c.memcpy len (UInt32.ofNat d) (UInt32.ofNat s)).mem.flat = memcpy d s len c.mem.flat := by
  induction len generalizing d s c with
  | zero => rfl
  | succ len ih =>
    have hsrc : c.mem (UInt32.ofNat s) = c.mem.flat s := by
      unfold Mem32.flat
      rw [if_pos (by omega)]
    have hnext : ∀ n, UInt32.ofNat n + 1 = UInt32.ofNat (n + 1) := fun n => (UInt32.ofNat_add n 1).symm
    rw [Copy.memcpy, hnext, hnext, ih (by omega) (by omega), memcpy]
    congr 1
    show Mem32.flat (Function.update c.mem (UInt32.ofNat d) (c.mem (UInt32.ofNat s))) = _
    rw [flat_update (by omega), hsrc]

theorem memcpy_apply_of_apart {dest src : Nat} {m : Bytes} (h : dest ≤ src ∨ RangesApart dest src len) :
    memcpy dest src len m i =
      if dest ≤ i ∧ i < dest + len then m (src + (i - dest)) else m i := by
  by_cases hle : dest ≤ src
  · exact memcpy_apply hle
  have hbehind : src + len ≤ dest := by
    rcases h with h | h | h
    · exact absurd h hle
    · omega
    · exact h
  clear h hle
  induction len generalizing dest src m with
  | zero => rw [if_neg (by omega), memcpy]
  | succ len ih =>
    rw [memcpy, ih (by omega)]
    by_cases hi : i = dest
    · rw [hi, if_neg (by omega), if_pos (by omega), Function.update_self, Nat.sub_self, Nat.add_zero]
    by_cases hin : dest ≤ i ∧ i < dest + (len + 1)
    · rw [if_pos hin, if_pos (by omega), Function.update_of_ne (by omega)]
      congr 1
      omega
    · rw [if_neg hin, if_neg (by omega), Function.update_of_ne hi]

/-- **`memcpy`** to a lower range, also an overlapping one, or to a disjoint one: every byte is the
one that the source had, and the others are left. -/
theorem memcpy_spec (m : Mem32) (dest src len : UInt32) (hdest : dest.toNat + len.toNat ≤ 2 ^ 32)
    (hsrc : src.toNat + len.toNat ≤ 2 ^ 32)
    (h : dest ≤ src ∨ RangesApart dest.toNat src.toNat len.toNat) :
    (∀ k < len.toNat, (Copy.memcpy len.toNat dest src ⟨m, [], []⟩).mem (dest + UInt32.ofNat k) =
        m (src + UInt32.ofNat k)) ∧
      ∀ a : UInt32, a.toNat < dest.toNat ∨ dest.toNat + len.toNat ≤ a.toNat →
        (Copy.memcpy len.toNat dest src ⟨m, [], []⟩).mem a = m a := by
  have hflat : (Copy.memcpy len.toNat dest src ⟨m, [], []⟩).mem.flat =
      memcpy dest.toNat src.toNat len.toNat m.flat := by
    have := flat_memcpy hdest hsrc ⟨m, [], []⟩
    rwa [UInt32.ofNat_toNat, UInt32.ofNat_toNat] at this
  have hget : ∀ a, (Copy.memcpy len.toNat dest src ⟨m, [], []⟩).mem a =
      memcpy dest.toNat src.toNat len.toNat m.flat a.toNat := by
    intro a
    rw [← hflat, flat_toNat]
  have happly := fun i => @memcpy_apply_of_apart len.toNat i dest.toNat src.toNat m.flat
    (h.imp_left UInt32.le_iff_toNat_le.mp)
  constructor
  · intro k hk
    rw [hget, toNat_add_ofNat (by omega), happly, if_pos (by omega), Nat.add_sub_cancel_left,
      ← toNat_add_ofNat (by omega), flat_toNat]
  · intro a ha
    rw [hget, happly, if_neg (by omega), flat_toNat]

/-- Memory in which every byte is the low byte of its address. -/
def lowBytes : Mem32 := fun a => a.toUInt8

/-- Six bytes from `3` on, two bytes down. -/
theorem memcpy_spec_overlap :
    (∀ k < 6, (Copy.memcpy 6 1 3 ⟨lowBytes, [], []⟩).mem (1 + UInt32.ofNat k) =
        lowBytes (3 + UInt32.ofNat k)) ∧
      ∀ a : UInt32, a.toNat < 1 ∨ 1 + 6 ≤ a.toNat →
        (Copy.memcpy 6 1 3 ⟨lowBytes, [], []⟩).mem a = lowBytes a :=
  memcpy_spec lowBytes 1 3 6 (by decide) (by decide) (Or.inl (by decide))

end

/-! ## Fills -/

/-- Memory and `EDI` between the instructions of a fill. -/
structure Fill where
  mem : Mem32
  edi : UInt32

/-- `rep stosl`, with the direction flag clear. -/
def Fill.repStosl (eax : UInt32) : Nat → Fill → Fill
  | 0, s => s
  | ecx + 1, s => repStosl eax ecx
    { mem := fun a => if (a - s.edi).toNat < 4 then byteOf eax.toNat (a - s.edi).toNat else s.mem a
      edi := s.edi + 4 }

/-- `rep stosb`. -/
def Fill.repStosb (al : UInt8) : Nat → Fill → Fill
  | 0, s => s
  | ecx + 1, s => repStosb al ecx { mem := Function.update s.mem s.edi al, edi := s.edi + 1 }

/-- `(uint32)value | ((uint32)value << 8) | ((uint32)value << 16) | ((uint32)value << 24)`. A `char` is
signed. -/
def fillPattern (value : Int8) : UInt32 :=
  let x := value.toInt32.toUInt32
  x ||| x <<< 8 ||| x <<< 16 ||| x <<< 24

/-- `memset`. `EDI` is left over from the first block of instructions to the second one. -/
def Mem32.memset (m : Mem32) (mem : UInt32) (value : Int8) (count : UInt32) : Mem32 :=
  (Fill.repStosb value.toUInt8 (count &&& 3).toNat
    (Fill.repStosl (fillPattern value) (count >>> 2).toNat ⟨m, mem⟩)).mem

/-- `memset_word`. -/
def Mem32.memsetWord (m : Mem32) (mem : UInt32) (value : UInt16) (count : UInt32) : Mem32 :=
  (Fill.repStosl (value.toUInt32 ||| value.toUInt32 <<< 16) (count >>> 1).toNat ⟨m, mem⟩).mem

/-- From `m` to `m'` the `count` bytes from `mem` on are filled with `value`, and no other byte has
changed. -/
structure FillsBytes (m m' : Mem32) (mem : UInt32) (value : UInt8) (count : Nat) : Prop where
  filled : ∀ k < count, m' (mem + UInt32.ofNat k) = value
  other : ∀ a, (∀ k < count, a ≠ mem + UInt32.ofNat k) → m' a = m a

/-- The word `value` is at the address `a`. -/
def WordAt (m : Mem32) (a : UInt32) (value : UInt16) : Prop :=
  m a = byteOf value.toNat 0 ∧ m (a + 1) = byteOf value.toNat 1

/-- From `m` to `m'` the `count` words from `mem` on are filled with `value`, and no other byte has
changed. -/
structure FillsWords (m m' : Mem32) (mem : UInt32) (value : UInt16) (count : Nat) : Prop where
  filled : ∀ k < count, WordAt m' (mem + UInt32.ofNat (2 * k)) value
  other : ∀ a, (∀ k < 2 * count, a ≠ mem + UInt32.ofNat k) → m' a = m a

section

variable {m : Mem32} {s : Fill} {a b mem eax : UInt32} {al : UInt8} {k n : Nat}

theorem toNat_sub_add (a b : UInt32) (n : Nat) :
    (a - (b + UInt32.ofNat n)).toNat = ((a - b).toNat + (2 ^ 32 - n % 2 ^ 32)) % 2 ^ 32 := by
  have ha := a.toNat_lt
  have hb := b.toNat_lt
  rw [UInt32.toNat_sub, UInt32.toNat_sub, UInt32.toNat_add, UInt32.toNat_ofNat']
  omega

theorem toNat_add_sub (b : UInt32) (n : Nat) : (b + UInt32.ofNat n - b).toNat = n % 2 ^ 32 := by
  have hb := b.toNat_lt
  rw [UInt32.toNat_sub, UInt32.toNat_add, UInt32.toNat_ofNat']
  omega

theorem add_toNat_sub (a b : UInt32) : b + UInt32.ofNat (a - b).toNat = a := by
  rw [UInt32.ofNat_toNat, UInt32.add_comm, UInt32.sub_add_cancel]

theorem Fill.repStosl_edi (eax : UInt32) (n : Nat) (s : Fill) :
    (s.repStosl eax n).edi = s.edi + UInt32.ofNat (4 * n) := by
  induction n generalizing s with
  | zero => exact (UInt32.add_zero _).symm
  | succ n ih =>
    rw [Fill.repStosl, ih, Nat.mul_succ, Nat.add_comm, UInt32.ofNat_add, ← UInt32.add_assoc]
    rfl

/-- **`rep stosl`** fills from `EDI` on with the bytes of `EAX`, in turn. A fill that wraps stores the
same bytes again. -/
theorem Fill.repStosl_apply (eax : UInt32) (n : Nat) (s : Fill) (a : UInt32) :
    (s.repStosl eax n).mem a = if (a - s.edi).toNat < 4 * n then
      byteOf eax.toNat ((a - s.edi).toNat % 4) else s.mem a := by
  induction n generalizing s with
  | zero => rw [if_neg (by omega), Fill.repStosl]
  | succ n ih =>
    have hd : (a - (s.edi + 4)).toNat = ((a - s.edi).toNat + (2 ^ 32 - 4)) % 2 ^ 32 :=
      toNat_sub_add a s.edi 4
    have hlt := (a - s.edi).toNat_lt
    rw [Fill.repStosl, ih]
    dsimp only
    rw [hd]
    generalize (a - s.edi).toNat = d at hlt
    by_cases hagain : (d + (2 ^ 32 - 4)) % 2 ^ 32 < 4 * n
    · have hmod : (d + (2 ^ 32 - 4)) % 2 ^ 32 % 4 = d % 4 := by omega
      rw [if_pos hagain, if_pos (by omega), hmod]
    rw [if_neg hagain]
    by_cases hfirst : d < 4
    · rw [if_pos hfirst, if_pos (by omega), Nat.mod_eq_of_lt hfirst]
    · rw [if_neg hfirst, if_neg (by omega)]

/-- **`rep stosb`** fills `n` bytes from `EDI` on. -/
theorem Fill.repStosb_apply (al : UInt8) (n : Nat) (s : Fill) (a : UInt32) :
    (s.repStosb al n).mem a = if (a - s.edi).toNat < n then al else s.mem a := by
  induction n generalizing s with
  | zero => rw [if_neg (by omega), Fill.repStosb]
  | succ n ih =>
    have hd : (a - (s.edi + 1)).toNat = ((a - s.edi).toNat + (2 ^ 32 - 1)) % 2 ^ 32 :=
      toNat_sub_add a s.edi 1
    have hlt := (a - s.edi).toNat_lt
    rw [Fill.repStosb, ih]
    dsimp only
    rw [hd]
    by_cases hfirst : a = s.edi
    · rw [hfirst, Function.update_self, ite_self, if_pos (by rw [UInt32.sub_self]; exact Nat.succ_pos n)]
    · have hne : (a - s.edi).toNat ≠ 0 := by
        intro h
        apply hfirst
        rw [← add_toNat_sub a s.edi, h]
        exact UInt32.add_zero _
      rw [Function.update_of_ne hfirst]
      exact if_congr (by omega) rfl rfl

theorem byteOf_fillPattern (value : Int8) {k : Nat} (hk : k < 4) :
    byteOf (fillPattern value).toNat k =
      if k = 0 ∨ 0 ≤ value then value.toUInt8 else 255 := by
  have hall : ∀ b < 256, ∀ k < 4, byteOf (fillPattern (UInt8.ofNat b).toInt8).toNat k =
      if k = 0 ∨ 0 ≤ (UInt8.ofNat b).toInt8 then (UInt8.ofNat b).toInt8.toUInt8 else 255 := by
    decide +kernel
  have hvalue : value = (UInt8.ofNat value.toUInt8.toNat).toInt8 := by
    rw [UInt8.ofNat_toNat, Int8.toInt8_toUInt8]
  rw [hvalue]
  exact hall _ value.toUInt8.toNat_lt k hk

theorem byteOf_wordPattern (value : UInt16) {k : Nat} (hk : k < 4) :
    byteOf (value.toUInt32 ||| value.toUInt32 <<< 16).toNat k = byteOf value.toNat (k % 2) := by
  have hv : value.toNat < 2 ^ 16 := value.toNat_lt
  have hpattern : (value.toUInt32 ||| value.toUInt32 <<< 16).toNat =
      value.toNat ||| value.toNat <<< 16 := by
    have hshift : value.toNat <<< 16 < 2 ^ 32 := by
      rw [Nat.shiftLeft_eq]
      omega
    rw [UInt32.toNat_or, UInt32.toNat_shiftLeft, UInt16.toNat_toUInt32]
    exact congrArg _ (Nat.mod_eq_of_lt hshift)
  rw [hpattern]
  exact byteOf_twice hv hk

/-- **The bytes of `memset`.** -/
theorem memset_apply (m : Mem32) (mem : UInt32) (value : Int8) (count a : UInt32) :
    m.memset mem value count a =
      if (a - mem).toNat < 4 * (count.toNat / 4) then
        byteOf (fillPattern value).toNat ((a - mem).toNat % 4)
      else if (a - mem).toNat < count.toNat then value.toUInt8 else m a := by
  have hc := count.toNat_lt
  have hd := (a - mem).toNat_lt
  have hquot : (count >>> 2).toNat = count.toNat / 4 := by
    rw [UInt32.toNat_shiftRight]
    exact Nat.shiftRight_eq_div_pow _ 2
  have hrest : (count &&& 3).toNat = count.toNat % 4 := by
    rw [UInt32.toNat_and]
    exact Nat.and_two_pow_sub_one_eq_mod _ 2
  have hoff : (a - (mem + UInt32.ofNat (4 * (count.toNat / 4)))).toNat =
      ((a - mem).toNat + (2 ^ 32 - 4 * (count.toNat / 4) % 2 ^ 32)) % 2 ^ 32 :=
    toNat_sub_add a mem _
  unfold Mem32.memset
  rw [Fill.repStosb_apply, Fill.repStosl_edi, Fill.repStosl_apply, hquot, hrest, hoff]
  dsimp only
  generalize (a - mem).toNat = d at hd
  generalize count.toNat = c at hc
  by_cases hwords : d < 4 * (c / 4)
  · rw [if_neg (by omega), if_pos hwords, if_pos hwords]
  · rw [if_neg hwords, if_neg hwords]
    exact if_congr (by omega) rfl rfl

/-- **The bytes of `memset_word`.** -/
theorem memsetWord_apply32 (m : Mem32) (mem : UInt32) (value : UInt16) (count a : UInt32) :
    m.memsetWord mem value count a =
      if (a - mem).toNat < 4 * (count.toNat / 2) then byteOf value.toNat ((a - mem).toNat % 2)
      else m a := by
  have hquot : (count >>> 1).toNat = count.toNat / 2 := by
    rw [UInt32.toNat_shiftRight]
    exact Nat.shiftRight_eq_div_pow _ 1
  have hmod : (a - mem).toNat % 4 % 2 = (a - mem).toNat % 2 := Nat.mod_mod_of_dvd _ (by decide)
  unfold Mem32.memsetWord
  rw [Fill.repStosl_apply, hquot, byteOf_wordPattern value (Nat.mod_lt _ (by decide)), hmod]

/-- **Without a wrap** `memset_word` is the fill of the other modules. -/
theorem flat_memsetWord (m : Mem32) (mem : UInt32) (value : UInt16) (count : UInt32)
    (h : mem.toNat + 2 * count.toNat ≤ 2 ^ 32) :
    (m.memsetWord mem value count).flat = memsetWord mem.toNat value.toNat count.toNat m.flat := by
  ext i
  rw [memsetWord_apply value.toNat_lt]
  unfold Mem32.flat
  by_cases hi : i < 2 ^ 32
  · have hmem := mem.toNat_lt
    have hd : (UInt32.ofNat i - mem).toNat = (2 ^ 32 - mem.toNat + i) % 2 ^ 32 := by
      rw [UInt32.toNat_sub, UInt32.toNat_ofNat', Nat.mod_eq_of_lt hi]
    rw [if_pos hi, if_pos hi, memsetWord_apply32, hd]
    by_cases hin : mem.toNat ≤ i ∧ i < mem.toNat + 4 * (count.toNat / 2)
    · have hsub : (2 ^ 32 - mem.toNat + i) % 2 ^ 32 = i - mem.toNat := by omega
      rw [if_pos hin, hsub, if_pos (by omega)]
    · rw [if_neg hin, if_neg (by omega)]
  · rw [if_neg hi, if_neg hi, if_neg (by omega)]

/-! ## The filled ranges -/

theorem ne_add_ofNat_iff {count : Nat} (a mem : UInt32) :
    (∀ k < count, a ≠ mem + UInt32.ofNat k) ↔ count ≤ (a - mem).toNat := by
  constructor
  · intro h
    by_contra hlt
    exact h _ (Nat.not_le.mp hlt) (add_toNat_sub a mem).symm
  · rintro h k hk rfl
    rw [toNat_add_sub] at h
    have := Nat.mod_le k (2 ^ 32)
    omega

/-- **`memset`** fills its range except with a negative value other than `-1`. -/
theorem fillsBytes_iff (m : Mem32) (mem : UInt32) (value : Int8) (count : UInt32) :
    FillsBytes m (m.memset mem value count) mem value.toUInt8 count.toNat ↔
      count.toNat < 4 ∨ 0 ≤ value ∨ value = -1 := by
  have hc := count.toNat_lt
  constructor
  · intro h
    by_contra hnot
    rw [not_or, not_or] at hnot
    obtain ⟨hcount, hneg, hne⟩ := hnot
    -- the second byte has the bits of the sign
    have hsecond := h.filled 1 (by omega)
    have hd : (mem + UInt32.ofNat 1 - mem).toNat = 1 := toNat_add_sub mem 1
    rw [memset_apply, hd, if_pos (by omega), Nat.mod_eq_of_lt (by decide),
      byteOf_fillPattern value (by decide), if_neg (by simpa using hneg)] at hsecond
    apply hne
    have hbyte : value.toUInt8.toInt8 = (255 : UInt8).toInt8 := by rw [hsecond]
    rwa [Int8.toInt8_toUInt8] at hbyte
  · intro h
    have hpattern : ∀ j < 4, 4 ≤ count.toNat →
        byteOf (fillPattern value).toNat j = value.toUInt8 := by
      intro j hj hcount
      rw [byteOf_fillPattern value hj]
      rcases h with h | h | rfl
      · omega
      · rw [if_pos (Or.inr h)]
      · by_cases h0 : j = 0 ∨ (0 : Int8) ≤ -1
        · rw [if_pos h0]
        · rw [if_neg h0]
          rfl
    constructor
    · intro k hk
      have hd : (mem + UInt32.ofNat k - mem).toNat = k := by
        rw [toNat_add_sub, Nat.mod_eq_of_lt (by omega)]
      rw [memset_apply, hd, if_pos hk]
      by_cases hin : k < 4 * (count.toNat / 4)
      · rw [if_pos hin, hpattern _ (Nat.mod_lt _ (by decide)) (by omega)]
      · rw [if_neg hin]
    · intro a ha
      have hd := (ne_add_ofNat_iff a mem).mp ha
      rw [memset_apply, if_neg (by omega), if_neg (by omega)]

theorem wordAt_memsetWord {value : UInt16} {count : UInt32} (d : Nat) (heven : 2 ∣ d)
    (hd : d % 2 ^ 32 < 4 * (count.toNat / 2)) :
    WordAt (m.memsetWord mem value count) (mem + UInt32.ofNat d) value := by
  have hnext : mem + UInt32.ofNat d + 1 = mem + UInt32.ofNat (d + 1) := by
    rw [UInt32.ofNat_add, ← UInt32.add_assoc]
    rfl
  constructor
  · rw [memsetWord_apply32, toNat_add_sub, if_pos hd]
    congr 1
    omega
  · rw [hnext, memsetWord_apply32, toNat_add_sub, if_pos (by omega)]
    congr 1
    omega

theorem wordAt_behind {value : UInt16} {count : UInt32} {d : Nat} (hd : d < 2 ^ 32 - 1)
    (hge : 4 * (count.toNat / 2) ≤ d) :
    WordAt (m.memsetWord mem value count) (mem + UInt32.ofNat d) value ↔
      WordAt m (mem + UInt32.ofNat d) value := by
  have hnext : mem + UInt32.ofNat d + 1 = mem + UInt32.ofNat (d + 1) := by
    rw [UInt32.ofNat_add, ← UInt32.add_assoc]
    rfl
  unfold WordAt
  rw [hnext, memsetWord_apply32, memsetWord_apply32, toNat_add_sub, toNat_add_sub,
    if_neg (by omega), if_neg (by omega)]

/-- **`memset_word`** leaves out the last one of an odd number of words. -/
theorem fillsWords_iff (m : Mem32) (mem : UInt32) (value : UInt16) (count : UInt32) :
    FillsWords m (m.memsetWord mem value count) mem value count.toNat ↔
      2 ∣ count.toNat ∨ 2 ^ 31 < count.toNat ∨
        WordAt m (mem + UInt32.ofNat (2 * (count.toNat - 1))) value := by
  have hc := count.toNat_lt
  constructor
  · intro h
    by_cases heven : 2 ∣ count.toNat
    · exact Or.inl heven
    by_cases hwrap : 2 ^ 31 < count.toNat
    · exact Or.inr (Or.inl hwrap)
    · exact Or.inr (Or.inr ((wordAt_behind (by omega) (by omega)).mp
        (h.filled (count.toNat - 1) (by omega))))
  · intro h
    constructor
    · intro k hk
      by_cases hin : 2 * k % 2 ^ 32 < 4 * (count.toNat / 2)
      · exact wordAt_memsetWord (2 * k) ⟨k, rfl⟩ hin
      · have hlast : k = count.toNat - 1 := by omega
        rcases h with h | h | h
        · omega
        · omega
        · rw [hlast]
          exact (wordAt_behind (by omega) (by omega)).mpr h
    · intro a ha
      have hd := (ne_add_ofNat_iff a mem).mp ha
      rw [memsetWord_apply32, if_neg (by omega)]

/-- **The fills cover their ranges**, for which values and counts. -/
theorem fills_iff (m : Mem32) (mem : UInt32) (value : Int8) (word : UInt16) (count : UInt32) :
    (FillsBytes m (m.memset mem value count) mem value.toUInt8 count.toNat ↔
        count.toNat < 4 ∨ 0 ≤ value ∨ value = -1) ∧
      (FillsWords m (m.memsetWord mem word count) mem word count.toNat ↔
        2 ∣ count.toNat ∨ 2 ^ 31 < count.toNat ∨
          WordAt m (mem + UInt32.ofNat (2 * (count.toNat - 1))) word) :=
  ⟨fillsBytes_iff m mem value count, fillsWords_iff m mem word count⟩

/-- **Four bytes `0x80`**, and one word, in a memory of zeros. -/
theorem fills_missed :
    ¬ FillsBytes (fun _ => 0) (Mem32.memset (fun _ => 0) 0 (-128) 4) 0 (-128 : Int8).toUInt8 4 ∧
      ¬ FillsWords (fun _ => 0) (Mem32.memsetWord (fun _ => 0) 0 1 1) 0 1 1 := by
  constructor
  · intro h
    have := (fillsBytes_iff (fun _ => 0) 0 (-128) 4).mp h
    revert this
    decide
  · intro h
    have := (fillsWords_iff (fun _ => 0) 0 1 1).mp h
    unfold WordAt at this
    revert this
    decide

end

end C4os
