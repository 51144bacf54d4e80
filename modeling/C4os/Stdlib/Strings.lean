import Mathlib.Data.UInt
import Mathlib.Data.List.Basic
import Mathlib.Logic.Function.Basic

/-!
# String functions (`stdlib.c`)

* `cmpsbSteps`: `repe cmpsb`; `memchr`, `strlen`, `strncpy`: the functions. The scan compares with
  the bytes at `ESI`, which is left over from earlier code.
* `TextAt`: a NUL-terminated string that does not wrap; `commonPrefix`: what two addresses share.
* `strlen_gt`: `strlen` returns more than the length; `memchr_eq_iff`, `strncpy_exact_iff`.
* **`strings_spec`**: when the three functions do what their names say.
-/

namespace C4os

/-- Memory behind 32-bit addresses. -/
abbrev Mem32 := UInt32 → UInt8

/-! ## The functions -/

/-- `repe cmpsb`, with the direction flag clear: the number of bytes that it compares. -/
def cmpsbSteps (m : Mem32) : Nat → UInt32 → UInt32 → Nat
  | 0, _, _ => 0
  | ecx + 1, esi, edi =>
    if m esi = m edi then cmpsbSteps m ecx (esi + 1) (edi + 1) + 1 else 1

/-- `memchr`. The value is in `AL`, which the instruction does not use. -/
def memchr (m : Mem32) (esi mem : UInt32) (_value : UInt8) (count : UInt32) : UInt32 :=
  let result := mem + UInt32.ofNat (cmpsbSteps m count.toNat esi mem)
  if result < mem + count then result else 0

/-- `strlen`. -/
def strlen (m : Mem32) (esi str : UInt32) : UInt32 := memchr m esi str 0 (-1) - str

/-- A copy under way: memory, the addresses that were read through `src`, and the stores. -/
structure Copy where
  mem : Mem32
  reads : List UInt32
  writes : List (UInt32 × UInt8)

/-- `*dest = value`. -/
def Copy.store (c : Copy) (dest : UInt32) (value : UInt8) : Copy :=
  { c with mem := Function.update c.mem dest value, writes := c.writes ++ [(dest, value)] }

/-- The loop of `memcpy`. -/
def Copy.memcpy : Nat → UInt32 → UInt32 → Copy → Copy
  | 0, _, _, c => c
  | len + 1, dest, src, c =>
    ({ c with reads := c.reads ++ [src] }.store dest (c.mem src)).memcpy len (dest + 1) (src + 1)

/-- The bytes that the scan of `strlen` reads. -/
def scanReads (m : Mem32) (esi str : UInt32) : List UInt32 :=
  (List.range (cmpsbSteps m (2 ^ 32 - 1) esi str)).map fun i => str + UInt32.ofNat i

/-- `strncpy`. The macro `min` calls `strlen` for its test, and again for its result if that is the
smaller one: `esi` and `esi'` are what the calls find in `ESI`. -/
def strncpy (m : Mem32) (esi esi' dest src maxCount : UInt32) : Copy :=
  let a := maxCount - 1
  let twice := a > strlen m esi src
  let len := if twice then strlen m esi' src else a
  let reads := scanReads m esi src ++ if twice then scanReads m esi' src else []
  (Copy.memcpy len.toNat dest src ⟨m, reads, []⟩).store (dest + len) 0

/-! ## What the functions are for -/

/-- The string `text` at `str`, with its NUL, does not wrap. -/
structure TextAt (m : Mem32) (str : UInt32) (text : List UInt8) : Prop where
  bytes : ∀ i, i < text.length → some (m (str + UInt32.ofNat i)) = text[i]?
  nul : m (str + UInt32.ofNat text.length) = 0
  ne_zero : ∀ c ∈ text, c ≠ 0
  fits : str.toNat + text.length < 2 ^ 32

/-- The address of the first `c` in the first `n` bytes of the string with its NUL, or `NULL`. -/
def firstOf (str : UInt32) (text : List UInt8) (c : UInt8) (n : Nat) : UInt32 :=
  match ((text ++ [0]).take n).idxOf? c with
  | some j => str + UInt32.ofNat j
  | none => 0

/-- The stores of the bytes of `l` from `dest` on. -/
def storesAt (dest : UInt32) : List UInt8 → List (UInt32 × UInt8)
  | [] => []
  | b :: l => (dest, b) :: storesAt (dest + 1) l

/-- Exactly the first `min (maxCount - 1) (strlen src)` bytes and a NUL are stored, and no byte
behind the terminator is read. -/
structure CopiesExactly (c : Copy) (dest src : UInt32) (text : List UInt8) (maxCount : Nat) :
    Prop where
  writes : c.writes = storesAt dest (text.take (maxCount - 1) ++ [0])
  reads : ∀ a ∈ c.reads, ∃ i ≤ text.length, a = src + UInt32.ofNat i

/-- The number of bytes, at most `n`, that two addresses share. -/
def commonPrefix (m : Mem32) : Nat → UInt32 → UInt32 → Nat
  | 0, _, _ => 0
  | n + 1, a, b => if m a = m b then commonPrefix m n (a + 1) (b + 1) + 1 else 0

variable {m : Mem32} {esi esi' str dest src maxCount : UInt32} {text : List UInt8} {n : Nat}

/-! ## The scan -/

theorem cmpsbSteps_eq (n : Nat) (a b : UInt32) :
    cmpsbSteps m n a b = min n (commonPrefix m n a b + 1) := by
  induction n generalizing a b with
  | zero => exact (Nat.zero_min _).symm
  | succ n ih =>
    rw [cmpsbSteps, commonPrefix]
    by_cases h : m a = m b
    · rw [if_pos h, if_pos h, ih]
      omega
    · rw [if_neg h, if_neg h]
      omega

theorem commonPrefix_le (n : Nat) (a b : UInt32) : commonPrefix m n a b ≤ n := by
  induction n generalizing a b with
  | zero => exact Nat.le_refl 0
  | succ n ih =>
    have := ih (a + 1) (b + 1)
    rw [commonPrefix]
    split_ifs <;> omega

theorem cmpsbSteps_le (n : Nat) (a b : UInt32) : cmpsbSteps m n a b ≤ n := by
  rw [cmpsbSteps_eq]
  exact Nat.min_le_left _ _

theorem toNat_add_ofNat {k : Nat} (h : str.toNat + k < 2 ^ 32) :
    (str + UInt32.ofNat k).toNat = str.toNat + k := by
  rw [UInt32.toNat_add, UInt32.toNat_ofNat', Nat.mod_eq_of_lt (a := k) (by omega),
    Nat.mod_eq_of_lt h]

/-- **`strlen` returns more than the length** of every string that does not start at `0` or `1`: the
scan ends before `str - 1`, and is taken for a miss, unless it has wrapped. -/
theorem strlen_gt (h : TextAt m str text) (hstr : 2 ≤ str.toNat) (esi : UInt32) :
    text.length < (strlen m esi str).toNat := by
  have hfits := h.fits
  have hlt := str.toNat_lt
  have hcount : ((-1 : UInt32)).toNat = 2 ^ 32 - 1 := by decide
  have hk := cmpsbSteps_le (m := m) (2 ^ 32 - 1) esi str
  have hk0 : 0 < cmpsbSteps m (2 ^ 32 - 1) esi str := by
    rw [cmpsbSteps_eq]
    omega
  have hlast : (str + (-1)).toNat = str.toNat - 1 := by
    rw [UInt32.toNat_add, hcount]
    omega
  unfold strlen memchr
  rw [hcount]
  generalize cmpsbSteps m (2 ^ 32 - 1) esi str = k at hk hk0 ⊢
  dsimp only
  have hedi : (str + UInt32.ofNat k).toNat = (str.toNat + k) % 2 ^ 32 := by
    rw [UInt32.toNat_add, UInt32.toNat_ofNat', Nat.mod_eq_of_lt (a := k) (by omega)]
  by_cases hhit : str + UInt32.ofNat k < str + (-1)
  · rw [if_pos hhit, UInt32.toNat_sub, hedi]
    rw [UInt32.lt_iff_toNat_lt, hlast, hedi] at hhit
    omega
  · rw [if_neg hhit, UInt32.toNat_sub, UInt32.toNat_zero]
    omega

/-! ## `memchr` -/

theorem memchr_eq {count : UInt32} (h : TextAt m str text) (hn : count.toNat ≤ text.length + 1)
    (esi : UInt32) (c : UInt8) : memchr m esi str c count =
      if commonPrefix m count.toNat esi str + 1 < count.toNat ∧ str.toNat + count.toNat < 2 ^ 32 then
        str + UInt32.ofNat (commonPrefix m count.toNat esi str + 1) else 0 := by
  have hfits := h.fits
  have hle := commonPrefix_le (m := m) count.toNat esi str
  unfold memchr
  rw [cmpsbSteps_eq]
  dsimp only
  generalize hp : commonPrefix m count.toNat esi str = p at hle ⊢
  by_cases hwrap : str.toNat + count.toNat < 2 ^ 32
  · have hend : (str + count).toNat = str.toNat + count.toNat := by
      rw [UInt32.toNat_add, Nat.mod_eq_of_lt hwrap]
    by_cases hlt : p + 1 < count.toNat
    · have hhit : str + UInt32.ofNat (p + 1) < str + count := by
        rw [UInt32.lt_iff_toNat_lt, toNat_add_ofNat (by omega), hend]
        omega
      rw [Nat.min_eq_right (by omega), if_pos hhit, if_pos ⟨hlt, hwrap⟩]
    · have hmiss : ¬ str + UInt32.ofNat count.toNat < str + count := by
        rw [UInt32.lt_iff_toNat_lt, toNat_add_ofNat (by omega), hend]
        omega
      rw [Nat.min_eq_left (by omega), if_neg hmiss, if_neg fun h => hlt h.1]
  · have hend : (str + count).toNat = 0 := by
      rw [UInt32.toNat_add]
      omega
    have hmiss : ∀ x : UInt32, ¬ x < str + count := by
      intro x
      rw [UInt32.lt_iff_toNat_lt, hend]
      exact Nat.not_lt_zero _
    rw [if_neg (hmiss _), if_neg fun h => hwrap h.2]

/-- **When `memchr` is right**: the bytes at `ESI` differ from the string first at the byte before
the first `c`; or not within `n - 2` bytes if there is no `c`. The end of the part must not be the
end of memory if there is one. -/
theorem memchr_eq_iff {count : UInt32} (h : TextAt m str text) (hstr : 2 ≤ str.toNat)
    (hn : count.toNat ≤ text.length + 1) (esi : UInt32) (c : UInt8) :
    memchr m esi str c count = firstOf str text c count.toNat ↔
      match ((text ++ [0]).take count.toNat).idxOf? c with
      | some j => commonPrefix m count.toNat esi str + 1 = j ∧ str.toNat + count.toNat < 2 ^ 32
      | none => count.toNat ≤ commonPrefix m count.toNat esi str + 1 ∨
          str.toNat + count.toNat = 2 ^ 32 := by
  have hfits := h.fits
  have hne : ∀ k, str.toNat + k < 2 ^ 32 → str + UInt32.ofNat k ≠ 0 := by
    intro k hk h0
    have := congrArg UInt32.toNat h0
    rw [toNat_add_ofNat hk, UInt32.toNat_zero] at this
    omega
  rw [memchr_eq h hn]
  unfold firstOf
  generalize hp : commonPrefix m count.toNat esi str = p
  cases hidx : ((text ++ [0]).take count.toNat).idxOf? c with
  | none =>
    dsimp only
    by_cases hin : p + 1 < count.toNat ∧ str.toNat + count.toNat < 2 ^ 32
    · rw [if_pos hin]
      exact iff_of_false (hne _ (by omega)) (by omega)
    · rw [if_neg hin]
      exact iff_of_true rfl (by omega)
  | some j =>
    have hj : j < count.toNat := by
      obtain ⟨hlt, -, -⟩ := List.idxOf?_eq_some_iff.mp hidx
      rw [List.length_take] at hlt
      omega
    dsimp only
    by_cases hin : p + 1 < count.toNat ∧ str.toNat + count.toNat < 2 ^ 32
    · rw [if_pos hin, ← UInt32.toNat_inj, toNat_add_ofNat (by omega), toNat_add_ofNat (by omega)]
      omega
    · rw [if_neg hin]
      refine iff_of_false (fun h0 => hne j (by omega) h0.symm) (fun h => hin ⟨?_, h.2⟩)
      rw [h.1]
      exact hj

/-! ## `strncpy` -/

theorem Copy.memcpy_reads (len : Nat) (dest src : UInt32) (c : Copy) :
    (c.memcpy len dest src).reads =
      c.reads ++ (List.range len).map fun i => src + UInt32.ofNat i := by
  induction len generalizing dest src c with
  | zero => exact (List.append_nil _).symm
  | succ len ih =>
    rw [Copy.memcpy, ih, List.range_succ_eq_map, List.map_cons, List.map_map]
    show c.reads ++ [src] ++ _ = c.reads ++ ((src + UInt32.ofNat 0) :: _)
    rw [List.append_assoc, List.singleton_append, show src + UInt32.ofNat 0 = src from
      UInt32.add_zero src]
    congr 2
    apply List.map_congr_left
    intro i _
    show src + 1 + UInt32.ofNat i = src + UInt32.ofNat (i + 1)
    rw [UInt32.ofNat_add, UInt32.add_assoc, UInt32.add_comm (UInt32.ofNat i)]
    rfl

theorem Copy.length_writes (len : Nat) (dest src : UInt32) (c : Copy) :
    (c.memcpy len dest src).writes.length = c.writes.length + len := by
  induction len generalizing dest src c with
  | zero => rfl
  | succ len ih =>
    have hstore : ((Copy.store { c with reads := c.reads ++ [src] } dest (c.mem src)).writes).length =
        c.writes.length + 1 := List.length_append
    rw [Copy.memcpy, ih, hstore]
    omega

/-- **A copy to a disjoint range** stores the bytes that the source has at the start. -/
theorem Copy.memcpy_writes {l : List UInt8} {c : Copy}
    (hl : ∀ i, i < l.length → some (c.mem (src + UInt32.ofNat i)) = l[i]?)
    (hdis : ∀ i < l.length, ∀ j < l.length, dest + UInt32.ofNat i ≠ src + UInt32.ofNat j) :
    (c.memcpy l.length dest src).writes = c.writes ++ storesAt dest l := by
  induction l generalizing dest src c with
  | nil => exact (List.append_nil _).symm
  | cons b l ih =>
    have hshift : ∀ (a : UInt32) (i : Nat), a + 1 + UInt32.ofNat i = a + UInt32.ofNat (i + 1) := by
      intro a i
      rw [UInt32.ofNat_add, UInt32.add_assoc, UInt32.add_comm (UInt32.ofNat i)]
      rfl
    have h0 : ∀ a : UInt32, a + UInt32.ofNat 0 = a := UInt32.add_zero
    have hb : c.mem src = b := by
      have := hl 0 (Nat.succ_pos _)
      rw [h0] at this
      exact Option.some.inj this
    rw [List.length_cons, Copy.memcpy, ih, Copy.store, hb, List.append_assoc]
    · rfl
    · intro i hi
      have hne : src + UInt32.ofNat (i + 1) ≠ dest := by
        have := hdis 0 (Nat.succ_pos _) (i + 1) (Nat.succ_lt_succ hi)
        rw [h0] at this
        exact this.symm
      rw [hshift]
      show some (Function.update c.mem dest (c.mem src) (src + UInt32.ofNat (i + 1))) = _
      rw [Function.update_of_ne hne, hl (i + 1) (Nat.succ_lt_succ hi)]
      rfl
    · intro i hi j hj
      rw [hshift, hshift]
      exact hdis _ (Nat.succ_lt_succ hi) _ (Nat.succ_lt_succ hj)

theorem storesAt_append (dest : UInt32) (l : List UInt8) (b : UInt8) :
    storesAt dest (l ++ [b]) = storesAt dest l ++ [(dest + UInt32.ofNat l.length, b)] := by
  induction l generalizing dest with
  | nil => 
    show [(dest, b)] = [(dest + UInt32.ofNat 0, b)]
    rw [show dest + UInt32.ofNat 0 = dest from UInt32.add_zero dest]
  | cons c l ih =>
    rw [List.cons_append, storesAt, ih, storesAt, List.cons_append, List.length_cons,
      UInt32.ofNat_add, UInt32.add_comm (UInt32.ofNat l.length), ← UInt32.add_assoc]
    rfl

theorem length_storesAt (dest : UInt32) (l : List UInt8) :
    (storesAt dest l).length = l.length := by
  induction l generalizing dest with
  | nil => rfl
  | cons b l ih => rw [storesAt, List.length_cons, ih, List.length_cons]

/-- `dest` and the string do not overlap. -/
def Disjoint32 (dest : UInt32) (n : Nat) (src : UInt32) (k : Nat) : Prop :=
  ∀ i < n, ∀ j < k, dest + UInt32.ofNat i ≠ src + UInt32.ofNat j

/-- **When `strncpy` is right**: the copy is cut off within the string, and the bytes at `ESI` differ
from the string before it ends. -/
theorem strncpy_exact_iff (h : TextAt m src text) (hsrc : 2 ≤ src.toNat) (hmax : 1 ≤ maxCount.toNat)
    (hdis : Disjoint32 dest maxCount.toNat src (text.length + 1)) (esi esi' : UInt32) :
    CopiesExactly (strncpy m esi esi' dest src maxCount) dest src text maxCount.toNat ↔
      maxCount.toNat ≤ text.length + 1 ∧
        commonPrefix m (2 ^ 32 - 1) esi src ≤ text.length := by
  have hgt := strlen_gt h hsrc esi
  have hgt' := strlen_gt h hsrc esi'
  have hfits := h.fits
  have ha : (maxCount - 1).toNat = maxCount.toNat - 1 := by
    have := maxCount.toNat_lt
    rw [UInt32.toNat_sub, UInt32.toNat_one]
    omega
  by_cases hcut : maxCount.toNat ≤ text.length + 1
  · have hfirst : ¬ maxCount - 1 > strlen m esi src := by
      show ¬ strlen m esi src < maxCount - 1
      rw [UInt32.lt_iff_toNat_lt, ha]
      omega
    have hlen : (text.take (maxCount.toNat - 1)).length = maxCount.toNat - 1 := by
      rw [List.length_take]
      omega
    have hrun : strncpy m esi esi' dest src maxCount =
        (Copy.memcpy (maxCount.toNat - 1) dest src ⟨m, scanReads m esi src, []⟩).store
          (dest + (maxCount - 1)) 0 := by
      unfold strncpy
      dsimp only
      rw [if_neg hfirst, if_neg hfirst, ha, List.append_nil]
    have hwrites : (strncpy m esi esi' dest src maxCount).writes =
        storesAt dest (text.take (maxCount.toNat - 1) ++ [0]) := by
      have hcopy : (Copy.memcpy (text.take (maxCount.toNat - 1)).length dest src
          ⟨m, scanReads m esi src, []⟩).writes = [] ++ storesAt dest (text.take (maxCount.toNat - 1)) :=
        Copy.memcpy_writes
          (fun i hi => by
            rw [List.getElem?_take_of_lt (by omega)]
            exact h.bytes i (by omega))
          (fun i hi j hj => hdis i (by omega) j (by omega))
      rw [hlen] at hcopy
      have hofNat : UInt32.ofNat (maxCount.toNat - 1) = maxCount - 1 := by
        rw [← ha, UInt32.ofNat_toNat]
      rw [hrun, Copy.store, hcopy, storesAt_append, hlen, hofNat]
      rfl
    rw [and_iff_right hcut]
    have hreads : (strncpy m esi esi' dest src maxCount).reads = scanReads m esi src ++
        (List.range (maxCount.toNat - 1)).map fun i => src + UInt32.ofNat i := by
      rw [hrun]
      exact Copy.memcpy_reads _ _ _ _
    have hsteps := cmpsbSteps_eq (m := m) (2 ^ 32 - 1) esi src
    constructor
    · rintro ⟨-, hr⟩
      -- otherwise the scan reads the byte behind the terminator
      by_contra hlong
      have hread : src + UInt32.ofNat (text.length + 1) ∈ scanReads m esi src :=
        List.mem_map.mpr ⟨text.length + 1, List.mem_range.mpr (by omega), rfl⟩
      obtain ⟨i, hi, he⟩ := hr _ (by rw [hreads]; exact List.mem_append_left _ hread)
      have hi' := congrArg UInt32.toNat ((UInt32.add_right_inj _).mp he)
      rw [UInt32.toNat_ofNat', UInt32.toNat_ofNat', Nat.mod_eq_of_lt (by omega),
        Nat.mod_eq_of_lt (by omega)] at hi'
      omega
    · intro hp
      refine ⟨hwrites, fun a hmem => ?_⟩
      rw [hreads, List.mem_append] at hmem
      rcases hmem with hmem | hmem <;> obtain ⟨i, hi, rfl⟩ := List.mem_map.mp hmem <;>
        rw [List.mem_range] at hi
      · exact ⟨i, by omega, rfl⟩
      · exact ⟨i, by omega, rfl⟩
  · refine iff_of_false (fun hex => ?_) fun hex => hcut hex.1
    have hlen := congrArg List.length hex.writes
    rw [length_storesAt, List.length_append, List.length_take, List.length_singleton] at hlen
    have hstored : ∀ x : UInt32, text.length < x.toNat → ∀ r,
        ((Copy.memcpy x.toNat dest src ⟨m, r, []⟩).store (dest + x) 0).writes.length ≠
          min (maxCount.toNat - 1) text.length + 1 := by
      intro x hx r
      rw [Copy.store, List.length_append, Copy.length_writes, List.length_singleton,
        List.length_nil]
      omega
    unfold strncpy at hlen
    dsimp only at hlen
    by_cases htwice : maxCount - 1 > strlen m esi src
    · rw [if_pos htwice] at hlen
      exact hstored _ hgt' _ hlen
    · rw [if_neg htwice] at hlen
      exact hstored _ (by omega) _ hlen

/-! ## The three functions -/

/-- **When the string functions respect the terminator.** For a string that does not start at `0` or
`1`, `strlen` never returns its length. `memchr` returns the first `c`, and `strncpy` copies exactly,
under conditions on what `ESI` happens to point to; `strncpy` only when it cuts the string off. -/
theorem strings_spec (h : TextAt m str text) (hstr : 2 ≤ str.toNat) (hmax : 1 ≤ maxCount.toNat)
    (hdis : Disjoint32 dest maxCount.toNat str (text.length + 1)) (esi esi' : UInt32) (c : UInt8)
    {count : UInt32} (hn : count.toNat ≤ text.length + 1) :
    ¬ (strlen m esi str).toNat = text.length ∧
      (memchr m esi str c count = firstOf str text c count.toNat ↔
        match ((text ++ [0]).take count.toNat).idxOf? c with
        | some j => commonPrefix m count.toNat esi str + 1 = j ∧ str.toNat + count.toNat < 2 ^ 32
        | none => count.toNat ≤ commonPrefix m count.toNat esi str + 1 ∨
            str.toNat + count.toNat = 2 ^ 32) ∧
      (CopiesExactly (strncpy m esi esi' dest str maxCount) dest str text maxCount.toNat ↔
        maxCount.toNat ≤ text.length + 1 ∧ commonPrefix m (2 ^ 32 - 1) esi str ≤ text.length) :=
  ⟨Nat.ne_of_gt (strlen_gt h hstr esi), memchr_eq_iff h hstr hn esi c,
    strncpy_exact_iff h hstr hmax hdis esi esi'⟩

/-- The string `"A"` at the address `0x1000`. -/
def letterA : Mem32 := fun a => if a = 0x1000 then 65 else 0

theorem textAt_letterA : TextAt letterA 0x1000 [65] where
  bytes := by decide
  nul := rfl
  ne_zero := by decide +kernel
  fits := by decide

theorem strings_spec_letterA :
    ¬ (strlen letterA 0x2000 0x1000).toNat = 1 ∧
      (memchr letterA 0x2000 0x1000 65 2 = firstOf 0x1000 [65] 65 2 ↔
        match (([65] ++ [0] : List UInt8).take 2).idxOf? 65 with
        | some j => commonPrefix letterA 2 0x2000 0x1000 + 1 = j ∧ 0x1000 + 2 < 2 ^ 32
        | none => 2 ≤ commonPrefix letterA 2 0x2000 0x1000 + 1 ∨ 0x1000 + 2 = 2 ^ 32) ∧
      (CopiesExactly (strncpy letterA 0x2000 0x2000 0x3000 0x1000 2) 0x3000 0x1000 [65] 2 ↔
        2 ≤ 1 + 1 ∧ commonPrefix letterA (2 ^ 32 - 1) 0x2000 0x1000 ≤ 1) :=
  @strings_spec letterA 0x1000 0x3000 2 [65] textAt_letterA (by decide) (by decide)
    (by unfold Disjoint32; decide) 0x2000 0x2000 65 2 (by decide)

/-- `strlen` returns `2 ^ 32 - 0x1000` for a string of length one, and `memchr` an address at which
there is no `A`. -/
theorem strlen_letterA : (strlen letterA 0x2000 0x1000).toNat = 2 ^ 32 - 0x1000 ∧
    memchr letterA 0x2000 0x1000 65 2 = 0x1001 ∧ firstOf 0x1000 [65] 65 2 = 0x1000 := by
  decide +kernel

end C4os
