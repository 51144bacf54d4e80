import Mathlib.Data.UInt
import Mathlib.Tactic.Ring

/-!
# Characters and numbers (`stdlib.c`)

* `isspace`, `isdigit`, `atoi`: the functions. The string is a list of the bytes in memory from its
  start on; `none` is a result outside of the range of `int`, or a page fault.
* `decimal`: the value of a run of digits.
* `atoiLoop_digits`: the accumulator runs down to the value and never below it.
* **`atoi_exact`**: `atoi` returns the value of every number that an `int` can hold.
-/

namespace C4os

/-- `char` is signed. -/
def charOf (b : UInt8) : Int := b.toInt8.toInt

theorem charOf_inj {a b : UInt8} (h : charOf a - charOf b = 0) : a = b := by
  have h : a.toInt8.toInt = b.toInt8.toInt := Int.sub_eq_zero.mp h
  have := Int8.toInt_inj.mp h
  simpa using congrArg Int8.toUInt8 this

theorem charOf_eq (b : UInt8) :
    charOf b = if b.toNat < 128 then (b.toNat : Int) else (b.toNat : Int) - 256 := by
  have hlt := b.toNat_lt
  show b.toBitVec.toInt = _
  rw [BitVec.toInt_eq_toNat_cond]
  simp only [UInt8.toNat_toBitVec]
  split_ifs <;> omega

/-! ## The functions -/

/-- `isspace`. -/
def isspace (c : Int) : Bool := c = 9 || c = 10 || c = 11 || c = 12 || c = 13 || c = 32

/-- `isdigit`. -/
def isdigit (c : Int) : Bool := c ≥ 48 && c ≤ 57

/-- A signed result; it is undefined outside of 32 bits. -/
def int32 (x : Int) : Option Int := if -2 ^ 31 ≤ x ∧ x < 2 ^ 31 then some x else none

/-- `while (isspace(*s)) s++`. -/
def skipSpace : List UInt8 → List UInt8
  | [] => []
  | c :: s => if isspace (charOf c) then skipSpace s else c :: s

/-- `while (isdigit(*s)) n = 10*n - (*s++ - '0')`. -/
def atoiLoop : List UInt8 → Int → Option Int
  | [], _ => none
  | c :: s, n =>
    if isdigit (charOf c) then do
      let product ← int32 (10 * n)
      let digit ← int32 (charOf c - 48)
      let n ← int32 (product - digit)
      atoiLoop s n
    else some n

/-- `atoi`. -/
def atoi (s : List UInt8) : Option Int :=
  match skipSpace s with
  | [] => none
  | c :: s' => do
    let neg := c = 45
    let n ← atoiLoop (if c = 45 ∨ c = 43 then s' else c :: s') 0
    if neg then some n else int32 (-n)

/-! ## Digits -/

/-- The value of a run of digits. -/
def decimal (digits : List UInt8) : Nat := digits.foldl (fun n c => 10 * n + (c.toNat - 48)) 0

/-- The accumulator behind a run of digits. -/
def accumulate (n : Int) (digits : List UInt8) : Int :=
  digits.foldl (fun n c => 10 * n - (charOf c - 48)) n

variable {c : UInt8} {n : Int} {digits s ws tail rest : List UInt8}

theorem isdigit_iff : isdigit (charOf c) = true ↔ 48 ≤ c.toNat ∧ c.toNat ≤ 57 := by
  have hlt := c.toNat_lt
  unfold isdigit
  rw [Bool.and_eq_true, decide_eq_true_iff, decide_eq_true_iff, charOf_eq]
  split_ifs <;> omega

theorem charOf_digit (h : isdigit (charOf c) = true) : charOf c - 48 = (c.toNat - 48 : Nat) := by
  rw [isdigit_iff] at h
  rw [charOf_eq, if_pos (by omega)]
  omega

theorem int32_eq {x : Int} (h : -2 ^ 31 ≤ x) (h' : x < 2 ^ 31) : int32 x = some x := if_pos ⟨h, h'⟩

theorem accumulate_le (hd : ∀ c ∈ digits, isdigit (charOf c) = true) (hn : n ≤ 0) :
    accumulate n digits ≤ n := by
  induction digits generalizing n with
  | nil => exact le_refl n
  | cons c digits ih =>
    have hdigit := charOf_digit (hd c List.mem_cons_self)
    have hstep : 10 * n - (charOf c - 48) ≤ n := by omega
    have hrest := ih (n := 10 * n - (charOf c - 48)) (fun c h => hd c (List.mem_cons_of_mem _ h))
      (by omega)
    exact le_trans hrest hstep

theorem accumulate_neg (hd : ∀ c ∈ digits, isdigit (charOf c) = true) (k : Nat) :
    accumulate (-k) digits = -(digits.foldl (fun n c => 10 * n + (c.toNat - 48)) k : Nat) := by
  induction digits generalizing k with
  | nil => rfl
  | cons c digits ih =>
    have hdigit := charOf_digit (hd c List.mem_cons_self)
    have hstep : 10 * (-(k : Int)) - (charOf c - 48) = -((10 * k + (c.toNat - 48) : Nat) : Int) := by
      rw [hdigit]
      push_cast
      ring
    unfold accumulate at ih ⊢
    rw [List.foldl_cons, List.foldl_cons, hstep]
    exact ih (fun c h => hd c (List.mem_cons_of_mem _ h)) _

theorem accumulate_zero (hd : ∀ c ∈ digits, isdigit (charOf c) = true) :
    accumulate 0 digits = -(decimal digits : Int) := by
  exact accumulate_neg hd 0

/-- **The loop over a run of digits**: no step leaves the range when the last accumulator is in it,
since the steps before are nearer to zero. -/
theorem atoiLoop_digits (hd : ∀ c ∈ digits, isdigit (charOf c) = true)
    (hc : isdigit (charOf c) = false) (hn : n ≤ 0) (hmin : -2 ^ 31 ≤ accumulate n digits) :
    atoiLoop (digits ++ c :: s) n = some (accumulate n digits) := by
  induction digits generalizing n with
  | nil =>
    rw [List.nil_append, atoiLoop, hc, if_neg Bool.false_ne_true]
    rfl
  | cons d digits ih =>
    have hd' : ∀ c ∈ digits, isdigit (charOf c) = true := fun c h => hd c (List.mem_cons_of_mem _ h)
    have hdigit := charOf_digit (hd d List.mem_cons_self)
    have hbound := isdigit_iff.mp (hd d List.mem_cons_self)
    have hrest : -2 ^ 31 ≤ accumulate (10 * n - (charOf d - 48)) digits := hmin
    have hle := accumulate_le (n := 10 * n - (charOf d - 48)) hd' (by omega)
    have hproduct : int32 (10 * n) = some (10 * n) := int32_eq (by omega) (by omega)
    have hvalue : int32 (charOf d - 48) = some (charOf d - 48) := int32_eq (by omega) (by omega)
    have hdifference : int32 (10 * n - (charOf d - 48)) = some (10 * n - (charOf d - 48)) :=
      int32_eq (by omega) (by omega)
    rw [List.cons_append, atoiLoop, if_pos (hd d List.mem_cons_self)]
    simp only [Option.bind_eq_bind, hproduct, hvalue, hdifference, Option.bind_some]
    exact ih hd' (by omega) hrest

/-! ## `atoi` -/

theorem skipSpace_append (hws : ∀ c ∈ ws, isspace (charOf c) = true)
    (hc : isspace (charOf c) = false) : skipSpace (ws ++ c :: s) = c :: s := by
  induction ws with
  | nil => rw [List.nil_append, skipSpace, hc, if_neg Bool.false_ne_true]
  | cons w ws ih =>
    rw [List.cons_append, skipSpace, if_pos (hws w List.mem_cons_self)]
    exact ih fun c h => hws c (List.mem_cons_of_mem _ h)

theorem isspace_of_isdigit (h : isdigit (charOf c) = true) : isspace (charOf c) = false := by
  rw [isdigit_iff] at h
  rw [charOf_eq, if_pos (by omega)]
  simp [isspace]
  omega

/-- The value of a number with an optional sign. -/
def signedValue (sign digits : List UInt8) : Int :=
  if sign = [45] then -(decimal digits : Int) else decimal digits

/-- **`atoi` is exact**: white-space characters, an optional sign, digits, and a tail that does not
start with a digit, up to the NUL. Every product, difference and negation is checked by `int32`. -/
theorem atoi_exact {sign : List UInt8} (hws : ∀ c ∈ ws, isspace (charOf c) = true)
    (hsign : sign = [] ∨ sign = [43] ∨ sign = [45]) (hne : digits ≠ [])
    (hd : ∀ c ∈ digits, isdigit (charOf c) = true)
    (htail : ∀ c ∈ tail.head?, isdigit (charOf c) = false)
    (hmin : -2 ^ 31 ≤ signedValue sign digits) (hmax : signedValue sign digits ≤ 2 ^ 31 - 1) :
    atoi (ws ++ sign ++ digits ++ tail ++ 0 :: rest) = some (signedValue sign digits) := by
  obtain ⟨e, r, htr, he⟩ : ∃ e r, tail ++ 0 :: rest = e :: r ∧ isdigit (charOf e) = false := by
    cases tail with
    | nil => exact ⟨0, rest, rfl, by decide⟩
    | cons e tail => exact ⟨e, _, rfl, htail e rfl⟩
  obtain ⟨d, ds, rfl⟩ := List.exists_cons_of_ne_nil hne
  have hdigit := hd d List.mem_cons_self
  have hacc := accumulate_zero hd
  have hval := Int.natCast_nonneg (decimal (d :: ds))
  have hloop : -2 ^ 31 ≤ -(decimal (d :: ds) : Int) →
      atoiLoop (d :: ds ++ e :: r) 0 = some (-(decimal (d :: ds) : Int)) := fun h => by
    rw [atoiLoop_digits hd he (le_refl 0) (by rw [hacc]; exact h), hacc]
  have hne45 : d ≠ 45 := by
    rintro rfl
    exact absurd hdigit (by decide)
  have hne43 : d ≠ 43 := by
    rintro rfl
    exact absurd hdigit (by decide)
  unfold signedValue at hmin hmax ⊢
  unfold atoi
  rw [List.append_assoc, List.append_assoc, List.append_assoc, htr]
  rcases hsign with rfl | rfl | rfl
  · rw [if_neg (by decide)] at hmin hmax ⊢
    rw [List.nil_append, List.cons_append, skipSpace_append hws (isspace_of_isdigit hdigit)]
    dsimp only
    rw [if_neg (by simp [hne45, hne43]), ← List.cons_append, hloop (by omega), Option.bind_eq_bind,
      Option.bind_some, if_neg (by simpa using hne45), neg_neg]
    exact int32_eq hmin (by omega)
  · rw [if_neg (by decide)] at hmin hmax ⊢
    rw [List.singleton_append, skipSpace_append hws (by decide)]
    dsimp only
    rw [if_pos (by decide), hloop (by omega), Option.bind_eq_bind, Option.bind_some,
      if_neg (by decide), neg_neg]
    exact int32_eq hmin (by omega)
  · rw [if_pos rfl] at hmin hmax ⊢
    rw [List.singleton_append, skipSpace_append hws (by decide)]
    dsimp only
    rw [if_pos (by decide), hloop hmin, Option.bind_eq_bind, Option.bind_some, if_pos (by decide)]

/-- The smallest `int`, behind a white-space character and with a leading zero. -/
theorem atoi_exact_min :
    atoi ([32] ++ [45] ++ [48, 50, 49, 52, 55, 52, 56, 51, 54, 52, 56] ++ [120] ++ 0 :: []) =
      some (signedValue [45] [48, 50, 49, 52, 55, 52, 56, 51, 54, 52, 56]) :=
  atoi_exact (by decide +kernel) (by decide) (by decide) (by decide +kernel) (by decide +kernel)
    (by decide) (by decide)

end C4os
