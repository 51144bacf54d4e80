import C4os.Drivers.Printf

/-!
# Number formatting (`tty.c`)

* `digitValue`, `evalDigits`: what a string of digits stands for; `Canonical`: no leading zero.
* `evalDigits_numeral`, `canonical_numeral`: the digits of a number.
* `toStrLoop_frame`: the indices of `num_buffer` that the loop stores at.
* **`toStr_canonical`**: `int_to_str` and `uint32_to_str` return the same numeral.
-/

namespace C4os

/-- The value of a digit. -/
def digitValue (chr : UInt8) : Nat := digitChars.idxOf chr

/-- The value of a string of digits. -/
def evalDigits (base : Nat) (str : List UInt8) : Nat :=
  str.foldl (fun value chr => value * base + digitValue chr) 0

/-- No leading zero, unless the string is the single digit `0`. -/
def Canonical (str : List UInt8) : Prop :=
  str = [48] ∨ ∃ chr rest, str = chr :: rest ∧ chr ≠ 48

variable {base value : Nat}

theorem digitValue_digitChars {d : Nat} (hd : d < 16) : digitValue (digitChars.getD d 0) = d := by
  have h : ∀ d : Fin 16, digitValue (digitChars.getD d 0) = d := by decide
  exact h ⟨d, hd⟩

theorem digitChars_ne_48 {d : Nat} (h0 : d ≠ 0) (hd : d < 16) : digitChars.getD d 0 ≠ 48 := by
  intro h
  have hval := digitValue_digitChars hd
  rw [h] at hval
  exact h0 (hval.symm.trans (by decide))

theorem evalDigits_append (str : List UInt8) (chr : UInt8) :
    evalDigits base (str ++ [chr]) = evalDigits base str * base + digitValue chr := by
  unfold evalDigits
  rw [List.foldl_append]
  rfl

theorem div_base_lt (hb : 2 ≤ base) (hq : value / base ≠ 0) : value / base < value := by
  apply Nat.div_lt_self _ hb
  by_contra h0
  rw [Nat.eq_zero_of_not_pos h0, Nat.zero_div] at hq
  exact hq rfl

/-- **The digits of a number evaluate to it.** -/
theorem evalDigits_numeral (hb : 2 ≤ base) (hb' : base ≤ 16) (value : Nat) :
    evalDigits base (numeral base value) = value := by
  induction value using Nat.strongRecOn with
  | ind value ih =>
    have hlast : digitValue (digitChars.getD (value % base) 0) = value % base :=
      digitValue_digitChars (Nat.lt_of_lt_of_le (Nat.mod_lt _ (by omega)) hb')
    rw [numeral_eq hb, evalDigits_append, hlast]
    by_cases hq : value / base ≠ 0
    · rw [if_pos hq, ih _ (div_base_lt hb hq), Nat.mul_comm]
      exact Nat.div_add_mod value base
    · rw [if_neg hq, show evalDigits base [] = 0 from rfl, Nat.zero_mul, Nat.zero_add]
      exact Nat.mod_eq_of_lt ((Nat.div_eq_zero_iff_lt (by omega)).mp (not_not.mp hq))

theorem numeral_head (hb : 2 ≤ base) (hb' : base ≤ 16) (hv : value ≠ 0) :
    ∃ chr rest, numeral base value = chr :: rest ∧ chr ≠ 48 := by
  induction value using Nat.strongRecOn with
  | ind value ih =>
    rw [numeral_eq hb]
    by_cases hq : value / base ≠ 0
    · obtain ⟨chr, rest, he, hchr⟩ := ih _ (div_base_lt hb hq) hq
      rw [if_pos hq, he]
      exact ⟨chr, _, rfl, hchr⟩
    · have hlt : value < base := (Nat.div_eq_zero_iff_lt (by omega)).mp (not_not.mp hq)
      rw [if_neg hq, Nat.mod_eq_of_lt hlt]
      exact ⟨_, [], rfl, digitChars_ne_48 hv (Nat.lt_of_lt_of_le hlt hb')⟩

theorem canonical_numeral (hb : 2 ≤ base) (hb' : base ≤ 16) (value : Nat) :
    Canonical (numeral base value) := by
  by_cases hv : value = 0
  · left
    rw [hv]
    rfl
  · right
    exact numeral_head hb hb' hv

theorem digitValue_lt (hb : 2 ≤ base) (hb' : base ≤ 16) {chr : UInt8}
    (h : chr ∈ numeral base value) : digitValue chr < base := by
  induction value using Nat.strongRecOn with
  | ind value ih =>
    have hmod : value % base < base := Nat.mod_lt _ (by omega)
    rw [numeral_eq hb, List.mem_append, List.mem_singleton] at h
    rcases h with h | rfl
    · by_cases hq : value / base ≠ 0
      · rw [if_pos hq] at h
        exact ih _ (div_base_lt hb hq) h
      · rw [if_neg hq] at h
        exact absurd h List.not_mem_nil
    · rw [digitValue_digitChars (Nat.lt_of_lt_of_le hmod hb')]
      exact hmod

/-- **The loop stores one digit at each index** from `p` to `i - 1`, and nowhere else. -/
theorem toStrLoop_frame (hb : 2 ≤ base) {i p : Nat} {buf buf' : Nat → UInt8}
    (h : toStrLoop base i value buf = some (p, buf')) :
    p + (numeral base value).length = i ∧ ∀ j, j < p ∨ i ≤ j → buf' j = buf j := by
  induction i generalizing value buf with
  | zero => cases h
  | succ i ih =>
    rw [toStrLoop] at h
    rw [numeral_eq hb, List.length_append, List.length_singleton]
    by_cases hq : value / base ≠ 0
    · rw [if_pos hq] at h
      obtain ⟨hlen, hframe⟩ := ih h
      rw [if_pos hq]
      refine ⟨by omega, fun j hj => ?_⟩
      rw [hframe j (by omega), Function.update_of_ne (by omega)]
    · rw [if_neg hq] at h
      rw [if_neg hq]
      cases h
      refine ⟨rfl, fun j hj => ?_⟩
      rw [Function.update_of_ne (by omega)]

/-- **Number formatting is canonical and in bounds**: both functions return the index of the same
numeral, `num_buffer` ends with its NUL at the index `64`, and no index above is used. -/
theorem toStr_canonical (value : UInt32) (hb : 2 ≤ base) (hb' : base ≤ 16) (buf buf₁ : Nat → UInt8) :
    ∃ p str m m₁, intToStr value base buf = some (p, m) ∧
      uint32ToStr value base buf₁ = some (p, m₁) ∧ StringAt m p str ∧ StringAt m₁ p str ∧
      evalDigits base str = value.toNat ∧ (∀ chr ∈ str, digitValue chr < base) ∧ Canonical str ∧
      p + str.length = 64 ∧ (∀ j, j < p ∨ 64 < j → m j = buf j ∧ m₁ j = buf₁ j) := by
  obtain ⟨p, m, he, hstr⟩ := intToStr_spec value hb hb' buf
  obtain ⟨p₁, m₁, he₁, hstr₁⟩ := intToStr_spec value hb hb' buf₁
  obtain ⟨hlen, hframe⟩ := toStrLoop_frame hb he
  obtain ⟨hlen₁, hframe₁⟩ := toStrLoop_frame hb he₁
  have hp : p₁ = p := by omega
  subst hp
  refine ⟨p₁, numeral base value.toNat, m, m₁, he, he₁, hstr, hstr₁,
    evalDigits_numeral hb hb' value.toNat, fun chr h => digitValue_lt hb hb' h,
    canonical_numeral hb hb' value.toNat, hlen, fun j hj => ?_⟩
  have hj' : j < p₁ ∨ 64 ≤ j := hj.imp_right Nat.le_of_lt
  constructor
  · rw [hframe j hj', Function.update_of_ne (by omega)]
  · rw [hframe₁ j hj', Function.update_of_ne (by omega)]

/-- The largest number in the smallest base has 32 digits. -/
theorem toStr_canonical_max :
    ∃ p str m m₁, intToStr (UInt32.ofNat (2 ^ 32 - 1)) 2 (fun _ => 0) = some (p, m) ∧
      uint32ToStr (UInt32.ofNat (2 ^ 32 - 1)) 2 (fun _ => 7) = some (p, m₁) ∧
      StringAt m p str ∧ StringAt m₁ p str ∧
      evalDigits 2 str = (UInt32.ofNat (2 ^ 32 - 1)).toNat ∧ (∀ chr ∈ str, digitValue chr < 2) ∧
      Canonical str ∧ p + str.length = 64 ∧
      (∀ j, j < p ∨ 64 < j → m j = 0 ∧ m₁ j = 7) :=
  toStr_canonical _ (Nat.le_refl 2) (by decide) (fun _ => 0) fun _ => 7

end C4os
