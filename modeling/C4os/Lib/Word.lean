import Mathlib.Data.Nat.Bitwise

/-!
# Words and masks

Machine words are natural numbers below `2 ^ 32`.

* `andNot a m`: `a & ~m` on 32-bit words.
* `andNot_low`: clearing the low `k` bits; `or_low`: setting low bits of a multiple of `2 ^ k`,
  `or_low_and` reading them.
* `andNot_eq_self`: clearing bits that are clear already.
-/

namespace Word

/-- `a & ~m` on 32-bit words. -/
@[irreducible] def andNot (a m : Nat) : Nat := a &&& (0xFFFFFFFF ^^^ m)

theorem testBit_andNot {a : Nat} (ha : a < 2 ^ 32) (m i : Nat) :
    (andNot a m).testBit i = (a.testBit i && !m.testBit i) := by
  rw [andNot, Nat.testBit_and, Nat.testBit_xor, show (0xFFFFFFFF : Nat) = 2 ^ 32 - 1 from rfl,
    Nat.testBit_two_pow_sub_one]
  by_cases hi : i < 32
  · simp [hi]
  · have hai : a.testBit i = false :=
      Nat.testBit_lt_two_pow (lt_of_lt_of_le ha (Nat.pow_le_pow_right (by omega) (by omega)))
    simp [hai]

theorem andNot_lt (a : Nat) {m : Nat} (hm : m < 2 ^ 32) : andNot a m < 2 ^ 32 := by
  unfold andNot
  exact Nat.and_lt_two_pow a (Nat.xor_lt_two_pow (by decide) hm)

theorem andNot_mod (a : Nat) {m : Nat} (hm : m < 2 ^ 32) : andNot (a % 2 ^ 32) m = andNot a m := by
  refine Nat.eq_of_testBit_eq fun i => ?_
  unfold andNot
  rw [Nat.testBit_and, Nat.testBit_and, Nat.testBit_mod_two_pow]
  by_cases hi : i < 32
  · simp [hi]
  · have hmask : (0xFFFFFFFF ^^^ m) < 2 ^ 32 := Nat.xor_lt_two_pow (by decide) hm
    rw [Nat.testBit_lt_two_pow (lt_of_lt_of_le hmask (Nat.pow_le_pow_right (by omega) (by omega)))]
    simp

theorem andNot_or (a b m : Nat) : andNot (a ||| b) m = andNot a m ||| andNot b m := by
  unfold andNot
  exact Nat.and_or_distrib_right ..

theorem andNot_andNot (a m : Nat) : andNot (andNot a m) m = andNot a m := by
  unfold andNot
  rw [Nat.and_assoc, Nat.and_self]

theorem dvd_andNot (a : Nat) {k : Nat} (hk : k ≤ 32) : 2 ^ k ∣ andNot a (2 ^ k - 1) := by
  apply Nat.dvd_of_mod_eq_zero
  apply Nat.eq_of_testBit_eq
  intro i
  unfold andNot
  rw [Nat.testBit_mod_two_pow, Nat.testBit_and, Nat.testBit_xor,
    show (0xFFFFFFFF : Nat) = 2 ^ 32 - 1 from rfl, Nat.testBit_two_pow_sub_one,
    Nat.testBit_two_pow_sub_one, Nat.zero_testBit]
  by_cases hi : i < k
  · simp [hi, Nat.lt_of_lt_of_le hi hk]
  · simp [hi]

/-- Clearing the low `k` bits rounds down to a multiple of `2 ^ k`. -/
theorem andNot_low {a : Nat} (ha : a < 2 ^ 32) (k : Nat) :
    andNot a (2 ^ k - 1) = a / 2 ^ k * 2 ^ k := by
  refine Nat.eq_of_testBit_eq fun i => ?_
  rw [testBit_andNot ha, Nat.testBit_mul_two_pow, Nat.testBit_div_two_pow,
    Nat.testBit_two_pow_sub_one]
  by_cases hik : i < k
  · simp [hik, Nat.not_le.mpr hik]
  · have hki : k ≤ i := Nat.not_lt.mp hik
    simp [hik, hki]

/-- Clearing bits of a multiple of `2 ^ k` below the `k`-th changes nothing. -/
theorem andNot_eq_self {a m k : Nat} (ha : a < 2 ^ 32) (hk : 2 ^ k ∣ a) (hm : m < 2 ^ k) :
    andNot a m = a := by
  obtain ⟨c, rfl⟩ := hk
  refine Nat.eq_of_testBit_eq fun i => ?_
  rw [testBit_andNot ha, Nat.mul_comm, Nat.testBit_mul_two_pow]
  by_cases hik : k ≤ i
  · have hmi : m.testBit i = false :=
      Nat.testBit_lt_two_pow (lt_of_lt_of_le hm (Nat.pow_le_pow_right (by omega) hik))
    simp [hmi]
  · simp [hik]

/-- Setting low bits of a multiple of `2 ^ k` adds them. -/
theorem or_low {a f k : Nat} (hk : 2 ^ k ∣ a) (hf : f < 2 ^ k) : a ||| f = a + f := by
  obtain ⟨c, rfl⟩ := hk
  exact (Nat.two_pow_add_eq_or_of_lt hf c).symm

/-- The low bits of a multiple of `2 ^ k` are those that were set. -/
theorem or_low_and {a f g k : Nat} (hk : 2 ^ k ∣ a) (hg : g < 2 ^ k) : (a ||| f) &&& g = f &&& g := by
  have ha : a &&& g = 0 := by
    obtain ⟨c, rfl⟩ := hk
    refine Nat.eq_of_testBit_eq fun i => ?_
    rw [Nat.testBit_and, Nat.mul_comm, Nat.testBit_mul_two_pow, Nat.zero_testBit]
    by_cases hik : k ≤ i
    · have hgi : g.testBit i = false :=
        Nat.testBit_lt_two_pow (lt_of_lt_of_le hg (Nat.pow_le_pow_right (by omega) hik))
      simp [hgi]
    · simp [hik]
  rw [Nat.and_or_distrib_right, ha, Nat.zero_or]

end Word
