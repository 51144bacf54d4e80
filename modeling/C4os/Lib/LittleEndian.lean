import Mathlib.Data.List.Basic
import Mathlib.Tactic.Ring

/-!
# Little-endian numbers

* `encode n x`: the low `n` bytes of `x`; `decode bs`: the number of the bytes `bs`.
* **`decode_encode`**, `encode_decode`: the round trips.
-/

namespace LittleEndian

/-- The low `n` bytes of `x`, the lowest first. -/
def encode : Nat → Nat → List UInt8
  | 0, _ => []
  | n + 1, x => UInt8.ofNat x :: encode n (x / 256)

/-- The number that the bytes stand for, the lowest one first. -/
def decode : List UInt8 → Nat
  | [] => 0
  | b :: bs => b.toNat + 256 * decode bs

@[simp] theorem length_encode (n x : Nat) : (encode n x).length = n := by
  induction n generalizing x with
  | zero => rfl
  | succ n ih => rw [encode, List.length_cons, ih]

theorem decode_encode_mod (n x : Nat) : decode (encode n x) = x % 256 ^ n := by
  induction n generalizing x with
  | zero => exact (Nat.mod_one x).symm
  | succ n ih =>
    have hpow : 256 ^ (n + 1) = 256 * 256 ^ n := Nat.pow_succ'
    rw [encode, decode, ih, UInt8.toNat_ofNat', hpow, Nat.mod_mul]

/-- **A number that fits survives.** -/
theorem decode_encode {n x : Nat} (h : x < 256 ^ n) : decode (encode n x) = x := by
  rw [decode_encode_mod, Nat.mod_eq_of_lt h]

theorem decode_lt (bs : List UInt8) : decode bs < 256 ^ bs.length := by
  induction bs with
  | nil => exact Nat.one_pos
  | cons b bs ih =>
    have := b.toNat_lt
    rw [decode, List.length_cons, Nat.pow_succ]
    omega

theorem encode_decode (bs : List UInt8) : encode bs.length (decode bs) = bs := by
  induction bs with
  | nil => rfl
  | cons b bs ih =>
    have hb := b.toNat_lt
    rw [decode, List.length_cons, encode, show (b.toNat + 256 * decode bs) / 256 = decode bs by omega,
      ih]
    congr 1
    apply UInt8.toNat_inj.mp
    rw [UInt8.toNat_ofNat']
    omega

theorem decode_append (as bs : List UInt8) :
    decode (as ++ bs) = decode as + 256 ^ as.length * decode bs := by
  induction as with
  | nil => simp [decode]
  | cons a as ih =>
    rw [List.cons_append, decode, ih, decode, List.length_cons]
    ring

theorem decode_take_add (n m : Nat) (bs : List UInt8) :
    decode (bs.take (n + m)) = decode (bs.take n) + 256 ^ n * decode ((bs.drop n).take m) := by
  rw [List.take_add, decode_append]
  by_cases h : n ≤ bs.length
  · rw [List.length_take, Nat.min_eq_left h]
  · rw [List.drop_eq_nil_of_le (Nat.le_of_not_le h)]
    simp [decode]

end LittleEndian
