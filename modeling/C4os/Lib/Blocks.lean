import Mathlib.Data.List.Basic
import Mathlib.Tactic.Ring

/-!
# Blocks of a byte-addressed file

* `overwrite`: bytes written over a file at an offset; `block bs f i`: the block `i` of `bs` bytes.
* **`block_overwrite`**: a write of whole blocks changes its own blocks only.
* `Stands f a l`: the bytes `l` stand in the file `f` from the offset `a` on; `stands_append`,
  `stands_overwrite`, `Stands.overwrite`.
-/

namespace Blocks

variable {α : Type*}

/-- The bytes `data` over the file `f` from the offset `o` on. -/
def overwrite (f : Nat → α) (o : Nat) (data : List α) : Nat → α :=
  fun a => if o ≤ a then data[a - o]?.getD (f a) else f a

/-- The block `i`, of `bs` bytes. -/
def block (bs : Nat) (f : Nat → α) (i : Nat) : List α :=
  (List.range bs).map fun k => f (bs * i + k)

@[simp] theorem length_block (bs : Nat) (f : Nat → α) (i : Nat) : (block bs f i).length = bs := by
  rw [block, List.length_map, List.length_range]

theorem overwrite_of_lt {f : Nat → α} {o a : Nat} {data : List α} (h : a < o) :
    overwrite f o data a = f a := if_neg (Nat.not_le.mpr h)

theorem overwrite_of_le {f : Nat → α} {o a : Nat} {data : List α} (h : o + data.length ≤ a) :
    overwrite f o data a = f a := by
  rw [overwrite, if_pos (by omega), List.getElem?_eq_none (by omega)]
  rfl

theorem block_congr {bs i : Nat} {f g : Nat → α} (h : ∀ k < bs, f (bs * i + k) = g (bs * i + k)) :
    block bs f i = block bs g i := by
  apply List.map_congr_left
  intro k hk
  exact h k (List.mem_range.mp hk)

theorem block_overwrite_self {bs i : Nat} {f : Nat → α} {data : List α} (h : data.length = bs) :
    block bs (overwrite f (bs * i) data) i = data := by
  apply List.ext_getElem?
  intro k
  unfold block
  by_cases hk : k < bs
  · rw [List.getElem?_map, List.getElem?_range hk, Option.map_some, overwrite,
      if_pos (Nat.le_add_right _ _), Nat.add_sub_cancel_left, List.getElem?_eq_getElem (by omega)]
    rfl
  · rw [List.getElem?_eq_none (by simpa using hk), List.getElem?_eq_none (by omega)]

theorem block_overwrite_of_ne {bs i j n : Nat} {f : Nat → α} {data : List α}
    (h : data.length = bs * n) (hj : j < i ∨ i + n ≤ j) :
    block bs (overwrite f (bs * i) data) j = block bs f j := by
  apply block_congr
  intro k hk
  rcases hj with hj | hj
  · apply overwrite_of_lt
    have hle : bs * (j + 1) ≤ bs * i := Nat.mul_le_mul_left bs hj
    rw [Nat.mul_add, Nat.mul_one] at hle
    omega
  · apply overwrite_of_le
    have hle : bs * (i + n) ≤ bs * j := Nat.mul_le_mul_left bs hj
    rw [Nat.mul_add] at hle
    omega

/-- **A write of one block.** -/
theorem block_overwrite {bs i j : Nat} {f : Nat → α} {data : List α} (h : data.length = bs) :
    block bs (overwrite f (bs * i) data) j = if j = i then data else block bs f j := by
  by_cases hj : j = i
  · rw [if_pos hj, hj, block_overwrite_self h]
  · rw [if_neg hj, block_overwrite_of_ne (n := 1) (by rw [h, Nat.mul_one]) (by omega)]

/-! ## Bytes at an offset -/

/-- The bytes `l` stand in the file `f` from the offset `a` on. -/
def Stands (f : Nat → α) (a : Nat) (l : List α) : Prop := ∀ i b, l[i]? = some b → f (a + i) = b

variable {f g : Nat → α} {a o : Nat} {l l' data : List α}

theorem stands_append : Stands f a (l ++ l') ↔ Stands f a l ∧ Stands f (a + l.length) l' := by
  constructor
  · intro h
    constructor
    · intro i b hi
      obtain ⟨hlt, -⟩ := List.getElem?_eq_some_iff.mp hi
      apply h
      rwa [List.getElem?_append_left hlt]
    · intro i b hi
      rw [Nat.add_assoc]
      apply h
      rwa [List.getElem?_append_right (Nat.le_add_right _ _), Nat.add_sub_cancel_left]
  · rintro ⟨h, h'⟩ i b hi
    by_cases hlt : i < l.length
    · rw [List.getElem?_append_left hlt] at hi
      exact h i b hi
    · rw [List.getElem?_append_right (Nat.not_lt.mp hlt)] at hi
      have := h' _ b hi
      rwa [Nat.add_assoc, Nat.add_sub_cancel' (Nat.not_lt.mp hlt)] at this

theorem Stands.congr (h : Stands f a l) (hg : ∀ i < l.length, g (a + i) = f (a + i)) :
    Stands g a l := by
  intro i b hi
  rw [hg i (List.getElem?_eq_some_iff.mp hi).1]
  exact h i b hi

theorem stands_overwrite (f : Nat → α) (o : Nat) (data : List α) :
    Stands (overwrite f o data) o data := by
  intro i b hi
  rw [overwrite, if_pos (Nat.le_add_right _ _), Nat.add_sub_cancel_left, hi]
  rfl

/-- A write beside the bytes leaves them. -/
theorem Stands.overwrite (h : Stands f a l) (ho : o + data.length ≤ a ∨ a + l.length ≤ o) :
    Stands (overwrite f o data) a l := by
  apply h.congr
  intro i hi
  rcases ho with ho | ho
  · exact overwrite_of_le (by omega)
  · exact overwrite_of_lt (by omega)

end Blocks
