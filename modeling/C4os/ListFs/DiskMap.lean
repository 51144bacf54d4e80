import C4os.Lib.Outcome
import C4os.ListFs.Image

/-!
# The disk map (`make_listfs.c`)

* `mapBit_setBit`: marking a block sets its own bit only.
* `Builder.free`: the blocks that the map has free, in ascending order.
* **`allocDiskBlock_spec`**: `alloc_disk_block` returns the first free block and takes it.
-/

namespace C4os

open Outcome

theorem or_bit_and_bit (b : UInt8) {x y : Nat} (hx : x < 8) (hy : y < 8) :
    ((b ||| 1 <<< UInt8.ofNat x) &&& 1 <<< UInt8.ofNat y ≠ 0) ↔
      b &&& 1 <<< UInt8.ofNat y ≠ 0 ∨ x = y := by
  have hdistrib : ∀ u v : UInt8, (b ||| u) &&& v = b &&& v ||| u &&& v := by
    intro u v
    apply UInt8.toNat_inj.mp
    simp [Nat.and_or_distrib_right]
  have hbits : ∀ x < 8, ∀ y < 8,
      ((1 : UInt8) <<< UInt8.ofNat x &&& 1 <<< UInt8.ofNat y ≠ 0 ↔ x = y) := by decide
  rw [hdistrib, Ne, UInt8.or_eq_zero_iff, not_and_or, ← hbits x hx y hy]

theorem and_seven_lt (i : Nat) : i &&& 7 < 8 := Nat.lt_succ_of_le Nat.and_le_right

theorem and_seven (i : Nat) : i &&& 7 = i % 8 := Nat.and_two_pow_sub_one_eq_mod i 3

theorem shift_three (i : Nat) : i >>> 3 = i / 8 := Nat.shiftRight_eq_div_pow i 3

/-- The map with the bit of the block `i` set. -/
def setBit (map : List UInt8) (i : Nat) : List UInt8 :=
  map.set (i >>> 3) (map[i >>> 3]?.getD 0 ||| 1 <<< UInt8.ofNat (i &&& 7))

variable {map : List UInt8} {i j : Nat} {b : Bool}

@[simp] theorem length_setBit (map : List UInt8) (i : Nat) : (setBit map i).length = map.length :=
  List.length_set

theorem mapBit_eq_none : mapBit map i = none ↔ map.length ≤ i / 8 := by
  rw [mapBit, Option.map_eq_none_iff, List.getElem?_eq_none_iff, shift_three]

/-- **Marking a block sets its own bit only.** -/
theorem mapBit_setBit (hi : i < 8 * map.length) (j : Nat) :
    mapBit (setBit map i) j = if j = i then some true else mapBit map j := by
  have hlt : i >>> 3 < map.length := by
    rw [shift_three]
    omega
  have hbit := or_bit_and_bit (map[i >>> 3]?.getD 0) (and_seven_lt i) (and_seven_lt j)
  unfold mapBit setBit
  by_cases hij : j >>> 3 = i >>> 3
  · have hsame : i &&& 7 = j &&& 7 ↔ j = i := by
      rw [and_seven, and_seven]
      rw [shift_three, shift_three] at hij
      omega
    rw [hij, List.getElem?_set_self hlt, Option.map_some]
    rw [List.getElem?_eq_getElem hlt, Option.getD_some] at hbit ⊢
    by_cases hj : j = i
    · rw [if_pos hj]
      exact congrArg some (decide_eq_true (hbit.mpr (Or.inr (hsame.mpr hj))))
    · rw [if_neg hj, Option.map_some]
      rw [or_iff_left (fun h => hj (hsame.mp h))] at hbit
      exact congrArg some (decide_eq_decide.mpr hbit)
  · have hj : j ≠ i := fun h => hij (by rw [h])
    rw [if_neg hj, List.getElem?_set_ne (Ne.symm hij)]

theorem getDiskBlock_eq {s : Builder} (hi : i < 8 * s.diskMap.length) :
    getDiskBlock i s = .ok ⟨⟩ { s with diskMap := setBit s.diskMap i } := by
  have hlt : i >>> 3 < s.diskMap.length := by
    rw [shift_three]
    omega
  have hget : s.diskMap[i >>> 3]? = some s.diskMap[i >>> 3] := List.getElem?_eq_getElem hlt
  unfold getDiskBlock
  rw [bind_get]
  rw [setBit, hget]
  rfl

theorem getDiskBlock_overrun {s : Builder} (hi : 8 * s.diskMap.length ≤ i) :
    getDiskBlock i s = .error .overrun s := by
  have hget : s.diskMap[i >>> 3]? = none := List.getElem?_eq_none (by rw [shift_three]; omega)
  unfold getDiskBlock
  rw [bind_get]
  rw [hget]
  rfl

/-! ## Free blocks -/

/-- The map has the block `i` free. -/
def freeBit (map : List UInt8) (i : Nat) : Bool := mapBit map i = some false

/-- The free blocks of the disk. -/
def Builder.free (s : Builder) : List Nat :=
  (List.range s.fsHeader.size).filter (freeBit s.diskMap)

/-- The state after `alloc_disk_block` has taken the block `i`. -/
def Builder.take (s : Builder) (i : Nat) : Builder :=
  { s with diskMap := setBit s.diskMap i, allocated := s.allocated ++ [i] }

variable {s : Builder}

theorem nodup_free (s : Builder) : s.free.Nodup := List.nodup_range.filter _

theorem mem_free : i ∈ s.free ↔ i < s.fsHeader.size ∧ mapBit s.diskMap i = some false := by
  simp [Builder.free, freeBit]

theorem lt_of_freeBit (h : freeBit map i = true) : i < 8 * map.length := by
  by_contra hge
  have hnone : mapBit map i = none := mapBit_eq_none.mpr (by omega)
  simp [freeBit, hnone] at h

theorem free_take {l : List Nat} (h : s.free = i :: l) : (s.take i).free = l := by
  have hi : freeBit s.diskMap i = true := by
    have : i ∈ s.free := h ▸ List.mem_cons_self
    exact (List.mem_filter.mp this).2
  have hnd := nodup_free s
  rw [h] at hnd
  have hbit : ∀ j, freeBit (setBit s.diskMap i) j = (decide (j ≠ i) && freeBit s.diskMap j) := by
    intro j
    unfold freeBit
    rw [mapBit_setBit (lt_of_freeBit hi)]
    by_cases hj : j = i <;> simp [hj]
  have hfilter : (s.take i).free = s.free.filter fun j => j ≠ i := by
    unfold Builder.free Builder.take
    rw [List.filter_filter]
    exact List.filter_congr fun j _ => hbit j
  rw [hfilter, h, List.filter_cons_of_neg (by simp), List.filter_eq_self]
  intro j hj
  have : j ≠ i := fun hji => (List.nodup_cons.mp hnd).1 (hji ▸ hj)
  simpa using this

theorem filter_eq_nil_of_none (n : Nat) (h : mapBit map i = none) :
    (List.range' i n).filter (freeBit map) = [] := by
  rw [List.filter_eq_nil_iff]
  intro j hj
  have hle : i ≤ j := (List.mem_range'_1.mp hj).1
  rw [mapBit_eq_none] at h
  have hnone : mapBit map j = none := mapBit_eq_none.mpr (Nat.le_trans h (Nat.div_le_div_right hle))
  simp [freeBit, hnone]

theorem allocLoop_succ (fuel index : Nat) : allocLoop (fuel + 1) index s =
    match mapBit s.diskMap index with
    | none => .error .overrun s
    | some true =>
      if index + 1 ≥ s.fsHeader.size then .error .full s else allocLoop fuel (index + 1) s
    | some false => .ok index s := by
  show (match mapBit s.diskMap index with
    | none => (throw Failure.overrun : Build Nat)
    | some true => if index + 1 ≥ s.fsHeader.size then throw Failure.full
      else allocLoop fuel (index + 1)
    | some false => pure index) s = _
  cases mapBit s.diskMap index with
  | none => rfl
  | some b =>
    cases b with
    | false => rfl
    | true =>
      dsimp only
      split_ifs <;> rfl

theorem allocLoop_spec (fuel index n : Nat) (hn : s.fsHeader.size = index + (n + 1))
    (hf : n < fuel) :
    match (List.range' index (n + 1)).filter (freeBit s.diskMap) with
    | [] => ∃ e, e ≠ .endless ∧ allocLoop fuel index s = .error e s
    | i :: _ => allocLoop fuel index s = .ok i s := by
  induction n generalizing fuel index with
  | zero =>
    obtain ⟨fuel, rfl⟩ := Nat.exists_eq_succ_of_ne_zero (by omega : fuel ≠ 0)
    rw [allocLoop_succ]
    cases hb : mapBit s.diskMap index with
    | none =>
      rw [filter_eq_nil_of_none _ hb]
      exact ⟨.overrun, by decide, rfl⟩
    | some b =>
      cases b with
      | false => simp [freeBit, hb]
      | true =>
        rw [List.range'_one, List.filter_cons_of_neg (by simp [freeBit, hb])]
        exact ⟨.full, by decide, if_pos (by omega)⟩
  | succ n ih =>
    obtain ⟨fuel, rfl⟩ := Nat.exists_eq_succ_of_ne_zero (by omega : fuel ≠ 0)
    rw [allocLoop_succ]
    cases hb : mapBit s.diskMap index with
    | none =>
      rw [filter_eq_nil_of_none _ hb]
      exact ⟨.overrun, by decide, rfl⟩
    | some b =>
      rw [List.range'_succ]
      cases b with
      | false => simp [freeBit, hb]
      | true =>
        rw [List.filter_cons_of_neg (by simp [freeBit, hb])]
        dsimp only
        rw [if_neg (by omega)]
        exact ih fuel (index + 1) (by omega) (by omega)

/-- **`alloc_disk_block` returns the first free block and takes it.** -/
theorem allocDiskBlock_spec (hsize : 0 < s.fsHeader.size) :
    match s.free with
    | [] => ∃ e, e ≠ .endless ∧ allocDiskBlock s = .error e s
    | i :: l => allocDiskBlock s = .ok i (s.take i) ∧ (s.take i).free = l := by
  have hloop := allocLoop_spec (s := s) (s.fsHeader.size + 1) 0 (s.fsHeader.size - 1) (by omega)
    (by omega)
  rw [Nat.sub_add_cancel hsize, ← List.range_eq_range'] at hloop
  cases hfree : s.free with
  | nil =>
    unfold Builder.free at hfree
    rw [hfree] at hloop
    obtain ⟨e, he, h⟩ := hloop
    exact ⟨e, he, (bind_get s).trans (bind_error h)⟩
  | cons i l =>
    refine ⟨?_, free_take hfree⟩
    have hi : freeBit s.diskMap i = true := by
      have hmem : i ∈ s.free := hfree ▸ List.mem_cons_self
      exact (List.mem_filter.mp hmem).2
    unfold Builder.free at hfree
    rw [hfree] at hloop
    exact (bind_get s).trans <| (bind_ok hloop).trans (bind_ok (getDiskBlock_eq (lt_of_freeBit hi)))

end C4os
