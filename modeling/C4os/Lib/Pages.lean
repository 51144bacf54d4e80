import Mathlib.Data.List.Nodup
import Mathlib.Data.List.Perm.Subperm
import Mathlib.Data.Nat.ModEq

/-!
# Ranges of pages

* `pages s b n`: the `n` pages of size `s` from address `b` on; `mem_pages`, `pages_add`.
* `pages_disjoint`: two ranges of pages that share none are disjoint as address ranges.
* `length_le_of_nodup`: how many pages fit below an address.
-/

namespace Pages

variable {s a b m n x : Nat}

/-- The addresses of `n` pages of size `s`, the first at `b`. -/
def pages (s b n : Nat) : List Nat := List.range' b n s

theorem mem_pages : x ∈ pages s b n ↔ ∃ i < n, x = b + s * i := List.mem_range'

@[simp] theorem length_pages : (pages s b n).length = n := List.length_range'

theorem base_mem_pages (hn : 0 < n) : b ∈ pages s b n := mem_pages.mpr ⟨0, hn, by simp⟩

theorem nodup_pages (hs : 0 < s) : (pages s b n).Nodup := List.nodup_range' s hs

/-- A range of pages splits anywhere. -/
theorem pages_add : pages s b (m + n) = pages s b m ++ pages s (b + m * s) n := by
  rw [Nat.mul_comm]
  exact List.range'_append.symm

theorem dvd_of_mem_pages (hb : s ∣ b) (hx : x ∈ pages s b n) : s ∣ x := by
  obtain ⟨i, -, rfl⟩ := mem_pages.mp hx
  exact (Nat.dvd_add_right hb).mpr (Nat.dvd_mul_right s i)

theorem lt_of_mem_pages (hx : x ∈ pages s b n) : b ≤ x ∧ x + s ≤ b + n * s := by
  obtain ⟨i, hi, rfl⟩ := mem_pages.mp hx
  have := Nat.mul_le_mul_left s (Nat.succ_le_of_lt hi)
  rw [Nat.mul_succ, Nat.mul_comm s n] at this
  omega

theorem mem_pages_of_le (hb : s ∣ b) (hx : s ∣ x) (h1 : b ≤ x)
    (h2 : x < b + n * s) : x ∈ pages s b n := by
  obtain ⟨i, hi⟩ := Nat.dvd_sub hx hb
  refine mem_pages.mpr ⟨i, ?_, by omega⟩
  have : s * i < s * n := by rw [Nat.mul_comm s n]; omega
  exact Nat.lt_of_mul_lt_mul_left this

/-- Ranges without a common page are disjoint. -/
theorem pages_disjoint (ha : s ∣ a) (hb : s ∣ b) (hm : 0 < m) (hn : 0 < n)
    (h : (pages s a m).Disjoint (pages s b n)) : a + m * s ≤ b ∨ b + n * s ≤ a := by
  by_contra hc
  rw [not_or, Nat.not_le, Nat.not_le] at hc
  rcases Nat.le_total a b with hab | hab
  · exact h (mem_pages_of_le ha hb hab hc.1) (base_mem_pages hn)
  · exact h (base_mem_pages hm) (mem_pages_of_le hb ha hab hc.2)

/-- There are at most `n` pages below `s * n`. -/
theorem length_le_of_nodup {l : List Nat} (hl : l.Nodup)
    (h : ∀ x ∈ l, s ∣ x ∧ x < s * n) : l.length ≤ n := by
  have hnd : (l.map (· / s)).Nodup := by
    refine hl.map_on fun x hx y hy he => ?_
    rw [← Nat.div_mul_cancel (h x hx).1, ← Nat.div_mul_cancel (h y hy).1, he]
  have hsub : l.map (· / s) ⊆ List.range n := by
    intro y hy
    obtain ⟨x, hx, rfl⟩ := List.mem_map.mp hy
    exact List.mem_range.mpr (Nat.div_lt_of_lt_mul (h x hx).2)
  simpa using (List.subperm_of_subset hnd hsub).length_le

end Pages
