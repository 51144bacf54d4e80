import Mathlib.Data.List.Iterate
import Mathlib.Data.List.Nodup
import Mathlib.Data.List.Rotate
import Mathlib.Logic.Function.Iterate

/-!
# Circular doubly linked lists

A heap of nodes is given by two functions `next` and `prev`.

* `Seg next prev a l b`: `next` leads from `a` through the nodes of `l` to `b`, and `prev` back;
  `seg_append`, `Seg.congr`.
* `Ring next prev l`: the nodes of `l` form a ring in this order; `Ring.rotate`, `Ring.prev_next`,
  `Ring.next_prev`, `Ring.exists_iterate`, `Ring.ext` (the ring from a given head is unique).
* The pointer updates of a ring, each stated by what the new pointers are on the members:
  `Ring.insert`, `Ring.erase`, `Ring.replace` at the head, `Ring.insert_mem`, `Ring.erase_mem`,
  `Ring.replace_mem` anywhere.
-/

namespace Linked

variable {α : Type*} {next prev next' prev' : α → α}

/-- `next` leads from `a` through `l` to `b`, and `prev` leads back. -/
def Seg (next prev : α → α) : α → List α → α → Prop
  | a, [], b => next a = b ∧ prev b = a
  | a, c :: l, b => (next a = c ∧ prev c = a) ∧ Seg next prev c l b

/-- The nodes of `l` form a ring, in this order. -/
def Ring (next prev : α → α) : List α → Prop
  | [] => False
  | a :: l => (a :: l).Nodup ∧ Seg next prev a l a

theorem seg_append {a b c : α} {l₁ l₂ : List α} :
    Seg next prev a (l₁ ++ c :: l₂) b ↔ Seg next prev a l₁ c ∧ Seg next prev c l₂ b := by
  induction l₁ generalizing a with
  | nil => rfl
  | cons d l₁ ih =>
    simp only [List.cons_append, Seg, ih]
    exact and_assoc.symm

/-- A segment only depends on `next` at its nodes before the end and `prev` at those after the
start. -/
theorem Seg.congr {a b : α} {l : List α} (h : Seg next prev a l b)
    (hn : ∀ x ∈ a :: l, next' x = next x) (hp : ∀ x ∈ l ++ [b], prev' x = prev x) :
    Seg next' prev' a l b := by
  induction l generalizing a with
  | nil =>
    exact ⟨(hn a (by simp)).trans h.1, (hp b (by simp)).trans h.2⟩
  | cons c l ih =>
    refine ⟨⟨(hn a (by simp)).trans h.1.1, (hp c (by simp)).trans h.1.2⟩, ih h.2 ?_ ?_⟩
    · exact fun x hx => hn x (List.mem_cons_of_mem _ hx)
    · exact fun x hx => hp x (by simp only [List.cons_append]; exact List.mem_cons_of_mem _ hx)

theorem Seg.next_mem {a b : α} {l : List α} (h : Seg next prev a l b) :
    ∀ x ∈ a :: l, next x ∈ l ++ [b] ∧ prev (next x) = x := by
  induction l generalizing a with
  | nil =>
    intro x hx
    obtain rfl : x = a := by simpa using hx
    exact ⟨by simp [h.1], by rw [h.1, h.2]⟩
  | cons c l ih =>
    intro x hx
    rcases List.mem_cons.mp hx with rfl | hx
    · exact ⟨by simp [h.1.1], by rw [h.1.1, h.1.2]⟩
    · obtain ⟨h1, h2⟩ := ih h.2 x hx
      exact ⟨List.mem_cons_of_mem _ h1, h2⟩

theorem Seg.prev_mem {a b : α} {l : List α} (h : Seg next prev a l b) :
    ∀ x ∈ l ++ [b], prev x ∈ a :: l ∧ next (prev x) = x := by
  induction l generalizing a with
  | nil =>
    intro x hx
    obtain rfl : x = b := by simpa using hx
    exact ⟨by simp [h.2], by rw [h.2, h.1]⟩
  | cons c l ih =>
    intro x hx
    rcases List.mem_cons.mp hx with rfl | hx
    · exact ⟨by simp [h.1.2], by rw [h.1.2, h.1.1]⟩
    · obtain ⟨h1, h2⟩ := ih h.2 x hx
      exact ⟨List.mem_cons_of_mem _ h1, h2⟩

theorem Seg.isChain {a b : α} {l : List α} (h : Seg next prev a l b) :
    List.IsChain (fun x y => next x = y) (a :: (l ++ [b])) := by
  induction l generalizing a with
  | nil => simpa using h.1
  | cons c l ih => exact List.isChain_cons_cons.mpr ⟨h.1.1, ih h.2⟩

theorem Seg.exists_iterate {a b : α} {l : List α} (h : Seg next prev a l b) :
    ∀ x ∈ a :: l, ∃ k, next^[k] a = x := by
  induction l generalizing a with
  | nil => exact fun x hx => ⟨0, (List.mem_singleton.mp hx).symm⟩
  | cons c l ih =>
    intro x hx
    rcases List.mem_cons.mp hx with rfl | hx
    · exact ⟨0, rfl⟩
    · obtain ⟨k, hk⟩ := ih h.2 x hx
      exact ⟨k + 1, by rw [Function.iterate_succ_apply, h.1.1, hk]⟩

theorem Seg.exists_iterate_pos {a b : α} {l : List α} (h : Seg next prev a l b) :
    ∀ x ∈ l ++ [b], ∃ k, 0 < k ∧ k ≤ l.length + 1 ∧ next^[k] a = x := by
  induction l generalizing a with
  | nil =>
    intro x hx
    obtain rfl : x = b := by simpa using hx
    exact ⟨1, by omega, by simp, h.1⟩
  | cons c l ih =>
    intro x hx
    rcases List.mem_cons.mp hx with rfl | hx
    · exact ⟨1, by omega, by simp, h.1.1⟩
    · obtain ⟨k, hk, hkl, he⟩ := ih h.2 x hx
      refine ⟨k + 1, by omega, by simpa using hkl, ?_⟩
      rw [Function.iterate_succ_apply, h.1.1, he]

theorem Seg.iterate_eq {a b : α} {l : List α} (h : Seg next prev a l b) :
    List.iterate next a (l.length + 1) = a :: l := by
  induction l generalizing a with
  | nil => rfl
  | cons c l ih => rw [List.length_cons, List.iterate, h.1.1, ih h.2]

/-! ## Rings -/

theorem Ring.nodup {l : List α} (h : Ring next prev l) : l.Nodup := by
  cases l with
  | nil => exact h.elim
  | cons a l => exact h.1

theorem ring_singleton {a : α} : Ring next prev [a] ↔ next a = a ∧ prev a = a := by
  simp [Ring, Seg]

theorem Ring.seg {a : α} {l : List α} (h : Ring next prev (a :: l)) : Seg next prev a l a := h.2

/-- A ring may be read from any of its nodes. -/
theorem Ring.rotate {l m : List α} (h : Ring next prev (l ++ m)) :
    Ring next prev (m ++ l) := by
  cases l with
  | nil => simpa using h
  | cons a l =>
    cases m with
    | nil => simpa using h
    | cons b m =>
      have hs : Seg next prev a (l ++ b :: m) a := h.2
      rw [seg_append] at hs
      have hnd : (b :: m ++ a :: l).Nodup := List.perm_append_comm.nodup_iff.mp h.1
      exact ⟨hnd, seg_append.mpr ⟨hs.2, hs.1⟩⟩

theorem Ring.exists_cons {l : List α} {x : α} (h : Ring next prev l) (hx : x ∈ l) :
    ∃ l₁ l₂, l = l₁ ++ x :: l₂ ∧ Ring next prev (x :: (l₂ ++ l₁)) := by
  obtain ⟨l₁, l₂, rfl⟩ := List.append_of_mem hx
  exact ⟨l₁, l₂, rfl, by simpa using h.rotate⟩

theorem Ring.next_mem {l : List α} {x : α} (h : Ring next prev l) (hx : x ∈ l) :
    next x ∈ l := by
  cases l with
  | nil => exact h.elim
  | cons a l => simpa [or_comm] using (h.seg.next_mem x hx).1

theorem Ring.prev_mem {l : List α} {x : α} (h : Ring next prev l) (hx : x ∈ l) :
    prev x ∈ l := by
  cases l with
  | nil => exact h.elim
  | cons a l => exact (h.seg.prev_mem x (by simpa [or_comm] using hx)).1

theorem Ring.prev_next {l : List α} {x : α} (h : Ring next prev l) (hx : x ∈ l) :
    prev (next x) = x := by
  cases l with
  | nil => exact h.elim
  | cons a l => exact (h.seg.next_mem x hx).2

theorem Ring.next_prev {l : List α} {x : α} (h : Ring next prev l) (hx : x ∈ l) :
    next (prev x) = x := by
  cases l with
  | nil => exact h.elim
  | cons a l => exact (h.seg.prev_mem x (by simpa [or_comm] using hx)).2

theorem Ring.iterate_mem {l : List α} {x : α} (h : Ring next prev l) (hx : x ∈ l) (k : Nat) :
    next^[k] x ∈ l := by
  induction k generalizing x with
  | zero => exact hx
  | succ k ih => exact ih (h.next_mem hx)

theorem Ring.mem_iff_iterate {a x : α} {l : List α} (h : Ring next prev (a :: l)) :
    x ∈ a :: l ↔ ∃ k, next^[k] a = x :=
  ⟨h.seg.exists_iterate x, fun ⟨k, hk⟩ => hk ▸ h.iterate_mem (by simp) k⟩

/-- From any node of a ring, `next` comes to any other, and back to the node itself, before it has
gone round more than once. -/
theorem Ring.exists_iterate {l : List α} {x y : α} (h : Ring next prev l) (hx : x ∈ l)
    (hy : y ∈ l) : ∃ k, 0 < k ∧ k ≤ l.length ∧ next^[k] x = y := by
  obtain ⟨l₁, l₂, rfl, hr⟩ := h.exists_cons hx
  have hy' : y ∈ (l₂ ++ l₁) ++ [x] := by
    simp only [List.mem_append, List.mem_cons, List.not_mem_nil, or_false] at hy ⊢
    tauto
  obtain ⟨k, hk, hkl, he⟩ := hr.seg.exists_iterate_pos y hy'
  refine ⟨k, hk, ?_, he⟩
  simp only [List.length_append, List.length_cons] at hkl ⊢
  omega

theorem Ring.congr {l : List α} (h : Ring next prev l) (hn : ∀ x ∈ l, next' x = next x)
    (hp : ∀ x ∈ l, prev' x = prev x) : Ring next' prev' l := by
  cases l with
  | nil => exact h
  | cons a l => exact ⟨h.1, h.2.congr hn fun x hx => hp x (by simpa [or_comm] using hx)⟩

theorem Ring.next_eq_self {a : α} {l : List α} (h : Ring next prev (a :: l)) :
    next a = a ↔ l = [] := by
  cases l with
  | nil => simpa using h.2.1
  | cons b l =>
    have hb : next a = b := h.2.1.1
    have hab : a ≠ b := fun e => (List.nodup_cons.mp h.1).1 (by simp [e])
    simp [hb, hab.symm]

theorem Seg.ext {a b : α} {l l' : List α} (h : Seg next prev a l b) (h' : Seg next prev a l' b)
    (hl : b ∉ l) (hl' : b ∉ l') : l = l' := by
  induction l generalizing a l' with
  | nil =>
    cases l' with
    | nil => rfl
    | cons c l' => exact absurd (h'.1.1.symm.trans h.1) (fun e => hl' (by simp [e]))
  | cons c l ih =>
    cases l' with
    | nil => exact absurd (h.1.1.symm.trans h'.1) (fun e => hl (by simp [e]))
    | cons d l' =>
      obtain rfl : c = d := h.1.1.symm.trans h'.1.1
      rw [ih h.2 h'.2 (fun e => hl (List.mem_cons_of_mem _ e))
        (fun e => hl' (List.mem_cons_of_mem _ e))]

/-- **The ring from a given head is unique.** -/
theorem Ring.ext {a : α} {l l' : List α} (h : Ring next prev (a :: l))
    (h' : Ring next prev (a :: l')) : l = l' :=
  h.seg.ext h'.seg (List.nodup_cons.mp h.1).1 (List.nodup_cons.mp h'.1).1

/-! ## Updates -/

theorem Seg.retarget {a b x : α} {l : List α} (h : Seg next prev b l a) (hnd : (b :: l).Nodup)
    (hn₁ : next' (prev a) = x) (hp₁ : prev' x = prev a)
    (hn : ∀ y ∈ b :: l, y ≠ prev a → next' y = next y) (hp : ∀ y ∈ l, prev' y = prev y) :
    Seg next' prev' b l x := by
  induction l generalizing b with
  | nil =>
    rw [h.2] at hn₁ hp₁
    exact ⟨hn₁, hp₁⟩
  | cons c l ih =>
    have hb : b ≠ prev a := by
      have hmem := (h.2.prev_mem a (by simp)).1
      rintro rfl
      exact (List.nodup_cons.mp hnd).1 hmem
    refine ⟨⟨(hn b (by simp) hb).trans h.1.1, (hp c (by simp)).trans h.1.2⟩, ih h.2 ?_ ?_ ?_⟩
    · exact (List.nodup_cons.mp hnd).2
    · exact fun y hy => hn y (List.mem_cons_of_mem _ hy)
    · exact fun y hy => hp y (List.mem_cons_of_mem _ hy)

/-- **Insertion before the head**: `x` comes between the last node and the head. -/
theorem Ring.insert {a x : α} {l : List α} (h : Ring next prev (a :: l)) (hx : x ∉ a :: l)
    (hn₁ : next' (prev a) = x) (hn₂ : next' x = a) (hp₁ : prev' x = prev a) (hp₂ : prev' a = x)
    (hn : ∀ y ∈ a :: l, y ≠ prev a → next' y = next y)
    (hp : ∀ y ∈ a :: l, y ≠ a → prev' y = prev y) : Ring next' prev' (a :: (l ++ [x])) := by
  have ha := (List.nodup_cons.mp h.1).1
  refine ⟨?_, seg_append.mpr ⟨h.seg.retarget h.1 hn₁ hp₁ hn fun y hy => ?_, hn₂, hp₂⟩⟩
  · rw [← List.cons_append]
    refine List.nodup_append.mpr ⟨h.1, by simp, fun y hy z hz e => hx ?_⟩
    rwa [← List.mem_singleton.mp hz, ← e]
  · exact hp y (List.mem_cons_of_mem _ hy) fun e => ha (e ▸ hy)

/-- **Removal of the head** of a ring with another node. -/
theorem Ring.erase {a b : α} {l : List α} (h : Ring next prev (a :: b :: l))
    (hn₁ : next' (prev a) = b) (hp₁ : prev' b = prev a)
    (hn : ∀ y ∈ b :: l, y ≠ prev a → next' y = next y)
    (hp : ∀ y ∈ b :: l, y ≠ b → prev' y = prev y) : Ring next' prev' (b :: l) := by
  have hnd := (List.nodup_cons.mp h.1).2
  refine ⟨hnd, h.seg.2.retarget hnd hn₁ hp₁ hn fun y hy => ?_⟩
  exact hp y (List.mem_cons_of_mem _ hy) fun e => (List.nodup_cons.mp hnd).1 (e ▸ hy)

/-- **Replacement of the head** of a ring with another node by a new node `x`. -/
theorem Ring.replace {a b x : α} {l : List α} (h : Ring next prev (a :: b :: l)) (hx : x ∉ b :: l)
    (hn₁ : next' x = b) (hp₁ : prev' b = x) (hn₂ : next' (prev a) = x) (hp₂ : prev' x = prev a)
    (hn : ∀ y ∈ b :: l, y ≠ prev a → next' y = next y)
    (hp : ∀ y ∈ b :: l, y ≠ b → prev' y = prev y) : Ring next' prev' (x :: b :: l) := by
  have hnd := (List.nodup_cons.mp h.1).2
  refine ⟨List.nodup_cons.mpr ⟨hx, hnd⟩, ⟨hn₁, hp₁⟩,
    h.seg.2.retarget hnd hn₂ hp₂ hn fun y hy => ?_⟩
  exact hp y (List.mem_cons_of_mem _ hy) fun e => (List.nodup_cons.mp hnd).1 (e ▸ hy)

/-! ## Updates anywhere in the ring -/

theorem Ring.next_eq_prev {l : List α} {x : α} (h : Ring next prev l) (hx : x ∈ l)
    (hl : l.length ≤ 2) : next x = prev x := by
  obtain ⟨l₁, l₂, rfl, hr⟩ := h.exists_cons hx
  simp only [List.length_append, List.length_cons] at hl
  match hm : l₂ ++ l₁ with
  | [] =>
    rw [hm] at hr
    exact (ring_singleton.mp hr).1.trans (ring_singleton.mp hr).2.symm
  | [b] =>
    rw [hm] at hr
    exact hr.seg.1.1.trans hr.seg.2.2.symm
  | b :: c :: m =>
    have := congrArg List.length hm
    simp only [List.length_append, List.length_cons] at this
    omega

theorem Ring.next_ne_prev {l : List α} {x : α} (h : Ring next prev l) (hx : x ∈ l)
    (hl : 3 ≤ l.length) : next x ≠ prev x := by
  obtain ⟨l₁, l₂, rfl, hr⟩ := h.exists_cons hx
  simp only [List.length_append, List.length_cons] at hl
  match hm : l₂ ++ l₁ with
  | b :: c :: m =>
    rw [hm] at hr
    have hb : next x = b := hr.seg.1.1
    have hmem : prev x ∈ c :: m := (hr.seg.2.2.prev_mem x (by simp)).1
    have hnd := (List.nodup_cons.mp (List.nodup_cons.mp hr.1).2).1
    intro e
    rw [hb] at e
    exact hnd (e ▸ hmem)
  | [] =>
    have := congrArg List.length hm
    simp only [List.length_append, List.length_nil] at this
    omega
  | [b] =>
    have := congrArg List.length hm
    simp only [List.length_append, List.length_cons, List.length_nil] at this
    omega

variable [DecidableEq α] {l₁ l₂ : List α} {x y : α}

/-- The node `x` leaves the ring. -/
theorem Ring.erase_mem (h : Ring next prev (l₁ ++ x :: l₂)) (hne : l₁ ++ l₂ ≠ [])
    (hn : ∀ q, next' q = if q = prev x then next x else next q)
    (hp : ∀ q, prev' q = if q = next x then prev x else prev q) :
    Ring next' prev' (l₁ ++ l₂) := by
  have hr : Ring next prev (x :: (l₂ ++ l₁)) := by simpa using h.rotate
  refine Ring.rotate (l := l₂) ?_
  match hm : l₂ ++ l₁ with
  | [] => simp_all
  | b :: m =>
    rw [hm] at hr
    have hb : next x = b := hr.seg.1.1
    rw [hb] at hn hp
    refine hr.erase (by simp [hn]) (by simp [hp]) (fun q _ hq => ?_) (fun q _ hq => ?_)
    · rw [hn, if_neg hq]
    · rw [hp, if_neg hq]

/-- The node `y` takes the place of `x`. -/
theorem Ring.replace_mem (h : Ring next prev (l₁ ++ x :: l₂)) (hne : l₁ ++ l₂ ≠ [])
    (hy : y ∉ l₁ ++ x :: l₂)
    (hn : ∀ q, next' q = if q = y then next x else if q = prev x then y else next q)
    (hp : ∀ q, prev' q = if q = y then prev x else if q = next x then y else prev q) :
    Ring next' prev' (l₁ ++ y :: l₂) := by
  have hr : Ring next prev (x :: (l₂ ++ l₁)) := by simpa using h.rotate
  have hyr : ∀ q ∈ x :: (l₂ ++ l₁), q ≠ y := fun q hq e => hy (by subst e; simp at hq ⊢; tauto)
  have hpx : prev x ≠ y := hyr _ (hr.prev_mem (by simp))
  refine Ring.rotate (l := y :: l₂) ?_
  rw [List.cons_append]
  match hm : l₂ ++ l₁ with
  | [] => simp_all
  | b :: m =>
    rw [hm] at hr hyr
    have hb : next x = b := hr.seg.1.1
    have hby : b ≠ y := hyr b (by simp)
    rw [hb] at hn hp
    refine hr.replace (fun e => hyr y (List.mem_cons_of_mem _ e) rfl) (by simp [hn])
      (by simp [hp, hby]) (by simp [hn, hpx]) (by simp [hp]) (fun q hq hqz => ?_)
      (fun q hq hqb => ?_)
    · rw [hn, if_neg (hyr q (List.mem_cons_of_mem _ hq)), if_neg hqz]
    · rw [hp, if_neg (hyr q (List.mem_cons_of_mem _ hq)), if_neg hqb]

/-- The node `y` comes before `x`. -/
theorem Ring.insert_mem (h : Ring next prev (l₁ ++ x :: l₂)) (hy : y ∉ l₁ ++ x :: l₂)
    (hn : ∀ q, next' q = if q = y then x else if q = prev x then y else next q)
    (hp : ∀ q, prev' q = if q = y then prev x else if q = x then y else prev q) :
    Ring next' prev' (l₁ ++ y :: x :: l₂) := by
  have hr : Ring next prev (x :: (l₂ ++ l₁)) := by simpa using h.rotate
  have hyr : ∀ q ∈ x :: (l₂ ++ l₁), q ≠ y := fun q hq e => hy (by subst e; simp at hq ⊢; tauto)
  have hpx : prev x ≠ y := hyr _ (hr.prev_mem (by simp))
  have hxy : x ≠ y := hyr x (by simp)
  have hins : Ring next' prev' (x :: (l₂ ++ l₁ ++ [y])) := by
    refine hr.insert (fun e => hyr y e rfl) (by simp [hn, hpx]) (by simp [hn]) (by simp [hp])
      (by simp [hp, hxy]) (fun q hq hqz => ?_) (fun q hq hqx => ?_)
    · rw [hn, if_neg (hyr q hq), if_neg hqz]
    · rw [hp, if_neg (hyr q hq), if_neg hqx]
  have := Ring.rotate (l := x :: l₂) (m := l₁ ++ [y]) (by simpa using hins)
  simpa using this

end Linked
