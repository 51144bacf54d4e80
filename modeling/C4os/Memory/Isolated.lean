import C4os.Memory.SortedRing
import Mathlib.Data.List.Pairwise

/-!
# Freeing an isolated range

* `Isolated s bs base count`: the range neither overlaps nor touches a free block.
* `Inserted`: the free list has the range as one more block; `Insertable`: when it gets there.
* `freeLocked_new`: the call inserts the range at `insertPlace`.
* **`freePhysPages_isolated`**: the range is inserted exactly when `Insertable` holds;
  `middle_block_lost`: a ring of three blocks.
-/

namespace C4os

open Linked Pages

namespace Machine

variable {s t u : Machine} {bs l m : List Nat} {a b base count fuel : Nat}

/-- A range of whole pages that neither overlaps nor touches a free block. -/
structure Isolated (s : Machine) (bs : List Nat) (base count : Nat) : Prop where
  aligned : 4096 ∣ base
  bound : base + count * 4096 ≤ 2 ^ 32
  pos : 1 ≤ count
  apart : ∀ b ∈ bs, b + s.size b * 4096 < base ∨ base + count * 4096 < b

/-- The free list has the range as one more block. -/
structure Inserted (s : Machine) (bs : List Nat) (base count : Nat) (s' : Machine) : Prop where
  ring : ∃ m : List Nat, s'.SortedRing m ∧ m.Perm (base :: bs)
  new : s'.size base = count
  old : ∀ b ∈ bs, s'.size b = s.size b
  count : s'.freePageCount = s.freePageCount + count

/-- A block and the range meet at the address `0`, where the 32-bit sums of the tests wrap: the range
ends there and a block starts, or the only block ends there and the range starts. -/
def Wraps (s : Machine) (bs : List Nat) (base count : Nat) : Prop :=
  0 ∈ bs ∧ base + count * 4096 = 2 ^ 32 ∨ base = 0 ∧ ∃ b, bs = [b] ∧ b + s.size b * 4096 = 2 ^ 32

/-- At most one block is free, or two that do not both lie below the range. -/
def Insertable (s : Machine) (bs : List Nat) (base count : Nat) : Prop :=
  (bs.length ≤ 1 ∨ bs.length = 2 ∧ ∃ b ∈ bs, base < b) ∧ ¬ Wraps s bs base count

theorem Isolated.frame (h : Isolated s bs base count) : Frame base := by
  have h1 := h.bound
  have h2 := h.pos
  exact ⟨h.aligned, by omega⟩

theorem Isolated.not_mem (h : Isolated s bs base count) : base ∉ bs := by
  intro hb
  have := h.apart base hb
  omega

/-! ## Where the range goes -/

/-- The block before which the range is put: the first one above it, or else the last. -/
def insertPlace (base : Nat) : Nat → List Nat → Nat
  | a, [] => a
  | a, b :: l => if base < a then a else insertPlace base b l

theorem insertPlace_mem (base a : Nat) (l : List Nat) : insertPlace base a l ∈ a :: l := by
  induction l generalizing a with
  | nil => exact List.mem_singleton.mpr rfl
  | cons b l ih =>
    rw [insertPlace]
    split_ifs
    · exact List.mem_cons_self
    · exact List.mem_cons_of_mem a (ih b)

/-- **The search ends where the range is put**, when no block touches it. -/
theorem freeLoop_new {h : Nat} (hs : Seg s.next s.prev a l h) (hh : s.freePhysMemoryPointer = h)
    (hl : h ∉ l) (hfr : ∀ y ∈ a :: l, Frame y)
    (hup : ∀ y ∈ a :: l, add32 y (pageShift (s.size y)) ≠ base)
    (hdown : ∀ y ∈ a :: l, add32 base (pageShift count) ≠ y) (hf : l.length < fuel) :
    freeLoop base count fuel a s = some (freeAction base count s (.new (insertPlace base a l))) := by
  induction l generalizing a s fuel with
  | nil =>
    obtain ⟨fuel, rfl⟩ := Nat.exists_eq_succ_of_ne_zero (Nat.ne_of_gt hf)
    have hn : s.next a = s.freePhysMemoryPointer := hs.1.trans hh.symm
    rw [freeLoop_step (hfr a (by simp)), if_neg (hup a (by simp)), if_neg (hdown a (by simp)),
      if_pos (Or.inr hn), insertPlace]
  | cons d l ih =>
    obtain ⟨fuel, rfl⟩ := Nat.exists_eq_succ_of_ne_zero (Nat.ne_of_gt (Nat.zero_lt_of_lt hf))
    have hn : s.next a = d := hs.1.1
    have hne : d ≠ s.freePhysMemoryPointer := fun e => hl (by simp [← hh, e])
    rw [freeLoop_step (hfr a (by simp)), if_neg (hup a (by simp)), if_neg (hdown a (by simp)), hn,
      insertPlace]
    by_cases hlt : base < a
    · rw [if_pos (Or.inl hlt), if_pos hlt]
    · rw [if_neg (not_or.mpr ⟨hlt, hne⟩), if_pos hne, if_neg hlt]
      rw [ih (s := s.tempMapPage a) (by simpa using hs.2) hh (fun e => hl (by simp [e]))
        (fun y hy => hfr y (List.mem_cons_of_mem a hy))
        (fun y hy => by simpa using hup y (List.mem_cons_of_mem a hy))
        (fun y hy => hdown y (List.mem_cons_of_mem a hy)) (by simp at hf; omega),
        freeAction_tempMapPage]

theorem add32_wrap {x y : Nat} (h : x + y = 2 ^ 32) : add32 x y = 0 := by
  unfold add32
  rw [h, Nat.mod_self]

theorem Isolated.down_ne (hi : Isolated s bs base count) (hr : SortedRing s bs)
    (hw : ¬ Wraps s bs base count) (hb : b ∈ bs) : add32 base (pageShift count) ≠ b := by
  have h1 := hi.bound
  have h2 := hi.apart b hb
  have h3 := (hr.frame hb).2
  have h4 := hr.bound b hb
  have h5 := hr.pos b hb
  rw [pageShift_eq (by omega)]
  rintro rfl
  by_cases he : base + count * 4096 = 2 ^ 32
  · rw [add32_wrap he] at hb
    exact hw (Or.inl ⟨hb, he⟩)
  · rw [add32_eq (by omega)] at h2
    omega

theorem Isolated.up_ne (hi : Isolated s bs base count) (hr : SortedRing s bs) (hb : b ∈ bs)
    (hne : base = 0 → b + s.size b * 4096 ≠ 2 ^ 32) : add32 b (pageShift (s.size b)) ≠ base := by
  have h1 := hi.apart b hb
  have h2 := hr.bound b hb
  have h3 := hi.bound
  have h4 := hi.pos
  rw [pageShift_eq (by omega)]
  intro e
  by_cases he : b + s.size b * 4096 = 2 ^ 32
  · rw [add32_wrap he] at e
    exact hne e.symm he
  · rw [add32_eq (by omega)] at e
    omega

/-- **The call inserts the range**, when nothing wraps. -/
theorem freeLocked_new (hr : SortedRing s (a :: l)) (hi : Isolated s (a :: l) base count)
    (hw : ¬ Wraps s (a :: l) base count) (hf : (a :: l).length ≤ fuel) :
    freeLocked fuel base count s =
      some (lowerHead base (freeAction base count s (.new (insertPlace base a l)))) := by
  have hp : s.freePhysMemoryPointer = a := hr.ringAt.1
  have hloop : freeLoop base count fuel a s =
      some (freeAction base count s (.new (insertPlace base a l))) := by
    by_cases h0 : base = 0 ∧ l ≠ []
    · -- the first block lies above the range, so the search does not see where the last one ends
      obtain ⟨rfl, hl⟩ := h0
      obtain ⟨c, l, rfl⟩ := List.exists_cons_of_ne_nil hl
      obtain ⟨fuel, rfl⟩ := Nat.exists_eq_succ_of_ne_zero (Nat.ne_of_gt (Nat.zero_lt_of_lt hf))
      have hac := (List.pairwise_cons.mp hr.ascending).1 c List.mem_cons_self
      have hc := hr.frame (b := c) (by simp)
      have ha := (hi.apart a List.mem_cons_self).resolve_left (Nat.not_lt_zero _)
      have hlt : 0 < a := Nat.lt_of_le_of_lt (Nat.zero_le _) ha
      have hend : a + s.size a * 4096 ≠ 2 ^ 32 := by
        have := hc.2
        omega
      rw [freeLoop_step (hr.frame List.mem_cons_self),
        if_neg (hi.up_ne hr List.mem_cons_self fun _ => hend),
        if_neg (hi.down_ne hr hw List.mem_cons_self), if_pos (Or.inl hlt), insertPlace, if_pos hlt]
    · refine freeLoop_new hr.ringAt.2.seg hp (List.nodup_cons.mp hr.nodup).1
        (fun y hy => hr.frame hy) (fun y hy => hi.up_ne hr hy fun hb he => ?_)
        (fun y hy => hi.down_ne hr hw hy) hf
      have hl : l = [] := by
        by_contra hl
        exact h0 ⟨hb, hl⟩
      subst hl
      obtain rfl := List.mem_singleton.mp hy
      exact hw (Or.inr ⟨hb, y, rfl, he⟩)
  rw [freeLocked, if_neg fun e => by simpa using hr.pointer_eq_NIL.mp e, hp, hloop]
  rfl

/-! ## The ring with the range -/

/-- The state that the call leaves, from the state `u` after the loop. -/
def freed (count : Nat) (u : Machine) : Machine :=
  { u with freePageCount := add32 u.freePageCount count, physMemoryMutex := false }

theorem SortedRing.le_of_lt (h : SortedRing s bs) (ha : a ∈ bs) (hb : b ∈ bs) (hab : a < b) :
    a + s.size a * 4096 ≤ b := by
  have hsymm : Std.Symm fun x y : Nat =>
      (x < y → x + s.size x * 4096 ≤ y) ∧ (y < x → y + s.size y * 4096 ≤ x) :=
    ⟨fun _ _ h => h.symm⟩
  have hpw : bs.Pairwise fun x y =>
      (x < y → x + s.size x * 4096 ≤ y) ∧ (y < x → y + s.size y * 4096 ≤ x) :=
    h.ascending.imp fun hxy => ⟨fun _ => hxy, fun hyx => by omega⟩
  exact (hpw.forall ha hb (Nat.ne_of_lt hab)).1 hab

theorem SortedRing.inserted (h : SortedRing s bs) (hi : Isolated s bs base count)
    (hr : u.RingAt m) (hm : m.Perm (base :: bs)) (hlt : m.Pairwise (· < ·))
    (hnew : u.size base = count) (hold : ∀ b ∈ bs, u.size b = s.size b)
    (hn : u.freePageCount = s.freePageCount) : Inserted s bs base count (freed count u) := by
  have hmem : ∀ b ∈ m, b = base ∨ b ∈ bs := fun b hb => List.mem_cons.mp (hm.mem_iff.mp hb)
  have h1 := h.count_le
  have h2 := hi.bound
  have hsum : add32 u.freePageCount count = s.freePageCount + count := by
    rw [hn, add32_eq (by omega)]
  refine ⟨⟨m, .setVars hr (fun b hb => ?_) (fun b hb => ?_) (fun b hb => ?_) ?_ ?_, hm⟩, hnew, hold,
    hsum⟩
  · obtain rfl | hb := hmem b hb
    · exact hi.aligned
    · exact h.aligned b hb
  · obtain rfl | hb := hmem b hb
    · rwa [hnew]
    · rw [hold b hb]
      exact h.bound b hb
  · obtain rfl | hb := hmem b hb
    · rw [hnew]
      exact hi.pos
    · rw [hold b hb]
      exact h.pos b hb
  · refine hlt.imp_of_mem fun {x y} hx hy hxy => ?_
    obtain rfl | hx := hmem x hx
    · obtain rfl | hy := hmem y hy
      · exact absurd hxy (Nat.lt_irrefl _)
      · have := hi.apart y hy
        rw [hnew]
        omega
    · rw [hold x hx]
      obtain rfl | hy := hmem y hy
      · have := hi.apart x hx
        omega
      · exact h.le_of_lt hx hy hxy
  · have hperm := (hm.map u.size).sum_nat
    rw [List.map_cons, List.sum_cons, hnew, List.map_congr_left hold, ← h.count] at hperm
    rw [hsum, hperm, Nat.add_comm]

theorem Inserted.ringAt (h : Inserted s bs base count (freed count u)) :
    (∃ m : List Nat, u.RingAt m ∧ m.Perm (base :: bs) ∧ m.Pairwise (· < ·)) ∧
      u.size base = count ∧ ∀ b ∈ bs, u.size b = s.size b := by
  have hset : ∀ n k, ({ u with freePageCount := n, physMemoryMutex := k } : Machine).next = u.next ∧
      ({ u with freePageCount := n, physMemoryMutex := k } : Machine).prev = u.prev ∧
      ({ u with freePageCount := n, physMemoryMutex := k } : Machine).size = u.size :=
    fun _ _ => ⟨rfl, rfl, rfl⟩
  obtain ⟨hnext, hprev, hsize⟩ := hset (add32 u.freePageCount count) false
  obtain ⟨m, hr, hm⟩ := h.ring
  have hnew := h.new
  have hold := h.old
  unfold freed at hr hnew hold
  rw [hsize] at hnew hold
  exact ⟨⟨m, hr.ringAt.congr hnext.symm hprev.symm rfl, hm, hr.lt⟩, hnew, hold⟩

/-! ## When the range gets on the ring -/

theorem insert_headers (h : SortedRing s bs) (hi : Isolated s bs base count) (hb : b ∈ bs) :
    (lowerHead base (freeAction base count s (.new b))).next =
        (fun q => if q = base then b else if q = s.next b then base else s.next q) ∧
      (lowerHead base (freeAction base count s (.new b))).prev =
        (fun q => if q = base then s.next b else if q = b then base else s.prev q) ∧
      (lowerHead base (freeAction base count s (.new b))).size =
        (fun q => if q = base then count else s.size q) ∧
      (lowerHead base (freeAction base count s (.new b))).freePhysMemoryPointer =
        (if base < s.freePhysMemoryPointer then base else s.freePhysMemoryPointer) ∧
      (lowerHead base (freeAction base count s (.new b))).freePageCount = s.freePageCount := by
  have hr := h.ringAt.ring (List.ne_nil_of_mem hb)
  obtain ⟨h1, h2, h3⟩ := insertBlock_spec count (h.frame hb) hi.frame (h.frame (hr.next_mem hb))
  obtain ⟨hn, hp, hs⟩ := headers_lowerHead base (freeAction base count s (.new b))
  have hptr : (freeAction base count s (.new b)).freePhysMemoryPointer = s.freePhysMemoryPointer := by
    simp [freeAction, insertBlock]
  rw [hn, hp, hs, pointer_lowerHead, count_lowerHead, hptr]
  exact ⟨h1, h2, h3, rfl, by simp [freeAction, insertBlock]⟩

theorem inserted_nil (h : SortedRing s []) (hi : Isolated s [] base count) (fuel : Nat) :
    ∃ u, freeLocked fuel base count s = some u ∧ Inserted s [] base count (freed count u) := by
  obtain ⟨h1, h2, h3⟩ := firstBlock_spec (s := s) count hi.frame
  refine ⟨s.firstBlock base count, if_pos (h.pointer_eq_NIL.mpr rfl), ?_⟩
  have hr : (s.firstBlock base count).RingAt [base] := ⟨rfl, ring_singleton.mpr ⟨h1, h2⟩⟩
  exact h.inserted hi hr (List.Perm.refl _) (List.pairwise_singleton _ _) h3
    (fun b hb => absurd hb List.not_mem_nil) rfl

theorem inserted_one (h : SortedRing s [a]) (hi : Isolated s [a] base count) :
    Inserted s [a] base count
      (freed count (lowerHead base (freeAction base count s (.new a)))) := by
  obtain ⟨hn, hp, hs, hptr, hcount⟩ := insert_headers h hi List.mem_cons_self
  have hne : a ≠ base := fun e => hi.not_mem (by simp [e])
  have hself : s.next a = a := (ring_singleton.mp h.ringAt.2).1
  rw [h.ringAt.1] at hptr
  generalize lowerHead base (freeAction base count s (.new a)) = u at hn hp hs hptr hcount ⊢
  have hnew : u.size base = count := by simp [hs]
  have hold : ∀ b ∈ [a], u.size b = s.size b := fun b hb => by
    obtain rfl := List.mem_singleton.mp hb
    simp [hs, hne]
  by_cases hlt : base < a
  · have hr : u.RingAt [base, a] := by
      rw [if_pos hlt] at hptr
      exact ⟨hptr, by simp [hne.symm], by simp [Seg, hn, hp, hself, hne]⟩
    exact h.inserted hi hr (List.Perm.refl _) (List.pairwise_pair.mpr hlt) hnew hold hcount
  · have hr : u.RingAt [a, base] := by
      rw [if_neg hlt] at hptr
      exact ⟨hptr, by simp [hne], by simp [Seg, hn, hp, hself, hne]⟩
    have hlt' : a < base := Nat.lt_of_le_of_ne (Nat.not_lt.mp hlt) hne
    exact h.inserted hi hr (List.Perm.swap _ _ _) (List.pairwise_pair.mpr hlt') hnew hold hcount

theorem inserted_two (h : SortedRing s [a, b]) (hi : Isolated s [a, b] base count)
    (hlt : base < b) : Inserted s [a, b] base count
      (freed count (lowerHead base (freeAction base count s (.new (insertPlace base a [b]))))) := by
  obtain ⟨hn, hp, hs, hptr, hcount⟩ := insert_headers h hi (insertPlace_mem base a [b])
  have hab : a < b := List.pairwise_pair.mp h.lt
  have hna : a ≠ base := fun e => hi.not_mem (by simp [e])
  have hnb : b ≠ base := fun e => hi.not_mem (by simp [e])
  have ha : s.next a = b ∧ s.prev b = a := h.ringAt.2.seg.1
  have hb : s.next b = a ∧ s.prev a = b := h.ringAt.2.seg.2
  rw [h.ringAt.1] at hptr
  generalize lowerHead base (freeAction base count s (.new (insertPlace base a [b]))) = u
    at hn hp hs hptr hcount ⊢
  have hnew : u.size base = count := by simp [hs]
  have hold : ∀ c ∈ [a, b], u.size c = s.size c := fun c hc => by
    have hcb : c ≠ base := fun e => hi.not_mem (e ▸ hc)
    simp [hs, hcb]
  have hne : a ≠ b := Nat.ne_of_lt hab
  rw [insertPlace] at hn hp
  by_cases hla : base < a
  · rw [if_pos hla] at hn hp
    have hr : u.RingAt [base, a, b] := by
      rw [if_pos hla] at hptr
      refine ⟨hptr, by simp [hna.symm, hnb.symm, hne], ?_⟩
      simp [Seg, hn, hp, ha, hna, hnb, hne, hne.symm]
    refine h.inserted hi hr (List.Perm.refl _) ?_ hnew hold hcount
    simpa using ⟨⟨hla, hlt⟩, hab⟩
  · rw [if_neg hla, insertPlace] at hn hp
    have hlt' : a < base := Nat.lt_of_le_of_ne (Nat.not_lt.mp hla) hna
    have hr : u.RingAt [a, base, b] := by
      rw [if_neg hla] at hptr
      refine ⟨hptr, by simp [hna, hnb.symm, hne], ?_⟩
      simp [Seg, hn, hp, hb, hna, hnb, hne, hne.symm]
    refine h.inserted hi hr (List.Perm.swap _ _ _) ?_ hnew hold hcount
    simpa using ⟨⟨hlt', hab⟩, hlt⟩

/-- **On a ring of three blocks or more the insertion is wrong**: the new block and an old one have the
same successor. -/
theorem not_inserted_three (h : SortedRing s bs) (hi : Isolated s bs base count) (hb : b ∈ bs)
    (hlen : 3 ≤ bs.length) : ¬ Inserted s bs base count
      (freed count (lowerHead base (freeAction base count s (.new b)))) := by
  intro hins
  obtain ⟨⟨m, hr, hm, -⟩, -, -⟩ := hins.ringAt
  have hold := h.ringAt.ring (List.ne_nil_of_mem hb)
  obtain ⟨hn, -, -, -, -⟩ := insert_headers h hi hb
  generalize lowerHead base (freeAction base count s (.new b)) = u at hr hn
  have hring := hr.ring (List.ne_nil_of_mem (hm.mem_iff.mpr List.mem_cons_self))
  have hp := hold.prev_mem hb
  have hpb : s.prev b ≠ base := fun e => hi.not_mem (e ▸ hp)
  have h1 : u.next base = b := by simp [hn]
  have h2 : u.next (s.prev b) = b := by
    rw [hn]
    dsimp only
    rw [if_neg hpb, if_neg (hold.next_ne_prev hb hlen).symm, hold.next_prev hb]
  have h3 := hring.prev_next (hm.mem_iff.mpr List.mem_cons_self)
  have h4 := hring.prev_next (hm.mem_iff.mpr (List.mem_cons_of_mem base hp))
  rw [h1] at h3
  rw [h2] at h4
  exact hpb (h4.symm.trans h3)

theorem not_inserted_above (h : SortedRing s [a, b]) (hi : Isolated s [a, b] base count)
    (hlt : b < base) : ¬ Inserted s [a, b] base count
      (freed count (lowerHead base (freeAction base count s (.new b)))) := by
  intro hins
  obtain ⟨⟨m, hr, hm, hsort⟩, -, -⟩ := hins.ringAt
  have hab : a < b := List.pairwise_pair.mp h.lt
  have hb : s.next b = a := h.ringAt.2.seg.2.1
  obtain ⟨hn, -, -, -, -⟩ := insert_headers h hi (show b ∈ [a, b] by simp)
  generalize lowerHead base (freeAction base count s (.new b)) = u at hr hn
  have hperm : m.Perm [a, b, base] :=
    hm.trans (List.perm_append_comm : ([base] ++ [a, b]).Perm ([a, b] ++ [base]))
  have hthree : [a, b, base].Pairwise (· < ·) := by
    simpa using ⟨⟨hab, Nat.lt_trans hab hlt⟩, hlt⟩
  obtain rfl := hperm.eq_of_pairwise (fun x y _ _ hxy hyx => absurd hxy (Nat.lt_asymm hyx)) hsort
    hthree
  have h1 : u.next a = b := hr.2.seg.1.1
  have h2 : u.next a = base := by
    rw [hn]
    dsimp only
    rw [if_neg (by omega), if_pos hb.symm]
  omega

theorem not_inserted_down (h : SortedRing s (0 :: l)) (hi : Isolated s (0 :: l) base count)
    (hw : base + count * 4096 = 2 ^ 32) (hf : (0 :: l).length ≤ fuel) :
    ∃ u, freeLocked fuel base count s = some u ∧ ¬ Inserted s (0 :: l) base count (freed count u) := by
  obtain ⟨fuel, rfl⟩ := Nat.exists_eq_succ_of_ne_zero (Nat.ne_of_gt (Nat.zero_lt_of_lt hf))
  have hmem : 0 ∈ 0 :: l := List.mem_cons_self
  have hp : s.freePhysMemoryPointer = 0 := h.ringAt.1
  have hapart := hi.apart 0 hmem
  have hdown : add32 base (pageShift count) = 0 := by
    rw [pageShift_eq (by omega), add32_wrap hw]
  have hup : add32 0 (pageShift (s.size 0)) ≠ base := hi.up_ne h hmem fun hb => by omega
  have hpos := h.pos 0 hmem
  have hr := h.ringAt.ring (by simp)
  obtain ⟨-, -, hs⟩ := extendDown_spec count (h.frame hmem) hi.frame (h.frame (hr.next_mem hmem))
    (h.frame (hr.prev_mem hmem))
  refine ⟨lowerHead base (freeAction base count s (.down 0)), ?_, fun hins => ?_⟩
  · rw [freeLocked, if_neg fun e => by simpa using h.pointer_eq_NIL.mp e, hp,
      freeLoop_step (h.frame hmem), if_neg hup, if_pos hdown]
    rfl
  · have hnew := hins.ringAt.2.1
    rw [(headers_lowerHead base _).2.2, freeAction, hs] at hnew
    dsimp only at hnew
    rw [if_pos rfl, add32_eq (by omega)] at hnew
    omega

theorem not_inserted_up (h : SortedRing s [a]) (hi : Isolated s [a] 0 count)
    (hw : a + s.size a * 4096 = 2 ^ 32) (hf : [a].length ≤ fuel) :
    ∃ u, freeLocked fuel 0 count s = some u ∧ ¬ Inserted s [a] 0 count (freed count u) := by
  obtain ⟨fuel, rfl⟩ := Nat.exists_eq_succ_of_ne_zero (Nat.ne_of_gt (Nat.zero_lt_of_lt hf))
  have hmem : a ∈ [a] := List.mem_singleton.mpr rfl
  have hp : s.freePhysMemoryPointer = a := h.ringAt.1
  have hfr := (h.frame hmem).2
  have hapart := (hi.apart a hmem).resolve_left (Nat.not_lt_zero _)
  have hup : add32 a (pageShift (s.size a)) = 0 := by
    rw [pageShift_eq (by omega), add32_wrap hw]
  have hself : s.next a = a := (ring_singleton.mp h.ringAt.2).1
  have hne : s.next a ≠ add32 0 (pageShift count) := by
    rw [hself, pageShift_eq (by omega), add32_eq (by omega)]
    omega
  have hpos := hi.pos
  obtain ⟨-, -, hs⟩ := extendUp_spec (h.frame hmem) hne
  refine ⟨lowerHead 0 (freeAction 0 count s (.up a)), ?_, fun hins => ?_⟩
  · rw [freeLocked, if_neg fun e => by simpa using h.pointer_eq_NIL.mp e, hp,
      freeLoop_step (h.frame hmem), if_pos hup]
    rfl
  · have hold := hins.ringAt.2.2 a hmem
    rw [(headers_lowerHead 0 _).2.2, freeAction, hs] at hold
    dsimp only at hold
    rw [if_pos rfl, add32_eq (by omega)] at hold
    omega

theorem not_inserted_wraps (h : SortedRing s bs) (hi : Isolated s bs base count)
    (hw : Wraps s bs base count) (hf : bs.length ≤ fuel) :
    ∃ u, freeLocked fuel base count s = some u ∧ ¬ Inserted s bs base count (freed count u) := by
  rcases hw with ⟨hmem, hend⟩ | ⟨rfl, a, rfl, hend⟩
  · cases bs with
    | nil => exact absurd hmem List.not_mem_nil
    | cons b l =>
      have hb : b = 0 := by
        rcases List.mem_cons.mp hmem with h0 | hl
        · exact h0.symm
        · have := (List.pairwise_cons.mp h.lt).1 0 hl
          omega
      subst hb
      exact not_inserted_down h hi hend hf
  · exact not_inserted_up h hi hend hf

theorem freeLocked_isolated (h : SortedRing s bs) (hi : Isolated s bs base count)
    (hf : bs.length ≤ fuel) : ∃ u, freeLocked fuel base count s = some u ∧
      (Inserted s bs base count (freed count u) ↔ Insertable s bs base count) := by
  by_cases hw : Wraps s bs base count
  · obtain ⟨u, hu, hno⟩ := not_inserted_wraps h hi hw hf
    exact ⟨u, hu, iff_of_false hno fun hyes => hyes.2 hw⟩
  match bs with
  | [] =>
    obtain ⟨u, hu, hyes⟩ := inserted_nil h hi fuel
    exact ⟨u, hu, iff_of_true hyes ⟨Or.inl (Nat.zero_le 1), hw⟩⟩
  | [a] => exact ⟨_, freeLocked_new h hi hw hf,
      iff_of_true (inserted_one h hi) ⟨Or.inl (Nat.le_refl 1), hw⟩⟩
  | [a, b] =>
    refine ⟨_, freeLocked_new h hi hw hf, ?_⟩
    have hab : a < b := List.pairwise_pair.mp h.lt
    by_cases hlt : base < b
    · exact iff_of_true (inserted_two h hi hlt) ⟨Or.inr ⟨rfl, b, by simp, hlt⟩, hw⟩
    · have hne : b ≠ base := fun e => hi.not_mem (by simp [e])
      have hlt' : b < base := Nat.lt_of_le_of_ne (Nat.not_lt.mp hlt) hne
      have hplace : insertPlace base a [b] = b := by
        rw [insertPlace, if_neg (by omega), insertPlace]
      rw [hplace]
      refine iff_of_false (not_inserted_above h hi hlt') fun hyes => ?_
      rcases hyes.1 with hle | ⟨-, c, hc, hlt⟩
      · exact absurd hle (Nat.not_succ_le_self 1)
      · rcases List.mem_cons.mp hc with rfl | hc
        · omega
        · obtain rfl := List.mem_singleton.mp hc
          omega
  | a :: b :: c :: l =>
    have hlen : 3 ≤ (a :: b :: c :: l).length := by simp
    refine ⟨_, freeLocked_new h hi hw hf,
      iff_of_false (not_inserted_three h hi (insertPlace_mem base a _) hlen) fun hyes => ?_⟩
    rcases hyes.1 with hle | ⟨hle, -⟩
    · omega
    · omega

/-- **Freeing an isolated range** inserts it exactly when at most one block is free, or two that do
not both lie below it, and nothing wraps. -/
theorem freePhysPages_isolated (h : SortedRing s bs) (hm : s.physMemoryMutex = false)
    (hi : Isolated s bs base count) (hf : bs.length ≤ fuel) :
    ∃ s', freePhysPages fuel base count s = some s' ∧
      (Inserted s bs base count s' ↔ Insertable s bs base count) := by
  obtain ⟨t, ht⟩ : ∃ t : Machine, t = { s with physMemoryMutex := true } := ⟨_, rfl⟩
  have hlock : s.mutexGetPhys = some t := by
    rw [mutexGetPhys, hm, ht]
    rfl
  have hsize : t.size = s.size := ht ▸ rfl
  have hcount : t.freePageCount = s.freePageCount := ht ▸ rfl
  have hi' : Isolated t bs base count := ⟨hi.aligned, hi.bound, hi.pos, by
    rw [hsize]
    exact hi.apart⟩
  obtain ⟨u, hu, hiff⟩ := freeLocked_isolated (ht ▸ h.setMutex true) hi' hf
  refine ⟨freed count u, ?_, ?_⟩
  · rw [freePhysPages, hlock, Option.bind_some, hu]
    rfl
  · have hins : Inserted s bs base count (freed count u) ↔
        Inserted t bs base count (freed count u) := by
      constructor
      · rintro ⟨h1, h2, h3, h4⟩
        exact ⟨h1, h2, by rwa [hsize], by rwa [hcount]⟩
      · rintro ⟨h1, h2, h3, h4⟩
        exact ⟨h1, h2, by rwa [hsize] at h3, by rwa [hcount] at h4⟩
    rw [hins, hiff, Insertable, Insertable, Wraps, Wraps, hsize]

/-- Three free pages with gaps. -/
def threeBlocks : Machine :=
  ⟨fun p i => if i = SIZE then 1 else if i = NEXT then (if p = 0x1000 then 0x3000 else
    if p = 0x3000 then 0x5000 else 0x1000) else if p = 0x1000 then 0x5000 else
    if p = 0x3000 then 0x1000 else 0x3000, 0xFFE000, 3, 0x1000, false⟩

theorem sortedRing_threeBlocks : SortedRing threeBlocks [0x1000, 0x3000, 0x5000] := by
  refine ⟨⟨rfl, by decide, ⟨rfl, rfl⟩, ⟨rfl, rfl⟩, rfl, rfl⟩, ?_, ?_, ?_, ?_, rfl⟩
  · decide
  · decide
  · decide
  · decide

theorem isolated_threeBlocks : Isolated threeBlocks [0x1000, 0x3000, 0x5000] 0x7000 1 :=
  ⟨by decide, by decide, by decide, by decide⟩

/-- **A block is lost** when the page `0x7000` is freed: the new block takes the place of the block
`0x3000` behind the first. -/
theorem middle_block_lost : ∃ s', SortedRing threeBlocks [0x1000, 0x3000, 0x5000] ∧
    Isolated threeBlocks [0x1000, 0x3000, 0x5000] 0x7000 1 ∧
    freePhysPages 3 0x7000 1 threeBlocks = some s' ∧
    ¬ Inserted threeBlocks [0x1000, 0x3000, 0x5000] 0x7000 1 s' := by
  have h : (freePhysPages 3 0x7000 1 threeBlocks).map (fun s => (s.next 0x7000, s.next 0x3000)) =
      some (0x5000, 0x5000) := by decide +kernel
  obtain ⟨s', hs', he⟩ := Option.map_eq_some_iff.mp h
  obtain ⟨h1, h2⟩ := Prod.mk.inj he
  refine ⟨s', sortedRing_threeBlocks, isolated_threeBlocks, hs', fun hins => ?_⟩
  -- two blocks have the same successor
  obtain ⟨m, hr, hm⟩ := hins.ring
  have hring := hr.ringAt.ring (List.ne_nil_of_mem (hm.mem_iff.mpr List.mem_cons_self))
  have h3 := hring.prev_next (hm.mem_iff.mpr (List.mem_cons_self (a := 0x7000)))
  have h4 := hring.prev_next (x := 0x3000) (hm.mem_iff.mpr (by simp))
  rw [h1] at h3
  rw [h2, h3] at h4
  exact absurd h4 (by decide)

/-- The page `0x3000` gets between two blocks. -/
theorem freePhysPages_isolated_two : ∃ s', freePhysPages 2 0x3000 1 twoBlocks = some s' ∧
    Inserted twoBlocks [0x1000, 0x5000] 0x3000 1 s' := by
  have hi : Isolated twoBlocks [0x1000, 0x5000] 0x3000 1 :=
    ⟨by decide, by decide, by decide, by decide⟩
  obtain ⟨s', he, hiff⟩ := freePhysPages_isolated sortedRing_twoBlocks rfl hi (Nat.le_refl 2)
  refine ⟨s', he, hiff.mpr ⟨Or.inr ⟨rfl, 0x5000, by simp, by decide⟩, ?_⟩⟩
  unfold Wraps
  simp

end Machine

end C4os
