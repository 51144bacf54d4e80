import C4os.Memory.FreeRing

/-!
# What the physical allocator does to the ring

* **`allocPhysPages_spec`**: an allocation takes its pages off the ring or leaves the ring alone.
* `FreeCase.Safe`: the branches of `free_phys_pages` that keep the ring closed;
  **`freePhysPages_spec`**: through such a branch exactly the freed pages come onto the ring.
-/

namespace C4os

open Linked Pages

namespace Machine

variable {s : Machine} {bs : List Nat} {a b base count fuel : Nat}

/-! ## Allocation -/

theorem ringAt_unlinkBlock {l₁ l₂ : List Nat} (h : s.RingAt (l₁ ++ b :: l₂))
    (hf : ∀ y ∈ l₁ ++ b :: l₂, Frame y) :
    ((s.tempMapPage b).unlinkBlock b).RingAt (l₁ ++ l₂) := by
  have hr := h.ring (by simp)
  have hb : b ∈ l₁ ++ b :: l₂ := by simp
  obtain ⟨h1, h2, -, -, -, h6⟩ := unlinkBlock_spec (hf b hb) (hf _ (hr.next_mem hb))
    (hf _ (hr.prev_mem hb))
  by_cases hne : l₁ ++ l₂ = []
  · obtain ⟨rfl, rfl⟩ := List.append_eq_nil_iff.mp hne
    have hhead : s.freePhysMemoryPointer = b := h.1
    have hnext : s.next b = b := (ring_singleton.mp hr).1
    simp [RingAt, h6, hhead, hnext]
  · have hr' := hr.erase_mem hne (fun q => congrFun h1 q) (fun q => congrFun h2 q)
    have hnd := hr.nodup
    match l₁, l₂, hne with
    | y :: l₁, l₂, _ =>
      have hhead : s.freePhysMemoryPointer = y := h.1
      have hby : b ≠ y := fun e => (List.nodup_cons.mp hnd).1 (by simp [e])
      exact ⟨by rw [h6, hhead, if_neg hby], hr'⟩
    | [], y :: l₂, _ =>
      have hhead : s.freePhysMemoryPointer = b := h.1
      have hnext : s.next b = y := hr.seg.1.1
      have hby : b ≠ y := fun e => (List.nodup_cons.mp hnd).1 (by simp [e])
      exact ⟨by rw [h6, hhead, if_pos rfl, hnext, if_neg hby], hr'⟩

theorem RingAt.congr {s' : Machine} (h : s.RingAt bs) (hn : s'.next = s.next)
    (hp : s'.prev = s.prev) (hh : s'.freePhysMemoryPointer = s.freePhysMemoryPointer) :
    s'.RingAt bs := by
  cases bs with
  | nil => exact hh.trans h
  | cons b bs => exact ⟨hh.trans h.1, by rw [hn, hp]; exact h.2⟩

theorem FreeRing.tempMapPage (h : FreeRing s bs) (z : Nat) : FreeRing (s.tempMapPage z) bs where
  ringAt := h.ringAt.congr (by simp) (by simp) rfl
  aligned := h.aligned
  bound := by simpa using h.bound
  pos := by simpa using h.pos
  count := by simpa using h.count

theorem FreeRing.setMutex (h : FreeRing s bs) (m : Bool) :
    FreeRing { s with physMemoryMutex := m } bs :=
  ⟨h.ringAt.congr rfl rfl rfl, h.aligned, h.bound, h.pos, h.count⟩

theorem freePages_tempMapPage (z : Nat) : freePages (s.tempMapPage z) bs = freePages s bs :=
  freePages_congr fun b _ => by simp

/-- What is left of the ring when `count` pages were taken from one of its blocks. -/
structure Taken (s : Machine) (bs : List Nat) (count : Nat) (r : Nat × Machine)
    (bs' : List Nat) : Prop where
  aligned : 4096 ∣ r.1
  bound : r.1 + count * 4096 < 2 ^ 32
  ringAt : r.2.RingAt bs'
  blocks : ∀ c ∈ bs', c ∈ bs ∧ 0 < r.2.size c ∧ r.2.size c ≤ s.size c
  pages : (freePages s bs).Perm (pages 4096 r.1 count ++ freePages r.2 bs')
  freePageCount : r.2.freePageCount = s.freePageCount
  kept : Kept (· ∈ bs) s r.2

theorem freePages_update {s' : Machine} {l₁ l₂ : List Nat} (hnd : (l₁ ++ b :: l₂).Nodup)
    (h : ∀ q, q ≠ b → s'.size q = s.size q) :
    (freePages s' (l₁ ++ b :: l₂)).Perm (pages 4096 b (s'.size b) ++ freePages s (l₁ ++ l₂)) := by
  have hb : b ∉ l₁ ++ l₂ := (List.nodup_cons.mp (List.perm_middle.nodup_iff.mp hnd)).1
  have he : freePages s' (l₁ ++ l₂) = freePages s (l₁ ++ l₂) :=
    freePages_congr fun c hc => h c fun e => hb (e ▸ hc)
  rw [← he]
  exact freePages_perm List.perm_middle

theorem takeFrom_exact (h : FreeRing s bs) (hb : b ∈ bs) (hsz : s.size b = count) :
    ∃ bs', Taken s bs count (takeFrom count b s) bs' := by
  obtain ⟨l₁, l₂, rfl⟩ := List.append_of_mem hb
  have hr := h.ring (by simp)
  obtain ⟨-, -, h3, h4, -, -⟩ := unlinkBlock_spec (h.frame hb) (h.frame (hr.next_mem hb))
    (h.frame (hr.prev_mem hb))
  rw [takeFrom, if_pos hsz]
  refine ⟨l₁ ++ l₂, h.aligned b hb, by rw [← hsz]; exact h.bound b hb,
    ringAt_unlinkBlock h.ringAt fun y hy => h.frame hy,
    fun c hc => ?_, ?_, h4, ?_⟩
  · have hc' : c ∈ l₁ ++ b :: l₂ := by simp at hc ⊢; tauto
    dsimp only
    rw [h3]
    exact ⟨hc', h.pos c hc', Nat.le_refl _⟩
  · dsimp only
    rw [freePages_congr (s := s) (fun c _ => congrFun h3 c), ← hsz]
    exact freePages_perm (s := s) List.perm_middle
  · refine (kept_unlinkBlock (h.frame hb) (h.frame (hr.next_mem hb))
      (h.frame (hr.prev_mem hb))).mono ?_
    rintro q (rfl | rfl)
    · exact hr.next_mem hb
    · exact hr.prev_mem hb

theorem splitBlock_addr (hbd : b + s.size b * 4096 ≤ 2 ^ 32) (hc : 1 ≤ count)
    (hlt : count < s.size b) : sub32 (s.size b) count = s.size b - count ∧
      add32 b (pageShift (sub32 (s.size b) count)) = b + (s.size b - count) * 4096 := by
  have hsub : sub32 (s.size b) count = s.size b - count := sub32_eq (by omega) (by omega)
  refine ⟨hsub, ?_⟩
  rw [hsub, pageShift_eq (by omega), add32_eq (by omega)]

theorem freePages_split {t : Machine} {l₁ l₂ : List Nat} (hnd : (l₁ ++ b :: l₂).Nodup)
    (hlt : count < s.size b) (hb : t.size b = s.size b - count)
    (hne : ∀ q, q ≠ b → t.size q = s.size q) :
    (freePages s (l₁ ++ b :: l₂)).Perm (pages 4096 (b + (s.size b - count) * 4096) count ++
      freePages t (l₁ ++ b :: l₂)) := by
  have hsplit : pages 4096 b (s.size b) =
      pages 4096 b (s.size b - count) ++ pages 4096 (b + (s.size b - count) * 4096) count := by
    rw [← pages_add, Nat.sub_add_cancel (Nat.le_of_lt hlt)]
  have hs : (freePages s (l₁ ++ b :: l₂)).Perm _ := freePages_update hnd fun q _ => rfl
  have ht := (freePages_update hnd hne).symm
  rw [hsplit] at hs
  rw [hb] at ht
  refine hs.trans (List.perm_append_comm.append_right _ |>.trans ?_)
  rw [List.append_assoc]
  exact ht.append_left _

theorem takeFrom_split (h : FreeRing s bs) (hb : b ∈ bs) (hc : 1 ≤ count)
    (hlt : count < s.size b) : ∃ bs', Taken s bs count (takeFrom count b s) bs' := by
  obtain ⟨l₁, l₂, rfl⟩ := List.append_of_mem hb
  obtain ⟨h1, h2, h3, -⟩ := splitBlock_spec (s := s) count (h.frame hb)
  have hbd := h.bound b hb
  obtain ⟨hsub, haddr⟩ := splitBlock_addr (Nat.le_of_lt hbd) hc hlt
  rw [takeFrom, if_neg (by omega), haddr]
  set t := (s.tempMapPage b).splitBlock count with ht
  have hsb : t.size b = s.size b - count := by rw [h3, ← hsub]; exact if_pos rfl
  have hne : ∀ q, q ≠ b → t.size q = s.size q := fun q hq => by rw [h3]; exact if_neg hq
  refine ⟨l₁ ++ b :: l₂, (Nat.dvd_add_right (h.aligned b hb)).mpr (by simp), ?_,
    h.ringAt.congr h1 h2 (by simp [ht, splitBlock]), fun c hc' => ⟨hc', ?_⟩,
    freePages_split h.nodup hlt hsb hne, by simp [ht, splitBlock],
    (kept_splitBlock (h.frame hb)).mono fun q hq => hq ▸ hb⟩
  · dsimp only
    omega
  · dsimp only
    by_cases he : c = b
    · subst he
      omega
    · exact ⟨by rw [hne c he]; exact h.pos c hc', Nat.le_of_eq (hne c he)⟩

theorem takeFrom_spec (h : FreeRing s bs) (hb : b ∈ bs) (hc : 1 ≤ count)
    (hle : count ≤ s.size b) : ∃ bs', Taken s bs count (takeFrom count b s) bs' :=
  if he : s.size b = count then takeFrom_exact h hb he
  else takeFrom_split h hb hc (by omega)

theorem RingAt.pointer_eq_NIL (h : s.RingAt bs) (ha : ∀ b ∈ bs, 4096 ∣ b) :
    s.freePhysMemoryPointer = NIL ↔ bs = [] := by
  cases bs with
  | nil => exact iff_of_true h rfl
  | cons b bs =>
    have hb := ha b (by simp)
    have hp : s.freePhysMemoryPointer = b := h.1
    refine iff_of_false (fun e => ?_) (by simp)
    rw [hp] at e
    subst e
    exact absurd hb (by decide)

theorem FreeRing.pointer_eq_NIL (h : FreeRing s bs) : s.freePhysMemoryPointer = NIL ↔ bs = [] :=
  h.ringAt.pointer_eq_NIL h.aligned

theorem FreeRing.setVars {n : Nat} {m : Bool} (hr : s.RingAt bs) (ha : ∀ b ∈ bs, 4096 ∣ b)
    (hb : ∀ b ∈ bs, b + s.size b * 4096 < 2 ^ 32) (hp : ∀ b ∈ bs, 0 < s.size b)
    (hn : n = (bs.map s.size).sum) :
    FreeRing { s with freePageCount := n, physMemoryMutex := m } bs :=
  ⟨hr.congr rfl rfl rfl, ha, hb, hp, hn⟩

theorem Taken.freeRing {r : Nat × Machine} {bs' : List Nat} (h : FreeRing s bs)
    (hnd : (freePages s bs).Nodup) (ht : Taken s bs count r bs') :
    FreeRing { r.2 with freePageCount := sub32 r.2.freePageCount count } bs' := by
  refine FreeRing.setVars (s := r.2) ht.ringAt (fun c hc => h.aligned c (ht.blocks c hc).1)
    (fun c hc => ?_) (fun c hc => (ht.blocks c hc).2.1) ?_
  · obtain ⟨hc, -, hle⟩ := ht.blocks c hc
    have hle' : c + r.2.size c * 4096 ≤ c + s.size c * 4096 :=
      Nat.add_le_add_left (Nat.mul_le_mul_right 4096 hle) c
    exact Nat.lt_of_le_of_lt hle' (h.bound c hc)
  · have hlen := ht.pages.length_eq
    rw [List.length_append, length_pages, length_freePages, length_freePages, ← h.count] at hlen
    have hle := h.count_le hnd
    rw [ht.freePageCount, sub32_eq (by omega) (by omega)]
    omega

/-- What `alloc_phys_pages` returns: no page, or pages that were free. -/
def Allocated (s : Machine) (bs : List Nat) (count : Nat) (r : Nat × Machine)
    (bs' : List Nat) : Prop :=
  r.1 = NIL ∧ bs' = bs ∧ freePages r.2 bs = freePages s bs ∨
    4096 ∣ r.1 ∧ r.1 + count * 4096 < 2 ^ 32 ∧
      (freePages s bs).Perm (pages 4096 r.1 count ++ freePages r.2 bs')

theorem Taken.allocated {r : Nat × Machine} {bs' : List Nat} (ht : Taken s bs count r bs')
    (n : Nat) : Allocated s bs count (r.1, { r.2 with freePageCount := n }) bs' :=
  Or.inr ⟨ht.aligned, ht.bound, ht.pages⟩

theorem allocLocked_spec (h : FreeRing s bs) (hnd : (freePages s bs).Nodup) (hc : 1 ≤ count)
    (hf : bs.length ≤ fuel) : ∃ r bs', allocLocked fuel count s = some r ∧ FreeRing r.2 bs' ∧
      Allocated s bs count r bs' ∧ Kept (· ∈ bs) s r.2 := by
  cases bs with
  | nil =>
    refine ⟨(NIL, s), [], ?_, h, Or.inl ⟨rfl, rfl, rfl⟩, Kept.refl _ s⟩
    rw [allocLocked, if_neg (not_not.mpr (h.pointer_eq_NIL.mpr rfl))]
  | cons b l =>
    have hp : s.freePhysMemoryPointer = b := h.ringAt.1
    have hr := h.ringAt.2
    have hb : b ∉ l := (List.nodup_cons.mp hr.1).1
    have hfr : ∀ y ∈ b :: l, Frame y := fun y hy => h.frame hy
    rw [allocLocked, if_pos fun e => by simpa using h.pointer_eq_NIL.mp e]
    cases hx : (b :: l).find? fun y => count ≤ s.size y with
    | none =>
      have hlt : ∀ y ∈ b :: l, s.size y < count := fun y hy => by
        simpa using List.find?_eq_none.mp hx y hy
      obtain ⟨z, hz⟩ := allocLoop_none hr.seg hp hb hfr hlt hf
      refine ⟨(NIL, s.tempMapPage z), b :: l, ?_, h.tempMapPage z,
        Or.inl ⟨rfl, rfl, freePages_tempMapPage z⟩, (touch_tempMapPage _ s z).toKept⟩
      rw [hp, hz]
      rfl
    | some x =>
      have hle : count ≤ s.size x := by simpa using List.find?_some hx
      obtain ⟨bs', ht⟩ := takeFrom_spec h (List.mem_of_find?_eq_some hx) hc hle
      have hal := ht.aligned
      have hne : (takeFrom count x s).1 ≠ NIL := fun e => by
        rw [e] at hal
        exact absurd hal (by decide)
      refine ⟨((takeFrom count x s).1, { (takeFrom count x s).2 with
        freePageCount := sub32 (takeFrom count x s).2.freePageCount count }), bs', ?_,
        ht.freeRing h hnd, ht.allocated _, ht.kept.setVars _ _ _⟩
      rw [hp, allocLoop_found hr.seg hp hb hfr hx hf, Option.map_some, if_pos hne]

/-- **`alloc_phys_pages` takes pages off the ring or leaves the ring alone.** -/
theorem allocPhysPages_spec (h : FreeRing s bs) (hm : s.physMemoryMutex = false)
    (hnd : (freePages s bs).Nodup) (hc : 1 ≤ count) (hf : bs.length ≤ fuel) :
    ∃ r bs', allocPhysPages fuel count s = some r ∧ r.2.physMemoryMutex = false ∧
      FreeRing r.2 bs' ∧ Allocated s bs count r bs' ∧ Kept (· ∈ bs) s r.2 := by
  by_cases hlt : s.freePageCount < count
  · exact ⟨(NIL, s), bs, if_pos hlt, hm, h, Or.inl ⟨rfl, rfl, rfl⟩, Kept.refl _ s⟩
  · obtain ⟨r, bs', hr, hring, ha, hk⟩ := allocLocked_spec (h.setMutex true) hnd hc hf
    refine ⟨(r.1, r.2.mutexReleasePhys), bs', ?_, rfl, hring.setMutex false, ha,
      (((Kept.refl _ s).setVars _ _ true).trans hk).setVars _ _ false⟩
    rw [allocPhysPages, if_neg hlt, mutexGetPhys, hm]
    change (allocLocked fuel count _).map _ = _
    rw [hr]
    rfl

/-! ## Freeing -/

/-- The branches that keep the ring closed on a ring of the blocks `bs`. -/
def FreeCase.Safe (bs : List Nat) : FreeCase → Prop
  | .up _ => True
  | .down _ => 2 ≤ bs.length
  | .new _ => bs.length ≤ 2

theorem freeCase_cases {size : Nat → Nat} {c : FreeCase}
    (h : freeCase size base count bs = some c) :
    ∃ b l₁ l₂, bs = l₁ ++ b :: l₂ ∧ (∀ y ∈ l₁, y ≤ base) ∧
      (c = .up b ∧ b + size b * 4096 = base ∨ c = .down b ∧ base + count * 4096 = b ∨
        c = .new b) := by
  induction bs with
  | nil => simp [freeCase] at h
  | cons d bs ih =>
    rw [freeCase] at h
    split_ifs at h with h1 h2 h3
    · exact ⟨d, [], bs, rfl, by simp, Or.inl ⟨(Option.some.inj h).symm, h1⟩⟩
    · exact ⟨d, [], bs, rfl, by simp, Or.inr (Or.inl ⟨(Option.some.inj h).symm, h2⟩)⟩
    · exact ⟨d, [], bs, rfl, by simp, Or.inr (Or.inr (Option.some.inj h).symm)⟩
    · obtain ⟨b, l₁, l₂, rfl, hl, hb⟩ := ih h
      refine ⟨b, d :: l₁, l₂, rfl, fun y hy => ?_, hb⟩
      rcases List.mem_cons.mp hy with rfl | hy
      · exact Nat.not_lt.mp fun e => h3 (Or.inl e)
      · exact hl y hy

/-- A range that may be freed: whole pages of memory, none of which is free. -/
structure Freeable (s : Machine) (bs : List Nat) (base count : Nat) : Prop where
  aligned : 4096 ∣ base
  bound : base + count * 4096 < 2 ^ 32
  pos : 1 ≤ count
  nodup : (pages 4096 base count ++ freePages s bs).Nodup

theorem Freeable.frame (h : Freeable s bs base count) : Frame base :=
  ⟨h.aligned, by have := h.bound; omega⟩

theorem Freeable.not_mem (h : Freeable s bs base count) (hr : FreeRing s bs) : base ∉ bs :=
  fun hm => (List.nodup_append.mp h.nodup).2.2 base (base_mem_pages h.pos) base
    (mem_freePages_self hr hm) rfl

/-- The blocks `m` after a branch of the loop put a range into the ring. -/
structure Freed (s : Machine) (bs : List Nat) (base count : Nat) (t : Machine)
    (m : List Nat) : Prop where
  ring : Ring t.next t.prev m
  head : (lowerHead base t).freePhysMemoryPointer ∈ m
  aligned : ∀ b ∈ m, 4096 ∣ b
  bound : ∀ b ∈ m, b + t.size b * 4096 < 2 ^ 32
  pos : ∀ b ∈ m, 0 < t.size b
  pages : (freePages t m).Perm (pages 4096 base count ++ freePages s bs)
  freePageCount : t.freePageCount = s.freePageCount
  kept : Kept (fun q => q ∈ bs ∨ q = base) s t

theorem pointer_lowerHead (base : Nat) (t : Machine) :
    (lowerHead base t).freePhysMemoryPointer =
      if base < t.freePhysMemoryPointer then base else t.freePhysMemoryPointer := by
  rw [lowerHead]
  split_ifs <;> rfl

theorem headers_lowerHead (base : Nat) (t : Machine) : (lowerHead base t).next = t.next ∧
    (lowerHead base t).prev = t.prev ∧ (lowerHead base t).size = t.size := by
  rw [lowerHead]
  split_ifs <;> exact ⟨rfl, rfl, rfl⟩

theorem count_lowerHead (base : Nat) (t : Machine) :
    (lowerHead base t).freePageCount = t.freePageCount := by
  rw [lowerHead]
  split_ifs <;> rfl

theorem Freed.of_update {t : Machine} {l₁ l₂ : List Nat} {x n : Nat} (h : FreeRing s bs)
    (hring : Ring t.next t.prev (l₁ ++ x :: l₂))
    (hhead : (lowerHead base t).freePhysMemoryPointer ∈ l₁ ++ x :: l₂)
    (hx : 4096 ∣ x) (hsz : t.size x = n) (hbd : x + n * 4096 < 2 ^ 32) (hn : 0 < n)
    (hsz' : ∀ q, q ≠ x → t.size q = s.size q) (hsub : ∀ q ∈ l₁ ++ l₂, q ∈ bs)
    (hpages : (Pages.pages 4096 x n ++ freePages s (l₁ ++ l₂)).Perm
      (Pages.pages 4096 base count ++ freePages s bs))
    (hcount : t.freePageCount = s.freePageCount)
    (hkept : Kept (fun q => q ∈ bs ∨ q = base) s t) :
    Freed s bs base count t (l₁ ++ x :: l₂) := by
  have hmem : ∀ q ∈ l₁ ++ x :: l₂, q ≠ x → q ∈ bs := fun q hq hqx => hsub q (by
    simp at hq ⊢
    tauto)
  refine ⟨hring, hhead, fun q hq => ?_, fun q hq => ?_, fun q hq => ?_, ?_, hcount, hkept⟩
  · by_cases hqx : q = x
    · exact hqx ▸ hx
    · exact h.aligned q (hmem q hq hqx)
  · by_cases hqx : q = x
    · rw [hqx, hsz]
      exact hbd
    · rw [hsz' q hqx]
      exact h.bound q (hmem q hq hqx)
  · by_cases hqx : q = x
    · rw [hqx, hsz]
      exact hn
    · rw [hsz' q hqx]
      exact h.pos q (hmem q hq hqx)
  · exact ((freePages_update hring.nodup hsz').trans (by rw [hsz])).trans hpages

theorem RingAt.pointer_le {l₁ l₂ : List Nat} (h : s.RingAt (l₁ ++ b :: l₂)) (hb : b ≤ base)
    (hl : ∀ y ∈ l₁, y ≤ base) : s.freePhysMemoryPointer ≤ base := by
  match l₁ with
  | [] => exact h.1 ▸ hb
  | y :: l₁ => exact h.1 ▸ hl y (by simp)

theorem FreeRing.next_eq {l₁ l₂ : List Nat} {n : Nat} (h : FreeRing s (l₁ ++ b :: n :: l₂)) :
    s.next b = n := by
  have hr := (h.ring (by simp)).rotate
  exact hr.seg.1.1

theorem FreeRing.kept_extendUp (h : FreeRing s bs) (hb : b ∈ bs) :
    Kept (fun q => q ∈ bs ∨ q = base) s ((s.tempMapPage b).extendUp base count b) := by
  have hr := h.ring (List.ne_nil_of_mem hb)
  have hn := hr.next_mem hb
  have hnn := hr.next_mem hn
  refine (Machine.kept_extendUp (h.frame hb) (h.frame hn) (h.frame hnn)).mono ?_
  rintro q (rfl | rfl)
  · exact Or.inl hb
  · exact Or.inl hnn

variable {l₁ l₂ : List Nat}

/-! The links alone: what a branch does to them does not depend on the sizes. -/

/-- The ring after a branch of the loop, and its head after the update behind the loop. -/
structure Relinked (base : Nat) (t : Machine) (m : List Nat) : Prop where
  ring : Ring t.next t.prev m
  head : (lowerHead base t).freePhysMemoryPointer ∈ m

theorem RingAt.pointer_mem (h : s.RingAt bs) (hbs : bs ≠ []) : s.freePhysMemoryPointer ∈ bs := by
  cases bs with
  | nil => exact absurd rfl hbs
  | cons b bs => simp [h.1]

theorem relinked_up (h : s.RingAt (l₁ ++ b :: l₂)) (hb : Frame b)
    (hle : s.freePhysMemoryPointer ≤ base) (hn : s.next b ≠ add32 base (pageShift count)) :
    Relinked base ((s.tempMapPage b).extendUp base count b) (l₁ ++ b :: l₂) := by
  obtain ⟨h1, h2, -⟩ := extendUp_spec hb hn
  refine ⟨?_, ?_⟩
  · rw [h1, h2]
    exact h.ring (by simp)
  · rw [pointer_lowerHead, extendUp_vars.1, pointer_tempMapPage, if_neg (Nat.not_lt.mpr hle)]
    exact h.pointer_mem (by simp)

theorem relinked_absorb {n : Nat} (h : s.RingAt (l₁ ++ b :: n :: l₂))
    (hfr : ∀ y ∈ l₁ ++ b :: n :: l₂, Frame y) (hle : s.freePhysMemoryPointer ≤ base)
    (hlt : base < n) (hn : n = add32 base (pageShift count)) :
    Relinked base ((s.tempMapPage b).extendUp base count b) (l₁ ++ b :: l₂) := by
  have hr : Ring s.next s.prev ((l₁ ++ [b]) ++ n :: l₂) := by simpa using h.ring (by simp)
  have hnext : s.next b = n := (h.ring (by simp)).rotate.seg.1.1
  have hprev : s.prev n = b := by rw [← hnext]; exact hr.prev_next (by simp)
  have hnb : s.next b ≠ b := by
    have hnd := (List.nodup_append.mp (h.ring (by simp)).nodup).2.1
    rw [hnext]
    rintro rfl
    exact (List.nodup_cons.mp hnd).1 (by simp)
  obtain ⟨h1, h2, -⟩ := extendUp_absorb_spec (hfr b (by simp)) (hnext.trans hn) hnb
    (by rw [hnext]; exact hfr n (by simp))
    (hfr _ ((h.ring (by simp)).next_mem ((h.ring (by simp)).next_mem (by simp))))
  rw [hnext] at h1 h2
  have hring : Ring ((s.tempMapPage b).extendUp base count b).next
      ((s.tempMapPage b).extendUp base count b).prev ((l₁ ++ [b]) ++ l₂) :=
    hr.erase_mem (by simp) (by rw [hprev]; exact congrFun h1) (by rw [hprev]; exact congrFun h2)
  refine ⟨by simpa using hring, ?_⟩
  have hm := h.pointer_mem (by simp)
  have hne : s.freePhysMemoryPointer ≠ n := by omega
  rw [pointer_lowerHead, extendUp_vars.1, pointer_tempMapPage, if_neg (Nat.not_lt.mpr hle)]
  simp at hm ⊢
  tauto

theorem relinked_down (h : s.RingAt (l₁ ++ b :: l₂)) (hfr : ∀ y ∈ l₁ ++ b :: l₂, Frame y)
    (hbase : Frame base) (hnew : base ∉ l₁ ++ b :: l₂) (hlt : base < b) (hs : l₁ ++ l₂ ≠ []) :
    Relinked base ((s.tempMapPage b).extendDown base count) (l₁ ++ base :: l₂) := by
  have hr := h.ring (by simp)
  have hbm : b ∈ l₁ ++ b :: l₂ := by simp
  obtain ⟨h1, h2, -⟩ := extendDown_spec count (hfr b hbm) hbase (hfr _ (hr.next_mem hbm))
    (hfr _ (hr.prev_mem hbm))
  refine ⟨hr.replace_mem hs hnew (congrFun h1) (congrFun h2), ?_⟩
  have hp : ((s.tempMapPage b).extendDown base count).freePhysMemoryPointer =
      s.freePhysMemoryPointer := by simp [extendDown]
  rw [pointer_lowerHead, hp]
  split_ifs with hlow
  · simp
  · have hm := h.pointer_mem (by simp)
    have hne : s.freePhysMemoryPointer ≠ b := by omega
    simp at hm ⊢
    tauto

theorem relinked_new (h : s.RingAt (l₁ ++ b :: l₂)) (hfr : ∀ y ∈ l₁ ++ b :: l₂, Frame y)
    (hbase : Frame base) (hnew : base ∉ l₁ ++ b :: l₂) (hs : (l₁ ++ b :: l₂).length ≤ 2) :
    Relinked base ((s.tempMapPage b).insertBlock base count b) (l₁ ++ base :: b :: l₂) := by
  have hr := h.ring (by simp)
  have hbm : b ∈ l₁ ++ b :: l₂ := by simp
  obtain ⟨h1, h2, -⟩ := insertBlock_spec count (hfr b hbm) hbase (hfr _ (hr.next_mem hbm))
  -- the `prev` field is read from `next`; in a ring of two they agree
  rw [hr.next_eq_prev hbm hs] at h1 h2
  refine ⟨hr.insert_mem hnew (congrFun h1) (congrFun h2), ?_⟩
  have hp : ((s.tempMapPage b).insertBlock base count b).freePhysMemoryPointer =
      s.freePhysMemoryPointer := by simp [insertBlock]
  rw [pointer_lowerHead, hp]
  split_ifs with hlow
  · simp
  · have hm := h.pointer_mem (by simp)
    simp at hm ⊢
    tauto

/-! The blocks -/

theorem freed_up (h : FreeRing s (l₁ ++ b :: l₂)) (hf : Freeable s (l₁ ++ b :: l₂) base count)
    (hb : b + s.size b * 4096 = base) (hl : ∀ y ∈ l₁, y ≤ base)
    (hn : s.next b ≠ base + count * 4096) :
    Freed s (l₁ ++ b :: l₂) base count ((s.tempMapPage b).extendUp base count b)
      (l₁ ++ b :: l₂) := by
  have hbm : b ∈ l₁ ++ b :: l₂ := by simp
  have hbd := hf.bound
  have hpos := h.pos b hbm
  have hne : s.next b ≠ add32 base (pageShift count) := by
    rwa [pageShift_eq (by omega), add32_eq hbd]
  obtain ⟨-, -, h3⟩ := extendUp_spec (h.frame hbm) hne
  have hsum : add32 (s.size b) count = s.size b + count := add32_eq (by omega)
  have hlink := relinked_up h.ringAt (h.frame hbm) (h.ringAt.pointer_le (by omega) hl) hne
  refine Freed.of_update (n := s.size b + count) h hlink.ring hlink.head
    (h.aligned b hbm) (by rw [h3, ← hsum]; exact if_pos rfl) (by omega) (by omega)
    (fun q hq => by rw [h3]; exact if_neg hq) (fun q hq => by simp at hq ⊢; tauto) ?_
    extendUp_vars.2.1 (h.kept_extendUp hbm)
  rw [pages_add, hb]
  refine (List.perm_append_comm.append_right _).trans ?_
  rw [List.append_assoc]
  exact (freePages_perm (s := s) List.perm_middle).symm.append_left _

theorem freed_up_absorb {n : Nat} (h : FreeRing s (l₁ ++ b :: n :: l₂))
    (hf : Freeable s (l₁ ++ b :: n :: l₂) base count) (hb : b + s.size b * 4096 = base)
    (hl : ∀ y ∈ l₁, y ≤ base) (hn : n = base + count * 4096) :
    Freed s (l₁ ++ b :: n :: l₂) base count ((s.tempMapPage b).extendUp base count b)
      (l₁ ++ b :: l₂) := by
  have hbm : b ∈ l₁ ++ b :: n :: l₂ := by simp
  have hnm : n ∈ l₁ ++ b :: n :: l₂ := by simp
  have hnext : s.next b = n := h.next_eq
  have hbd := hf.bound
  have hbdn := h.bound n hnm
  have hpos := h.pos b hbm
  have hcount := hf.pos
  have hend' : n = add32 base (pageShift count) := by
    rw [pageShift_eq (by omega), add32_eq hbd, hn]
  obtain ⟨-, -, h3⟩ := extendUp_absorb_spec (h.frame hbm) (hnext.trans hend')
    (by rw [hnext]; omega) (by rw [hnext]; exact h.frame hnm)
    (by rw [hnext]; exact h.frame ((h.ring (by simp)).next_mem hnm))
  rw [hnext] at h3
  have hsum : add32 (add32 (s.size b) count) (s.size n) = s.size b + count + s.size n := by
    rw [add32_eq (a := s.size b) (by omega), add32_eq (by omega)]
  have hend : b + (s.size b + count) * 4096 = n := by rw [Nat.add_mul, ← Nat.add_assoc, hb, hn]
  have hlink := relinked_absorb h.ringAt (fun y hy => h.frame hy) (h.ringAt.pointer_le (by omega) hl)
    (by omega) hend'
  refine Freed.of_update (n := s.size b + count + s.size n) h hlink.ring hlink.head
    (h.aligned b hbm) (by rw [h3, ← hsum]; exact if_pos rfl)
    (by rw [Nat.add_mul, ← Nat.add_assoc, hend]; exact hbdn) (by omega)
    (fun q hq => by rw [h3]; exact if_neg hq) (fun q hq => by simp at hq ⊢; tauto) ?_
    extendUp_vars.2.1 (h.kept_extendUp hbm)
  have hperm : (freePages s (l₁ ++ b :: n :: l₂)).Perm
      (pages 4096 b (s.size b) ++ (pages 4096 n (s.size n) ++ freePages s (l₁ ++ l₂))) :=
    (freePages_perm (s := s) List.perm_middle).trans
      ((freePages_perm (s := s) List.perm_middle).append_left _)
  rw [pages_add, pages_add, hb, hend]
  refine List.perm_iff_count.mpr fun x => ?_
  simp only [List.count_append, hperm.count_eq]
  omega

theorem freed_down (h : FreeRing s (l₁ ++ b :: l₂)) (hf : Freeable s (l₁ ++ b :: l₂) base count)
    (hb : base + count * 4096 = b) (hs : l₁ ++ l₂ ≠ []) :
    Freed s (l₁ ++ b :: l₂) base count ((s.tempMapPage b).extendDown base count)
      (l₁ ++ base :: l₂) := by
  have hbm : b ∈ l₁ ++ b :: l₂ := by simp
  have hr := h.ring (by simp)
  obtain ⟨-, -, h3⟩ := extendDown_spec count (h.frame hbm) hf.frame
    (h.frame (hr.next_mem hbm)) (h.frame (hr.prev_mem hbm))
  have hbd := h.bound b hbm
  have hpos := hf.pos
  have hsum : add32 count (s.size b) = count + s.size b := add32_eq (by omega)
  have hlink : Relinked base ((s.tempMapPage b).extendDown base count) (l₁ ++ base :: l₂) :=
    relinked_down h.ringAt (fun y hy => h.frame hy) hf.frame (hf.not_mem h) (by omega) hs
  refine Freed.of_update (n := count + s.size b) h hlink.ring hlink.head hf.aligned
    (by rw [h3, ← hsum]; exact if_pos rfl) (by omega) (by omega)
    (fun q hq => by rw [h3]; exact if_neg hq) (fun q hq => by simp at hq ⊢; tauto) ?_
    (by simp [extendDown]) ?_
  · rw [pages_add, hb, List.append_assoc]
    exact (freePages_perm (s := s) List.perm_middle).symm.append_left _
  · refine (kept_extendDown (h.frame hbm) hf.frame (h.frame (hr.next_mem hbm))
      (h.frame (hr.prev_mem hbm))).mono ?_
    rintro q (rfl | rfl | rfl)
    · exact Or.inl (hr.next_mem hbm)
    · exact Or.inl (hr.prev_mem hbm)
    · exact Or.inr rfl

theorem FreeRing.kept_insertBlock (h : FreeRing s bs) (hf : Freeable s bs base count)
    (hb : b ∈ bs) : Kept (fun q => q ∈ bs ∨ q = base) s
      ((s.tempMapPage b).insertBlock base count b) := by
  have hr := h.ring (List.ne_nil_of_mem hb)
  have hn := hr.next_mem hb
  refine (Machine.kept_insertBlock (h.frame hb) hf.frame (h.frame hn)).mono ?_
  rintro q (rfl | rfl | rfl)
  · exact Or.inl hb
  · exact Or.inl hn
  · exact Or.inr rfl

theorem freed_new (h : FreeRing s (l₁ ++ b :: l₂)) (hf : Freeable s (l₁ ++ b :: l₂) base count)
    (hs : (l₁ ++ b :: l₂).length ≤ 2) :
    Freed s (l₁ ++ b :: l₂) base count ((s.tempMapPage b).insertBlock base count b)
      (l₁ ++ base :: b :: l₂) := by
  have hbm : b ∈ l₁ ++ b :: l₂ := by simp
  obtain ⟨-, -, h3⟩ := insertBlock_spec count (h.frame hbm) hf.frame
    (h.frame ((h.ring (by simp)).next_mem hbm))
  have hlink : Relinked base ((s.tempMapPage b).insertBlock base count b) (l₁ ++ base :: b :: l₂) :=
    relinked_new h.ringAt (fun y hy => h.frame hy) hf.frame (hf.not_mem h) hs
  exact Freed.of_update (n := count) h hlink.ring hlink.head hf.aligned
    (by rw [h3]; exact if_pos rfl) hf.bound hf.pos (fun q hq => by rw [h3]; exact if_neg hq)
    (fun q hq => hq) (List.Perm.refl _) (by simp [insertBlock]) (h.kept_insertBlock hf hbm)

theorem freeAction_spec {c : FreeCase} (h : FreeRing s bs) (hf : Freeable s bs base count)
    (hc : freeCase s.size base count bs = some c) (hs : c.Safe bs) :
    ∃ m, Freed s bs base count (freeAction base count s c) m := by
  obtain ⟨b, l₁, l₂, rfl, hl, ⟨rfl, hb⟩ | ⟨rfl, hb⟩ | rfl⟩ := freeCase_cases hc
  · have hcount := hf.pos
    by_cases hn : s.next b = base + count * 4096
    · match l₂ with
      | [] =>
        have hr := h.ring (by simp)
        have hle : s.freePhysMemoryPointer ≤ base := h.ringAt.pointer_le (by omega) hl
        have hp : s.next b = s.freePhysMemoryPointer := by
          match l₁ with
          | [] => rw [h.ringAt.1]; exact (ring_singleton.mp hr).1
          | y :: l₁ => rw [h.ringAt.1]; exact (hr.rotate (m := [b])).seg.1.1
        omega
      | n :: l₂ => exact ⟨_, freed_up_absorb h hf hb hl (h.next_eq.symm.trans hn)⟩
    · exact ⟨_, freed_up h hf hb hl hn⟩
  · refine ⟨_, freed_down h hf hb fun e => ?_⟩
    obtain ⟨rfl, rfl⟩ := List.append_eq_nil_iff.mp e
    simp [FreeCase.Safe] at hs
  · exact ⟨_, freed_new h hf hs⟩

theorem Freed.freeRing {t : Machine} {m : List Nat} (h : FreeRing s bs)
    (hnd : (freePages s bs).Nodup) (hf : Freeable s bs base count)
    (ht : Freed s bs base count t m) :
    ∃ bs', FreeRing { lowerHead base t with
        freePageCount := add32 (lowerHead base t).freePageCount count, physMemoryMutex := false }
        bs' ∧ (freePages t bs').Perm (Pages.pages 4096 base count ++ freePages s bs) := by
  obtain ⟨l₁, l₂, rfl, hr⟩ := ht.ring.exists_cons ht.head
  set x := (lowerHead base t).freePhysMemoryPointer with hx
  have hp : (x :: (l₂ ++ l₁)).Perm (l₁ ++ x :: l₂) :=
    (List.perm_append_comm.cons x).trans List.perm_middle.symm
  have hmem : ∀ q ∈ x :: (l₂ ++ l₁), q ∈ l₁ ++ x :: l₂ := fun q hq => hp.mem_iff.mp hq
  have hcount : (lowerHead base t).freePageCount = s.freePageCount :=
    (count_lowerHead base t).trans ht.freePageCount
  obtain ⟨hn, hpv, hsz⟩ := headers_lowerHead base t
  have hpages := (freePages_perm (s := t) hp).trans ht.pages
  refine ⟨x :: (l₂ ++ l₁), FreeRing.setVars (s := lowerHead base t) ?_
    (fun q hq => ht.aligned q (hmem q hq)) (fun q hq => ?_) (fun q hq => ?_) ?_, hpages⟩
  · exact ⟨rfl, by rw [hn, hpv]; exact hr⟩
  · rw [hsz]
    exact ht.bound q (hmem q hq)
  · rw [hsz]
    exact ht.pos q (hmem q hq)
  · have hlen := hpages.length_eq
    have hle := h.count_le hnd
    have hbd := hf.bound
    rw [List.length_append, length_pages, length_freePages, length_freePages, ← h.count] at hlen
    rw [hsz, hlen, hcount, Nat.add_comm, add32_eq (by omega)]

theorem freeLocked_first (fuel : Nat) (h : FreeRing s []) (hf : Freeable s [] base count) :
    freeLocked fuel base count s = some (s.firstBlock base count) ∧
      FreeRing { s.firstBlock base count with
        freePageCount := add32 (s.firstBlock base count).freePageCount count,
        physMemoryMutex := false } [base] := by
  obtain ⟨h1, h2, h3⟩ := firstBlock_spec (s := s) count hf.frame
  have hbd := hf.bound
  have hcount : (s.firstBlock base count).freePageCount = 0 := by
    have hs : s.freePageCount = 0 := h.count
    exact hs
  refine ⟨if_pos (h.pointer_eq_NIL.mpr rfl), FreeRing.setVars (s := s.firstBlock base count)
    ⟨rfl, ring_singleton.mpr ⟨h1, h2⟩⟩ ?_ ?_ ?_ ?_⟩
  · simpa using hf.aligned
  · simpa [h3] using hbd
  · simpa [h3] using Nat.lt_of_lt_of_le Nat.zero_lt_one hf.pos
  · rw [hcount, add32_eq (by omega)]
    simp [h3]

theorem kept_lowerHead (P : Nat → Prop) (base : Nat) (t : Machine) : Kept P t (lowerHead base t) := by
  unfold lowerHead
  split_ifs <;> exact ⟨rfl, fun _ _ _ _ => rfl⟩

theorem freeLocked_spec (h : FreeRing s bs) (hf : Freeable s bs base count)
    (hs : ∀ c, freeCase s.size base count bs = some c → c.Safe bs) (hfu : bs.length ≤ fuel) :
    ∃ t bs', freeLocked fuel base count s = some t ∧
      FreeRing { t with freePageCount := add32 t.freePageCount count, physMemoryMutex := false }
        bs' ∧ (freePages t bs').Perm (pages 4096 base count ++ freePages s bs) ∧
      Kept (fun q => q ∈ bs ∨ q = base) s t := by
  cases bs with
  | nil =>
    obtain ⟨h1, h2⟩ := freeLocked_first fuel h hf
    refine ⟨_, [base], h1, h2, ?_, (kept_firstBlock hf.frame).mono fun q hq => Or.inr hq⟩
    simp [freePages, (firstBlock_spec (s := s) count hf.frame).2.2]
  | cons b l =>
    obtain ⟨c, hc⟩ := freeCase_isSome s.size base count (List.cons_ne_nil b l)
    obtain ⟨m, hm⟩ := freeAction_spec h hf hc (hs c hc)
    obtain ⟨bs', h1, h2⟩ := hm.freeRing h (List.nodup_append.mp hf.nodup).2.1 hf
    have hp : s.freePhysMemoryPointer = b := h.ringAt.1
    have hloop : freeLoop base count fuel b s = _ := freeLoop_eq h.ringAt.2.seg hp (List.nodup_cons.mp h.nodup).1
      (fun y hy => h.frame hy) (fun y hy => plainTests (h.bound y hy) hf.bound) hc hfu
    have hsz := (headers_lowerHead base (freeAction base count s c)).2.2
    refine ⟨lowerHead base (freeAction base count s c), bs', ?_, h1, ?_,
      hm.kept.trans (kept_lowerHead _ _ _)⟩
    · rw [freeLocked, if_neg fun e => by simpa using h.pointer_eq_NIL.mp e, hp, hloop]
      rfl
    · rw [freePages_congr fun x _ => congrFun hsz x]
      exact h2

/-- **Through a safe branch `free_phys_pages` adds exactly the freed pages to the ring.** -/
theorem freePhysPages_spec (h : FreeRing s bs) (hm : s.physMemoryMutex = false)
    (hf : Freeable s bs base count)
    (hs : ∀ c, freeCase s.size base count bs = some c → c.Safe bs) (hfu : bs.length ≤ fuel) :
    ∃ s' bs', freePhysPages fuel base count s = some s' ∧ s'.physMemoryMutex = false ∧
      FreeRing s' bs' ∧ (freePages s' bs').Perm (pages 4096 base count ++ freePages s bs) ∧
      Kept (fun q => q ∈ bs ∨ q = base) s s' := by
  obtain ⟨t, bs', h1, h2, h3, hk⟩ := freeLocked_spec (h.setMutex true)
    ⟨hf.aligned, hf.bound, hf.pos, hf.nodup⟩ hs hfu
  refine ⟨_, bs', ?_, rfl, h2, h3,
    (((Kept.refl _ s).setVars _ _ true).trans hk).setVars _ _ false⟩
  rw [freePhysPages, mutexGetPhys, hm]
  change (freeLocked fuel base count _).map _ = _
  rw [h1]
  rfl

end Machine

end C4os
