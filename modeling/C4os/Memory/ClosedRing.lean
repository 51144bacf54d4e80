import C4os.Memory.PhysRun

/-!
# The ring of free blocks while memory is handed over

* `ClosedRing s bs`: the free list is a ring of the blocks `bs`, which may overlap and may be empty;
  page `0` is none of them.
* **`ClosedRing.free`**: through a safe branch `free_phys_pages` returns, and the free list is such a
  ring again.
-/

namespace C4os

open Linked

namespace Machine

variable {s : Machine} {bs l₁ l₂ : List Nat} {b base count fuel x : Nat}

/-- The free list is a ring of blocks that end inside memory. -/
structure ClosedRing (s : Machine) (bs : List Nat) : Prop where
  ringAt : s.RingAt bs
  frame : ∀ b ∈ bs, Frame b
  zero : 0 ∉ bs
  bound : ∀ b ∈ bs, b + s.size b * 4096 ≤ 2 ^ 32

/-- A block that comes onto the free list for the first time. -/
structure Fresh (bs : List Nat) (base count : Nat) : Prop where
  frame : Frame base
  ne_zero : base ≠ 0
  bound : base + count * 4096 ≤ 2 ^ 32
  not_mem : base ∉ bs

/-- The end of a block is compared with an address as if the addition did not wrap: the end of
memory, which wraps to `0`, is no block. -/
theorem end_eq_iff {n : Nat} (hb : b + n * 4096 ≤ 2 ^ 32) (hx : x ≠ 0) (hlt : x < 2 ^ 32) :
    add32 b (pageShift n) = x ↔ b + n * 4096 = x := by
  unfold add32 pageShift
  rw [Nat.shiftLeft_eq]
  omega

theorem ClosedRing.plainTests (h : ClosedRing s bs) (hf : Fresh bs base count) (hb : b ∈ bs) :
    PlainTests s.size base count b := by
  have h0 : b ≠ 0 := fun e => h.zero (e ▸ hb)
  exact ⟨end_eq_iff (h.bound b hb) hf.ne_zero hf.frame.2,
    end_eq_iff hf.bound h0 (h.frame b hb).2⟩

/-- What a branch leaves: a ring of old blocks and `base`, with the block sizes in bounds. -/
structure Added (s : Machine) (bs : List Nat) (base : Nat) (t : Machine) (m : List Nat) : Prop where
  linked : Relinked base t m
  sub : ∀ q ∈ m, q = base ∨ q ∈ bs
  bound : ∀ q ∈ m, q + t.size q * 4096 ≤ 2 ^ 32

theorem ClosedRing.up (h : ClosedRing s (l₁ ++ b :: l₂)) (hf : Fresh (l₁ ++ b :: l₂) base count)
    (hb : b + s.size b * 4096 = base) (hl : ∀ y ∈ l₁, y ≤ base)
    (hn : s.next b ≠ add32 base (pageShift count)) :
    Added s (l₁ ++ b :: l₂) base ((s.tempMapPage b).extendUp base count b) (l₁ ++ b :: l₂) := by
  have hbm : b ∈ l₁ ++ b :: l₂ := by simp
  have hbd := hf.bound
  obtain ⟨-, -, h3⟩ := extendUp_spec (h.frame b hbm) hn
  have hsum : add32 (s.size b) count = s.size b + count := add32_eq (by omega)
  refine ⟨relinked_up h.ringAt (h.frame b hbm) (h.ringAt.pointer_le (by omega) hl) hn,
    fun q hq => Or.inr hq, fun q hq => ?_⟩
  rw [h3]
  dsimp only
  split_ifs with he
  · rw [hsum, he]
    omega
  · exact h.bound q hq

theorem ClosedRing.absorb {n : Nat} (h : ClosedRing s (l₁ ++ b :: n :: l₂))
    (hf : Fresh (l₁ ++ b :: n :: l₂) base count) (hb : b + s.size b * 4096 = base)
    (hl : ∀ y ∈ l₁, y ≤ base) (hn : base + count * 4096 = n) :
    Added s (l₁ ++ b :: n :: l₂) base ((s.tempMapPage b).extendUp base count b)
      (l₁ ++ b :: l₂) := by
  have hbm : b ∈ l₁ ++ b :: n :: l₂ := by simp
  have hnm : n ∈ l₁ ++ b :: n :: l₂ := by simp
  have hr := h.ringAt.ring (by simp)
  have hnext : s.next b = n := hr.rotate.seg.1.1
  have hlt := (h.frame n hnm).2
  have hend : n = add32 base (pageShift count) := by
    rw [pageShift_eq (by omega), add32_eq (by omega), hn]
  have hne : n ≠ base := fun e => hf.not_mem (e ▸ hnm)
  obtain ⟨-, -, h3⟩ := extendUp_absorb_spec (h.frame b hbm) (hnext.trans hend)
    (by rw [hnext]; omega) (by rw [hnext]; exact h.frame n hnm)
    (h.frame _ (hr.next_mem (hr.next_mem hbm)))
  rw [hnext] at h3
  have hbdn := h.bound n hnm
  have hsum : add32 (add32 (s.size b) count) (s.size n) = s.size b + count + s.size n := by
    rw [add32_eq (a := s.size b) (by omega), add32_eq (by omega)]
  refine ⟨relinked_absorb h.ringAt h.frame (h.ringAt.pointer_le (by omega) hl) (by omega) hend,
    fun q hq => Or.inr (by simp at hq ⊢; tauto), fun q hq => ?_⟩
  rw [h3]
  dsimp only
  split_ifs with he
  · rw [hsum, he]
    omega
  · exact h.bound q (by simp at hq ⊢; tauto)

theorem ClosedRing.down (h : ClosedRing s (l₁ ++ b :: l₂)) (hf : Fresh (l₁ ++ b :: l₂) base count)
    (hb : base + count * 4096 = b) (hs : l₁ ++ l₂ ≠ []) :
    Added s (l₁ ++ b :: l₂) base ((s.tempMapPage b).extendDown base count) (l₁ ++ base :: l₂) := by
  have hbm : b ∈ l₁ ++ b :: l₂ := by simp
  have hr := h.ringAt.ring (by simp)
  have hne : b ≠ base := fun e => hf.not_mem (e ▸ hbm)
  obtain ⟨-, -, h3⟩ := extendDown_spec count (h.frame b hbm) hf.frame
    (h.frame _ (hr.next_mem hbm)) (h.frame _ (hr.prev_mem hbm))
  have hbd := h.bound b hbm
  have hsum : add32 count (s.size b) = count + s.size b := add32_eq (by omega)
  refine ⟨relinked_down h.ringAt h.frame hf.frame hf.not_mem (by omega) hs,
    fun q hq => by simp at hq ⊢; tauto, fun q hq => ?_⟩
  rw [h3]
  dsimp only
  split_ifs with he
  · rw [hsum, he]
    omega
  · exact h.bound q (by simp at hq ⊢; tauto)

theorem ClosedRing.new (h : ClosedRing s (l₁ ++ b :: l₂)) (hf : Fresh (l₁ ++ b :: l₂) base count)
    (hs : (l₁ ++ b :: l₂).length ≤ 2) :
    Added s (l₁ ++ b :: l₂) base ((s.tempMapPage b).insertBlock base count b)
      (l₁ ++ base :: b :: l₂) := by
  have hbm : b ∈ l₁ ++ b :: l₂ := by simp
  obtain ⟨-, -, h3⟩ := insertBlock_spec count (h.frame b hbm) hf.frame
    (h.frame _ ((h.ringAt.ring (by simp)).next_mem hbm))
  refine ⟨relinked_new h.ringAt h.frame hf.frame hf.not_mem hs,
    fun q hq => by simp at hq ⊢; tauto, fun q hq => ?_⟩
  rw [h3]
  dsimp only
  split_ifs with he
  · rw [he]
    exact hf.bound
  · exact h.bound q (by simp at hq ⊢; tauto)

theorem ClosedRing.action {c : FreeCase} (h : ClosedRing s bs) (hf : Fresh bs base count)
    (hc : freeCase s.size base count bs = some c) (hs : c.Safe bs) :
    ∃ m, Added s bs base (freeAction base count s c) m := by
  obtain ⟨b, l₁, l₂, rfl, hl, ⟨rfl, hb⟩ | ⟨rfl, hb⟩ | rfl⟩ := freeCase_cases hc
  · by_cases hn : s.next b = add32 base (pageShift count)
    · have hr := h.ringAt.ring (by simp)
      have hnm : s.next b ∈ l₁ ++ b :: l₂ := hr.next_mem (by simp)
      have hn0 : s.next b ≠ 0 := fun e => h.zero (e ▸ hnm)
      have hend : base + count * 4096 = s.next b :=
        (end_eq_iff hf.bound hn0 (h.frame _ hnm).2).mp hn.symm
      match l₂ with
      | [] =>
        -- the next block is the head, which lies below the range
        have hle : s.freePhysMemoryPointer ≤ base := h.ringAt.pointer_le (by omega) hl
        have hp : s.next b = s.freePhysMemoryPointer := by
          match l₁ with
          | [] => rw [h.ringAt.1]; exact (ring_singleton.mp hr).1
          | y :: l₁ => rw [h.ringAt.1]; exact (hr.rotate (m := [b])).seg.1.1
        have hbase : s.next b = base := by omega
        exact absurd (hbase ▸ hnm) hf.not_mem
      | n :: l₂ =>
        exact ⟨_, h.absorb hf hb hl (hend.trans hr.rotate.seg.1.1)⟩
    · exact ⟨_, h.up hf hb hl hn⟩
  · refine ⟨_, h.down hf hb fun e => ?_⟩
    obtain ⟨rfl, rfl⟩ := List.append_eq_nil_iff.mp e
    simp [FreeCase.Safe] at hs
  · exact ⟨_, h.new hf hs⟩

theorem Added.closedRing {t : Machine} {m : List Nat} (ha : Added s bs base t m)
    (h : ClosedRing s bs) (hf : Fresh bs base count) (n : Nat) :
    ∃ bs', ClosedRing { lowerHead base t with freePageCount := n, physMemoryMutex := false } bs' ∧
      ∀ q ∈ bs', q = base ∨ q ∈ bs := by
  obtain ⟨l₁, l₂, rfl, hr⟩ := ha.linked.ring.exists_cons ha.linked.head
  obtain ⟨hn, hpv, hsz⟩ := headers_lowerHead base t
  set x := (lowerHead base t).freePhysMemoryPointer with hx
  have hmem : ∀ q ∈ x :: (l₂ ++ l₁), q ∈ l₁ ++ x :: l₂ := by
    intro q hq
    simp at hq ⊢
    tauto
  refine ⟨x :: (l₂ ++ l₁), ⟨⟨rfl, ?_⟩, fun q hq => ?_, fun h0 => ?_, fun q hq => ?_⟩,
    fun q hq => ha.sub q (hmem q hq)⟩
  · show Ring (lowerHead base t).next (lowerHead base t).prev _
    rw [hn, hpv]
    exact hr
  · exact (ha.sub q (hmem q hq)).elim (fun e => e ▸ hf.frame) (h.frame q)
  · exact (ha.sub 0 (hmem 0 h0)).elim (fun e => hf.ne_zero e.symm) h.zero
  · show q + (lowerHead base t).size q * 4096 ≤ 2 ^ 32
    rw [hsz]
    exact ha.bound q (hmem q hq)

theorem ClosedRing.setMutex (h : ClosedRing s bs) (m : Bool) :
    ClosedRing { s with physMemoryMutex := m } bs :=
  ⟨h.ringAt.congr rfl rfl rfl, h.frame, h.zero, h.bound⟩

theorem ClosedRing.pointer_eq_NIL (h : ClosedRing s bs) :
    s.freePhysMemoryPointer = NIL ↔ bs = [] :=
  h.ringAt.pointer_eq_NIL fun b hb => (h.frame b hb).1

theorem ClosedRing.freeLocked (h : ClosedRing s bs) (hf : Fresh bs base count)
    (hs : ∀ c, freeCase s.size base count bs = some c → c.Safe bs) (hfu : bs.length ≤ fuel)
    (n : Machine → Nat) : ∃ t bs', freeLocked fuel base count s = some t ∧
      ClosedRing { t with freePageCount := n t, physMemoryMutex := false } bs' ∧
      ∀ q ∈ bs', q = base ∨ q ∈ bs := by
  cases bs with
  | nil =>
    obtain ⟨h1, h2, h3⟩ := firstBlock_spec (s := s) count hf.frame
    refine ⟨s.firstBlock base count, [base], if_pos (h.pointer_eq_NIL.mpr rfl),
      ⟨⟨rfl, ring_singleton.mpr ⟨h1, h2⟩⟩, ?_, ?_, ?_⟩, fun q hq => Or.inl (by simpa using hq)⟩
    · simpa using hf.frame
    · simpa using hf.ne_zero.symm
    · intro q hq
      obtain rfl := List.mem_singleton.mp hq
      show q + (s.firstBlock q count).size q * 4096 ≤ 2 ^ 32
      rw [h3]
      exact hf.bound
  | cons b l =>
    obtain ⟨c, hc⟩ := freeCase_isSome s.size base count (List.cons_ne_nil b l)
    obtain ⟨m, hm⟩ := h.action hf hc (hs c hc)
    have hp : s.freePhysMemoryPointer = b := h.ringAt.1
    have hloop : freeLoop base count fuel b s = _ := freeLoop_eq h.ringAt.2.seg hp
      (List.nodup_cons.mp h.ringAt.2.nodup).1 h.frame (fun y hy => h.plainTests hf hy) hc hfu
    obtain ⟨bs', h1, h2⟩ := hm.closedRing h hf
      (n (lowerHead base (freeAction base count s c)))
    refine ⟨lowerHead base (freeAction base count s c), bs', ?_, h1, h2⟩
    rw [Machine.freeLocked, if_neg fun e => by simpa using h.pointer_eq_NIL.mp e, hp, hloop]
    rfl

/-- **Through a safe branch `free_phys_pages` returns**, and adds at most the block at `base`. -/
theorem ClosedRing.free (h : ClosedRing s bs) (hm : s.physMemoryMutex = false)
    (hf : Fresh bs base count) (hs : s.SafeFree ⟨base, count⟩) (hfu : bs.length ≤ fuel) :
    ∃ s' bs', freePhysPages fuel base count s = some s' ∧ s'.physMemoryMutex = false ∧
      ClosedRing s' bs' ∧ (∀ q ∈ bs', q = base ∨ q ∈ bs) ∧ bs'.length ≤ bs.length + 1 := by
  have hsafe : ∀ c, freeCase s.size base count bs = some c → c.Safe bs := by
    intro c hc
    refine hs (fun e => ?_) bs c h.ringAt hc
    rw [h.pointer_eq_NIL.mp e] at hc
    simp [freeCase] at hc
  obtain ⟨t, bs', ht, hr, hsub⟩ := (h.setMutex true).freeLocked hf hsafe hfu
    fun t => add32 t.freePageCount count
  have hnd : bs'.Nodup := by
    cases bs' with
    | nil => exact List.nodup_nil
    | cons b l => exact hr.ringAt.2.nodup
  refine ⟨_, bs', ?_, rfl, hr, hsub, ?_⟩
  · rw [freePhysPages, mutexGetPhys, hm]
    change (Machine.freeLocked fuel base count _).map _ = _
    rw [ht]
    rfl
  · have hle := (hnd.subperm fun q hq => List.mem_cons.mpr (hsub q hq)).length_le
    rwa [List.length_cons] at hle

end Machine

end C4os
