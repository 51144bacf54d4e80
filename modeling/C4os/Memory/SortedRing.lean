import C4os.Memory.PhysSpec

/-!
# The sorted ring of free blocks

* `SortedRing s bs`: the free list is a ring of blocks of whole pages that do not overlap, in
  ascending order from `free_phys_memory_pointer`.
* `FirstFit`, `NoFit`: an allocation takes its pages from the first block that has so many, or
  changes nothing; **`allocPhysPages_firstFit`**.
-/

namespace C4os

open Linked Pages

namespace Machine

/-- The free list is a ring in ascending order, and counts its pages. -/
structure SortedRing (s : Machine) (bs : List Nat) : Prop where
  ringAt : s.RingAt bs
  aligned : ∀ b ∈ bs, 4096 ∣ b
  bound : ∀ b ∈ bs, b + s.size b * 4096 ≤ 2 ^ 32
  pos : ∀ b ∈ bs, 0 < s.size b
  ascending : bs.Pairwise fun a b => a + s.size a * 4096 ≤ b
  count : s.freePageCount = (bs.map s.size).sum

variable {s : Machine} {bs : List Nat} {b count fuel : Nat}

theorem SortedRing.frame (h : SortedRing s bs) (hb : b ∈ bs) : Frame b := by
  have h1 := h.bound b hb
  have h2 := h.pos b hb
  exact ⟨h.aligned b hb, by omega⟩

theorem SortedRing.lt (h : SortedRing s bs) : bs.Pairwise (· < ·) := by
  refine h.ascending.imp_of_mem fun ha _ hab => ?_
  have := h.pos _ ha
  omega

theorem SortedRing.nodup (h : SortedRing s bs) : bs.Nodup := h.lt.imp Nat.ne_of_lt

theorem SortedRing.nodup_freePages (h : SortedRing s bs) : (freePages s bs).Nodup := by
  refine List.nodup_flatMap.mpr ⟨fun b _ => nodup_pages (by decide), h.ascending.imp ?_⟩
  intro a b hab x hxa hxb
  have h1 := lt_of_mem_pages hxa
  have h2 := lt_of_mem_pages hxb
  omega

theorem SortedRing.count_le (h : SortedRing s bs) : s.freePageCount ≤ 2 ^ 20 := by
  rw [h.count, ← length_freePages]
  refine length_le_of_nodup (s := 4096) h.nodup_freePages fun x hx => ?_
  obtain ⟨b, hb, hx⟩ := List.mem_flatMap.mp hx
  have h1 := lt_of_mem_pages hx
  have h2 := h.bound b hb
  exact ⟨dvd_of_mem_pages (h.aligned b hb) hx, by omega⟩

theorem SortedRing.pointer_eq_NIL (h : SortedRing s bs) :
    s.freePhysMemoryPointer = NIL ↔ bs = [] := by
  cases bs with
  | nil => exact iff_of_true h.ringAt rfl
  | cons b bs =>
    have hb := h.aligned b (by simp)
    have hp : s.freePhysMemoryPointer = b := h.ringAt.1
    refine iff_of_false (fun e => ?_) (by simp)
    rw [hp] at e
    subst e
    exact absurd hb (by decide)

theorem SortedRing.setMutex (h : SortedRing s bs) (m : Bool) :
    SortedRing { s with physMemoryMutex := m } bs :=
  ⟨h.ringAt.congr rfl rfl rfl, h.aligned, h.bound, h.pos, h.ascending, h.count⟩

theorem SortedRing.setVars {n : Nat} {m : Bool} (hr : s.RingAt bs) (ha : ∀ b ∈ bs, 4096 ∣ b)
    (hb : ∀ b ∈ bs, b + s.size b * 4096 ≤ 2 ^ 32) (hp : ∀ b ∈ bs, 0 < s.size b)
    (hs : bs.Pairwise fun a b => a + s.size a * 4096 ≤ b) (hn : n = (bs.map s.size).sum) :
    SortedRing { s with freePageCount := n, physMemoryMutex := m } bs :=
  ⟨hr.congr rfl rfl rfl, ha, hb, hp, hs, hn⟩

theorem freePages_setVars (s : Machine) (bs : List Nat) (n : Nat) (m : Bool) :
    freePages { s with freePageCount := n, physMemoryMutex := m } bs = freePages s bs := rfl

theorem SortedRing.size_le_count (h : SortedRing s bs) (hb : b ∈ bs) :
    s.size b ≤ s.freePageCount := by
  obtain ⟨l₁, l₂, rfl⟩ := List.append_of_mem hb
  rw [h.count, List.map_append, List.sum_append, List.map_cons, List.sum_cons]
  omega

/-! ## `alloc_phys_pages` -/

/-- What is left of the ring when `count` pages from `r` on were taken off it. -/
structure Cut (s : Machine) (bs : List Nat) (count r : Nat) (t : Machine) (bs' : List Nat) :
    Prop where
  ringAt : t.RingAt bs'
  sublist : bs'.Sublist bs
  pos : ∀ c ∈ bs', 0 < t.size c
  size_le : ∀ c ∈ bs', t.size c ≤ s.size c
  pages : (freePages s bs).Perm (pages 4096 r count ++ freePages t bs')
  freePageCount : t.freePageCount = s.freePageCount

theorem SortedRing.cut_exact (h : SortedRing s bs) (hb : b ∈ bs) :
    ∃ bs', Cut s bs (s.size b) b ((s.tempMapPage b).unlinkBlock b) bs' := by
  obtain ⟨l₁, l₂, rfl⟩ := List.append_of_mem hb
  have hr := h.ringAt.ring (by simp)
  obtain ⟨-, -, hsize, hcount, -, -⟩ := unlinkBlock_spec (h.frame hb) (h.frame (hr.next_mem hb))
    (h.frame (hr.prev_mem hb))
  have hsub : (l₁ ++ l₂).Sublist (l₁ ++ b :: l₂) :=
    (List.Sublist.refl l₁).append (List.sublist_cons_self b l₂)
  refine ⟨l₁ ++ l₂, ringAt_unlinkBlock h.ringAt fun y hy => h.frame hy, hsub, fun c hc => ?_,
    fun c _ => ?_, ?_, hcount⟩
  · rw [hsize]
    exact h.pos c (hsub.subset hc)
  · rw [hsize]
  · rw [freePages_congr (s := s) fun c _ => congrFun hsize c]
    exact freePages_perm (s := s) List.perm_middle

theorem SortedRing.cut_split (h : SortedRing s bs) (hb : b ∈ bs) (hlt : count < s.size b)
    (hsub : sub32 (s.size b) count = s.size b - count) :
    Cut s bs count (b + (s.size b - count) * 4096) ((s.tempMapPage b).splitBlock count) bs := by
  obtain ⟨l₁, l₂, rfl⟩ := List.append_of_mem hb
  obtain ⟨hn, hp, hsize, -⟩ := splitBlock_spec (s := s) count (h.frame hb)
  rw [hsub] at hsize
  have hsb : ((s.tempMapPage b).splitBlock count).size b = s.size b - count := by
    rw [hsize]
    exact if_pos rfl
  have hne : ∀ q, q ≠ b → ((s.tempMapPage b).splitBlock count).size q = s.size q := by
    intro q hq
    rw [hsize]
    exact if_neg hq
  refine ⟨h.ringAt.congr hn hp (by simp [splitBlock]), List.Sublist.refl _, fun c hc => ?_,
    fun c _ => ?_, freePages_split h.nodup hlt hsb hne, by simp [splitBlock]⟩
  all_goals by_cases he : c = b
  · rw [he, hsb]
    omega
  · rw [hne c he]
    exact h.pos c hc
  · rw [he, hsb]
    exact Nat.sub_le _ _
  · rw [hne c he]

theorem SortedRing.takeFrom_cut (h : SortedRing s bs) (hb : b ∈ bs) (hc : 1 ≤ count)
    (hle : count ≤ s.size b) : (takeFrom count b s).1 = b + (s.size b - count) * 4096 ∧
      ∃ bs', Cut s bs count (takeFrom count b s).1 (takeFrom count b s).2 bs' := by
  unfold takeFrom
  by_cases he : s.size b = count
  · rw [if_pos he, he, Nat.sub_self, Nat.zero_mul, Nat.add_zero]
    refine ⟨rfl, ?_⟩
    rw [← he]
    exact h.cut_exact hb
  · have hlt : count < s.size b := Nat.lt_of_le_of_ne hle (Ne.symm he)
    obtain ⟨hsub, haddr⟩ := splitBlock_addr (h.bound b hb) hc hlt
    rw [if_neg he]
    dsimp only
    rw [haddr]
    exact ⟨rfl, bs, h.cut_split hb hlt hsub⟩

theorem Cut.sortedRing {t : Machine} {bs' : List Nat} {r : Nat} (ht : Cut s bs count r t bs')
    (h : SortedRing s bs) : s.freePageCount = sub32 t.freePageCount count + count ∧
      SortedRing { t with freePageCount := sub32 t.freePageCount count, physMemoryMutex := false }
        bs' := by
  have hlen := ht.pages.length_eq
  have hle := h.count_le
  rw [List.length_append, length_pages, length_freePages, length_freePages, ← h.count] at hlen
  have hsub : sub32 t.freePageCount count = s.freePageCount - count := by
    rw [ht.freePageCount]
    exact sub32_eq (by omega) (by omega)
  have hend : ∀ c ∈ bs', c + t.size c * 4096 ≤ c + s.size c * 4096 := by
    intro c hc
    have := ht.size_le c hc
    omega
  refine ⟨by omega, .setVars ht.ringAt (fun c hc => h.aligned c (ht.sublist.subset hc))
    (fun c hc => ?_) ht.pos ?_ (by omega)⟩
  · exact (hend c hc).trans (h.bound c (ht.sublist.subset hc))
  · exact (h.ascending.sublist ht.sublist).imp_of_mem fun hc _ hab => (hend _ hc).trans hab

/-- The call took `count` pages from `r` on from the first block that has so many. -/
structure FirstFit (s : Machine) (bs : List Nat) (count r : Nat) (s' : Machine) : Prop where
  first : ∃ b, bs.find? (fun a => count ≤ s.size a) = some b ∧ b ≤ r ∧
    r + count * 4096 ≤ b + s.size b * 4096
  aligned : 4096 ∣ r
  ring : ∃ bs', s'.SortedRing bs' ∧
    ∀ p, p ∈ freePages s' bs' ↔ p ∈ freePages s bs ∧ p ∉ pages 4096 r count
  count : s.freePageCount = s'.freePageCount + count

/-- No block has `count` pages, and the free list is as it was. -/
structure NoFit (s : Machine) (bs : List Nat) (count r : Nat) (s' : Machine) : Prop where
  none : ∀ b ∈ bs, s.size b < count
  nil : r = NIL
  next : s'.next = s.next
  prev : s'.prev = s.prev
  size : s'.size = s.size
  pointer : s'.freePhysMemoryPointer = s.freePhysMemoryPointer
  count : s'.freePageCount = s.freePageCount

theorem noFit_tempMapPage (h : ∀ b ∈ bs, s.size b < count) (z : Nat) :
    NoFit s bs count NIL (s.tempMapPage z) :=
  ⟨h, rfl, next_tempMapPage s z, prev_tempMapPage s z, size_tempMapPage s z, rfl, rfl⟩

theorem SortedRing.allocLocked_none (h : SortedRing s bs) (hlt : ∀ b ∈ bs, s.size b < count)
    (hf : bs.length ≤ fuel) :
    ∃ s', allocLocked fuel count s = some (NIL, s') ∧ NoFit s bs count NIL s' := by
  cases bs with
  | nil =>
    refine ⟨s, if_neg (not_not.mpr (h.pointer_eq_NIL.mpr rfl)), ?_⟩
    exact ⟨hlt, rfl, rfl, rfl, rfl, rfl, rfl⟩
  | cons b l =>
    have hp : s.freePhysMemoryPointer = b := h.ringAt.1
    have hb : b ∉ l := (List.nodup_cons.mp h.nodup).1
    obtain ⟨z, hz⟩ := allocLoop_none h.ringAt.2.seg hp hb (fun y hy => h.frame hy) hlt hf
    refine ⟨s.tempMapPage z, ?_, noFit_tempMapPage hlt z⟩
    rw [allocLocked, if_pos fun e => by simpa using h.pointer_eq_NIL.mp e, hp, hz]
    rfl

theorem SortedRing.allocLocked_some (h : SortedRing s bs)
    (hb : bs.find? (fun a => count ≤ s.size a) = some b) (hc : 1 ≤ count) (hf : bs.length ≤ fuel) :
    allocLocked fuel count s = some ((takeFrom count b s).1, { (takeFrom count b s).2 with
      freePageCount := sub32 (takeFrom count b s).2.freePageCount count }) := by
  have hmem := List.mem_of_find?_eq_some hb
  have hle : count ≤ s.size b := by simpa using List.find?_some hb
  obtain ⟨haddr, -⟩ := h.takeFrom_cut hmem hc hle
  have hne : (takeFrom count b s).1 ≠ NIL := by
    intro e
    have hal := h.aligned b hmem
    have hnil : NIL = 0xFFFFFFFF := rfl
    omega
  cases bs with
  | nil => exact absurd hmem List.not_mem_nil
  | cons a l =>
    have hp : s.freePhysMemoryPointer = a := h.ringAt.1
    have ha : a ∉ l := (List.nodup_cons.mp h.nodup).1
    rw [allocLocked, if_pos fun e => by simpa using h.pointer_eq_NIL.mp e, hp,
      allocLoop_found h.ringAt.2.seg hp ha (fun y hy => h.frame hy) hb hf, Option.map_some,
      if_pos hne]

theorem SortedRing.allocLocked_firstFit (h : SortedRing s bs)
    (hb : bs.find? (fun a => count ≤ s.size a) = some b) (hc : 1 ≤ count) (hf : bs.length ≤ fuel) :
    ∃ r s', allocLocked fuel count s = some (r, s') ∧
      FirstFit s bs count r { s' with physMemoryMutex := false } := by
  have hmem := List.mem_of_find?_eq_some hb
  have hle : count ≤ s.size b := by simpa using List.find?_some hb
  have hloop := h.allocLocked_some hb hc hf
  obtain ⟨haddr, bs', hcut⟩ := h.takeFrom_cut hmem hc hle
  generalize takeFrom count b s = q at hloop haddr hcut
  obtain ⟨r, t⟩ := q
  obtain ⟨hn, hring⟩ := hcut.sortedRing h
  dsimp only at hloop haddr hcut
  subst haddr
  refine ⟨_, _, hloop, ⟨b, hb, Nat.le_add_right _ _, by omega⟩,
    (Nat.dvd_add_right (h.aligned b hmem)).mpr (Nat.dvd_mul_left _ _), ⟨bs', hring, fun p => ?_⟩, hn⟩
  have hnd := hcut.pages.nodup_iff.mp h.nodup_freePages
  have hp := hcut.pages.mem_iff (a := p)
  rw [List.mem_append] at hp
  rw [freePages_setVars t bs' (sub32 t.freePageCount count) false]
  constructor
  · exact fun h' => ⟨hp.mpr (Or.inr h'), fun h => (List.nodup_append'.mp hnd).2.2 h h'⟩
  · exact fun h' => (hp.mp h'.1).resolve_left h'.2

theorem FirstFit.congr {t s' : Machine} {r : Nat} (h : FirstFit t bs count r s')
    (hs : t.size = s.size) (hn : t.freePageCount = s.freePageCount) : FirstFit s bs count r s' := by
  have hp : freePages t bs = freePages s bs := freePages_congr fun b _ => congrFun hs b
  refine ⟨?_, h.aligned, ?_, hn ▸ h.count⟩
  · rw [← hs]
    exact h.first
  · rw [← hp]
    exact h.ring

/-- **`alloc_phys_pages` is an exact first fit.** -/
theorem allocPhysPages_firstFit (h : SortedRing s bs) (hm : s.physMemoryMutex = false)
    (hc : 1 ≤ count) (hf : bs.length ≤ fuel) : ∃ r s', allocPhysPages fuel count s = some (r, s') ∧
      s'.physMemoryMutex = false ∧ ((∃ b ∈ bs, count ≤ s.size b) → FirstFit s bs count r s') ∧
      ((∀ b ∈ bs, s.size b < count) → NoFit s bs count r s') := by
  obtain ⟨t, ht⟩ : ∃ t : Machine, t = { s with physMemoryMutex := true } := ⟨_, rfl⟩
  have hlock : s.mutexGetPhys = some t := by
    rw [mutexGetPhys, hm, ht]
    rfl
  have h' : SortedRing t bs := ht ▸ h.setMutex true
  have hsize : t.size = s.size := ht ▸ rfl
  have hcount : t.freePageCount = s.freePageCount := ht ▸ rfl
  cases hfind : bs.find? fun a => count ≤ s.size a with
  | none =>
    have hlt : ∀ b ∈ bs, s.size b < count := fun b hb => by
      simpa using List.find?_eq_none.mp hfind b hb
    have hno : ¬ ∃ b ∈ bs, count ≤ s.size b := by
      rintro ⟨b, hb, hle⟩
      exact absurd (hlt b hb) (Nat.not_lt.mpr hle)
    by_cases hn : s.freePageCount < count
    · exact ⟨NIL, s, if_pos hn, hm, fun hb => absurd hb hno,
        fun _ => ⟨hlt, rfl, rfl, rfl, rfl, rfl, rfl⟩⟩
    obtain ⟨s', he, hs'⟩ := h'.allocLocked_none (by rwa [hsize]) hf
    refine ⟨NIL, s'.mutexReleasePhys, ?_, rfl, fun hb => absurd hb hno, fun _ => ?_⟩
    · rw [allocPhysPages, if_neg hn, hlock, Option.bind_some, he]
      rfl
    · subst ht
      exact ⟨hlt, rfl, hs'.next, hs'.prev, hs'.size, hs'.pointer, hs'.count⟩
  | some b =>
    have hmem := List.mem_of_find?_eq_some hfind
    have hle : count ≤ s.size b := by simpa using List.find?_some hfind
    have hn : ¬ s.freePageCount < count := Nat.not_lt.mpr (hle.trans (h.size_le_count hmem))
    obtain ⟨r, s', he, hs'⟩ := h'.allocLocked_firstFit (by rwa [hsize]) hc hf
    refine ⟨r, s'.mutexReleasePhys, ?_, rfl, fun _ => hs'.congr hsize hcount,
      fun hlt => absurd (hlt b hmem) (Nat.not_lt.mpr hle)⟩
    rw [allocPhysPages, if_neg hn, hlock, Option.bind_some, he]
    rfl

/-- One free page at `0x1000` and three at `0x5000`. -/
def twoBlocks : Machine :=
  ⟨fun p i => if p = 0x1000 then if i = SIZE then 1 else 0x5000
    else if p = 0x5000 then if i = SIZE then 3 else 0x1000 else 0, 0xFFE000, 4, 0x1000, false⟩

theorem sortedRing_twoBlocks : SortedRing twoBlocks [0x1000, 0x5000] := by
  refine ⟨⟨rfl, by decide, ⟨rfl, rfl⟩, rfl, rfl⟩, ?_, ?_, ?_, ?_, rfl⟩
  · decide
  · decide
  · decide
  · refine List.pairwise_pair.mpr ?_
    decide

/-- Two pages come from the second block. -/
theorem allocPhysPages_firstFit_two : ∃ r s', allocPhysPages 2 2 twoBlocks = some (r, s') ∧
    FirstFit twoBlocks [0x1000, 0x5000] 2 r s' := by
  obtain ⟨r, s', he, -, hfit, -⟩ := allocPhysPages_firstFit sortedRing_twoBlocks rfl
    (show 1 ≤ 2 by decide) (show [0x1000, 0x5000].length ≤ 2 by decide)
  exact ⟨r, s', he, hfit ⟨0x5000, by simp, by decide⟩⟩

end Machine

end C4os
