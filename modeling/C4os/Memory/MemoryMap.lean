import C4os.Memory.ClosedRing

/-!
# The memory map of the BIOS (`init_memory_manager`)

* `memoryMapLoop`: the loop over the entries of the map.
* `Backed s P`: every header that can be reached from the head of the free list describes pages of
  which `P` holds. Every branch of the allocator keeps this, also those that lose blocks.
* `LoopOk`: the calls of the loop keep the free list closed; **`memoryMapLoop_returns`**: then it
  returns.
* **`memory_map_sound`**: what the loop hands over, and what is handed out afterwards.
-/

namespace C4os

open Pages Transition

/-- An entry of the memory map, without its last field. -/
structure MemoryMapEntry where
  base : Nat
  length : Nat
  type : Nat
deriving DecidableEq

/-- The loop of `init_memory_manager`, on `memory_size` and the machine. `none` also where no entry
ends the map. -/
def memoryMapLoop (fuel : Nat) : List MemoryMapEntry → Nat × Machine → Option (Nat × Machine)
  | [], _ => none
  | entry :: entries, (memorySize, s) =>
    if entry.type = 0 then some (memorySize, s)
    else if entry.type = 1 ∧ entry.base ≥ 0x100000 then
      (s.freePhysPages fuel (entry.base % 2 ^ 32) ((entry.length >>> 12) % 2 ^ 32)).bind fun s =>
        memoryMapLoop fuel entries ((memorySize + entry.length) % 2 ^ 32, s)
    else memoryMapLoop fuel entries (memorySize, s)

/-- The regions of usable memory in the map. -/
def usable (map : List MemoryMapEntry) : List MemoryMapEntry :=
  (map.takeWhile fun e => e.type ≠ 0).filter fun e => e.type = 1 ∧ e.base ≥ 0x100000

/-- The page at `x` lies inside a region of usable memory. -/
def InUsable (map : List MemoryMapEntry) (x : Nat) : Prop :=
  ∃ e ∈ usable map, e.base ≤ x ∧ x + 4096 ≤ e.base + e.length

namespace Machine

variable {s : Machine} {F G P : Nat → Prop} {a b base count cur fuel n v : Nat}

/-! ## Ranges of good pages -/

/-- The `n` pages from `f` on are below `2 ^ 32` and satisfy `P`. -/
structure Good (P : Nat → Prop) (f n : Nat) : Prop where
  bound : f + n * 4096 ≤ 2 ^ 32
  pages : ∀ x ∈ pages 4096 f n, P x

theorem Good.ne_zero {f : Nat} (h : Good P f n) (hP : ¬ P 0) (hn : n ≠ 0) : f ≠ 0 := by
  rintro rfl
  exact hP (h.pages 0 (base_mem_pages (Nat.pos_of_ne_zero hn)))

theorem Good.join {f g m : Nat} (h : Good P f n) (h' : Good P g m)
    (hg : m ≠ 0 → g = f + n * 4096) : Good P f (n + m) := by
  by_cases hm : m = 0
  · rwa [hm]
  · obtain rfl := hg hm
    refine ⟨?_, fun x hx => ?_⟩
    · rw [Nat.add_mul, ← Nat.add_assoc]
      exact h'.bound
    · rw [pages_add, List.mem_append] at hx
      exact hx.elim (h.pages x) (h'.pages x)

theorem Good.take {f m : Nat} (h : Good P f n) (hm : m ≤ n) : Good P f m := by
  obtain ⟨k, rfl⟩ := Nat.exists_eq_add_of_le hm
  refine ⟨?_, fun x hx => h.pages x ?_⟩
  · exact Nat.le_trans (Nat.add_le_add_left (Nat.mul_le_mul_right 4096 hm) f) h.bound
  · rw [pages_add]
    exact List.mem_append_left _ hx

theorem Good.drop {f m : Nat} (h : Good P f n) (hm : m ≤ n) :
    Good P (f + (n - m) * 4096) m := by
  obtain ⟨k, rfl⟩ := Nat.exists_eq_add_of_le' hm
  rw [Nat.add_sub_cancel]
  refine ⟨?_, fun x hx => h.pages x ?_⟩
  · rw [Nat.add_assoc, ← Nat.add_mul]
    exact h.bound
  · rw [pages_add]
    exact List.mem_append_right _ hx

theorem frameOf_eq (hv : v < 2 ^ 32) : frameOf v = v / 4096 * 4096 := andNot_mask hv

theorem frameOf_add (hv : v < 2 ^ 32) (hbd : frameOf v + n * 4096 < 2 ^ 32) :
    add32 v (pageShift n) = v + n * 4096 ∧
      frameOf (add32 v (pageShift n)) = frameOf v + n * 4096 := by
  have hframe := frameOf_eq hv
  have hlt : v + n * 4096 < 2 ^ 32 := by omega
  have he : add32 v (pageShift n) = v + n * 4096 := by
    rw [pageShift_eq (by omega), add32_eq hlt]
  rw [he, frameOf_eq hlt]
  exact ⟨rfl, by omega⟩

theorem frameOf_end (hv : v < 2 ^ 32) (hbd : frameOf v + n * 4096 ≤ 2 ^ 32)
    (h0 : frameOf (add32 v (pageShift n)) ≠ 0) :
    add32 v (pageShift n) = v + n * 4096 ∧
      frameOf (add32 v (pageShift n)) = frameOf v + n * 4096 := by
  apply frameOf_add hv
  apply Nat.lt_of_le_of_ne hbd
  intro he
  have hframe := frameOf_eq hv
  have hsum : add32 v (pageShift n) = v % 4096 := by
    unfold add32 pageShift
    rw [Nat.shiftLeft_eq, Nat.add_mod_mod]
    omega
  rw [hsum, frameOf_eq (by omega)] at h0
  omega

theorem good_zero (P : Nat → Prop) (v : Nat) : Good P (frameOf v) 0 :=
  ⟨Nat.le_of_lt (frame_frameOf v).2, fun _ hx => absurd hx List.not_mem_nil⟩

/-! ## Headers -/

/-- A link that the allocator follows. -/
def Link (F : Nat → Prop) (v : Nat) : Prop := v < 2 ^ 32 ∧ F (frameOf v)

/-- The headers in the frames `G` link to frames of `F` and describe good pages. -/
structure Linked (s : Machine) (G F P : Nat → Prop) : Prop where
  next : ∀ f, G f → Link F (s.next f)
  prev : ∀ f, G f → Link F (s.prev f)
  good : ∀ f, G f → Good P f (s.size f)

theorem Linked.map (h : Linked s G F P) (a : Nat) : Linked (s.tempMapPage a) G F P := by
  refine ⟨?_, ?_, ?_⟩
  · rw [next_tempMapPage]
    exact h.next
  · rw [prev_tempMapPage]
    exact h.prev
  · rw [size_tempMapPage]
    exact h.good

theorem Linked.setNext (h : Linked s G F P) (hv : Link F v) : Linked (s.tempSet NEXT v) G F P := by
  refine ⟨fun f hf => ?_, ?_, ?_⟩
  · rw [next_tempSet_next]
    split_ifs
    · exact hv
    · exact h.next f hf
  · rw [prev_tempSet_next]
    exact h.prev
  · rw [size_tempSet_next]
    exact h.good

theorem Linked.setPrev (h : Linked s G F P) (hv : Link F v) : Linked (s.tempSet PREV v) G F P := by
  refine ⟨?_, fun f hf => ?_, ?_⟩
  · rw [next_tempSet_prev]
    exact h.next
  · rw [prev_tempSet_prev]
    split_ifs
    · exact hv
    · exact h.prev f hf
  · rw [size_tempSet_prev]
    exact h.good

theorem Linked.setSize (h : Linked s G F P) (hv : G s.window → Good P s.window v) :
    Linked (s.tempSet SIZE v) G F P := by
  refine ⟨?_, ?_, fun f hf => ?_⟩
  · rw [next_tempSet_size]
    exact h.next
  · rw [prev_tempSet_size]
    exact h.prev
  · rw [size_tempSet_size]
    split_ifs with he
    · exact he ▸ hv (he ▸ hf)
    · exact h.good f hf

theorem Linked.mono {F' : Nat → Prop} (h : Linked s G F P) (hF : ∀ f, F f → F' f) :
    Linked s G F' P :=
  ⟨fun f hf => ⟨(h.next f hf).1, hF _ (h.next f hf).2⟩,
    fun f hf => ⟨(h.prev f hf).1, hF _ (h.prev f hf).2⟩, h.good⟩

/-- `F` and the frame of the block at `base`. -/
def With (base : Nat) (F : Nat → Prop) (f : Nat) : Prop := f = frameOf base ∨ F f

theorem Linked.header {p : Nat} (h : Linked s G F P) (hn : Link F n) (hp : Link F p)
    (hg : Good P (frameOf base) count) :
    Linked ((((s.tempMapPage base).tempSet NEXT n).tempSet PREV p).tempSet SIZE count)
      (With base G) F P := by
  have hw : (s.tempMapPage base).window = frameOf base := window_tempMapPage s base
  refine ⟨fun f hf => ?_, fun f hf => ?_, fun f hf => ?_⟩
  · rw [next_tempSet_size, next_tempSet_prev, next_tempSet_next, next_tempMapPage, hw]
    split_ifs with he
    · exact hn
    · exact h.next f (hf.resolve_left he)
  · rw [prev_tempSet_size, prev_tempSet_prev, prev_tempSet_next, prev_tempMapPage,
      window_tempSet_next, hw]
    split_ifs with he
    · exact hp
    · exact h.prev f (hf.resolve_left he)
  · rw [size_tempSet_size, size_tempSet_prev, size_tempSet_next, size_tempMapPage,
      window_tempSet_prev, window_tempSet_next, hw]
    split_ifs with he
    · exact he ▸ hg
    · exact h.good f (hf.resolve_left he)

/-! ## The branches of the allocator -/

/-- What can be reached from the head of the free list describes pages of which `P` holds. -/
structure Backed (s : Machine) (F P : Nat → Prop) : Prop where
  head : s.freePhysMemoryPointer = NIL ∨ Link F s.freePhysMemoryPointer
  linked : Linked s F F P

theorem Backed.map (h : Backed s F P) (a : Nat) : Backed (s.tempMapPage a) F P :=
  ⟨h.head, h.linked.map a⟩

theorem Backed.setVars (h : Backed s F P) (n : Nat) (m : Bool) :
    Backed { s with freePageCount := n, physMemoryMutex := m } F P :=
  ⟨h.head, h.linked.next, h.linked.prev, h.linked.good⟩

theorem Backed.setHead (h : Backed s F P) (hv : v = NIL ∨ Link F v) :
    Backed { s with freePhysMemoryPointer := v } F P :=
  ⟨hv, h.linked.next, h.linked.prev, h.linked.good⟩

theorem Backed.unlinkBlock (h : Backed s F P) (hw : F s.window) :
    Backed (s.unlinkBlock cur) F P := by
  have hn : Link F (s.tempGet NEXT) := h.linked.next _ hw
  have hp : Link F (s.tempGet PREV) := h.linked.prev _ hw
  have hb : Backed (((s.tempMapPage (s.tempGet NEXT)).tempSet PREV (s.tempGet PREV)).tempMapPage
      (s.tempGet PREV) |>.tempSet NEXT (s.tempGet NEXT)) F P :=
    ⟨h.head, (((h.linked.map _).setPrev hp).map _).setNext hn⟩
  unfold Machine.unlinkBlock unlinkHead
  dsimp only
  split_ifs
  · exact hb.setHead (Or.inl rfl)
  · exact hb.setHead (Or.inr hn)
  · exact hb

theorem Backed.splitBlock (h : Backed s F P) (hc : count ≤ s.tempGet SIZE) :
    Backed (s.splitBlock count) F P := by
  refine ⟨h.head, h.linked.setSize fun hw => ?_⟩
  have hg : Good P s.window (s.tempGet SIZE) := h.linked.good _ hw
  have hbd := hg.bound
  rw [sub32_eq hc (by omega)]
  exact hg.take (Nat.sub_le _ _)

theorem Backed.allocLoop {r : Nat × Machine} (h : Backed s F P) (hc : Link F cur)
    (hr : allocLoop count fuel cur s = some r) :
    Backed r.2 F P ∧ (r.1 = NIL ∨ r.1 < 2 ^ 32 ∧ Good P (frameOf r.1) count) := by
  induction fuel generalizing cur s with
  | zero => cases hr
  | succ fuel ih =>
    have hw : (s.tempMapPage cur).window = frameOf cur := window_tempMapPage s cur
    have hm := h.map cur
    have hg : Good P (frameOf cur) ((s.tempMapPage cur).tempGet SIZE) := by
      rw [tempGet_size, hw]
      exact hm.linked.good _ hc.2
    rw [Machine.allocLoop] at hr
    dsimp only at hr
    split_ifs at hr with h1 h2 h3
    · obtain rfl := Option.some.inj hr
      refine ⟨hm.unlinkBlock (hw ▸ hc.2), Or.inr ⟨hc.1, ?_⟩⟩
      rwa [h1] at hg
    · obtain rfl := Option.some.inj hr
      have hle := Nat.le_of_lt h2
      have hbd := hg.bound
      have hsize : ((s.tempMapPage cur).splitBlock count).tempGet SIZE =
          (s.tempMapPage cur).tempGet SIZE - count := by
        unfold Machine.splitBlock
        rw [tempGet_size, window_tempSet_size, size_tempSet_size, if_pos rfl,
          sub32_eq hle (by omega)]
      refine ⟨hm.splitBlock hle, Or.inr ?_⟩
      dsimp only
      rw [hsize]
      refine ⟨add32_lt _ _, ?_⟩
      by_cases h0 : count = 0
      · rw [h0]
        exact good_zero P _
      · have hdrop := hg.drop hle
        have hlt : frameOf cur + ((s.tempMapPage cur).tempGet SIZE - count) * 4096 < 2 ^ 32 :=
          Nat.lt_of_lt_of_le (Nat.lt_add_of_pos_right (by omega)) hdrop.bound
        rwa [(frameOf_add hc.1 hlt).2]
    · apply ih hm ?_ hr
      rw [tempGet_next, hw]
      exact hm.linked.next _ hc.2
    · obtain rfl := Option.some.inj hr
      exact ⟨hm, Or.inl rfl⟩

theorem Backed.absorbNext (h : Backed s F P) (hcur : Link F cur) (hw : s.window = frameOf cur)
    (hP : ¬ P 0) (hnext : frameOf (s.tempGet NEXT) ≠ 0 →
      frameOf (s.tempGet NEXT) = frameOf cur + s.size (frameOf cur) * 4096) :
    Backed (s.absorbNext cur) F P := by
  have hg : Good P (frameOf cur) (s.size (frameOf cur)) := h.linked.good _ hcur.2
  have hn : Link F (s.tempGet NEXT) := h.linked.next _ (hw ▸ hcur.2)
  have hw1 := window_tempMapPage s (s.tempGet NEXT)
  have h1 := h.linked.map (s.tempGet NEXT)
  have hn2 : Link F ((s.tempMapPage (s.tempGet NEXT)).tempGet NEXT) :=
    h1.next _ (hw1 ▸ hn.2)
  have hg1 : Good P (frameOf (s.tempGet NEXT)) ((s.tempMapPage (s.tempGet NEXT)).tempGet SIZE) := by
    rw [tempGet_size, hw1]
    exact h1.good _ hn.2
  have hjoin := hg.join hg1 fun hm => hnext (hg1.ne_zero hP hm)
  have hbd := hjoin.bound
  refine ⟨h.head, (((((h1.map _).setPrev hcur).map cur).setNext hn2).setSize fun _ => ?_)⟩
  rw [window_tempSet_next, window_tempMapPage, tempGet_size, window_tempSet_next,
    window_tempMapPage, size_tempSet_next, size_tempMapPage, size_tempSet_prev, size_tempMapPage,
    size_tempMapPage]
  show Good P (frameOf cur) (add32 (s.size (frameOf cur)) _)
  rw [add32_eq (by omega)]
  exact hjoin

theorem Backed.extendUp (h : Backed s F P) (hcur : Link F cur) (hw : s.window = frameOf cur)
    (hP : ¬ P 0) (hbase : Good P (frameOf base) count) (h0 : frameOf base ≠ 0)
    (he : add32 cur (pageShift (s.tempGet SIZE)) = base) :
    Backed (s.extendUp base count cur) F P := by
  have hg : Good P (frameOf cur) (s.tempGet SIZE) := by
    rw [tempGet_size, hw]
    exact h.linked.good _ hcur.2
  obtain ⟨-, hend⟩ := frameOf_end hcur.1 hg.bound (he ▸ h0)
  rw [he] at hend
  have hlt : base < 2 ^ 32 := he ▸ add32_lt _ _
  have hjoin := hg.join hbase fun _ => hend
  have hbd := hjoin.bound
  have hsum : add32 (s.tempGet SIZE) count = s.tempGet SIZE + count := add32_eq (by omega)
  have h1 : Backed (s.tempSet SIZE (add32 (s.tempGet SIZE) count)) F P := by
    refine ⟨h.head, h.linked.setSize fun _ => ?_⟩
    rw [hw, hsum]
    exact hjoin
  unfold Machine.extendUp
  dsimp only
  split_ifs with hn
  · have hsize : (s.tempSet SIZE (add32 (s.tempGet SIZE) count)).size (frameOf cur) =
        s.tempGet SIZE + count := by
      rw [size_tempSet_size, if_pos hw.symm, hsum]
    apply h1.absorbNext hcur (by rw [window_tempSet_size, hw]) hP
    intro hn0
    rw [hn] at hn0 ⊢
    rw [hsize, (frameOf_end hlt hbase.bound hn0).2, hend, Nat.add_mul, Nat.add_assoc]
  · exact h1

theorem with_self (base : Nat) (F : Nat → Prop) : With base F (frameOf base) := Or.inl rfl

theorem Link.with (h : Link F v) (base : Nat) : Link (With base F) v := ⟨h.1, Or.inr h.2⟩

theorem Backed.extendDown (h : Backed s F P) (hcur : Link F cur) (hw : s.window = frameOf cur)
    (hP : ¬ P 0) (hlt : base < 2 ^ 32) (hbase : Good P (frameOf base) count)
    (he : add32 base (pageShift count) = cur) :
    Backed (s.extendDown base count) (With base F) P := by
  have hg : Good P (frameOf cur) (s.tempGet SIZE) := by
    rw [tempGet_size, hw]
    exact h.linked.good _ hcur.2
  have hjoin := hbase.join hg fun hm => by
    have h0 := hg.ne_zero hP hm
    rw [← he] at h0 ⊢
    exact (frameOf_end hlt hbase.bound h0).2
  have hbd := hjoin.bound
  have hn : Link F (s.tempGet NEXT) := h.linked.next _ (hw ▸ hcur.2)
  have hp : Link F (s.tempGet PREV) := h.linked.prev _ (hw ▸ hcur.2)
  have hb : Link (With base F) base := ⟨hlt, with_self base F⟩
  have h1 : Linked s F (With base F) P := h.linked.mono fun _ hf => Or.inr hf
  refine ⟨h.head.imp id fun hh => hh.with base, ?_⟩
  have h2 := ((h1.map (s.tempGet NEXT)).setPrev hb).map (s.tempGet PREV) |>.setNext hb
  have hsum : add32 count (s.tempGet SIZE) = count + s.tempGet SIZE := add32_eq (by omega)
  have h3 := h2.header (hn.with base) (hp.with base) hjoin
  rw [← hsum] at h3
  exact h3

theorem Backed.insertBlock (h : Backed s F P) (hcur : Link F cur) (hw : s.window = frameOf cur)
    (hlt : base < 2 ^ 32) (hbase : Good P (frameOf base) count) :
    Backed (s.insertBlock base count cur) (With base F) P := by
  have hn : Link F (s.tempGet NEXT) := h.linked.next _ (hw ▸ hcur.2)
  have hb : Link (With base F) base := ⟨hlt, with_self base F⟩
  have h1 : Linked s F (With base F) P := h.linked.mono fun _ hf => Or.inr hf
  refine ⟨h.head.imp id fun hh => hh.with base, ?_⟩
  have h2 := ((h1.setPrev hb).map (s.tempGet NEXT)).setNext hb
  exact h2.header (hcur.with base) (hn.with base) hbase

theorem Linked.firstBlock (h : Linked s F F P) (hlt : base < 2 ^ 32)
    (hbase : Good P (frameOf base) count) : Backed (s.firstBlock base count) (With base F) P := by
  have hb : Link (With base F) base := ⟨hlt, with_self base F⟩
  have h1 := (h.mono fun _ hf => Or.inr hf).header hb hb hbase
  exact ⟨Or.inr hb, h1.next, h1.prev, h1.good⟩

theorem Backed.lowerHead (h : Backed s F P) (hb : base < s.freePhysMemoryPointer → Link F base) :
    Backed (s.lowerHead base) F P := by
  unfold Machine.lowerHead
  split_ifs with hlt
  · exact h.setHead (Or.inr (hb hlt))
  · exact h

theorem Backed.freeLoop {t : Machine} (h : Backed s F P) (hcur : Link F cur)
    (hle : cur = s.freePhysMemoryPointer ∨ s.freePhysMemoryPointer ≤ base)
    (hP : ¬ P 0) (hlt : base < 2 ^ 32) (hbase : Good P (frameOf base) count)
    (h0 : frameOf base ≠ 0) (ht : freeLoop base count fuel cur s = some t) :
    ∃ F', Backed (t.lowerHead base) F' P := by
  induction fuel generalizing cur s with
  | zero => cases ht
  | succ fuel ih =>
    have hw : (s.tempMapPage cur).window = frameOf cur := window_tempMapPage s cur
    have hm := h.map cur
    have hb : Link (With base F) base := ⟨hlt, with_self base F⟩
    rw [Machine.freeLoop] at ht
    dsimp only at ht
    split_ifs at ht with h1 h2 h3 h4
    · obtain rfl := Option.some.inj ht
      have hg : Good P (frameOf cur) ((s.tempMapPage cur).tempGet SIZE) := by
        rw [tempGet_size, hw]
        exact hm.linked.good _ hcur.2
      refine ⟨F, (hm.extendUp hcur hw hP hbase h0 h1).lowerHead ?_⟩
      rw [extendUp_vars.1, pointer_tempMapPage]
      intro hlow
      -- the block ends at `base`, so the head lies below
      have hend := (frameOf_end hcur.1 hg.bound (h1 ▸ h0)).1
      rw [h1] at hend
      omega
    · obtain rfl := Option.some.inj ht
      exact ⟨With base F, (hm.extendDown hcur hw hP hlt hbase h2).lowerHead fun _ => hb⟩
    · obtain rfl := Option.some.inj ht
      exact ⟨With base F, (hm.insertBlock hcur hw hlt hbase).lowerHead fun _ => hb⟩
    · apply ih hm ?_ ?_ ht
      · rw [tempGet_next, hw]
        exact hm.linked.next _ hcur.2
      · right
        rw [pointer_tempMapPage]
        omega
    · exact absurd (Or.inr (not_not.mp h4)) h3

theorem Backed.freePhysPages {t : Machine} (h : Backed s F P) (hP : ¬ P 0) (hlt : base < 2 ^ 32)
    (hbase : Good P (frameOf base) count) (h0 : frameOf base ≠ 0)
    (ht : freePhysPages fuel base count s = some t) : ∃ F', Backed t F' P := by
  unfold Machine.freePhysPages mutexGetPhys at ht
  split_ifs at ht
  · cases ht
  · rw [Option.bind_some] at ht
    obtain ⟨u, hu, rfl⟩ := Option.map_eq_some_iff.mp ht
    have hs : Backed { s with physMemoryMutex := true } F P := h.setVars _ true
    suffices ∃ F', Backed u F' P from this.imp fun F' hF => hF.setVars _ false
    unfold freeLocked at hu
    split_ifs at hu with hnil
    · obtain rfl := Option.some.inj hu
      exact ⟨_, hs.linked.firstBlock hlt hbase⟩
    · obtain ⟨w, hw, rfl⟩ := Option.map_eq_some_iff.mp hu
      exact hs.freeLoop (hs.head.resolve_left hnil) (Or.inl rfl) hP hlt hbase h0 hw

theorem Backed.allocPhysPages {r : Nat × Machine} (h : Backed s F P)
    (hr : allocPhysPages fuel count s = some r) :
    Backed r.2 F P ∧ (r.1 = NIL ∨ r.1 < 2 ^ 32 ∧ Good P (frameOf r.1) count) := by
  unfold Machine.allocPhysPages mutexGetPhys at hr
  split_ifs at hr
  · obtain rfl := Option.some.inj hr
    exact ⟨h, Or.inl rfl⟩
  · cases hr
  · rw [Option.bind_some] at hr
    obtain ⟨q, hq, rfl⟩ := Option.map_eq_some_iff.mp hr
    have hs : Backed { s with physMemoryMutex := true } F P := h.setVars _ true
    suffices Backed q.2 F P ∧ (q.1 = NIL ∨ q.1 < 2 ^ 32 ∧ Good P (frameOf q.1) count) from
      ⟨this.1.setVars _ false, this.2⟩
    unfold allocLocked at hq
    split_ifs at hq with hnil
    · obtain ⟨w, hw, rfl⟩ := Option.map_eq_some_iff.mp hq
      have hloop := hs.allocLoop (hs.head.resolve_left hnil) hw
      split_ifs
      · exact ⟨hloop.1.setVars _ _, hloop.2⟩
      · exact hloop
    · obtain rfl := Option.some.inj hq
      exact ⟨hs, Or.inl rfl⟩

end Machine

/-! ## The loop -/

open Machine

/-- **The call for the entry hands over usable pages**: as `phyaddr` and `size_t`, its base is not
in the first page, and its pages lie below `2 ^ 32` and inside regions of usable memory. -/
def HandsOver (map : List MemoryMapEntry) (e : MemoryMapEntry) : Prop :=
  frameOf (e.base % 2 ^ 32) ≠ 0 ∧
    Good (InUsable map) (frameOf (e.base % 2 ^ 32)) ((e.length >>> 12) % 2 ^ 32)

/-- The length of the usable regions. -/
def usableLength (map : List MemoryMapEntry) : Nat := ((usable map).map (·.length)).sum

variable {map entries : List MemoryMapEntry} {s s' : Machine} {F : Nat → Prop} {fuel n n' : Nat}

theorem not_inUsable_zero : ¬ InUsable map 0 := by
  rintro ⟨e, he, hle, -⟩
  have hbase := (List.mem_filter.mp he).2
  simp only [decide_eq_true_eq] at hbase
  omega

theorem usable_cons {e : MemoryMapEntry} (h : e.type ≠ 0) : usable (e :: entries) =
    if e.type = 1 ∧ e.base ≥ 0x100000 then e :: usable entries else usable entries := by
  unfold usable
  rw [List.takeWhile_cons_of_pos (by simp [h]), List.filter_cons]
  simp only [decide_eq_true_eq]

theorem memoryMapLoop_spec (h : Backed s F (InUsable map))
    (hok : ∀ e ∈ usable entries, HandsOver map e) (hn : n < 2 ^ 32)
    (hr : memoryMapLoop fuel entries (n, s) = some (n', s')) :
    (∃ F', Backed s' F' (InUsable map)) ∧ n' = (n + usableLength entries) % 2 ^ 32 := by
  induction entries generalizing n s F with
  | nil => cases hr
  | cons e entries ih =>
    rw [memoryMapLoop] at hr
    split_ifs at hr with htype hreg
    · obtain ⟨rfl, rfl⟩ := Prod.mk.inj (Option.some.inj hr)
      refine ⟨⟨F, h⟩, ?_⟩
      rw [usableLength, usable, List.takeWhile_cons_of_neg (by simp [htype])]
      exact (Nat.mod_eq_of_lt hn).symm
    · have hcons : usable (e :: entries) = e :: usable entries :=
        (usable_cons htype).trans (if_pos hreg)
      rw [hcons, List.forall_mem_cons] at hok
      obtain ⟨t, ht, hr⟩ := Option.bind_eq_some_iff.mp hr
      obtain ⟨F₁, h₁⟩ := h.freePhysPages not_inUsable_zero (Nat.mod_lt _ (by decide)) hok.1.2
        hok.1.1 ht
      obtain ⟨hb, hsum⟩ := ih h₁ hok.2 (Nat.mod_lt _ (by decide)) hr
      refine ⟨hb, ?_⟩
      rw [hsum, usableLength, usableLength, hcons, List.map_cons, List.sum_cons, Nat.mod_add_mod,
        Nat.add_assoc]
    · have hcons : usable (e :: entries) = usable entries :=
        (usable_cons htype).trans (if_neg hreg)
      rw [usableLength, hcons]
      rw [hcons] at hok
      exact ih h hok hn hr

/-! ## The loop returns -/

/-- Every call of the loop takes a branch that keeps the ring closed. -/
def SafeCalls : List MemoryMapEntry → Machine → Prop
  | [], _ => True
  | e :: es, s => s.SafeFree ⟨e.base % 2 ^ 32, (e.length >>> 12) % 2 ^ 32⟩ ∧
      ∀ fuel s', s.freePhysPages fuel (e.base % 2 ^ 32) ((e.length >>> 12) % 2 ^ 32) = some s' →
        SafeCalls es s'

/-- **The calls of the loop return**: an entry ends the map, the usable regions start at pages that
differ as `phyaddr`, and every call is safe. -/
structure LoopOk (map : List MemoryMapEntry) (s : Machine) : Prop where
  ends : ∃ e ∈ map, e.type = 0
  aligned : ∀ e ∈ usable map, 4096 ∣ e.base
  distinct : (usable map).Pairwise fun e e' => e.base % 2 ^ 32 ≠ e'.base % 2 ^ 32
  safe : SafeCalls (usable map) s

theorem HandsOver.fresh {bs : List Nat} {e : MemoryMapEntry} (h : HandsOver map e)
    (ha : 4096 ∣ e.base) (hnew : e.base % 2 ^ 32 ∉ bs) :
    Fresh bs (e.base % 2 ^ 32) ((e.length >>> 12) % 2 ^ 32) := by
  have hlt : e.base % 2 ^ 32 < 2 ^ 32 := Nat.mod_lt _ (by decide)
  have hal : 4096 ∣ e.base % 2 ^ 32 := by omega
  have hframe : frameOf (e.base % 2 ^ 32) = e.base % 2 ^ 32 := andNot_mask_of_aligned hlt hal
  obtain ⟨h0, hgood⟩ := h
  rw [hframe] at h0 hgood
  exact ⟨⟨hal, hlt⟩, h0, hgood.bound, hnew⟩

/-- **The loop returns** when its calls do, with as many rounds as there are blocks. -/
theorem memoryMapLoop_returns {bs : List Nat} (h : s.ClosedRing bs)
    (hm : s.physMemoryMutex = false) (hl : LoopOk entries s)
    (hok : ∀ e ∈ usable entries, HandsOver map e)
    (hnew : ∀ e ∈ usable entries, e.base % 2 ^ 32 ∉ bs)
    (hf : bs.length + (usable entries).length ≤ fuel) (n : Nat) :
    ∃ r, memoryMapLoop fuel entries (n, s) = some r := by
  induction entries generalizing n s bs with
  | nil =>
    obtain ⟨e, he, -⟩ := hl.ends
    cases he
  | cons e entries ih =>
    obtain ⟨hends, hal, hd, hs⟩ := hl
    rw [memoryMapLoop]
    by_cases htype : e.type = 0
    · rw [if_pos htype]
      exact ⟨_, rfl⟩
    have hends' : ∃ e ∈ entries, e.type = 0 := by
      obtain ⟨x, hx, h0⟩ := hends
      rcases List.mem_cons.mp hx with rfl | hx
      · exact absurd h0 htype
      · exact ⟨x, hx, h0⟩
    rw [if_neg htype]
    split_ifs with hreg
    · have hcons : usable (e :: entries) = e :: usable entries :=
        (usable_cons htype).trans (if_pos hreg)
      rw [hcons, List.forall_mem_cons] at hok hal hnew
      rw [hcons, List.pairwise_cons] at hd
      rw [hcons] at hs
      rw [hcons, List.length_cons] at hf
      have hfuel : bs.length ≤ fuel := by omega
      obtain ⟨s', bs', hfree, hm', hr, hsub, hlen⟩ :=
        h.free hm (hok.1.fresh hal.1 hnew.1) hs.1 hfuel
      rw [hfree, Option.bind_some]
      apply ih hr hm' ⟨hends', hal.2, hd.2, hs.2 _ _ hfree⟩ hok.2
      · intro e' he' hmem
        rcases hsub _ hmem with heq | hmem
        · exact hd.1 e' he' heq.symm
        · exact hnew.2 e' he' hmem
      · omega
    · have hcons : usable (e :: entries) = usable entries :=
        (usable_cons htype).trans (if_neg hreg)
      rw [hcons] at hal hd hs hok hnew hf
      exact ih h hm ⟨hends', hal, hd, hs⟩ hok hnew hf _

theorem Machine.Empty.closedRing (h : s.Empty) : s.ClosedRing [] :=
  ⟨h.1, fun _ hb => absurd hb List.not_mem_nil, List.not_mem_nil,
    fun _ hb => absurd hb List.not_mem_nil⟩

/-! ## What is handed out -/

/-- The free list and the ranges that are handed out consist of usable pages. -/
def HandedOut (map : List MemoryMapEntry) (σ : PhysState) : Prop :=
  (∃ F, Backed σ.machine F (InUsable map)) ∧
    ∀ r ∈ σ.out, 1 ≤ r.count ∧ r.base < 2 ^ 32 ∧ Good (InUsable map) (frameOf r.base) r.count

/-- A run of allocations, and of frees of what is handed out. -/
abbrev UseRun (s : Machine) (ops : List PhysOp) (σ : PhysState) : Prop :=
  Run (fun σ op σ' => PhysStep σ op σ' ∧ ∀ r, op ≠ .give r) ⟨s, [], []⟩ ops σ

theorem HandedOut.step {σ σ' : PhysState} {op : PhysOp} (h : HandedOut map σ)
    (hs : PhysStep σ op σ') (hg : ∀ r, op ≠ .give r) : HandedOut map σ' := by
  obtain ⟨⟨F, hF⟩, hout⟩ := h
  cases op with
  | alloc count =>
    obtain ⟨hc, fuel, p, m, hr, rfl⟩ := hs
    obtain ⟨hm, hp⟩ := hF.allocPhysPages hr
    refine ⟨⟨F, hm⟩, fun r hr => ?_⟩
    dsimp only at hr hp
    split_ifs at hr with hnil
    · exact hout r hr
    · rcases List.mem_cons.mp hr with rfl | hr
      · exact ⟨hc, hp.resolve_left hnil⟩
      · exact hout r hr
  | give r => exact absurd rfl (hg r)
  | free r =>
    obtain ⟨hr, fuel, m, hm, rfl⟩ := hs
    obtain ⟨hc, hlt, hgood⟩ := hout r hr
    have h0 := hgood.ne_zero not_inUsable_zero (by omega)
    exact ⟨hF.freePhysPages not_inUsable_zero hlt hgood h0 hm,
      fun q hq => hout q (List.mem_of_mem_erase hq)⟩

theorem loop_returns (h : s.Empty) (hok : ∀ e ∈ usable map, HandsOver map e) (hl : LoopOk map s) :
    ∃ rounds, ∀ fuel ≥ rounds, ∃ r, memoryMapLoop fuel map (0x100000, s) = some r := by
  refine ⟨(usable map).length, fun fuel hf => ?_⟩
  apply memoryMapLoop_returns h.closedRing h.2.2 hl hok (fun _ _ => List.not_mem_nil)
  rwa [List.length_nil, Nat.zero_add]

theorem loop_sound (h : s.Empty) (hok : ∀ e ∈ usable map, HandsOver map e)
    (hr : memoryMapLoop fuel map (0x100000, s) = some (n, s')) :
    (∀ ops σ, UseRun s' ops σ → HandedOut map σ) ∧
      n = (0x100000 + usableLength map) % 2 ^ 32 := by
  have hempty : Backed s (fun _ => False) (InUsable map) :=
    ⟨Or.inl h.1, fun _ hf => hf.elim, fun _ hf => hf.elim, fun _ hf => hf.elim⟩
  obtain ⟨hb, hn⟩ := memoryMapLoop_spec hempty hok (by decide) hr
  refine ⟨fun ops σ hrun => ?_, hn⟩
  have h0 : HandedOut map ⟨s', [], []⟩ := ⟨hb, fun r hr => absurd hr List.not_mem_nil⟩
  exact hrun.invariant (fun _ _ _ hi hs => hi.step hs.1 hs.2) h0

/-- **What the loop hands over is usable memory**: after it every run of allocations and frees hands
out pages of usable regions only, and `memory_size` counts the first megabyte and those regions
unless it overflows. Where every call is safe, the loop returns. -/
theorem memory_map_sound (h : s.Empty) (hok : ∀ e ∈ usable map, HandsOver map e) :
    (LoopOk map s → ∃ rounds, ∀ fuel ≥ rounds,
        ∃ r, memoryMapLoop fuel map (0x100000, s) = some r) ∧
      ∀ fuel n s', memoryMapLoop fuel map (0x100000, s) = some (n, s') →
        (∀ ops σ, UseRun s' ops σ → ∀ r ∈ σ.out,
          ∀ x ∈ pages 4096 (frameOf r.base) r.count, InUsable map x) ∧
        (n = 0x100000 + usableLength map ↔ 0x100000 + usableLength map < 2 ^ 32) := by
  constructor
  · exact loop_returns h hok
  · intro fuel n s' hr
    obtain ⟨hsound, hn⟩ := loop_sound h hok hr
    constructor
    · intro ops σ hrun r hr
      exact ((hsound ops σ hrun).2 r hr).2.2.pages
    · rw [hn]
      constructor
      · intro he
        rw [← he]
        exact Nat.mod_lt _ (by decide)
      · exact Nat.mod_eq_of_lt

instance (map : List MemoryMapEntry) (x : Nat) : Decidable (InUsable map x) :=
  inferInstanceAs (Decidable (∃ e ∈ usable map, _))

/-- A machine with two regions above the first megabyte. -/
def smallMap : List MemoryMapEntry :=
  [⟨0, 0x9F000, 1⟩, ⟨0x100000, 0x2000, 1⟩, ⟨0x102000, 0x1000, 2⟩, ⟨0x103000, 0x1000, 1⟩, ⟨0, 0, 0⟩]

theorem usable_smallMap : usable smallMap = [⟨0x100000, 0x2000, 1⟩, ⟨0x103000, 0x1000, 1⟩] := by
  decide

theorem loopOk_smallMap : LoopOk smallMap emptyMachine := by
  refine ⟨⟨⟨0, 0, 0⟩, by decide, rfl⟩, ?_, ?_, ?_⟩
  · rw [usable_smallMap]
    decide
  · rw [usable_smallMap]
    decide
  · rw [usable_smallMap]
    refine ⟨fun e => absurd rfl e, fun fuel s' hs => ⟨fun _ bs c hr hc => ?_, fun _ _ _ => trivial⟩⟩
    -- the first region is the only block
    have h : (emptyMachine.freePhysPages 1 0x100000 2).map
        (fun m => (m.freePhysMemoryPointer, m.next 0x100000)) = some (0x100000, 0x100000) := by
      decide +kernel
    obtain ⟨m, hm, h⟩ := Option.map_eq_some_iff.mp h
    obtain ⟨hp, hn⟩ := Prod.mk.inj h
    obtain rfl : s' = m := by
      simpa using (freePhysPages_mono hs (Nat.le_max_left fuel 1)).symm.trans
        (freePhysPages_mono hm (Nat.le_max_right fuel 1))
    match bs with
    | [] => cases hc
    | b :: bs =>
      obtain rfl : b = 0x100000 := hr.1.symm.trans hp
      obtain rfl := hr.2.next_eq_self.mp hn
      rw [freeCase] at hc
      split_ifs at hc with hup hdown hnew
      · obtain rfl := Option.some.inj hc
        exact trivial
      · exact absurd hdown (by decide)
      · obtain rfl := Option.some.inj hc
        exact Nat.le_succ 1
      · cases hc

theorem memory_map_sound_small : (∃ rounds, ∀ fuel ≥ rounds,
        ∃ r, memoryMapLoop fuel smallMap (0x100000, emptyMachine) = some r) ∧
      ∃ s' p m, memoryMapLoop 1 smallMap (0x100000, emptyMachine) = some (0x103000, s') ∧
        s'.allocPhysPages 1 1 = some (p, m) ∧ p = 0x101000 ∧ InUsable smallMap p := by
  have h : (memoryMapLoop 1 smallMap (0x100000, emptyMachine)).map (fun r =>
      (r.1, (r.2.allocPhysPages 1 1).map Prod.fst)) = some (0x103000, some 0x101000) := by
    decide +kernel
  obtain ⟨⟨n, s'⟩, hr, h⟩ := Option.map_eq_some_iff.mp h
  obtain ⟨rfl, h⟩ := Prod.mk.inj h
  obtain ⟨⟨p, m⟩, ha, rfl⟩ := Option.map_eq_some_iff.mp h
  have hok : ∀ e ∈ usable smallMap, HandsOver smallMap e := by
    rw [usable_smallMap]
    intro e he
    rcases List.mem_pair.mp he with rfl | rfl
    · exact ⟨by decide +kernel, by decide +kernel, by decide +kernel⟩
    · exact ⟨by decide +kernel, by decide +kernel, by decide +kernel⟩
  have hrun : UseRun s' [.alloc 1] ⟨m, [], [⟨0x101000, 1⟩]⟩ :=
    .cons ⟨⟨by decide, 1, _, m, ha, rfl⟩, fun _ => PhysOp.noConfusion⟩ (.nil _)
  have hframe : frameOf 0x101000 = 0x101000 := by decide +kernel
  obtain ⟨hreturns, hsound⟩ := memory_map_sound (s := emptyMachine) ⟨rfl, rfl, rfl⟩ hok
  have hin := (hsound 1 _ s' hr).1 _ _ hrun ⟨0x101000, 1⟩ (by simp)
    0x101000 (by rw [hframe]; exact base_mem_pages (by decide))
  exact ⟨hreturns loopOk_smallMap, s', _, m, hr, ha, rfl, hin⟩

/-- A machine with a page above the first four gigabytes. -/
def highMap : List MemoryMapEntry := [⟨0x100000, 0x2000, 1⟩, ⟨2 ^ 32, 0x1000, 1⟩, ⟨0, 0, 0⟩]

/-- **A region above four gigabytes comes onto the free list at its low 32 bits**: the page at `0`,
which is no usable memory, is handed out. -/
theorem high_region_truncated : ∃ s', memoryMapLoop 1 highMap (0x100000, emptyMachine) =
      some (0x103000, s') ∧ ∃ ops σ, UseRun s' ops σ ∧ ∃ r ∈ σ.out,
      ∃ x ∈ pages 4096 (frameOf r.base) r.count, ¬ InUsable highMap x := by
  have h : (memoryMapLoop 1 highMap (0x100000, emptyMachine)).map (fun r =>
      (r.1, (r.2.allocPhysPages 1 1).map Prod.fst)) = some (0x103000, some 0) := by
    decide +kernel
  obtain ⟨⟨n, s'⟩, hr, h⟩ := Option.map_eq_some_iff.mp h
  obtain ⟨rfl, h⟩ := Prod.mk.inj h
  obtain ⟨⟨p, m⟩, ha, rfl⟩ := Option.map_eq_some_iff.mp h
  have hrun : UseRun s' [.alloc 1] ⟨m, [], [⟨0, 1⟩]⟩ :=
    .cons ⟨⟨by decide, 1, _, m, ha, rfl⟩, fun _ => PhysOp.noConfusion⟩ (.nil _)
  have hframe : frameOf 0 = 0 := by decide +kernel
  exact ⟨s', hr, _, _, hrun, ⟨0, 1⟩, by simp, 0, by rw [hframe]; exact base_mem_pages (by decide),
    not_inUsable_zero⟩

end C4os
