import C4os.Sched.Switch
import C4os.Stdlib.Traversal

/-!
# The scheduler and an unfinished list operation

`switch_task` walks the thread ring without its mutex, so the timer may interrupt `list_append` or
`list_remove` between any two of their stores.

* `Store`, `stores`, `runStores`: the stores of straight-line code, in program order.
* `appendStores`, `removeStores`; `listAppend_eq_runStores`, `listRemove_eq_runStores`: all of them
  are the operation.
* `Tasks.candidate`: the threads the loop of `switch_task` comes by; `selectLoop_eq_some_iff`: where
  it stops. `Walkable.selectLoop_isSome`: it stops at a runnable thread on a walk that is `Walkable`.
* **`interrupted_switch`**: after any number of the stores, the walk reaches every member that stays
  and meets an item only once it is linked.
-/

namespace C4os

open Linked

/-- A store of the list code. -/
inductive Store where
  | next (i v : Nat)
  | prev (i v : Nat)
  | list (i v : Nat)
  | first (l v : Nat)
  | count (l v : Nat)
  | mutex (l : Nat) (b : Bool)

/-- What a store does. -/
def Store.apply : Store → ListHeap → ListHeap
  | .next i v, h => h.setNext i v
  | .prev i v, h => h.setPrev i v
  | .list i v, h => h.setList i v
  | .first l v, h => h.setFirst l v
  | .count l v, h => h.setCount l v
  | .mutex l b, h => h.setMutex l b

/-- The stores of a piece of code, each computed from the heap that the earlier ones left. -/
def stores : List (ListHeap → Store) → ListHeap → List Store
  | [], _ => []
  | c :: cs, h => c h :: stores cs ((c h).apply h)

/-- The stores `ss`, one after the other. -/
def runStores (ss : List Store) (h : ListHeap) : ListHeap := ss.foldl (fun h s => s.apply h) h

/-- The statements of `list_append` in program order, for an item whose `list` is `NULL`. -/
def appendCode (l item : Nat) (h : ListHeap) : List (ListHeap → Store) :=
  [fun _ => .mutex l true] ++
  (if (h.lists l).first ≠ 0 then
    [fun _ => .list item l,
     fun h => .next item (h.lists l).first,
     fun h => .prev item (h.prev (h.lists l).first),
     fun h => .next (h.prev item) item,
     fun h => .prev (h.next item) item]
  else
    [fun _ => .next item item,
     fun _ => .prev item item,
     fun _ => .first l item]) ++
  [fun h => .count l (((h.lists l).count + 1) % 2 ^ 32),
   fun _ => .mutex l false]

/-- The statements of `list_remove` in program order. -/
def removeCode (l item : Nat) (h : ListHeap) : List (ListHeap → Store) :=
  [fun _ => .mutex l true] ++
  (if (h.lists l).first = item then
    [fun h => .first l (h.next item)] ++
    (if h.next item = item then [fun _ => .first l 0] else [])
  else []) ++
  [fun h => .prev (h.next item) (h.prev item),
   fun h => .next (h.prev item) (h.next item),
   fun h => .count l (((h.lists l).count + 2 ^ 32 - 1) % 2 ^ 32),
   fun _ => .mutex l false]

/-- The stores of `list_append`. -/
def appendStores (l item : Nat) (h : ListHeap) : List Store := stores (appendCode l item h) h

/-- The stores of `list_remove`. -/
def removeStores (l item : Nat) (h : ListHeap) : List Store := stores (removeCode l item h) h

variable {h : ListHeap} {l item : Nat} {r : List Nat}

theorem runStores_cons (s : Store) (ss : List Store) :
    runStores (s :: ss) h = runStores ss (s.apply h) := rfl

theorem runStores_append (ss ss' : List Store) :
    runStores (ss ++ ss') h = runStores ss' (runStores ss h) := by
  simp [runStores]

/-- All stores of `list_append` are the call. -/
theorem listAppend_eq_runStores (hm : (h.lists l).mutex = false) (hl : (h.items item).list = 0) :
    listAppend l item h = some (runStores (appendStores l item h) h) := by
  rw [listAppend_eq hm hl]
  unfold appendStores appendCode linkItem
  by_cases hf : (h.lists l).first ≠ 0
  · rw [if_pos hf, if_pos (by simpa using hf)]
    rfl
  · rw [if_neg hf, if_neg (by simpa using hf)]
    rfl

/-- All stores of `list_remove` are the call. -/
theorem listRemove_eq_runStores (hm : (h.lists l).mutex = false) (hl : (h.items item).list = l)
    (h0 : l ≠ 0) : listRemove item h = some (runStores (removeStores l item h) h) := by
  rw [listRemove_eq hm hl h0]
  unfold removeStores removeCode unlinkItem unlinkFirst
  by_cases hf : (h.lists l).first = item
  · by_cases hn : h.next item = item
    · rw [if_pos hf, if_pos hn, if_pos (by simpa using hf), if_pos (by simpa using hn)]
      rfl
    · rw [if_pos hf, if_neg hn, if_pos (by simpa using hf), if_neg (by simpa using hn)]
      rfl
  · rw [if_neg hf, if_neg (by simpa using hf)]
    rfl

/-! ## The links after some of the stores -/

theorem next_apply (s : Store) (q : Nat) (hs : ∀ v, s ≠ .next q v) :
    (s.apply h).next q = h.next q := by
  cases s with
  | next i v =>
    have hq : q ≠ i := by
      rintro rfl
      exact hs v rfl
    simp [Store.apply, hq]
  | prev | list | first | count | mutex => simp [Store.apply]

theorem next_runStores {ss : List Store} {q : Nat} (hs : ∀ s ∈ ss, ∀ v, s ≠ .next q v) :
    (runStores ss h).next q = h.next q := by
  induction ss generalizing h with
  | nil => rfl
  | cons s ss ih =>
    rw [runStores_cons, ih fun t ht => hs t (by simp [ht]), next_apply s q (hs s (by simp))]

theorem take_cases {α : Type*} {ss ts done : List α} {s : α} {j : Nat}
    (hd : done = (ss ++ s :: ts).take j) :
    (∃ m, done = ss.take m) ∨ ∃ m, done = ss ++ s :: ts.take m := by
  subst hd
  rcases Nat.lt_or_ge ss.length j with hj | hj
  · obtain ⟨m, rfl⟩ := Nat.exists_eq_add_of_lt hj
    refine Or.inr ⟨m, ?_⟩
    rw [Nat.add_assoc, List.take_length_add_append, List.take_succ_cons]
  · exact Or.inl ⟨j, List.take_append_of_le_length hj⟩

theorem appendStores_eq {a z : Nat} (hf : (h.lists l).first = a) (ha : a ≠ 0) (hz : h.prev a = z)
    (hzi : z ≠ item) :
    appendStores l item h =
      [.mutex l true, .list item l, .next item a, .prev item z] ++ .next z item ::
        [.prev a item, .count l (((h.lists l).count + 1) % 2 ^ 32), .mutex l false] := by
  unfold appendStores appendCode
  rw [if_pos (by rw [hf]; exact ha)]
  simp [stores, Store.apply, hf, hz, hzi.symm]

/-- The stores of a removal to the first item of the list. -/
def firstStores (l item : Nat) (h : ListHeap) : List Store :=
  if (h.lists l).first = item then
    .first l (h.next item) :: if h.next item = item then [.first l 0] else []
  else []

theorem removeStores_eq (l item : Nat) (h : ListHeap) :
    ∃ n, removeStores l item h =
      (.mutex l true :: (firstStores l item h ++ [.prev (h.next item) (h.prev item)])) ++
        .next (h.prev item) (h.next item) :: [.count l n, .mutex l false] := by
  refine ⟨((h.lists l).count + 2 ^ 32 - 1) % 2 ^ 32, ?_⟩
  unfold removeStores removeCode firstStores
  split_ifs <;> simp [stores, Store.apply, -Nat.reducePow]

theorem firstStores_not_next {s : Store} (hs : s ∈ firstStores l item h) (q v : Nat) :
    s ≠ .next q v := by
  unfold firstStores at hs
  split_ifs at hs <;> aesop

/-! ## The walk -/

/-- The thread that the loop of `switch_task` comes by after `k` steps. -/
def Tasks.candidate (s : Tasks) (k : Nat) : Nat := s.heap.next^[k] s.currentThread

@[simp] theorem Tasks.candidate_zero (s : Tasks) : s.candidate 0 = s.currentThread := rfl

/-- **The loop of `switch_task` stops at the first runnable thread it comes by.** -/
theorem selectLoop_eq_some_iff {fuel : Nat} {s s' : Tasks} :
    selectLoop fuel s = some s' ↔
      ∃ k < fuel, s.runnable (s.candidate (k + 1)) = true ∧
        (∀ i < k, s.runnable (s.candidate (i + 1)) = false) ∧
          s' = s.select (s.candidate (k + 1)) := by
  induction fuel generalizing s with
  | zero => simp [selectLoop]
  | succ fuel ih =>
    rw [selectLoop_succ]
    change (if s.runnable (s.candidate 1) then _ else _) = _ ↔ _
    by_cases hr : s.runnable (s.candidate 1) = true
    · rw [if_pos hr]
      constructor
      · intro h
        exact ⟨0, by omega, hr, by simp, (Option.some.inj h).symm⟩
      · rintro ⟨k, -, -, hk, rfl⟩
        cases k with
        | zero => rfl
        | succ k => simp [hk 0 (by omega)] at hr
    · rw [if_neg hr]
      refine ih.trans ?_
      constructor
      · rintro ⟨k, hk, hx, hl, rfl⟩
        refine ⟨k + 1, by omega, hx, fun i hi => ?_, rfl⟩
        cases i with
        | zero => simpa using hr
        | succ i => exact hl i (by omega)
      · rintro ⟨k, hk, hx, hl, rfl⟩
        cases k with
        | zero => exact absurd hx hr
        | succ k => exact ⟨k, by omega, hx, fun i hi => hl (i + 1) (by omega), rfl⟩

/-- What the walk of `switch_task` does while `item` is added to or removed from the ring of `r`:
it reaches every member that stays, within one more step than there are members, it comes by
members and the item only, and by an item that is no member only when its links are stored. -/
structure Walkable (s : Tasks) (r : List Nat) (item : Nat) (done : List Store) : Prop where
  reaches : ∀ y ∈ r, y ≠ item → ∃ k, 0 < k ∧ k ≤ r.length + 1 ∧ s.candidate k = y
  stays : ∀ k, s.candidate k ∈ r ∨ s.candidate k = item
  linked : item ∉ r → ∀ k, s.candidate k = item →
    ∃ v w, Store.next item v ∈ done ∧ Store.prev item w ∈ done

/-- **The loop of `switch_task` finds a runnable thread** on such a walk, when a member that stays is
runnable. -/
theorem Walkable.selectLoop_isSome {s : Tasks} {done : List Store} (hw : Walkable s r item done)
    {y : Nat} (hy : y ∈ r) (hyi : y ≠ item) (hrun : s.runnable y = true) :
    ∃ x s', selectLoop (r.length + 1) s = some s' ∧ s' = s.select x ∧ (x ∈ r ∨ x = item) ∧
      s.runnable x = true := by
  obtain ⟨k, hk, hkl, hky⟩ := hw.reaches y hy hyi
  have hex : ∃ i, s.runnable (s.candidate (i + 1)) = true := by
    refine ⟨k - 1, ?_⟩
    rw [Nat.sub_add_cancel hk, hky]
    exact hrun
  have hmin : Nat.find hex ≤ k - 1 := Nat.find_min' hex (by
    rw [Nat.sub_add_cancel hk, hky]
    exact hrun)
  refine ⟨s.candidate (Nat.find hex + 1), _, selectLoop_eq_some_iff.mpr ⟨Nat.find hex, by omega,
    Nat.find_spec hex, fun i hi => ?_, rfl⟩, rfl, hw.stays _, Nat.find_spec hex⟩
  exact Bool.eq_false_iff.mpr (Nat.find_min hex hi)

theorem walkable_of_ring {s : Tasks} {r r' : List Nat} {item : Nat} {done : List Store}
    {prev : Nat → Nat} (hr : Ring s.heap.next prev r') (hc : s.currentThread ∈ r')
    (hlen : r'.length ≤ r.length + 1) (hsub : ∀ y ∈ r, y ≠ item → y ∈ r')
    (hsup : ∀ y ∈ r', y ∈ r ∨ y = item)
    (hl : item ∉ r → item ∈ r' → ∃ v w, Store.next item v ∈ done ∧ Store.prev item w ∈ done) :
    Walkable s r item done := by
  refine ⟨fun y hy hyi => ?_, fun k => hsup _ (hr.iterate_mem hc k), fun hi k hk => ?_⟩
  · obtain ⟨k, hk, hkl, he⟩ := hr.exists_iterate hc (hsub y hy hyi)
    exact ⟨k, hk, hkl.trans hlen, he⟩
  · exact hl hi (hk ▸ hr.iterate_mem hc k)

/-! ## An unfinished append -/

/-- After some of the stores of an append, the ring is the old one, or it has the item too and the
links of the item are stored. -/
theorem append_ring {a j : Nat} {r : List Nat} {done : List Store}
    (hr : Ring h.next h.prev (a :: r)) (hf : (h.lists l).first = a) (ha : a ≠ 0)
    (hi : item ∉ a :: r) (hd : done = (appendStores l item h).take j) :
    (∃ prev, Ring (runStores done h).next prev (a :: r)) ∨
      (∃ prev, Ring (runStores done h).next prev (a :: (r ++ [item]))) ∧
        ∃ v w, Store.next item v ∈ done ∧ Store.prev item w ∈ done := by
  have hz : h.prev a ≠ item := fun e => hi (e ▸ hr.prev_mem (by simp))
  have hai : item ≠ a := fun e => hi (by simp [e])
  rw [appendStores_eq hf ha rfl hz] at hd
  rcases take_cases hd with ⟨m, rfl⟩ | ⟨m, rfl⟩
  · -- the item may have its links, no member leads to it
    refine Or.inl ⟨h.prev, hr.congr (fun x hx => next_runStores fun s hs v => ?_) fun _ _ => rfl⟩
    have hxi : item ≠ x := fun e => hi (e ▸ hx)
    have hs' := List.mem_of_mem_take hs
    simp only [List.mem_cons, List.not_mem_nil, or_false] at hs'
    rcases hs' with rfl | rfl | rfl | rfl <;> simp [hxi]
  · refine Or.inr ⟨⟨fun q => if q = item then h.prev a else if q = a then item else h.prev q, ?_⟩,
      a, h.prev a, by simp, by simp⟩
    have hnext : ∀ q, (runStores ([.mutex l true, .list item l, .next item a,
        .prev item (h.prev a)] ++ .next (h.prev a) item :: List.take m [.prev a item,
          .count l (((h.lists l).count + 1) % 2 ^ 32), .mutex l false]) h).next q =
        if q = h.prev a then item else if q = item then a else h.next q := by
      intro q
      rw [runStores_append, runStores_cons, next_runStores fun s hs v => ?_]
      · simp [runStores, Store.apply]
      · have hs' := List.mem_of_mem_take hs
        simp only [List.mem_cons, List.not_mem_nil, or_false] at hs'
        rcases hs' with rfl | rfl | rfl <;> simp
    refine hr.insert hi ?_ ?_ ?_ ?_ (fun y hy hyz => ?_) fun y hy hya => ?_
    · rw [hnext, if_pos rfl]
    · rw [hnext, if_neg hz.symm, if_pos rfl]
    · exact if_pos rfl
    · simp [hai.symm]
    · have hyi : y ≠ item := fun e => hi (e ▸ hy)
      rw [hnext, if_neg hyz, if_neg hyi]
    · have hyi : y ≠ item := fun e => hi (e ▸ hy)
      simp [hyi, hya]

theorem append_walkable {s : Tasks} {j : Nat} (hr : OnRing h l r) (hne : r ≠ []) (hi : item ∉ r)
    (hs : s.heap = runStores ((appendStores l item h).take j) h) (hc : s.currentThread ∈ r) :
    Walkable s r item ((appendStores l item h).take j) := by
  cases r with
  | nil => exact absurd rfl hne
  | cons a r =>
    obtain ⟨hf, ha, hring⟩ := hr
    rcases append_ring hring hf ha hi rfl (j := j) with ⟨prev, hp⟩ | ⟨⟨prev, hp⟩, hl⟩
    · rw [← hs] at hp
      refine walkable_of_ring hp hc (by simp) (fun y hy _ => hy) (fun y hy => Or.inl hy) ?_
      exact fun hi hi' => absurd hi' hi
    · rw [← hs] at hp
      refine walkable_of_ring hp ?_ (by simp) ?_ ?_ fun _ _ => hl
      · rw [← List.cons_append]
        exact List.mem_append_left _ hc
      · intro y hy _
        rw [← List.cons_append]
        exact List.mem_append_left _ hy
      · intro y hy
        rw [← List.cons_append, List.mem_append, List.mem_singleton] at hy
        exact hy

/-! ## An unfinished removal -/

theorem remove_next {j : Nat} {done : List Store} (hd : done = (removeStores l item h).take j) :
    (runStores done h).next = h.next ∨ ∀ q, (runStores done h).next q =
      if q = h.prev item then h.next item else h.next q := by
  obtain ⟨n, he⟩ := removeStores_eq l item h
  rw [he] at hd
  have hfirst : ∀ s ∈ (Store.mutex l true :: (firstStores l item h ++
      [.prev (h.next item) (h.prev item)])), ∀ q v, s ≠ .next q v := by
    intro s hs q v
    simp only [List.mem_cons, List.mem_append, List.not_mem_nil, or_false] at hs
    rcases hs with rfl | hs | rfl
    · simp
    · exact firstStores_not_next hs q v
    · simp
  rcases take_cases hd with ⟨m, rfl⟩ | ⟨m, rfl⟩
  · left
    funext q
    exact next_runStores fun s hs => hfirst s (List.mem_of_mem_take hs) q
  · right
    intro q
    rw [runStores_append, runStores_cons, next_runStores fun s hs v => ?_]
    · have hbefore : ∀ x, (runStores (Store.mutex l true :: (firstStores l item h ++
          [.prev (h.next item) (h.prev item)])) h).next x = h.next x :=
        fun x => next_runStores fun s hs => hfirst s hs x
      simp only [Store.apply, ListHeap.next_setNext, hbefore]
    · have hs' := List.mem_of_mem_take hs
      simp only [List.mem_cons, List.not_mem_nil, or_false] at hs'
      rcases hs' with rfl | rfl <;> simp

/-- The timer may interrupt `list_remove` between any two of its stores, also while the thread that
is removed runs. -/
theorem remove_walkable {s : Tasks} {j : Nat} (hr : OnRing h l r) (hlen : 2 ≤ r.length)
    (hi : item ∈ r) (hs : s.heap = runStores ((removeStores l item h).take j) h)
    (hc : s.currentThread ∈ r) : Walkable s r item ((removeStores l item h).take j) := by
  have hring : Ring h.next h.prev r := by
    cases r with
    | nil => simp at hi
    | cons a r => exact hr.2.2
  have hd : (removeStores l item h).take j = (removeStores l item h).take j := rfl
  rcases remove_next hd with hn | hn
  · rw [← hs] at hn
    rw [← hn] at hring
    exact walkable_of_ring hring hc (by omega) (fun y hy _ => hy) (fun y hy => Or.inl hy)
      fun hni => absurd hi hni
  · rw [← hs] at hn
    obtain ⟨l₁, l₂, rfl, hring'⟩ := hring.exists_cons hi
    have hnd := hring'.nodup
    simp only [List.length_append, List.length_cons] at hlen
    have hne : l₁ ++ l₂ ≠ [] := by
      intro e
      have := congrArg List.length e
      simp only [List.length_append, List.length_nil] at this
      omega
    have hrest : Ring s.heap.next (fun q => if q = h.next item then h.prev item else h.prev q)
        (l₁ ++ l₂) := hring.erase_mem hne hn fun q => rfl
    have hmem : ∀ {y}, y ∈ l₁ ++ item :: l₂ → y ≠ item → y ∈ l₁ ++ l₂ := by
      intro y hy hyi
      simpa [hyi] using hy
    have hmem' : ∀ {y}, y ∈ l₁ ++ l₂ → y ∈ l₁ ++ item :: l₂ := by
      intro y hy
      simp only [List.mem_append, List.mem_cons] at hy ⊢
      tauto
    by_cases hci : s.currentThread = item
    · -- the thread that is removed still leads to the one behind it
      have hself : h.next item ≠ item := by
        intro e
        have hnil := hring'.next_eq_self.mp e
        rw [List.append_eq_nil_iff] at hnil
        exact hne (List.append_eq_nil_iff.mpr hnil.symm)
      have hprev : item ≠ h.prev item := fun e => hself (by
        rw [e, hring.next_prev hi, ← e])
      have hnext : s.candidate 1 ∈ l₁ ++ l₂ := by
        have h1 : s.candidate 1 = h.next item := by
          change s.heap.next s.currentThread = _
          rw [hci, hn, if_neg hprev]
        rw [h1]
        exact hmem (hring.next_mem hi) hself
      refine ⟨fun y hy hyi => ?_, fun k => ?_, fun hni => absurd hi hni⟩
      · obtain ⟨k, -, hk, he⟩ := hrest.exists_iterate hnext (hmem hy hyi)
        refine ⟨k + 1, by omega, ?_, he⟩
        simp only [List.length_append, List.length_cons] at hk ⊢
        omega
      · cases k with
        | zero => exact Or.inr hci
        | succ k => exact Or.inl (hmem' (hrest.iterate_mem hnext k))
    · refine walkable_of_ring hrest (hmem hc hci) ?_ (fun y hy hyi => hmem hy hyi)
        (fun y hy => Or.inl (hmem' hy)) fun hni => absurd hi hni
      simp only [List.length_append, List.length_cons]
      omega

/-- **The timer may interrupt a list operation anywhere.** On a non-empty well-formed thread ring,
the stores of an append of an item on no ring, or of a removal of a member that is not alone, make
up the operation; after any number of them, the walk that `switch_task` starts at any member is
`Walkable`, so its loop stops as `Walkable.selectLoop_isSome` says. -/
theorem interrupted_switch (hr : ListOk h l r) (hne : r ≠ []) (h0 : l ≠ 0) :
    (∀ item, item ∉ r → (h.items item).list = 0 →
      ((h.lists l).mutex = false →
        listAppend l item h = some (runStores (appendStores l item h) h)) ∧
      ∀ (j : Nat) (s : Tasks), s.heap = runStores ((appendStores l item h).take j) h →
        s.currentThread ∈ r → Walkable s r item ((appendStores l item h).take j)) ∧
    ∀ item ∈ r, 2 ≤ (h.lists l).count → (h.items item).list = l →
      ((h.lists l).mutex = false →
        listRemove item h = some (runStores (removeStores l item h) h)) ∧
      ∀ (j : Nat) (s : Tasks), s.heap = runStores ((removeStores l item h).take j) h →
        s.currentThread ∈ r → Walkable s r item ((removeStores l item h).take j) := by
  refine ⟨fun item hi hl => ⟨fun hm => listAppend_eq_runStores hm hl, fun j s hs hc => ?_⟩,
    fun item hi hlen hl => ⟨fun hm => listRemove_eq_runStores hm hl h0, fun j s hs hc => ?_⟩⟩
  · exact append_walkable hr.onRing hne hi hs hc
  · exact remove_walkable hr.onRing (hr.count ▸ hlen) hi hs hc

/-- The thread `8` runs while it is being removed from its ring. -/
def pairTasks (heap : ListHeap) : Tasks where
  heap := heap
  threads _ := ⟨0, false, ⟨0, 0, 0, 0, 0, 0, 0, 0, 0, 0, 0, 0, 0, 0, 0, 0⟩⟩
  processes _ := ⟨0, false⟩
  currentThread := 8
  currentProcess := 0
  multitaskingEnabled := true
  indicator := 0
  cr3 := 0
  tss _ := ⟨0, 0⟩

theorem interrupted_switch_pair :
    Walkable (pairTasks (runStores ((removeStores 4 8 pairHeap).take 4) pairHeap)) [8, 16] 8
      ((removeStores 4 8 pairHeap).take 4) :=
  ((interrupted_switch listOk_pairHeap (by decide) (by decide)).2 8 (by decide) (by decide)
    rfl).2 4 _ rfl (by decide)

end C4os
