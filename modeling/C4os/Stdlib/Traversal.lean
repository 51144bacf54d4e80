import C4os.Stdlib.List
import Mathlib.Data.Finset.Card
import Mathlib.Order.Interval.Finset.Nat

/-!
# The list operations on well-formed lists

A list is read from its first item along `next`, as many items as it counts.

* `traversal`: the items of a list in this order; `ListOk`, `ListOk.traversal_eq`.
* `Updated`: what an operation on a list may change, and what the list holds afterwards.
* `listAppend_updated`, `listRemove_updated`, **`list_operations`**: an append puts the item behind
  the others, a removal takes it out of their order, and nothing else changes.
-/

namespace C4os

open Linked

/-- The items of a list, from its first one along `next`. -/
def traversal (h : ListHeap) (l : Nat) : List Nat :=
  List.iterate h.next (h.lists l).first (h.lists l).count

/-- The list `l` is well formed and holds the items `r`: no item, or a ring of as many distinct
items as it counts. An item is at an address of 32 bits other than `NULL`. -/
structure ListOk (h : ListHeap) (l : Nat) (r : List Nat) : Prop where
  onRing : OnRing h l r
  count : (h.lists l).count = r.length
  address : ∀ x ∈ r, x ≠ 0 ∧ x < 2 ^ 32

/-- The list `l` is well formed. -/
def WellFormed (h : ListHeap) (l : Nat) : Prop := ∃ r, ListOk h l r

/-- An operation on the list `l` that adds or removes `item`: the list then holds `r`, its mutex is
free, and the items on no ring of `l` and the other lists are as before. -/
structure Updated (h h' : ListHeap) (l item : Nat) (r : List Nat) : Prop where
  wellFormed : WellFormed h' l
  traversal : C4os.traversal h' l = r
  released : (h'.lists l).mutex = false
  items : ∀ x, x ∉ C4os.traversal h l → x ≠ item → h'.items x = h.items x
  lists : ∀ l' ≠ l, h'.lists l' = h.lists l'

variable {h h' : ListHeap} {l item : Nat} {r : List Nat}

theorem OnRing.nodup (hr : OnRing h l r) : r.Nodup := by
  cases r with
  | nil => exact List.nodup_nil
  | cons a r => exact hr.2.2.nodup

theorem ListOk.traversal_eq (hr : ListOk h l r) : traversal h l = r := by
  unfold traversal
  rw [hr.count]
  cases r with
  | nil => rfl
  | cons a r => rw [hr.onRing.1, List.length_cons, hr.onRing.2.2.seg.iterate_eq]

theorem length_lt {r : List Nat} (hnd : r.Nodup) (ha : ∀ x ∈ r, x ≠ 0 ∧ x < 2 ^ 32) :
    r.length < 2 ^ 32 := by
  have hsub : r.toFinset ⊆ Finset.Ico 1 (2 ^ 32) := by
    intro x hx
    have := ha x (List.mem_toFinset.mp hx)
    exact Finset.mem_Ico.mpr ⟨by omega, this.2⟩
  have hcard := Finset.card_le_card hsub
  rw [List.toFinset_card_of_nodup hnd, Nat.card_Ico] at hcard
  omega

theorem updated_release {g : ListHeap} {n : Nat} {r' : List Nat} (hr : ListOk h l r)
    (hg : OnRing g l r') (ha : ∀ x ∈ r', x ≠ 0 ∧ x < 2 ^ 32) (hn : n = r'.length)
    (hi : ∀ x, x ∉ r → x ≠ item → g.items x = h.items x)
    (hl : ∀ l' ≠ l, g.lists l' = h.lists l') :
    Updated h (mutexRelease l (g.setCount l n)) l item r' := by
  have hok : ListOk (mutexRelease l (g.setCount l n)) l r' :=
    { onRing := onRing_setMutex.mpr (onRing_setCount.mpr hg)
      count := by simp [mutexRelease, hn]
      address := ha }
  refine ⟨⟨r', hok⟩, hok.traversal_eq, by simp [mutexRelease], fun x hx hxi => ?_, fun l' hl' => ?_⟩
  · rw [hr.traversal_eq] at hx
    simp [mutexRelease, hi x hx hxi]
  · simp [mutexRelease, ListHeap.setMutex, ListHeap.setCount, hl', hl l' hl']

/-! ## Append -/

theorem linkItem_items (hr : OnRing h l r) {x : Nat} (hx : x ∉ r) (hxi : x ≠ item) :
    (linkItem l item h).items x = h.items x := by
  cases r with
  | nil =>
    have hf : (h.lists l).first = 0 := hr
    unfold linkItem
    rw [if_neg (by simp [hf])]
    exact (ListHeap.items_setPrev_ne _ _ _ _ hxi).trans (ListHeap.items_setNext_ne _ _ _ _ hxi)
  | cons a r =>
    obtain ⟨hf, ha, hring⟩ := hr
    have hxa : x ≠ a := fun e => hx (by simp [e])
    have hxz : x ≠ h.prev a := fun e => hx (e ▸ hring.prev_mem (by simp))
    unfold linkItem
    rw [if_pos (by rw [hf]; exact ha)]
    refine (ListHeap.items_setPrev_ne _ _ _ _ ?_).trans ?_
    · simp only [ListHeap.next_setNext, ListHeap.next_setPrev, ListHeap.next_setList,
        ListHeap.lists_setList, hf]
      split_ifs <;> assumption
    refine (ListHeap.items_setNext_ne _ _ _ _ ?_).trans ?_
    · simp [hf, hxz]
    · rw [ListHeap.items_setPrev_ne _ _ _ _ hxi, ListHeap.items_setNext_ne _ _ _ _ hxi,
        ListHeap.items_setList_ne _ _ _ _ hxi]

theorem linkItem_lists {l' : Nat} (hl : l' ≠ l) : (linkItem l item h).lists l' = h.lists l' := by
  unfold linkItem
  split_ifs <;> simp [ListHeap.setFirst, hl]

theorem linkItem_count : ((linkItem l item h).lists l).count = (h.lists l).count := by
  unfold linkItem
  split_ifs <;> simp

/-- **An append puts the item behind the others.** -/
theorem listAppend_updated (hr : ListOk h l r) (hm : (h.lists l).mutex = false)
    (hl : (h.items item).list = 0) (hi : item ∉ r) (ha : item ≠ 0 ∧ item < 2 ^ 32) :
    ∃ h', listAppend l item h = some h' ∧ Updated h h' l item (r ++ [item]) ∧
      (h'.lists l).count = (h.lists l).count + 1 := by
  have hring : OnRing (h.setMutex l true) l r := onRing_setMutex.mpr hr.onRing
  have hnew := linkItem_onRing hring hi fun _ => ha.1
  have haddr : ∀ x ∈ r ++ [item], x ≠ 0 ∧ x < 2 ^ 32 := by
    intro x hx
    rcases List.mem_append.mp hx with hx | hx
    · exact hr.address x hx
    · rw [List.mem_singleton.mp hx]
      exact ha
  have hcount : ((linkItem l item (h.setMutex l true)).lists l).count = r.length := by
    rw [linkItem_count, ListHeap.count_setMutex, hr.count]
  have hlen := length_lt hnew.nodup haddr
  rw [List.length_append, List.length_singleton] at hlen
  refine ⟨_, listAppend_eq hm hl, ?_, ?_⟩
  · refine updated_release hr hnew haddr ?_ (fun x hx hxi => ?_) fun l' hl' => ?_
    · rw [hcount, Nat.mod_eq_of_lt hlen, List.length_append, List.length_singleton]
    · exact linkItem_items hring hx hxi
    · rw [linkItem_lists hl']
      simp [ListHeap.setMutex, hl']
  · have hv : ((linkItem l item (h.setMutex l true)).lists l).count + 1 < 2 ^ 32 := by
      rw [hcount]
      exact hlen
    rw [Nat.mod_eq_of_lt hv]
    simp [mutexRelease, hcount, hr.count]

/-! ## Remove -/

/-- The pointer updates of `list_remove`. -/
def unlinkItem (l item : Nat) (h : ListHeap) : ListHeap :=
  let h := unlinkFirst l item h
  let h := h.setPrev (h.next item) (h.prev item)
  h.setNext (h.prev item) (h.next item)

theorem listRemove_eq (hm : (h.lists l).mutex = false) (hl : (h.items item).list = l)
    (h0 : l ≠ 0) :
    listRemove item h = some (mutexRelease l ((unlinkItem l item (h.setMutex l true)).setCount l
      ((((unlinkItem l item (h.setMutex l true)).lists l).count + 2 ^ 32 - 1) % 2 ^ 32))) := by
  have hget : mutexGet l h = some (h.setMutex l true) := by simp [mutexGet, hm]
  simp only [listRemove, hl, if_neg h0, hget, Option.map_some, unlinkItem]

@[simp] theorem unlinkFirst_items : (unlinkFirst l item h).items = h.items := by
  simp only [unlinkFirst]
  split_ifs <;> rfl

@[simp] theorem unlinkFirst_next : (unlinkFirst l item h).next = h.next := by
  funext q
  simp [ListHeap.next]

@[simp] theorem unlinkFirst_prev : (unlinkFirst l item h).prev = h.prev := by
  funext q
  simp [ListHeap.prev]

theorem unlinkFirst_lists {l' : Nat} (hl : l' ≠ l) :
    (unlinkFirst l item h).lists l' = h.lists l' := by
  simp only [unlinkFirst]
  split_ifs <;> simp [ListHeap.setFirst, hl]

theorem unlinkFirst_count : ((unlinkFirst l item h).lists l).count = (h.lists l).count := by
  simp only [unlinkFirst]
  split_ifs <;> simp

theorem unlinkFirst_first : ((unlinkFirst l item h).lists l).first =
    if (h.lists l).first = item then if h.next item = item then 0 else h.next item
    else (h.lists l).first := by
  simp only [unlinkFirst, ListHeap.first_setFirst]
  split_ifs <;> simp

theorem unlinkItem_next (q : Nat) :
    (unlinkItem l item h).next q = if q = h.prev item then h.next item else h.next q := by
  simp [unlinkItem]

theorem unlinkItem_prev (q : Nat) :
    (unlinkItem l item h).prev q = if q = h.next item then h.prev item else h.prev q := by
  simp [unlinkItem]

theorem unlinkItem_onRing {l₁ l₂ : List Nat} (hr : OnRing h l (l₁ ++ item :: l₂))
    (h0 : ∀ x ∈ l₁ ++ l₂, x ≠ 0) : OnRing (unlinkItem l item h) l (l₁ ++ l₂) := by
  have hfirst : ((unlinkItem l item h).lists l).first = ((unlinkFirst l item h).lists l).first := by
    simp [unlinkItem]
  rw [unlinkFirst_first] at hfirst
  have hnd := hr.nodup
  cases l₁ with
  | nil =>
    obtain ⟨hf, -, hring⟩ := hr
    rw [if_pos hf] at hfirst
    cases l₂ with
    | nil =>
      rw [if_pos (ring_singleton.mp hring).1] at hfirst
      exact hfirst
    | cons b m =>
      have hb : h.next item = b := hring.seg.1.1
      have hbi : b ≠ item := fun e => (List.nodup_cons.mp hnd).1 (by simp [e])
      rw [hb, if_neg hbi] at hfirst
      refine ⟨hfirst, h0 b (by simp), ?_⟩
      have hring' : Ring h.next h.prev ([] ++ item :: b :: m) := hring
      exact hring'.erase_mem (by simp) unlinkItem_next unlinkItem_prev
  | cons a l₁ =>
    obtain ⟨hf, ha, hring⟩ := hr
    have hai : a ≠ item := fun e => (List.nodup_cons.mp hnd).1 (by simp [e])
    rw [if_neg (by rw [hf]; exact hai)] at hfirst
    have hring' : Ring h.next h.prev (a :: l₁ ++ item :: l₂) := hring
    exact ⟨hfirst.trans hf, ha, hring'.erase_mem (by simp) unlinkItem_next unlinkItem_prev⟩

theorem unlinkItem_items (hr : OnRing h l r) (hi : item ∈ r) {x : Nat} (hx : x ∉ r) :
    (unlinkItem l item h).items x = h.items x := by
  have hn : h.next item ∈ r ∧ h.prev item ∈ r := by
    cases r with
    | nil => simp at hi
    | cons a r => exact ⟨hr.2.2.next_mem hi, hr.2.2.prev_mem hi⟩
  have hxn : x ≠ h.next item := fun e => hx (e ▸ hn.1)
  have hxp : x ≠ h.prev item := fun e => hx (e ▸ hn.2)
  unfold unlinkItem
  refine (ListHeap.items_setNext_ne _ _ _ _ (by simpa using hxp)).trans ?_
  rw [ListHeap.items_setPrev_ne _ _ _ _ (by simpa using hxn), unlinkFirst_items]

theorem unlinkItem_lists {l' : Nat} (hl : l' ≠ l) :
    (unlinkItem l item h).lists l' = h.lists l' := by
  simp [unlinkItem, unlinkFirst_lists hl]

theorem unlinkItem_count : ((unlinkItem l item h).lists l).count = (h.lists l).count := by
  simp [unlinkItem, unlinkFirst_count]

/-- **A removal takes the member out of the order of the others.** -/
theorem listRemove_updated (hr : ListOk h l r) (hm : (h.lists l).mutex = false)
    (hl : (h.items item).list = l) (h0 : l ≠ 0) (hi : item ∈ r) :
    ∃ h', listRemove item h = some h' ∧ Updated h h' l item (r.erase item) ∧
      (h'.lists l).count + 1 = (h.lists l).count := by
  have hring : OnRing (h.setMutex l true) l r := onRing_setMutex.mpr hr.onRing
  have haddr : ∀ x ∈ r.erase item, x ≠ 0 ∧ x < 2 ^ 32 :=
    fun x hx => hr.address x (List.mem_of_mem_erase hx)
  have hnew : OnRing (unlinkItem l item (h.setMutex l true)) l (r.erase item) := by
    obtain ⟨l₁, l₂, hl₁, rfl, he⟩ := List.exists_erase_eq hi
    rw [he] at haddr ⊢
    exact unlinkItem_onRing hring fun x hx => (haddr x hx).1
  have hlen : (r.erase item).length + 1 = r.length := by
    rw [List.length_erase_of_mem hi]
    have := List.length_pos_of_mem hi
    omega
  have hlt := length_lt hr.onRing.nodup hr.address
  have hcount : ((unlinkItem l item (h.setMutex l true)).lists l).count = r.length := by
    rw [unlinkItem_count, ListHeap.count_setMutex, hr.count]
  have hv : (((unlinkItem l item (h.setMutex l true)).lists l).count + 2 ^ 32 - 1) % 2 ^ 32 =
      (r.erase item).length := by
    rw [hcount]
    omega
  refine ⟨_, listRemove_eq hm hl h0, ?_, ?_⟩
  · rw [hv]
    refine updated_release hr hnew haddr rfl (fun x hx _ => ?_) fun l' hl' => ?_
    · exact unlinkItem_items hring hi hx
    · rw [unlinkItem_lists hl']
      simp [ListHeap.setMutex, hl']
  · rw [hv, hr.count, ← hlen]
    simp [mutexRelease]

/-! ## Both operations -/

theorem listAppend_held (hm : (h.lists l).mutex = true) (hl : (h.items item).list = 0) :
    listAppend l item h = none := by
  simp [listAppend, mutexGet, hl, hm]

theorem listRemove_held (hm : (h.lists l).mutex = true) (hl : (h.items item).list = l) :
    listRemove item h = none := by
  have hget : mutexGet l h = none := by simp [mutexGet, hm]
  simp only [listRemove, hl, hget, Option.map_none, ite_self]

/-- **The list operations act exactly on the ring.** On a well-formed list, an append of an item on
no ring, with `list` `NULL`, puts it behind the others, and a removal of a member whose `list`
field names the list takes it out of their order. Both count by one, keep the list well formed,
release the mutex, and change no other item and no other list; they return when the mutex is free. -/
theorem list_operations (hw : WellFormed h l) (h0 : l ≠ 0) :
    (∀ item, item ≠ 0 ∧ item < 2 ^ 32 → item ∉ traversal h l → (h.items item).list = 0 →
      ((h.lists l).mutex = false → (listAppend l item h).isSome) ∧
      ∀ h', listAppend l item h = some h' →
        Updated h h' l item (traversal h l ++ [item]) ∧
          (h'.lists l).count = (h.lists l).count + 1) ∧
    ∀ item ∈ traversal h l, (h.items item).list = l →
      ((h.lists l).mutex = false → (listRemove item h).isSome) ∧
      ∀ h', listRemove item h = some h' →
        Updated h h' l item ((traversal h l).erase item) ∧
          (h'.lists l).count + 1 = (h.lists l).count := by
  obtain ⟨r, hr⟩ := hw
  rw [hr.traversal_eq]
  refine ⟨fun item ha hi hl => ?_, fun item hi hl => ?_⟩
  · cases hm : (h.lists l).mutex with
    | true => simp [listAppend_held hm hl]
    | false =>
      obtain ⟨g, he, hu⟩ := listAppend_updated hr hm hl hi ha
      rw [he]
      exact ⟨fun _ => rfl, fun h' hh => Option.some.inj hh ▸ hu⟩
  · cases hm : (h.lists l).mutex with
    | true => simp [listRemove_held hm hl]
    | false =>
      obtain ⟨g, he, hu⟩ := listRemove_updated hr hm hl h0 hi
      rw [he]
      exact ⟨fun _ => rfl, fun h' hh => Option.some.inj hh ▸ hu⟩

/-- The list at `4` with the items `8` and `16`. -/
def pairHeap : ListHeap where
  items i := if i = 8 then ⟨16, 16, 4⟩ else if i = 16 then ⟨8, 8, 4⟩ else ⟨0, 0, 0⟩
  lists _ := ⟨8, 2, false⟩

theorem listOk_pairHeap : ListOk pairHeap 4 [8, 16] := by
  refine ⟨⟨rfl, by decide, by decide, ⟨rfl, rfl⟩, rfl, rfl⟩, rfl, ?_⟩
  simp

theorem list_operations_pair :
    (listAppend 4 24 pairHeap).map (traversal · 4) = some [8, 16, 24] ∧
      (listRemove 8 pairHeap).map (traversal · 4) = some [16] := by
  have h := list_operations ⟨_, listOk_pairHeap⟩ (by decide)
  obtain ⟨happ, hupd⟩ := h.1 24 (by decide) (by decide) rfl
  obtain ⟨hrem, hupd'⟩ := h.2 8 (by decide) rfl
  obtain ⟨g, hg⟩ := Option.isSome_iff_exists.mp (happ rfl)
  obtain ⟨g', hg'⟩ := Option.isSome_iff_exists.mp (hrem rfl)
  rw [hg, hg', Option.map_some, Option.map_some, (hupd g hg).1.traversal,
    (hupd' g' hg').1.traversal]
  exact ⟨rfl, rfl⟩

end C4os
