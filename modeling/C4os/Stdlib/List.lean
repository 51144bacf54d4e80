import Mathlib.Logic.Function.Basic
import C4os.Lib.Ring

/-!
# Lists of the kernel (`stdlib.c`)

Intrusive lists: a `List` holds the first item, the number of items and a mutex; a `ListItem` sits
at the start of every process and thread. A pointer is an address, `0` is `NULL`.

* `listInit`, `listAppend`, `listRemove`, on a heap of items and lists.
* `OnRing h l r`: the items of list `l` are `r`, in this order.
* **`listAppend_onRing`**: an append puts the item at the end of the ring.
* **`appendAll_onRing`**: appending distinct items to an empty list makes their ring.
-/

namespace C4os

open Linked

/-- `ListItem`. -/
structure ListItem where
  next : Nat
  prev : Nat
  list : Nat

/-- `List`. -/
structure ListStruct where
  first : Nat
  count : Nat
  mutex : Bool

/-- The items and the lists of memory, by address. -/
structure ListHeap where
  items : Nat → ListItem
  lists : Nat → ListStruct

namespace ListHeap

/-- The field `next` of the item `i`. -/
def next (h : ListHeap) (i : Nat) : Nat := (h.items i).next

/-- The field `prev` of the item `i`. -/
def prev (h : ListHeap) (i : Nat) : Nat := (h.items i).prev

/-- A store to `next` of the item `i`. -/
def setNext (h : ListHeap) (i v : Nat) : ListHeap :=
  { h with items := Function.update h.items i { h.items i with next := v } }

/-- A store to `prev` of the item `i`. -/
def setPrev (h : ListHeap) (i v : Nat) : ListHeap :=
  { h with items := Function.update h.items i { h.items i with prev := v } }

/-- A store to `list` of the item `i`. -/
def setList (h : ListHeap) (i v : Nat) : ListHeap :=
  { h with items := Function.update h.items i { h.items i with list := v } }

/-- All fields of the item `i` at once. -/
def setItem (h : ListHeap) (i : Nat) (item : ListItem) : ListHeap :=
  { h with items := Function.update h.items i item }

/-- A store to `first` of the list `l`. -/
def setFirst (h : ListHeap) (l v : Nat) : ListHeap :=
  { h with lists := Function.update h.lists l { h.lists l with first := v } }

/-- A store to `count` of the list `l`. -/
def setCount (h : ListHeap) (l v : Nat) : ListHeap :=
  { h with lists := Function.update h.lists l { h.lists l with count := v } }

/-- A store to `mutex` of the list `l`. -/
def setMutex (h : ListHeap) (l : Nat) (v : Bool) : ListHeap :=
  { h with lists := Function.update h.lists l { h.lists l with mutex := v } }

variable (h : ListHeap) (i j l v : Nat) (b : Bool)

@[simp] theorem next_setNext : (h.setNext i v).next j = if j = i then v else h.next j := by
  by_cases hj : j = i <;> simp [next, setNext, hj]

@[simp] theorem next_setPrev : (h.setPrev i v).next j = h.next j := by
  by_cases hj : j = i <;> simp [next, setPrev, hj]

@[simp] theorem next_setList : (h.setList i v).next j = h.next j := by
  by_cases hj : j = i <;> simp [next, setList, hj]

@[simp] theorem prev_setPrev : (h.setPrev i v).prev j = if j = i then v else h.prev j := by
  by_cases hj : j = i <;> simp [prev, setPrev, hj]

@[simp] theorem prev_setNext : (h.setNext i v).prev j = h.prev j := by
  by_cases hj : j = i <;> simp [prev, setNext, hj]

@[simp] theorem prev_setList : (h.setList i v).prev j = h.prev j := by
  by_cases hj : j = i <;> simp [prev, setList, hj]

@[simp] theorem list_setNext : ((h.setNext i v).items j).list = (h.items j).list := by
  by_cases hj : j = i <;> simp [setNext, hj]

@[simp] theorem list_setPrev : ((h.setPrev i v).items j).list = (h.items j).list := by
  by_cases hj : j = i <;> simp [setPrev, hj]

@[simp] theorem list_setList :
    ((h.setList i v).items j).list = if j = i then v else (h.items j).list := by
  by_cases hj : j = i <;> simp [setList, hj]

theorem items_setNext_ne (hj : j ≠ i) : (h.setNext i v).items j = h.items j := by
  simp [setNext, hj]

theorem items_setPrev_ne (hj : j ≠ i) : (h.setPrev i v).items j = h.items j := by
  simp [setPrev, hj]

theorem items_setList_ne (hj : j ≠ i) : (h.setList i v).items j = h.items j := by
  simp [setList, hj]

@[simp] theorem lists_setNext : (h.setNext i v).lists = h.lists := rfl
@[simp] theorem lists_setPrev : (h.setPrev i v).lists = h.lists := rfl
@[simp] theorem lists_setList : (h.setList i v).lists = h.lists := rfl
@[simp] theorem items_setFirst : (h.setFirst l v).items = h.items := rfl
@[simp] theorem items_setCount : (h.setCount l v).items = h.items := rfl
@[simp] theorem items_setMutex : (h.setMutex l b).items = h.items := rfl
@[simp] theorem next_setFirst : (h.setFirst l v).next = h.next := rfl
@[simp] theorem next_setCount : (h.setCount l v).next = h.next := rfl
@[simp] theorem next_setMutex : (h.setMutex l b).next = h.next := rfl
@[simp] theorem prev_setFirst : (h.setFirst l v).prev = h.prev := rfl
@[simp] theorem prev_setCount : (h.setCount l v).prev = h.prev := rfl
@[simp] theorem prev_setMutex : (h.setMutex l b).prev = h.prev := rfl

@[simp] theorem first_setFirst : ((h.setFirst l v).lists l).first = v := by simp [setFirst]
@[simp] theorem mutex_setFirst : ((h.setFirst l v).lists l).mutex = (h.lists l).mutex := by
  simp [setFirst]
@[simp] theorem count_setFirst : ((h.setFirst l v).lists l).count = (h.lists l).count := by
  simp [setFirst]
@[simp] theorem first_setCount : ((h.setCount l v).lists l).first = (h.lists l).first := by
  simp [setCount]
@[simp] theorem count_setCount : ((h.setCount l v).lists l).count = v := by simp [setCount]
@[simp] theorem first_setMutex : ((h.setMutex l b).lists l).first = (h.lists l).first := by
  simp [setMutex]
@[simp] theorem count_setMutex : ((h.setMutex l b).lists l).count = (h.lists l).count := by
  simp [setMutex]
@[simp] theorem mutex_setMutex : ((h.setMutex l b).lists l).mutex = b := by simp [setMutex]

end ListHeap

/-! ## The functions of `stdlib.c` -/

/-- `mutex_get(&list->mutex, true)`: `none` when the mutex is held, the call spins for ever. -/
def mutexGet (l : Nat) (h : ListHeap) : Option ListHeap :=
  if (h.lists l).mutex then none else some (h.setMutex l true)

/-- `mutex_release(&list->mutex)`. -/
def mutexRelease (l : Nat) (h : ListHeap) : ListHeap := h.setMutex l false

/-- `list_init`. -/
def listInit (l : Nat) (h : ListHeap) : ListHeap :=
  ((h.setFirst l 0).setCount l 0).setMutex l false

/-- The link-in of `list_append`, with the mutex held. -/
def linkItem (l item : Nat) (h : ListHeap) : ListHeap :=
  if (h.lists l).first ≠ 0 then
    let h := h.setList item l
    let h := h.setNext item (h.lists l).first
    let h := h.setPrev item (h.prev (h.lists l).first)
    let h := h.setNext (h.prev item) item
    h.setPrev (h.next item) item
  else
    let h := h.setNext item item
    let h := h.setPrev item item
    h.setFirst l item

/-- `list_append`. -/
def listAppend (l item : Nat) (h : ListHeap) : Option ListHeap :=
  if (h.items item).list = 0 then
    (mutexGet l h).map fun h =>
      let h := linkItem l item h
      mutexRelease l (h.setCount l (((h.lists l).count + 1) % 2 ^ 32))
  else
    some h

/-- The first-item update of `list_remove`. -/
def unlinkFirst (l item : Nat) (h : ListHeap) : ListHeap :=
  if (h.lists l).first = item then
    let h := h.setFirst l (h.next item)
    if (h.lists l).first = item then h.setFirst l 0 else h
  else h

/-- `list_remove`: `none` also when `item->list` is `NULL`, which the call dereferences. -/
def listRemove (item : Nat) (h : ListHeap) : Option ListHeap :=
  let l := (h.items item).list
  if l = 0 then none
  else
    (mutexGet l h).map fun h =>
      let h := unlinkFirst l item h
      let h := h.setPrev (h.next item) (h.prev item)
      let h := h.setNext (h.prev item) (h.next item)
      mutexRelease l (h.setCount l (((h.lists l).count + 2 ^ 32 - 1) % 2 ^ 32))

/-! ## Rings -/

/-- The items on list `l` are those of `r`, in this order. -/
def OnRing (h : ListHeap) (l : Nat) : List Nat → Prop
  | [] => (h.lists l).first = 0
  | a :: r => (h.lists l).first = a ∧ a ≠ 0 ∧ Ring h.next h.prev (a :: r)

theorem OnRing.ext {h : ListHeap} {l : Nat} {r r' : List Nat} (hr : OnRing h l r)
    (hr' : OnRing h l r') : r = r' := by
  cases r with
  | nil =>
    cases r' with
    | nil => rfl
    | cons b r' => exact absurd (hr'.1.symm.trans hr) hr'.2.1
  | cons a r =>
    cases r' with
    | nil => exact absurd (hr.1.symm.trans hr') hr.2.1
    | cons b r' =>
      obtain rfl : a = b := hr.1.symm.trans hr'.1
      rw [hr.2.2.ext hr'.2.2]

theorem OnRing.congr {h h' : ListHeap} {l : Nat} {r : List Nat} (hr : OnRing h l r)
    (hl : (h'.lists l).first = (h.lists l).first)
    (hi : ∀ x ∈ r, h'.next x = h.next x ∧ h'.prev x = h.prev x) : OnRing h' l r := by
  cases r with
  | nil => exact hl.trans hr
  | cons a r =>
    obtain ⟨hf, ha, hring⟩ := hr
    exact ⟨hl.trans hf, ha, hring.congr (fun x hx => (hi x hx).1) fun x hx => (hi x hx).2⟩

theorem OnRing.setItem {h : ListHeap} {l i : Nat} {r : List Nat} (hr : OnRing h l r) (hi : i ∉ r)
    (item : ListItem) : OnRing (h.setItem i item) l r := by
  refine hr.congr rfl fun x hx => ?_
  have hxi : x ≠ i := fun e => hi (e ▸ hx)
  simp [ListHeap.next, ListHeap.prev, ListHeap.setItem, hxi]

theorem linkItem_onRing {h : ListHeap} {l item : Nat} {r : List Nat} (hr : OnRing h l r)
    (hi : item ∉ r) (h0 : r = [] → item ≠ 0) : OnRing (linkItem l item h) l (r ++ [item]) := by
  cases r with
  | nil =>
    have hf : (h.lists l).first = 0 := hr
    simp only [linkItem, hf, ne_eq, not_true_eq_false, if_false]
    exact ⟨by simp, h0 rfl, ring_singleton.mpr ⟨by simp, by simp⟩⟩
  | cons a r =>
    obtain ⟨hf, ha, hring⟩ := hr
    have hai : a ≠ item := fun e => hi (by simp [e])
    have hz : h.prev a ≠ item := fun e => hi (e ▸ hring.prev_mem (by simp))
    rw [linkItem, if_pos (by rw [hf]; exact ha)]
    refine ⟨by simp [hf], ha, hring.insert hi ?_ ?_ ?_ ?_ ?_ ?_⟩
    · simp [hf]
    · simp [hf, hz.symm]
    · simp [hf, hai.symm, hz.symm]
    · simp [hf, hz.symm]
    · intro y hy hyz
      have hyi : y ≠ item := fun e => hi (e ▸ hy)
      simp [hf, hyi, hyz]
    · intro y hy hya
      have hyi : y ≠ item := fun e => hi (e ▸ hy)
      simp [hf, hz.symm, hyi, hya]

theorem onRing_setCount {h : ListHeap} {l v : Nat} {r : List Nat} :
    OnRing (h.setCount l v) l r ↔ OnRing h l r := by
  cases r <;> simp [OnRing]

theorem onRing_setMutex {h : ListHeap} {l : Nat} {b : Bool} {r : List Nat} :
    OnRing (h.setMutex l b) l r ↔ OnRing h l r := by
  cases r <;> simp [OnRing]

theorem listAppend_eq {h : ListHeap} {l item : Nat} (hm : (h.lists l).mutex = false)
    (hl : (h.items item).list = 0) :
    listAppend l item h = some (mutexRelease l ((linkItem l item (h.setMutex l true)).setCount l
      ((((linkItem l item (h.setMutex l true)).lists l).count + 1) % 2 ^ 32))) := by
  simp [listAppend, mutexGet, hl, hm]

/-- **An append puts an untagged item at the end of the ring**, and tags no other item. -/
theorem listAppend_onRing {h : ListHeap} {l item : Nat} {r : List Nat} (hr : OnRing h l r)
    (hm : (h.lists l).mutex = false) (hl : (h.items item).list = 0) (hi : item ∉ r)
    (h0 : item ≠ 0) :
    ∃ h', listAppend l item h = some h' ∧ OnRing h' l (r ++ [item]) ∧
      (h'.lists l).mutex = false ∧ ∀ j ≠ item, (h'.items j).list = (h.items j).list := by
  refine ⟨_, listAppend_eq hm hl, ?_, by simp [mutexRelease], fun j hj => ?_⟩
  · exact onRing_setMutex.mpr (onRing_setCount.mpr (linkItem_onRing (onRing_setMutex.mpr hr) hi fun _ => h0))
  · simp only [mutexRelease, ListHeap.items_setMutex, ListHeap.items_setCount, linkItem]
    split_ifs <;> simp [hj]

theorem listAppend_cases {h h' : ListHeap} {l item : Nat} {r : List Nat} (hr : OnRing h l r)
    (hi : item ∉ r) (happ : listAppend l item h = some h') :
    OnRing h' l r ∨ OnRing h' l (r ++ [item]) ∧ (h.items item).list = 0 := by
  by_cases htag : (h.items item).list = 0
  · have hm : (h.lists l).mutex = false := by
      by_contra hm
      rw [Bool.not_eq_false] at hm
      simp [listAppend, htag, mutexGet, hm] at happ
    obtain rfl := Option.some.inj ((listAppend_eq hm htag).symm.trans happ)
    have hring : OnRing (h.setMutex l true) l r := onRing_setMutex.mpr hr
    by_cases h0 : r = [] ∧ item = 0
    · -- the null pointer leaves the empty list empty
      obtain ⟨rfl, rfl⟩ := h0
      have hf : ((h.setMutex l true).lists l).first = 0 := hring
      refine Or.inl (onRing_setMutex.mpr (onRing_setCount.mpr ?_))
      unfold linkItem
      rw [if_neg (not_not.mpr hf)]
      exact ListHeap.first_setFirst ..
    · have hlink := linkItem_onRing hring hi fun e e' => h0 ⟨e, e'⟩
      exact Or.inr ⟨onRing_setMutex.mpr (onRing_setCount.mpr hlink), htag⟩
  · rw [listAppend, if_neg htag] at happ
    obtain rfl := Option.some.inj happ
    exact Or.inl hr

theorem OnRing.last {h : ListHeap} {l i j : Nat} {r : List Nat} (hr : OnRing h l (r ++ [i]))
    (hr' : OnRing h l (r ++ [j])) : i = j :=
  List.singleton_inj.mp (List.append_cancel_left (hr.ext hr'))

theorem OnRing.not_append {h : ListHeap} {l i : Nat} {r : List Nat} (hr : OnRing h l r) :
    ¬ OnRing h l (r ++ [i]) := fun hr' => by
  have := congrArg List.length (hr.ext hr')
  simp at this

theorem listAppend_other {h h' : ListHeap} {l l' item : Nat} {r r' : List Nat}
    (hr : OnRing h l r) (hr' : OnRing h l' r') (hl : l' ≠ l) (hd : ∀ x ∈ r', x ≠ item ∧ x ∉ r)
    (he : listAppend l item h = some h') : OnRing h' l' r' ∧ h'.lists l' = h.lists l' := by
  unfold listAppend mutexGet at he
  split_ifs at he
  · simp at he
  · obtain rfl := Option.some.inj he
    have hlists : ∀ v b, ∀ x : ListHeap, x.lists l' = h.lists l' →
        (mutexRelease l (x.setCount l v)).lists l' = h.lists l' ∧
          (x.setMutex l b).lists l' = h.lists l' := by
      intro v b x hx
      simp [mutexRelease, ListHeap.setMutex, ListHeap.setCount, hl, hx]
    have hlink : (linkItem l item (h.setMutex l true)).lists l' = h.lists l' := by
      unfold linkItem
      split_ifs
      · exact (hlists 0 true h rfl).2
      · simp [ListHeap.setFirst, ListHeap.setMutex, hl]
    refine ⟨hr'.congr (by rw [(hlists _ true _ hlink).1]) fun x hx => ?_, (hlists _ true _ hlink).1⟩
    obtain ⟨hxi, hxr⟩ := hd x hx
    cases r with
    | nil =>
      have hf : (h.lists l).first = 0 := hr
      simp [mutexRelease, linkItem, hf, hxi]
    | cons a r =>
      obtain ⟨hf, ha, hring⟩ := hr
      have hxa : x ≠ a := fun e => hxr (by simp [e])
      have hxz : x ≠ h.prev a := fun e => hxr (e ▸ hring.prev_mem (by simp))
      have hxn : x ≠ (if item = h.prev a then item else a) := by
        split_ifs
        · exact hxi
        · exact hxa
      simp [mutexRelease, linkItem, hf, ha, hxi, hxz, hxn]
  · obtain rfl := Option.some.inj he
    exact ⟨hr', rfl⟩

/-- A sequence of `list_append` calls on one list. -/
def appendAll (l : Nat) : List Nat → ListHeap → Option ListHeap
  | [], h => some h
  | i :: is, h => (listAppend l i h).bind (appendAll l is)

theorem appendAll_onRing_append {l : Nat} {ts r : List Nat} {h : ListHeap} (hr : OnRing h l r)
    (hm : (h.lists l).mutex = false) (hl : ∀ i ∈ ts, (h.items i).list = 0)
    (hnd : (r ++ ts).Nodup) (h0 : ∀ i ∈ ts, i ≠ 0) :
    ∃ h', appendAll l ts h = some h' ∧ OnRing h' l (r ++ ts) := by
  induction ts generalizing r h with
  | nil => exact ⟨h, rfl, by simpa using hr⟩
  | cons i ts ih =>
    have hd := List.nodup_append.mp hnd
    have hi : i ∉ r := fun hi => hd.2.2 i hi i (by simp) rfl
    obtain ⟨h₁, he, hr₁, hm₁, hl₁⟩ := listAppend_onRing hr hm (hl i (by simp)) hi (h0 i (by simp))
    have hl' : ∀ j ∈ ts, (h₁.items j).list = 0 := by
      intro j hj
      have hji : j ≠ i := fun e => (List.nodup_cons.mp hd.2.1).1 (e ▸ hj)
      rw [hl₁ j hji]
      exact hl j (by simp [hj])
    obtain ⟨h', he', hr'⟩ := ih hr₁ hm₁ hl' (by simpa using hnd) fun j hj => h0 j (by simp [hj])
    exact ⟨h', by simp [appendAll, he, he'], by simpa using hr'⟩

/-- **Appending distinct untagged items to an empty list makes their ring.** -/
theorem appendAll_onRing {l : Nat} {ts : List Nat} {h : ListHeap} (hl : ∀ i ∈ ts, (h.items i).list = 0)
    (hnd : ts.Nodup) (h0 : ∀ i ∈ ts, i ≠ 0) :
    ∃ h', appendAll l ts (listInit l h) = some h' ∧ OnRing h' l ts := by
  have hr : OnRing (listInit l h) l [] := by simp [OnRing, listInit]
  exact appendAll_onRing_append hr (by simp [listInit]) (by simpa [listInit] using hl) hnd h0

end C4os
