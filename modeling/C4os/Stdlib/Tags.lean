import C4os.Lib.Run
import C4os.Stdlib.List
import Mathlib.Data.Set.Insert

/-!
# The list field of an item

`item->list` guards `list_append` and leads `list_remove` to its list.

* `TagsOk`: an item is on the ring of a list exactly when its `list` field names that list.
* `ListStep`: the calls of `list_append` and `list_remove` on initialised lists.
* **`tagsOk_iff_no_operation`**: the first operation of a run already breaks `TagsOk`, since the
  first item of a list is linked in without its tag.
-/

namespace C4os

open Transition

/-- The tags of the items `I` agree with the rings of the lists `L`. -/
structure TagsOk (L I : Set Nat) (h : ListHeap) : Prop where
  onRing : ∀ l ∈ L, ∃ r, OnRing h l r ∧ (∀ i ∈ I, i ∈ r ↔ (h.items i).list = l) ∧ r.Nodup ∧
    (h.lists l).count = r.length
  /-- An item on no ring can be appended. -/
  free : ∀ i ∈ I, (∀ l ∈ L, ∀ r, OnRing h l r → i ∉ r) → (h.items i).list = 0

/-- A call of the list functions. -/
inductive ListOp where
  | append (l item : Nat)
  | remove (item : Nat)

/-- What a call does, if it returns. -/
def ListOp.step : ListOp → ListHeap → Option ListHeap
  | .append l item => listAppend l item
  | .remove item => listRemove item

/-- The calls a run may make: `list_append` of any item, `list_remove` of a member. -/
def ListOp.Legal (L I : Set Nat) (h : ListHeap) : ListOp → Prop
  | .append l item => l ∈ L ∧ item ∈ I
  | .remove item => item ∈ I ∧ ∃ l ∈ L, ∃ r, OnRing h l r ∧ item ∈ r

/-- A legal call that returns. -/
def ListStep (L I : Set Nat) (h : ListHeap) (op : ListOp) (h' : ListHeap) : Prop :=
  op.Legal L I h ∧ op.step h = some h'

/-- Initialised lists, and items whose `list` field is `NULL`. -/
structure ListInitial (L I : Set Nat) (h : ListHeap) : Prop where
  null : 0 ∉ L ∧ 0 ∉ I
  lists : ∀ l ∈ L, h.lists l = ⟨0, 0, false⟩
  items : ∀ i ∈ I, (h.items i).list = 0

variable {L I : Set Nat} {h h' : ListHeap}

theorem ListInitial.onRing_nil (hi : ListInitial L I h) {l : Nat} (hl : l ∈ L) :
    OnRing h l [] := by
  simp [OnRing, hi.lists l hl]

theorem ListInitial.tagsOk (hi : ListInitial L I h) : TagsOk L I h := by
  refine ⟨fun l hl => ⟨[], hi.onRing_nil hl, fun i hiI => ?_, List.nodup_nil, ?_⟩,
    fun i hiI _ => hi.items i hiI⟩
  · have h0 : l ≠ 0 := fun e => hi.null.1 (e ▸ hl)
    simp [hi.items i hiI, h0.symm]
  · simp [hi.lists l hl]

theorem list_linkItem_of_empty {l : Nat} (item : Nat) (hf : (h.lists l).first = 0) :
    ((linkItem l item h).items item).list = (h.items item).list := by
  simp [linkItem, hf]

/-- **An append to an empty list leaves a member without a tag.** -/
theorem not_tagsOk_of_append_empty {l item : Nat} (hl : l ∈ L) (hi : item ∈ I) (hl0 : l ≠ 0)
    (hi0 : item ≠ 0) (hr : OnRing h l []) (hm : (h.lists l).mutex = false)
    (ht : (h.items item).list = 0) (h1 : listAppend l item h = some h') : ¬ TagsOk L I h' := by
  intro hok
  obtain ⟨h₁, he, hr₁, -, -⟩ := listAppend_onRing hr hm ht (by simp) hi0
  obtain rfl : h₁ = h' := Option.some.inj (he.symm.trans h1)
  obtain ⟨r, hr', htag, -, -⟩ := hok.onRing l hl
  have hmem : item ∈ r := by rw [← hr₁.ext hr']; simp
  have htag' := (htag item hi).mp hmem
  rw [listAppend_eq hm ht] at h1
  obtain rfl := Option.some.inj h1
  have hf : ((h.setMutex l true).lists l).first = 0 := by simpa [OnRing] using hr
  have hlist := list_linkItem_of_empty item hf
  simp only [mutexRelease, ListHeap.items_setMutex, ListHeap.items_setCount] at htag'
  rw [hlist, ListHeap.items_setMutex, ht] at htag'
  exact hl0 htag'.symm

/-- **The tags survive no operation**: the states of a run from initialised lists agree with their
tags exactly when the run is empty. -/
theorem tagsOk_iff_no_operation (hi : ListInitial L I h) {ops : List ListOp}
    (hrun : Run (ListStep L I) h ops h') :
    (∀ pre suf h₁, ops = pre ++ suf → Run (ListStep L I) h pre h₁ → TagsOk L I h₁) ↔
      ops = [] := by
  constructor
  · intro hok
    cases hrun with
    | nil => rfl
    | @cons _ op h₁ ops _ step run =>
      have h₁ok := hok [op] ops h₁ rfl (.cons step (.nil _))
      obtain ⟨legal, step⟩ := step
      cases op with
      | append l item =>
        have hl0 : l ≠ 0 := fun e => hi.null.1 (e ▸ legal.1)
        have hi0 : item ≠ 0 := fun e => hi.null.2 (e ▸ legal.2)
        exact absurd h₁ok (not_tagsOk_of_append_empty legal.1 legal.2 hl0 hi0
          (hi.onRing_nil legal.1) (by rw [hi.lists l legal.1]) (hi.items item legal.2) step)
      | remove item =>
        -- nothing is on a ring yet
        obtain ⟨-, l, hl, r, hr, hmem⟩ := legal
        rw [hr.ext (hi.onRing_nil hl)] at hmem
        exact absurd hmem (by simp)
  · rintro rfl pre suf h₁ he hpre
    obtain ⟨rfl, -⟩ := List.append_eq_nil_iff.mp he.symm
    cases hpre
    exact hi.tagsOk

/-- A list at 100 and an item at 1. -/
def oneItem : ListHeap := ⟨fun _ => ⟨0, 0, 0⟩, fun _ => ⟨0, 0, false⟩⟩

theorem listInitial_oneItem : ListInitial {100} {1} oneItem :=
  ⟨by simp, fun _ _ => rfl, fun _ _ => rfl⟩

theorem run_oneItem : ∃ h', Run (ListStep {100} {1}) oneItem [.append 100 1] h' := by
  obtain ⟨h', he, -⟩ : ∃ h', listAppend 100 1 oneItem = some h' ∧ _ :=
    listAppend_onRing (listInitial_oneItem.onRing_nil rfl) rfl rfl (by simp) (by simp)
  exact ⟨h', .cons ⟨⟨rfl, rfl⟩, he⟩ (.nil _)⟩

theorem tagsOk_iff_no_operation_oneItem :
    ∃ h', Run (ListStep {100} {1}) oneItem [.append 100 1] h' ∧
      ((∀ pre suf h₁, [ListOp.append 100 1] = pre ++ suf →
        Run (ListStep {100} {1}) oneItem pre h₁ → TagsOk {100} {1} h₁) ↔
          [ListOp.append 100 1] = []) := by
  obtain ⟨h', hrun⟩ := run_oneItem
  exact ⟨h', hrun, tagsOk_iff_no_operation listInitial_oneItem hrun⟩

/-- **The first item of a list is on its ring without a tag.** -/
theorem first_item_untagged : ListInitial {100} {1} oneItem ∧
    ∃ h', Run (ListStep {100} {1}) oneItem [.append 100 1] h' ∧ ¬ TagsOk {100} {1} h' := by
  obtain ⟨h', hrun⟩ := run_oneItem
  refine ⟨listInitial_oneItem, h', hrun, ?_⟩
  cases hrun with
  | cons step run =>
    cases run
    exact not_tagsOk_of_append_empty rfl rfl (by simp) (by simp)
      (listInitial_oneItem.onRing_nil rfl) rfl rfl step.2

end C4os
