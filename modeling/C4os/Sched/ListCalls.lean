import C4os.Lib.Lock
import C4os.Stdlib.Tags
import C4os.Stdlib.Traversal

/-!
# List operations of several threads (`stdlib.c`)

`list_append` and `list_remove` work under the mutex of the list. Here each of their accesses to
memory is a step of its own, and the timer may switch to another thread between any two of them.

* `listMemory`: the fields of items and lists, and the mutexes.
* `listAppendCode`, `listRemoveCode`: the accesses of the two functions; alone they are
  `listAppend` and `listRemove`.
* `listCalls`: the calls, on lists `L` with items that each go to one list only.
* **`list_calls_serial`**: whatever the threads do in between, the lists are those that the calls
  make one after the other, in the order in which they got the mutexes.
-/

namespace C4os

open Lock Transition

/-! ## The accesses -/

/-- A field of an item or of a list. -/
inductive Cell where
  | next (i : Nat)
  | prev (i : Nat)
  | list (i : Nat)
  | first (l : Nat)
  | count (l : Nat)

/-- What the heap has in a cell. -/
def Cell.read (h : ListHeap) : Cell → Nat
  | .next i => h.next i
  | .prev i => h.prev i
  | .list i => (h.items i).list
  | .first l => (h.lists l).first
  | .count l => (h.lists l).count

/-- A store to a cell. -/
def Cell.write (h : ListHeap) : Cell → Nat → ListHeap
  | .next i, v => h.setNext i v
  | .prev i, v => h.setPrev i v
  | .list i, v => h.setList i v
  | .first l, v => h.setFirst l v
  | .count l, v => h.setCount l v

theorem Cell.read_write_self (h : ListHeap) (a : Cell) (v : Nat) :
    Cell.read (a.write h v) a = v := by
  cases a <;> simp [read, write]

theorem Cell.read_write_ne (h : ListHeap) (a : Cell) (v : Nat) (b : Cell) (hb : b ≠ a) :
    Cell.read (a.write h v) b = Cell.read h b := by
  cases a with
  | next i =>
    cases b with
    | next j =>
      have hji : j ≠ i := fun e => hb (congrArg _ e)
      simp [read, write, hji]
    | prev | list => simp [read, write]
    | first | count => rfl
  | prev i =>
    cases b with
    | prev j =>
      have hji : j ≠ i := fun e => hb (congrArg _ e)
      simp [read, write, hji]
    | next | list => simp [read, write]
    | first | count => rfl
  | list i =>
    cases b with
    | list j =>
      have hji : j ≠ i := fun e => hb (congrArg _ e)
      simp [read, write, hji]
    | next | prev => simp [read, write]
    | first | count => rfl
  | first i =>
    cases b with
    | first j =>
      have hji : j ≠ i := fun e => hb (congrArg _ e)
      simp [read, write, ListHeap.setFirst, hji]
    | count j => by_cases hji : j = i <;> simp [read, write, ListHeap.setFirst, hji]
    | next | prev | list => rfl
  | count i =>
    cases b with
    | count j =>
      have hji : j ≠ i := fun e => hb (congrArg _ e)
      simp [read, write, ListHeap.setCount, hji]
    | first j => by_cases hji : j = i <;> simp [read, write, ListHeap.setCount, hji]
    | next | prev | list => rfl

/-- The fields of the items and lists, and the mutexes of the lists. -/
def listMemory : Memory ListHeap Cell Nat Nat where
  read := Cell.read
  write h a v := a.write h v
  locked h l := (h.lists l).mutex
  setLock h l b := h.setMutex l b
  read_write_self := Cell.read_write_self
  read_write_ne := Cell.read_write_ne
  locked_write h a v l := by
    cases a with
    | next | prev | list => rfl
    | first i => by_cases hl : l = i <;> simp [Cell.write, ListHeap.setFirst, hl]
    | count i => by_cases hl : l = i <;> simp [Cell.write, ListHeap.setCount, hl]
  read_setLock h l b a := by
    cases a with
    | next | prev | list => rfl
    | first i => by_cases hl : i = l <;> simp [Cell.read, ListHeap.setMutex, hl]
    | count i => by_cases hl : i = l <;> simp [Cell.read, ListHeap.setMutex, hl]
  locked_setLock_self h l b := ListHeap.mutex_setMutex ..
  locked_setLock_ne h l b l' hl := by simp [ListHeap.setMutex, hl]
  ext h h' hread hlock := by
    obtain ⟨items, lists⟩ := h
    obtain ⟨items', lists'⟩ := h'
    have hitems : items = items' := by
      funext i
      have hn := hread (.next i)
      have hp := hread (.prev i)
      have hl := hread (.list i)
      simp only [Cell.read, ListHeap.next, ListHeap.prev] at hn hp hl
      cases hi : items i
      cases hi' : items' i
      simp_all
    have hlists : lists = lists' := by
      funext l
      have hf := hread (.first l)
      have hc := hread (.count l)
      have hm := hlock l
      simp only [Cell.read] at hf hc
      cases hl : lists l
      cases hl' : lists' l
      simp_all
    rw [hitems, hlists]

/-! ## The functions -/

/-- `list->count++`, `mutex_release`. -/
def countCode (l : Nat) : Code Cell Nat Nat :=
  .load (.count l) fun n => .store (.count l) ((n + 1) % 2 ^ 32) <| .release l .ret

/-- `list_append`. -/
def listAppendCode (l item : Nat) : Code Cell Nat Nat :=
  .load (.list item) fun v =>
    if v = 0 then
      .get l <| .load (.first l) fun a =>
        if a ≠ 0 then
          .store (.list item) l <|
          .load (.first l) fun a => .store (.next item) a <|
          .load (.first l) fun a => .load (.prev a) fun z => .store (.prev item) z <|
          .load (.prev item) fun z => .store (.next z) item <|
          .load (.next item) fun a => .store (.prev a) item <|
          countCode l
        else
          .store (.next item) item <| .store (.prev item) item <| .store (.first l) item <|
          countCode l
    else .ret

/-- The links and the count of `list_remove`. -/
def unlinkCode (item : Nat) : Code Cell Nat Nat :=
  .load (.prev item) fun p => .load (.next item) fun n => .store (.prev n) p <|
  .load (.next item) fun n => .load (.prev item) fun p => .store (.next p) n <|
  .load (.list item) fun l => .load (.count l) fun n =>
    .store (.count l) ((n + 2 ^ 32 - 1) % 2 ^ 32) <|
  .load (.list item) fun l => .release l .ret

/-- `list_remove`. -/
def listRemoveCode (item : Nat) : Code Cell Nat Nat :=
  .load (.list item) fun l => .get l <|
  .load (.list item) fun l => .load (.first l) fun a =>
    if a = item then
      .load (.next item) fun n => .load (.list item) fun l => .store (.first l) n <|
      .load (.list item) fun l => .load (.first l) fun a =>
        if a = item then .load (.list item) fun l => .store (.first l) 0 <| unlinkCode item
        else unlinkCode item
    else unlinkCode item

/-- The accesses of a call. -/
def ListOp.code : ListOp → Code Cell Nat Nat
  | .append l item => listAppendCode l item
  | .remove item => listRemoveCode item

theorem exec_listAppendCode (l item : Nat) (h : ListHeap) :
    (listAppendCode l item).exec listMemory h = listAppend l item h := by
  unfold listAppendCode listAppend mutexGet
  show (if (h.items item).list = 0 then _ else Code.ret).exec listMemory h = _
  by_cases hl : (h.items item).list = 0
  · rw [if_pos hl, if_pos hl]
    show (if (h.lists l).mutex then none else _) = _
    by_cases hm : (h.lists l).mutex = true
    · rw [if_pos hm, if_pos hm]
      rfl
    · rw [if_neg hm, if_neg hm]
      show Code.exec listMemory (if ((h.setMutex l true).lists l).first ≠ 0 then _ else _)
        (h.setMutex l true) = some (mutexRelease l
          ((linkItem l item (h.setMutex l true)).setCount l
            ((((linkItem l item (h.setMutex l true)).lists l).count + 1) % 2 ^ 32)))
      generalize h.setMutex l true = g
      unfold linkItem
      by_cases hf : (g.lists l).first ≠ 0
      · rw [if_pos hf, if_pos hf]
        rfl
      · rw [if_neg hf, if_neg hf]
        rfl
  · rw [if_neg hl, if_neg hl]
    rfl

theorem exec_unlinkCode {l item : Nat} {g g₁ g₂ : ListHeap} (hl : (g.items item).list = l)
    (h₁ : g₁ = g.setPrev (g.next item) (g.prev item))
    (h₂ : g₂ = g₁.setNext (g₁.prev item) (g₁.next item)) :
    (unlinkCode item).exec listMemory g =
      some (mutexRelease l (g₂.setCount l (((g₂.lists l).count + 2 ^ 32 - 1) % 2 ^ 32))) := by
  have hl₂ : (g₂.items item).list = l := by
    rw [h₂, h₁, ListHeap.list_setNext, ListHeap.list_setPrev, hl]
  have hexec : (unlinkCode item).exec listMemory g =
      some (mutexRelease (g₂.items item).list (g₂.setCount (g₂.items item).list
        (((g₂.lists (g₂.items item).list).count + 2 ^ 32 - 1) % 2 ^ 32))) := by
    subst h₁ h₂
    rfl
  rw [hexec, hl₂]

theorem exec_listRemoveCode {item : Nat} {h : ListHeap} (h0 : (h.items item).list ≠ 0) :
    (listRemoveCode item).exec listMemory h = listRemove item h := by
  simp only [listRemove, if_neg h0]
  unfold listRemoveCode mutexGet
  show (if (h.lists (h.items item).list).mutex then none else _) = _
  by_cases hm : (h.lists (h.items item).list).mutex = true
  · rw [if_pos hm, if_pos hm]
    rfl
  · rw [if_neg hm, if_neg hm]
    show _ = some (mutexRelease _ ((unlinkItem (h.items item).list item _).setCount _
      ((((unlinkItem (h.items item).list item _).lists _).count + 2 ^ 32 - 1) % 2 ^ 32)))
    obtain ⟨l, hl⟩ : ∃ l, (h.items item).list = l := ⟨_, rfl⟩
    have hgl : ((h.setMutex l true).items item).list = l := hl
    rw [hl]
    show Code.exec listMemory (if ((h.setMutex (h.items item).list true).lists
      ((h.setMutex (h.items item).list true).items item).list).first = item then _ else _)
        (h.setMutex (h.items item).list true) = _
    rw [hl, hgl]
    generalize h.setMutex l true = g at hgl
    unfold unlinkItem unlinkFirst
    by_cases hf : (g.lists l).first = item
    · rw [if_pos hf, if_pos hf]
      show Code.exec listMemory (if ((g.setFirst (g.items item).list (g.next item)).lists
        (g.items item).list).first = item then _ else _)
          (g.setFirst (g.items item).list (g.next item)) = _
      rw [hgl]
      by_cases hn : ((g.setFirst l (g.next item)).lists l).first = item
      · rw [if_pos hn, if_pos hn]
        show Code.exec listMemory (unlinkCode item)
          ((g.setFirst l (g.next item)).setFirst (g.items item).list 0) = _
        rw [hgl]
        exact exec_unlinkCode hgl rfl rfl
      · rw [if_neg hn, if_neg hn]
        exact exec_unlinkCode hgl rfl rfl
    · rw [if_neg hf, if_neg hf]
      exact exec_unlinkCode hgl rfl rfl

/-! ## The calls -/

namespace ListOp

/-- The item that a call is about. -/
def item : ListOp → Nat
  | .append _ item => item
  | .remove item => item

/-- The list whose mutex the call takes, when each item goes to its list `listOf`. -/
def target (listOf : Nat → Nat) : ListOp → Nat
  | .append l _ => l
  | .remove item => listOf item

/-- An append is of an item for the list, not of one that is on the list without its tag; a removal
is of a member that has its tag. -/
def Ready (L : Set Nat) (listOf : Nat → Nat) : ListOp → ListHeap → Prop
  | .append l item, h => l ∈ L ∧ listOf item = l ∧ (item ≠ 0 ∧ item < 2 ^ 32) ∧
      ((h.items item).list = 0 → item ∉ traversal h l)
  | .remove item, h => listOf item ∈ L ∧ (h.items item).list = listOf item ∧
      item ∈ traversal h (listOf item)

end ListOp

/-- No mutex is taken, and the lists `L` are well formed, with items of their own. -/
structure ListsOk (L : Set Nat) (listOf : Nat → Nat) (h : ListHeap) : Prop where
  null : 0 ∉ L
  unlocked : ∀ l, (h.lists l).mutex = false
  lists : ∀ l ∈ L, ∃ r, ListOk h l r ∧ ∀ x ∈ r, listOf x = l

variable {L : Set Nat} {listOf : Nat → Nat} {h h' : ListHeap} {l item : Nat} {r : List Nat}

theorem listAppend_list (happ : listAppend l item h = some h') {j : Nat} (hj : j ≠ item) :
    (h'.items j).list = (h.items j).list := by
  unfold listAppend at happ
  split_ifs at happ
  · obtain ⟨g, hg, rfl⟩ := Option.map_eq_some_iff.mp happ
    unfold mutexGet at hg
    split_ifs at hg
    obtain rfl := Option.some.inj hg
    simp only [mutexRelease, ListHeap.items_setMutex, ListHeap.items_setCount, linkItem]
    split_ifs <;> simp [hj]
  · obtain rfl := Option.some.inj happ
    rfl

theorem listRemove_list (hrem : listRemove item h = some h') (j : Nat) :
    (h'.items j).list = (h.items j).list := by
  simp only [listRemove] at hrem
  split_ifs at hrem
  obtain ⟨g, hg, rfl⟩ := Option.map_eq_some_iff.mp hrem
  unfold mutexGet at hg
  split_ifs at hg
  obtain rfl := Option.some.inj hg
  rw [mutexRelease, ListHeap.items_setMutex, ListHeap.items_setCount, ListHeap.list_setNext,
    ListHeap.list_setPrev, unlinkFirst_items, ListHeap.items_setMutex]

theorem Updated.other {r' : List Nat} {l' : Nat} (hu : Updated h h' l item r') (hr : ListOk h l r)
    (hown : ∀ x ∈ r, listOf x = l) (hitem : listOf item = l) (hl : l' ≠ l) {q : List Nat}
    (hq : ListOk h l' q) (hqown : ∀ x ∈ q, listOf x = l') : ListOk h' l' q := by
  have hlist := hu.lists l' hl
  refine ⟨hq.onRing.congr (by rw [hlist]) fun x hx => ?_, by rw [hlist, hq.count], hq.address⟩
  have hx' : h'.items x = h.items x := by
    refine hu.items x (fun hmem => ?_) fun e => ?_
    · rw [hr.traversal_eq] at hmem
      exact hl ((hqown x hx).symm.trans (hown x hmem))
    · rw [e] at hx
      exact hl ((hqown item hx).symm.trans hitem)
  exact ⟨congrArg ListItem.next hx', congrArg ListItem.prev hx'⟩

theorem ListsOk.updated {r' : List Nat} (hg : ListsOk L listOf h) (hr : ListOk h l r)
    (hown : ∀ x ∈ r, listOf x = l) (hitem : listOf item = l) (hu : Updated h h' l item r')
    (hr' : ∀ x, x ≠ item → (x ∈ r' ↔ x ∈ r)) :
    ListsOk L listOf h' ∧ ∀ x, x ≠ item → ∀ l' ∈ L, x ∈ traversal h' l' ↔ x ∈ traversal h l' := by
  obtain ⟨q, hq⟩ := hu.wellFormed
  have hqr : q = r' := hq.traversal_eq.symm.trans hu.traversal
  subst hqr
  refine ⟨⟨hg.null, fun l' => ?_, fun l' hl' => ?_⟩, fun x hx l' hl' => ?_⟩
  · by_cases hl : l' = l
    · rw [hl]
      exact hu.released
    · rw [hu.lists l' hl]
      exact hg.unlocked l'
  · by_cases hl : l' = l
    · subst hl
      refine ⟨q, hq, fun x hx => ?_⟩
      by_cases hxi : x = item
      · rw [hxi, hitem]
      · exact hown x ((hr' x hxi).mp hx)
    · obtain ⟨p, hp, hpown⟩ := hg.lists l' hl'
      exact ⟨p, hu.other hr hown hitem hl hp hpown, hpown⟩
  · by_cases hl : l' = l
    · subst hl
      rw [hu.traversal, hr.traversal_eq]
      exact hr' x hx
    · obtain ⟨p, hp, hpown⟩ := hg.lists l' hl'
      rw [(hu.other hr hown hitem hl hp hpown).traversal_eq, hp.traversal_eq]

/-- **A call that is ready returns**, keeps the lists good, and changes the membership and the tag
of no other item. -/
theorem ListOp.step_ready {o : ListOp} (hg : ListsOk L listOf h) (hr : o.Ready L listOf h) :
    ∃ h', o.step h = some h' ∧ ListsOk L listOf h' ∧ ∀ x, x ≠ o.item →
      (h'.items x).list = (h.items x).list ∧
        ∀ l ∈ L, x ∈ traversal h' l ↔ x ∈ traversal h l := by
  cases o with
  | append l item =>
    obtain ⟨hl, hitem, haddr, hfresh⟩ := hr
    by_cases htag : (h.items item).list = 0
    · obtain ⟨r, hok, hown⟩ := hg.lists l hl
      have hi := hfresh htag
      rw [hok.traversal_eq] at hi
      obtain ⟨h', happ, hu, -⟩ := listAppend_updated hok (hg.unlocked l) htag hi haddr
      obtain ⟨hg', hmem⟩ := hg.updated hok hown hitem hu fun x hx => by simp [hx]
      exact ⟨h', happ, hg', fun x hx => ⟨listAppend_list happ hx, hmem x hx⟩⟩
    · exact ⟨h, if_neg htag, hg, fun _ _ => ⟨rfl, fun _ _ => Iff.rfl⟩⟩
  | remove item =>
    obtain ⟨hl, htag, hmem⟩ := hr
    obtain ⟨r, hok, hown⟩ := hg.lists _ hl
    have hi := hmem
    rw [hok.traversal_eq] at hi
    have h0 : listOf item ≠ 0 := fun e => hg.null (e ▸ hl)
    obtain ⟨h', hrem, hu, -⟩ := listRemove_updated hok (hg.unlocked _) htag h0 hi
    obtain ⟨hg', hmem'⟩ := hg.updated hok hown rfl hu fun x hx => List.mem_erase_of_ne hx
    exact ⟨h', hrem, hg', fun x hx => ⟨listRemove_list hrem x, hmem' x hx⟩⟩

theorem ListOp.Ready.step {o o' : ListOp} (hr : o.Ready L listOf h) (hne : o.item ≠ o'.item)
    (hstep : ∀ x, x ≠ o'.item → (h'.items x).list = (h.items x).list ∧
      ∀ l ∈ L, x ∈ traversal h' l ↔ x ∈ traversal h l) : o.Ready L listOf h' := by
  obtain ⟨htag, hmem⟩ := hstep o.item hne
  cases o with
  | append l item =>
    obtain ⟨hl, hitem, haddr, hfresh⟩ := hr
    refine ⟨hl, hitem, haddr, fun h0 hin => ?_⟩
    exact hfresh (htag.symm.trans h0) ((hmem l hl).mp hin)
  | remove item => exact ⟨hr.1, htag.trans hr.2.1, (hmem _ hr.1).mpr hr.2.2⟩

/-- The links, the first item and the count are under the mutex of the list; the `list` field of an
item is for the calls on the item. -/
def Cell.home (listOf : Nat → Nat) : Cell → Nat ⊕ Nat
  | .next i => .inl (listOf i)
  | .prev i => .inl (listOf i)
  | .list i => .inr i
  | .first l => .inl l
  | .count l => .inl l

/-- The fields that a call on the list `l` and the item `item` may touch. -/
def Cell.Of (listOf : Nat → Nat) (l item : Nat) (a : Cell) : Prop :=
  a.home listOf = .inl l ∨ a.home listOf = .inr item

theorem inside_countCode {g : ListHeap} :
    (countCode l).Inside listMemory (Cell.Of listOf l item) l g :=
  ⟨Or.inl rfl, Or.inl rfl, rfl, rfl⟩

theorem Cell.of_next {x : Nat} (hx : listOf x = l) : Cell.Of listOf l item (.next x) :=
  Or.inl (congrArg _ hx)

theorem Cell.of_prev {x : Nat} (hx : listOf x = l) : Cell.Of listOf l item (.prev x) :=
  Or.inl (congrArg _ hx)

theorem inside_linkCode {g : ListHeap} {z : Nat} (hz : listOf z = l) (hitem : listOf item = l)
    (hprev : g.prev (g.lists l).first = z) (ha : listOf (g.lists l).first = l) :
    (Code.store (.list item) l <|
      .load (.first l) fun a => .store (.next item) a <|
      .load (.first l) fun a => .load (.prev a) fun z => .store (.prev item) z <|
      .load (.prev item) fun z => .store (.next z) item <|
      .load (.next item) fun a => .store (.prev a) item <|
      countCode l).Inside listMemory (Cell.Of listOf l item) l g := by
  have hprev₁ : ((g.setList item l).setNext item (g.lists l).first).prev (g.lists l).first = z := by
    rw [ListHeap.prev_setNext, ListHeap.prev_setList, hprev]
  refine ⟨Or.inr rfl, Or.inl rfl, Cell.of_next hitem, Or.inl rfl, Cell.of_prev ha,
    Cell.of_prev hitem, Cell.of_prev hitem, Cell.of_next ?_, Cell.of_next hitem, Cell.of_prev ?_,
    inside_countCode⟩
  · show listOf (ListHeap.prev (ListHeap.setPrev _ item (ListHeap.prev _ _)) item) = l
    rw [ListHeap.prev_setPrev, if_pos rfl]
    exact (congrArg listOf hprev₁).trans hz
  · show listOf (ListHeap.next (ListHeap.setNext (ListHeap.setPrev (ListHeap.setNext _ item _) _ _)
      _ item) item) = l
    rw [ListHeap.next_setNext]
    split_ifs with he
    · exact hitem
    · rw [ListHeap.next_setPrev, ListHeap.next_setNext, if_pos rfl]
      exact ha

theorem before_listAppendCode (hok : OnRing h l r) (hown : ∀ x ∈ r, listOf x = l)
    (hitem : listOf item = l) :
    (listAppendCode l item).Before listMemory (Cell.Of listOf l item)
      (fun a => a.home listOf = .inr item) l h := by
  refine ⟨rfl, ?_⟩
  show (if (h.items item).list = 0 then _ else Code.ret).Before _ _ _ _ _
  by_cases hl : (h.items item).list = 0
  · rw [if_pos hl]
    refine ⟨rfl, Or.inl rfl, ?_⟩
    show Code.Inside _ _ _ (if ((h.setMutex l true).lists l).first ≠ 0 then _ else _)
      (h.setMutex l true)
    have hok' : OnRing (h.setMutex l true) l r := onRing_setMutex.mpr hok
    generalize h.setMutex l true = g at hok'
    by_cases hf : (g.lists l).first ≠ 0
    · rw [if_pos hf]
      cases r with
      | nil => exact absurd hok' hf
      | cons a r =>
        obtain ⟨rfl, -, hring⟩ := hok'
        exact inside_linkCode (hown _ (hring.prev_mem (by simp))) hitem rfl (hown _ (by simp))
    · rw [if_neg hf]
      exact ⟨Cell.of_next hitem, Cell.of_prev hitem, Or.inl rfl, inside_countCode⟩
  · rw [if_neg hl]
    exact trivial

theorem inside_unlinkCode {g : ListHeap} (hgl : (g.items item).list = l) (hitem : listOf item = l)
    (hn : listOf (g.next item) = l) (hp : listOf (g.prev item) = l) :
    (unlinkCode item).Inside listMemory (Cell.Of listOf l item) l g := by
  have hprev : (g.setPrev (g.next item) (g.prev item)).prev item = g.prev item := by
    rw [ListHeap.prev_setPrev, ite_self]
  have hlist : ∀ v w, (((g.setPrev (g.next item) (g.prev item)).setNext v w).items item).list =
      l := by
    intro v w
    rw [ListHeap.list_setNext, ListHeap.list_setPrev, hgl]
  refine ⟨Cell.of_prev hitem, Cell.of_next hitem, Cell.of_prev hn, Cell.of_next hitem,
    Cell.of_prev hitem, Cell.of_next ?_, Or.inr rfl, ?_, ?_, Or.inr rfl, hlist _ _, rfl⟩
  · exact (congrArg listOf hprev).trans hp
  · exact Or.inl (congrArg _ (hlist _ _))
  · exact Or.inl (congrArg _ (hlist _ _))

theorem before_listRemoveCode (hok : OnRing h l r) (hown : ∀ x ∈ r, listOf x = l)
    (hl : (h.items item).list = l) (hi : item ∈ r) :
    (listRemoveCode item).Before listMemory (Cell.Of listOf l item)
      (fun a => a.home listOf = .inr item) l h := by
  have hitem := hown item hi
  have hring : Linked.Ring h.next h.prev r := by
    cases r with
    | nil => simp at hi
    | cons a r => exact hok.2.2
  have hn := hown _ (hring.next_mem hi)
  have hp := hown _ (hring.prev_mem hi)
  refine ⟨rfl, hl, ?_⟩
  have hgl : ((h.setMutex l true).items item).list = l := hl
  refine ⟨Or.inr rfl, Or.inl (congrArg _ hgl), ?_⟩
  show Code.Inside _ _ _ (if ((h.setMutex l true).lists
    ((h.setMutex l true).items item).list).first = item then _ else _) (h.setMutex l true)
  split_ifs
  · refine ⟨Cell.of_next hitem, Or.inr rfl, Or.inl (congrArg _ hgl), Or.inr rfl,
      Or.inl (congrArg _ hgl), ?_⟩
    show Code.Inside _ _ _ (if (((h.setMutex l true).setFirst _ _).lists _).first = item then _
      else _) ((h.setMutex l true).setFirst _ _)
    split_ifs
    · exact ⟨Or.inr rfl, Or.inl (congrArg _ hgl), inside_unlinkCode hgl hitem hn hp⟩
    · exact inside_unlinkCode hgl hitem hn hp
  · exact inside_unlinkCode hgl hitem hn hp

/-- **The list calls of several threads**, on the lists `L`. -/
def listCalls (L : Set Nat) (listOf : Nat → Nat) : Calls listMemory ListOp Nat where
  body := ListOp.code
  lock := ListOp.target listOf
  owner := ListOp.item
  home := Cell.home listOf
  atomic := ListOp.step
  Good := ListsOk L listOf
  Ready := ListOp.Ready L listOf
  unlocked h hg := hg.unlocked
  before o h hg hr := by
    cases o with
    | append l item =>
      obtain ⟨r, hok, hown⟩ := hg.lists l hr.1
      exact before_listAppendCode hok.onRing hown hr.2.1
    | remove item =>
      obtain ⟨r, hok, hown⟩ := hg.lists _ hr.1
      have hi := hr.2.2
      rw [hok.traversal_eq] at hi
      exact before_listRemoveCode hok.onRing hown hr.2.1 hi
  exec_body o h hg hr := by
    cases o with
    | append l item => exact exec_listAppendCode l item h
    | remove item =>
      refine exec_listRemoveCode ?_
      rw [hr.2.1]
      exact fun e => hg.null (e ▸ hr.1)
  good_atomic o h h' hg hr hstep := by
    obtain ⟨g, he, hg', -⟩ := ListOp.step_ready hg hr
    obtain rfl := Option.some.inj (he.symm.trans hstep)
    exact hg'
  ready_atomic o o' h h' hg hr hr' hne hstep := by
    obtain ⟨g, he, -, hkeep⟩ := ListOp.step_ready hg hr'
    obtain rfl := Option.some.inj (he.symm.trans hstep)
    exact hr.step hne hkeep

/-- The state of the threads that work on the lists. -/
abbrev ListThreads (ι : Type*) : Type _ := State ListHeap Cell Nat Nat ListOp ι

variable {ι : Type*}

theorem listOk_of_unlocked {s : ListThreads ι} {g h₀ : ListHeap}
    (hi : (listCalls L listOf).Inv h₀ s g) (hl : l ∈ L) (hfree : (s.mem.lists l).mutex = false) :
    traversal s.mem l = traversal g l ∧ WellFormed s.mem l := by
  obtain ⟨r, hok, hown⟩ := hi.good.lists l hl
  have hcell : ∀ a : Cell, a.home listOf = .inl l → a.read s.mem = a.read g := by
    intro a ha
    refine hi.cells a fun t th ht hsec hmine => ?_
    obtain hm | hm := hmine
    · -- the mutex would be taken
      obtain hlock : l = th.op.target listOf := Sum.inl.inj (ha.symm.trans hm)
      have hheld := ((hi.thread t th ht).inside hsec).2.1
      rw [← show l = (listCalls L listOf).lock th.op from hlock] at hheld
      exact Bool.false_ne_true (hfree.symm.trans hheld)
    · have hm' : a.home listOf = .inr th.op.item := hm
      rw [ha] at hm'
      cases hm'
  have hok' : ListOk s.mem l r := by
    refine ⟨hok.onRing.congr (hcell (.first l) rfl) fun x hx => ?_, ?_, hok.address⟩
    · exact ⟨hcell (.next x) (congrArg _ (hown x hx)), hcell (.prev x) (congrArg _ (hown x hx))⟩
    · exact (hcell (.count l) rfl).trans hok.count
  exact ⟨hok'.traversal_eq.trans hok.traversal_eq.symm, r, hok'⟩

/-- **The list operations under preemption.** Threads call `list_append` and `list_remove`, and the
timer switches between them at any access to memory. No two threads are ever between `mutex_get`
and `mutex_release` of one list. Let the calls that took effect run one after the other, in the
order in which they got the mutexes: they return, every list whose mutex is free is as they leave
it, and between the calls the whole heap is. Each call of a thread takes effect once, in the order
of the thread; and some thread in a call does not wait. -/
theorem list_calls_serial [DecidableEq ι] {h₀ : ListHeap} {s : ListThreads ι}
    {as : List (Act ι ListOp)}
    (hg : ListsOk L listOf h₀)
    (hrun : Run ((listCalls L listOf).Step h₀) (State.init h₀) as s) :
    (∀ t t' th th', s.threads t = some th → s.threads t' = some th' → th.InSection →
      th'.InSection → th.op.target listOf = th'.op.target listOf → t = t') ∧
    (∃ g, (listCalls L listOf).serial (s.log.map Prod.snd) h₀ = some g ∧
      (∀ l ∈ L, (s.mem.lists l).mutex = false →
        traversal s.mem l = traversal g l ∧ WellFormed s.mem l) ∧
      ((∀ t, s.threads t = none) → s.mem = g)) ∧
    (∀ t, s.done t ++ s.pending t = callsOf t as) ∧
    ∀ t th, s.threads t = some th → ∃ t' th', s.threads t' = some th' ∧
      ∀ l k, th'.code = .get l k → (s.mem.lists l).mutex = false := by
  obtain ⟨⟨g, hi⟩, hcalls⟩ := Calls.run_serial hg hrun
  refine ⟨hi.excl, ⟨g, hi.serial, fun l hl hfree => ?_, hi.mem_eq⟩, hcalls, fun t th ht => ?_⟩
  · exact listOk_of_unlocked hi hl hfree
  · exact hi.progress ht

theorem listsOk_pairHeap : ListsOk {4} (fun _ => 4) pairHeap :=
  ⟨by simp, fun _ => rfl, fun l hl => ⟨[8, 16], by rw [hl]; exact listOk_pairHeap,
    fun _ _ => hl.symm⟩⟩

/-- One thread appends `24` and has the mutex, another one waits for it with the removal of `8`. -/
def pairActs : List (Act Nat ListOp) :=
  [.call 0 (.append 4 24), .call 1 (.remove 8), .run 0, .run 1, .run 0, .run 1]

theorem run_pairActs : ∃ s, Run ((listCalls {4} fun _ => 4).Step pairHeap) (State.init pairHeap)
    pairActs s ∧ s.log = [(0, .append 4 24)] := by
  have h0 : ListOp.Ready {4} (fun _ => 4) (.append 4 24) pairHeap :=
    ⟨rfl, rfl, ⟨by decide, by decide⟩, fun _ => by decide⟩
  have h1 : ListOp.Ready {4} (fun _ => 4) (.remove 8) pairHeap := ⟨rfl, rfl, by decide⟩
  refine ⟨_, .cons ⟨rfl, fun t o h => ?_⟩ <| .cons ⟨rfl, fun t o h => ?_⟩ <| .cons ⟨rfl, nofun⟩ <|
    .cons ⟨rfl, nofun⟩ <| .cons ⟨rfl, nofun⟩ <| .cons ⟨rfl, nofun⟩ <| .nil _, rfl⟩
  · cases h
    exact ⟨nofun, fun m hm => Option.some.inj hm ▸ h0⟩
  · cases h
    refine ⟨fun t' th ht => ?_, fun m hm => Option.some.inj hm ▸ h1⟩
    by_cases h : t' = 0
    · subst h
      cases ht
      decide
    · simp [State.init, h] at ht

theorem list_calls_serial_pair : ∃ s, Run ((listCalls {4} fun _ => 4).Step pairHeap)
    (State.init pairHeap) pairActs s ∧ s.done 0 ++ s.pending 0 = [.append 4 24] ∧
      s.done 1 ++ s.pending 1 = [.remove 8] ∧
      ∃ g, (listCalls {4} fun _ => 4).serial [.append 4 24] pairHeap = some g := by
  obtain ⟨s, hrun, hlog⟩ := run_pairActs
  obtain ⟨-, ⟨g, hserial, -⟩, hcalls, -⟩ := list_calls_serial listsOk_pairHeap hrun
  rw [hlog] at hserial
  exact ⟨s, hrun, hcalls 0, hcalls 1, g, hserial⟩

end C4os
