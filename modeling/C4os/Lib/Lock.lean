import C4os.Lib.Run
import Mathlib.Data.List.Basic
import Mathlib.Logic.Function.Basic

/-!
# Calls under locks

Threads run calls on a shared memory, one access a step, in any order. A call may read its own
cells, gets its lock, works on its own cells and on those of the lock, and releases the lock.

* `Memory`: cells and lock bits; `Code`, `Code.exec`: a call, and what it does alone.
* `Code.Inside`, `Code.Before`: what a call may access with its lock and before it has it.
* `Calls`: calls with their locks, and what each of them does on its own.
* `State.act`, `Calls.Step`: the accesses of all threads, interleaved.
* **`Calls.Inv.step`**: one access keeps the invariant; **`Calls.run_serial`**: every run does what
  its calls do one after the other, in the order in which they got their locks.
-/

namespace Lock

/-- Memory with cells `α` of values `ν`, and a lock bit for each `κ`. -/
structure Memory (σ α κ ν : Type*) where
  read : σ → α → ν
  write : σ → α → ν → σ
  locked : σ → κ → Bool
  setLock : σ → κ → Bool → σ
  read_write_self : ∀ m a v, read (write m a v) a = v
  read_write_ne : ∀ m a v b, b ≠ a → read (write m a v) b = read m b
  locked_write : ∀ m a v l, locked (write m a v) l = locked m l
  read_setLock : ∀ m l b a, read (setLock m l b) a = read m a
  locked_setLock_self : ∀ m l b, locked (setLock m l b) l = b
  locked_setLock_ne : ∀ m l b l', l' ≠ l → locked (setLock m l b) l' = locked m l'
  ext : ∀ m m', (∀ a, read m a = read m' a) → (∀ l, locked m l = locked m' l) → m = m'

/-- The accesses of a call. `get` is an exchange with the lock bit, again and again until the bit
was clear. -/
inductive Code (α κ ν : Type*) where
  | ret
  | load (a : α) (k : ν → Code α κ ν)
  | store (a : α) (v : ν) (k : Code α κ ν)
  | get (l : κ) (k : Code α κ ν)
  | release (l : κ) (k : Code α κ ν)

variable {σ α κ ν : Type*}

namespace Code

/-- The code with no other thread in between: `none` if it waits for ever. -/
def exec (M : Memory σ α κ ν) : Code α κ ν → σ → Option σ
  | ret, m => some m
  | load a k, m => (k (M.read m a)).exec M m
  | store a v k, m => k.exec M (M.write m a v)
  | get l k, m => if M.locked m l then none else k.exec M (M.setLock m l true)
  | release l k, m => k.exec M (M.setLock m l false)

/-- The code stays on the cells `P` until it releases `l`, and then it returns. -/
def Inside (M : Memory σ α κ ν) (P : α → Prop) (l : κ) : Code α κ ν → σ → Prop
  | ret, _ => False
  | load a k, m => P a ∧ (k (M.read m a)).Inside M P l m
  | store a v k, m => P a ∧ k.Inside M P l (M.write m a v)
  | get _ _, _ => False
  | release l' k, _ => l' = l ∧ k = ret

/-- The code reads the cells `Q` only until it gets `l`, or returns without the lock. -/
def Before (M : Memory σ α κ ν) (P Q : α → Prop) (l : κ) : Code α κ ν → σ → Prop
  | ret, _ => True
  | load a k, m => Q a ∧ (k (M.read m a)).Before M P Q l m
  | store _ _ _, _ => False
  | get l' k, m => l' = l ∧ k.Inside M P l (M.setLock m l true)
  | release _ _, _ => False

/-- The code `c'` is what is left of `c` behind some reads of the cells `Q`. -/
inductive Loads (M : Memory σ α κ ν) (Q : α → Prop) (m : σ) (c : Code α κ ν) :
    Code α κ ν → Prop where
  | refl : Loads M Q m c c
  | load {a : α} {k : ν → Code α κ ν} (h : Loads M Q m c (load a k)) (ha : Q a) :
    Loads M Q m c (k (M.read m a))

variable {M : Memory σ α κ ν} {P Q : α → Prop} {l : κ} {c c' : Code α κ ν} {m m' r : σ}

theorem Inside.agree (hc : c.Inside M P l m) (h : ∀ a, P a → M.read m a = M.read m' a)
    (hr : c.exec M m = some r) :
    c.Inside M P l m' ∧ ∃ r', c.exec M m' = some r' ∧ ∀ a, P a → M.read r a = M.read r' a := by
  induction c generalizing m m' with
  | ret => exact hc.elim
  | load a k ih =>
    obtain ⟨ha, hc⟩ := hc
    have heq := h a ha
    obtain ⟨hin, r', hr', hag⟩ := ih _ hc h hr
    refine ⟨⟨ha, ?_⟩, r', ?_, hag⟩
    · rw [← heq]
      exact hin
    · rw [exec, ← heq]
      exact hr'
  | store a v k ih =>
    obtain ⟨ha, hc⟩ := hc
    have hstore : ∀ b, P b → M.read (M.write m a v) b = M.read (M.write m' a v) b := by
      intro b hb
      by_cases hba : b = a
      · rw [hba, M.read_write_self, M.read_write_self]
      · rw [M.read_write_ne _ _ _ _ hba, M.read_write_ne _ _ _ _ hba, h b hb]
    obtain ⟨hin, r', hr', hag⟩ := ih hc hstore hr
    exact ⟨⟨ha, hin⟩, r', hr', hag⟩
  | get => exact hc.elim
  | release l' k =>
    obtain ⟨rfl, rfl⟩ := hc
    obtain rfl := Option.some.inj hr
    refine ⟨⟨rfl, rfl⟩, _, rfl, fun a ha => ?_⟩
    rw [M.read_setLock, M.read_setLock, h a ha]

theorem Inside.exec_eq (hc : c.Inside M P l m) :
    ∃ r, c.exec M m = some r ∧ (∀ a, ¬ P a → M.read r a = M.read m a) ∧
      M.locked r l = false ∧ ∀ l' ≠ l, M.locked r l' = M.locked m l' := by
  induction c generalizing m with
  | ret => exact hc.elim
  | load a k ih => exact ih _ hc.2
  | store a v k ih =>
    obtain ⟨r, hr, hcells, hl, hlocks⟩ := ih hc.2
    refine ⟨r, hr, fun b hb => ?_, hl, fun l' hl' => ?_⟩
    · have hba : b ≠ a := fun e => hb (e ▸ hc.1)
      rw [hcells b hb, M.read_write_ne _ _ _ _ hba]
    · rw [hlocks l' hl', M.locked_write]
  | get => exact hc.elim
  | release l' k =>
    obtain ⟨rfl, rfl⟩ := hc
    exact ⟨_, rfl, fun a _ => M.read_setLock .., M.locked_setLock_self ..,
      fun l'' hne => M.locked_setLock_ne _ _ _ _ hne⟩

theorem Inside.ne_ret (hc : c.Inside M P l m) : c ≠ ret := by
  rintro rfl
  exact hc

theorem Loads.congr (h : Loads M Q m c c') (hag : ∀ a, Q a → M.read m' a = M.read m a) :
    Loads M Q m' c c' := by
  induction h with
  | refl => exact .refl
  | load _ ha ih =>
    rw [← hag _ ha]
    exact ih.load ha

theorem Loads.exec_eq (h : Loads M Q m c c') : c.exec M m = c'.exec M m := by
  induction h with
  | refl => rfl
  | load _ _ ih => exact ih

theorem Loads.before (h : Loads M Q m c c') (hc : c.Before M P Q l m) :
    c'.Before M P Q l m := by
  induction h with
  | refl => exact hc
  | load _ _ ih => exact ih.2

end Code

/-! ## Calls -/

/-- Calls on a memory. A cell belongs to a lock or to an owner; a call works on the cells of its
lock and of its owner. Alone and on a good memory, a call that is ready does what `atomic` says. -/
structure Calls (M : Memory σ α κ ν) (op ω : Type*) where
  body : op → Code α κ ν
  lock : op → κ
  owner : op → ω
  home : α → κ ⊕ ω
  atomic : op → σ → Option σ
  Good : σ → Prop
  Ready : op → σ → Prop
  unlocked : ∀ m, Good m → ∀ l, M.locked m l = false
  before : ∀ o m, Good m → Ready o m →
    (body o).Before M (fun a => home a = .inl (lock o) ∨ home a = .inr (owner o))
      (fun a => home a = .inr (owner o)) (lock o) m
  exec_body : ∀ o m, Good m → Ready o m → (body o).exec M m = atomic o m
  good_atomic : ∀ o m m', Good m → Ready o m → atomic o m = some m' → Good m'
  ready_atomic : ∀ o o' m m', Good m → Ready o m → Ready o' m → owner o ≠ owner o' →
    atomic o' m = some m' → Ready o m'

/-- A thread in a call; `entered` says whether the call got its lock. -/
structure Thread (α κ ν op : Type*) where
  op : op
  code : Code α κ ν
  entered : Bool

/-- The memory, the calls that the threads are in, and the calls that took effect, in the order in
which they got their locks or returned without. -/
structure State (σ α κ ν op ι : Type*) where
  mem : σ
  threads : ι → Option (Thread α κ ν op)
  log : List (ι × op)

/-- A step: the thread `t` starts a call, or does its next access. -/
inductive Act (ι op : Type*) where
  | call (t : ι) (o : op)
  | run (t : ι)

variable {op ω ι : Type*} {M : Memory σ α κ ν}

/-- One access of a thread: the memory, the thread, and whether the call takes effect. -/
def Thread.step (M : Memory σ α κ ν) (th : Thread α κ ν op) (m : σ) :
    σ × Option (Thread α κ ν op) × Bool :=
  match th.code with
  | .ret => (m, none, !th.entered)
  | .load a k => (m, some { th with code := k (M.read m a) }, false)
  | .store a v k => (M.write m a v, some { th with code := k }, false)
  | .get l k =>
    if M.locked m l then (m, some th, false)
    else (M.setLock m l true, some { th with code := k, entered := true }, true)
  | .release l k => (M.setLock m l false, some { th with code := k }, false)

/-- The thread is between its lock and the release. -/
def Thread.InSection (th : Thread α κ ν op) : Prop := th.entered = true ∧ th.code ≠ .ret

section Machine

variable [DecidableEq ι]

/-- The state behind the next access of the thread `t`. -/
def State.after (M : Memory σ α κ ν) (s : State σ α κ ν op ι) (t : ι) (th : Thread α κ ν op) :
    State σ α κ ν op ι where
  mem := (th.step M s.mem).1
  threads := Function.update s.threads t (th.step M s.mem).2.1
  log := if (th.step M s.mem).2.2 then s.log ++ [(t, th.op)] else s.log

/-- A thread without a call starts one, or a thread makes its next access. -/
def State.act (C : Calls M op ω) (s : State σ α κ ν op ι) : Act ι op →
    Option (State σ α κ ν op ι)
  | .call t o =>
    if (s.threads t).isNone then
      some { s with threads := Function.update s.threads t (some ⟨o, C.body o, false⟩) }
    else none
  | .run t => (s.threads t).map (s.after M t)

/-- The calls one after the other. -/
def Calls.serial (C : Calls M op ω) : List op → σ → Option σ
  | [], m => some m
  | o :: os, m => (C.atomic o m).bind (C.serial os)

/-- No thread is in a call. -/
def State.init (m : σ) : State σ α κ ν op ι := ⟨m, fun _ => none, []⟩

/-- A step of the threads from the memory `m₀` on. A new call has an owner that no call in progress
has, and it is ready behind the calls that took effect. -/
def Calls.Step (C : Calls M op ω) (m₀ : σ) (s : State σ α κ ν op ι) (a : Act ι op)
    (s' : State σ α κ ν op ι) : Prop :=
  s.act C a = some s' ∧ ∀ t o, a = .call t o →
    (∀ t' th, s.threads t' = some th → C.owner th.op ≠ C.owner o) ∧
      ∀ m, C.serial (s.log.map Prod.snd) m₀ = some m → C.Ready o m

/-- The calls that the thread `t` starts. -/
def callsOf (t : ι) : List (Act ι op) → List op
  | [] => []
  | .call t' o :: as => if t' = t then o :: callsOf t as else callsOf t as
  | .run _ :: as => callsOf t as

/-- The call of the thread `t` that did not take effect yet. -/
def State.pending (s : State σ α κ ν op ι) (t : ι) : List op :=
  match s.threads t with
  | none => []
  | some th => if th.entered then [] else [th.op]

/-- The calls of the thread `t` that took effect. -/
def State.done (s : State σ α κ ν op ι) (t : ι) : List op :=
  (s.log.filter fun e => e.1 = t).map Prod.snd

end Machine

/-! ## The invariant -/

namespace Calls

variable (C : Calls M op ω)

/-- The cells that a call works on. -/
def Mine (o : op) (a : α) : Prop := C.home a = .inl (C.lock o) ∨ C.home a = .inr (C.owner o)

/-- A thread on the memory `m`, when the calls that took effect lead to `g`: one that waits has only
read its own cells, and the section of another one leads to the cells of `g`. -/
structure ThreadOk (m g : σ) (th : Thread α κ ν op) : Prop where
  waits : th.entered = false → C.Ready th.op g ∧
    Code.Loads M (fun a => C.home a = .inr (C.owner th.op)) g (C.body th.op) th.code
  inside : th.InSection → th.code.Inside M (C.Mine th.op) (C.lock th.op) m ∧
    M.locked m (C.lock th.op) = true ∧
      ∃ r, th.code.exec M m = some r ∧ ∀ a, C.Mine th.op a → M.read r a = M.read g a

/-- The calls that took effect lead to `g`; a cell that no section works on is as in `g`. -/
structure Inv (m₀ : σ) (s : State σ α κ ν op ι) (g : σ) : Prop where
  serial : C.serial (s.log.map Prod.snd) m₀ = some g
  good : C.Good g
  thread : ∀ t th, s.threads t = some th → C.ThreadOk s.mem g th
  owners : ∀ t t' th th', s.threads t = some th → s.threads t' = some th' →
    C.owner th.op = C.owner th'.op → t = t'
  excl : ∀ t t' th th', s.threads t = some th → s.threads t' = some th' → th.InSection →
    th'.InSection → C.lock th.op = C.lock th'.op → t = t'
  held : ∀ l, M.locked s.mem l = true →
    ∃ t th, s.threads t = some th ∧ th.InSection ∧ C.lock th.op = l
  cells : ∀ a, (∀ t th, s.threads t = some th → th.InSection → ¬ C.Mine th.op a) →
    M.read s.mem a = M.read g a

variable {C} {m₀ m m' g g' : σ} {s s' : State σ α κ ν op ι} {t : ι} {th th' : Thread α κ ν op}
  {o : op} {a : α}

theorem serial_append (os os' : List op) (m : σ) :
    C.serial (os ++ os') m = (C.serial os m).bind (C.serial os') := by
  induction os generalizing m with
  | nil => rfl
  | cons o os ih =>
    rw [List.cons_append, serial, serial, Option.bind_assoc]
    exact congrArg _ (funext fun m => ih m)

theorem serial_snoc (h : C.serial (s.log.map Prod.snd) m₀ = some g) (ho : C.atomic o g = some g') :
    C.serial ((s.log ++ [(t, o)]).map Prod.snd) m₀ = some g' := by
  rw [List.map_append, serial_append, h, Option.bind_some]
  show (C.atomic o g).bind (C.serial []) = some g'
  rw [ho]
  rfl

theorem not_mine {o' : op} (hl : C.lock o ≠ C.lock o') (hw : C.owner o ≠ C.owner o')
    (ha : C.Mine o a) : ¬ C.Mine o' a := by
  rintro (h | h) <;> rcases ha with ha | ha <;> rw [ha] at h
  · exact hl (Sum.inl.inj h)
  · cases h
  · cases h
  · exact hw (Sum.inr.inj h)

theorem ThreadOk.of_cells (h : C.ThreadOk m g th)
    (hm : th.InSection → ∀ a, C.Mine th.op a → M.read m a = M.read m' a)
    (hl : th.InSection → M.locked m' (C.lock th.op) = M.locked m (C.lock th.op)) :
    C.ThreadOk m' g th := by
  refine ⟨h.waits, fun hin => ?_⟩
  obtain ⟨hc, hlocked, r, hr, hag⟩ := h.inside hin
  obtain ⟨hc', r', hr', hag'⟩ := hc.agree (hm hin) hr
  exact ⟨hc', (hl hin).trans hlocked, r', hr', fun a ha => (hag' a ha).symm.trans (hag a ha)⟩

theorem ThreadOk.of_others (h : C.ThreadOk m g th) (hw : C.owner th.op ≠ C.owner o)
    (hl : th.InSection → C.lock th.op ≠ C.lock o)
    (hready : ∀ o', C.Ready o' g → C.owner o' ≠ C.owner o → C.Ready o' g')
    (hcells : ∀ a, ¬ C.Mine o a → M.read m' a = M.read m a ∧ M.read g' a = M.read g a)
    (hlocks : ∀ l, l ≠ C.lock o → M.locked m' l = M.locked m l) : C.ThreadOk m' g' th := by
  have hout : ∀ a, C.home a = .inr (C.owner th.op) → ¬ C.Mine o a := by
    rintro a ha (h | h) <;> rw [ha] at h
    · cases h
    · exact hw (Sum.inr.inj h)
  have hapart : th.InSection → ∀ a, C.Mine th.op a → ¬ C.Mine o a :=
    fun hsec a ha => not_mine (hl hsec) hw ha
  have h' : C.ThreadOk m' g th :=
    h.of_cells (fun hsec a ha => (hcells a (hapart hsec a ha)).1.symm)
      fun hsec => hlocks _ (hl hsec)
  refine ⟨fun he => ?_, fun hsec => ?_⟩
  · obtain ⟨hr, hloads⟩ := h'.waits he
    exact ⟨hready _ hr hw, hloads.congr fun a ha => (hcells a (hout a ha)).2⟩
  · obtain ⟨hc, hlk, r, hr, hag⟩ := h'.inside hsec
    refine ⟨hc, hlk, r, hr, fun a ha => ?_⟩
    rw [(hcells a (hapart hsec a ha)).2]
    exact hag a ha

theorem update_eq_some [DecidableEq ι] {β : Type*} {f : ι → Option β} {t t' : ι} {o : Option β}
    {x : β} : Function.update f t o t' = some x ↔ t' = t ∧ o = some x ∨ t' ≠ t ∧ f t' = some x := by
  by_cases h : t' = t
  · subst h
    simp
  · simp [h]

namespace Inv

variable (hi : C.Inv m₀ s g) (ht : s.threads t = some th)

include hi ht

theorem others {t' : ι} (hne : t' ≠ t) (ht' : s.threads t' = some th') :
    C.owner th'.op ≠ C.owner th.op ∧
      (th.InSection → th'.InSection → C.lock th'.op ≠ C.lock th.op ∧
        ∀ a, C.Mine th.op a → ¬ C.Mine th'.op a) := by
  have hw : C.owner th'.op ≠ C.owner th.op := fun e => hne (hi.owners t' t th' th ht' ht e)
  refine ⟨hw, fun hin hin' => ?_⟩
  have hl : C.lock th'.op ≠ C.lock th.op := fun e => hne (hi.excl t' t th' th ht' ht hin' hin e)
  exact ⟨hl, fun a ha => not_mine hl.symm hw.symm ha⟩

theorem own_cell (he : th.entered = false) (ha : C.home a = .inr (C.owner th.op)) :
    M.read s.mem a = M.read g a := by
  apply hi.cells
  intro t' th' ht' hin' hmine
  obtain h | h := hmine
  · rw [ha] at h
    cases h
  · rw [ha] at h
    obtain rfl := hi.owners t t' th th' ht ht' (Sum.inr.inj h)
    obtain rfl : th = th' := Option.some.inj (ht.symm.trans ht')
    exact Bool.false_ne_true (he.symm.trans hin'.1)

omit hi ht

variable [DecidableEq ι]

theorem local_step (hi : C.Inv m₀ s g) (ht : s.threads t = some th) {o' : Option (Thread α κ ν op)}
    {log : List (ι × op)} (hlog : C.serial (log.map Prod.snd) m₀ = some g)
    (hok : ∀ th', o' = some th' → th'.op = th.op ∧ C.ThreadOk s.mem g th' ∧
      (th'.InSection → th.InSection))
    (hin : th.InSection → ∃ th', o' = some th' ∧ th'.InSection) :
    C.Inv m₀ ⟨s.mem, Function.update s.threads t o', log⟩ g := by
  have hback : ∀ t' th', Function.update s.threads t o' t' = some th' →
      ∃ th₀, s.threads t' = some th₀ ∧ th'.op = th₀.op ∧ C.ThreadOk s.mem g th' ∧
        (th'.InSection → th₀.InSection) := by
    intro t' th' h
    obtain ⟨rfl, he⟩ | ⟨-, he⟩ := update_eq_some.mp h
    · exact ⟨th, ht, hok th' he⟩
    · exact ⟨th', he, rfl, hi.thread t' th' he, id⟩
  have hforth : ∀ t' th₀, s.threads t' = some th₀ → th₀.InSection →
      ∃ th', Function.update s.threads t o' t' = some th' ∧ th'.op = th₀.op ∧ th'.InSection := by
    intro t' th₀ h hsec
    by_cases htt : t' = t
    · subst htt
      obtain rfl : th = th₀ := Option.some.inj (ht.symm.trans h)
      obtain ⟨th', ho', hsec'⟩ := hin hsec
      exact ⟨th', update_eq_some.mpr (Or.inl ⟨rfl, ho'⟩), (hok th' ho').1, hsec'⟩
    · exact ⟨th₀, update_eq_some.mpr (Or.inr ⟨htt, h⟩), rfl, hsec⟩
  refine ⟨hlog, hi.good, fun t' th' h => ?_, fun t₁ t₂ th₁ th₂ h₁ h₂ hw => ?_,
    fun t₁ t₂ th₁ th₂ h₁ h₂ hs₁ hs₂ hl => ?_, fun l hl => ?_, fun a ha => ?_⟩
  · obtain ⟨-, -, -, hok', -⟩ := hback t' th' h
    exact hok'
  · obtain ⟨x₁, hx₁, ho₁, -⟩ := hback t₁ th₁ h₁
    obtain ⟨x₂, hx₂, ho₂, -⟩ := hback t₂ th₂ h₂
    rw [ho₁, ho₂] at hw
    exact hi.owners t₁ t₂ x₁ x₂ hx₁ hx₂ hw
  · obtain ⟨x₁, hx₁, ho₁, -, hin₁⟩ := hback t₁ th₁ h₁
    obtain ⟨x₂, hx₂, ho₂, -, hin₂⟩ := hback t₂ th₂ h₂
    rw [ho₁, ho₂] at hl
    exact hi.excl t₁ t₂ x₁ x₂ hx₁ hx₂ (hin₁ hs₁) (hin₂ hs₂) hl
  · obtain ⟨t', th₀, h, hsec, rfl⟩ := hi.held l hl
    obtain ⟨th', h', ho, hsec'⟩ := hforth t' th₀ h hsec
    exact ⟨t', th', h', hsec', congrArg C.lock ho⟩
  · refine hi.cells a fun t' th₀ h hsec hmine => ?_
    obtain ⟨th', h', ho, hsec'⟩ := hforth t' th₀ h hsec
    exact ha t' th' h' hsec' (ho ▸ hmine)

theorem section_step (hi : C.Inv m₀ s g) (ht : s.threads t = some th)
    (hacc : th.InSection ∨ M.locked s.mem (C.lock th.op) = false) {log : List (ι × op)}
    (hlog : C.serial (log.map Prod.snd) m₀ = some g') (hgood : C.Good g')
    (hready : ∀ o, C.Ready o g → C.owner o ≠ C.owner th.op → C.Ready o g')
    (hcells : ∀ a, ¬ C.Mine th.op a → M.read m' a = M.read s.mem a ∧ M.read g' a = M.read g a)
    (hlocks : ∀ l, l ≠ C.lock th.op → M.locked m' l = M.locked s.mem l)
    (hop : th'.op = th.op) (hok : C.ThreadOk m' g' th')
    (hheld : M.locked m' (C.lock th.op) = true → th'.InSection)
    (hfree : ¬ th'.InSection → ∀ a, C.Mine th.op a → M.read m' a = M.read g' a) :
    C.Inv m₀ ⟨m', Function.update s.threads t (some th'), log⟩ g' := by
  have hlock : ∀ t₂ th₂, t₂ ≠ t → s.threads t₂ = some th₂ → th₂.InSection →
      C.lock th₂.op ≠ C.lock th'.op := by
    rw [hop]
    intro t₂ th₂ hne h₂ hsec
    obtain hin | hun := hacc
    · exact ((hi.others ht hne h₂).2 hin hsec).1
    · intro e
      have hl := ((hi.thread t₂ th₂ h₂).inside hsec).2.1
      rw [e, hun] at hl
      exact Bool.false_ne_true hl
  have howner : ∀ t₂ th₂, t₂ ≠ t → s.threads t₂ = some th₂ →
      C.owner th₂.op ≠ C.owner th'.op := by
    rw [hop]
    exact fun t₂ th₂ hne h₂ => (hi.others ht hne h₂).1
  rw [← hop] at hready hcells hlocks hheld hfree
  refine ⟨hlog, hgood, fun t₂ th₂ h => ?_, fun t₁ t₂ th₁ th₂ h₁ h₂ hw => ?_,
    fun t₁ t₂ th₁ th₂ h₁ h₂ hs₁ hs₂ hl => ?_, fun l hl => ?_, fun a ha => ?_⟩
  · obtain ⟨rfl, he⟩ | ⟨htt, he⟩ := update_eq_some.mp h
    · obtain rfl := Option.some.inj he
      exact hok
    · exact (hi.thread t₂ th₂ he).of_others (howner t₂ th₂ htt he) (hlock t₂ th₂ htt he) hready
        hcells hlocks
  · obtain ⟨rfl, he₁⟩ | ⟨h1, he₁⟩ := update_eq_some.mp h₁ <;>
      obtain ⟨rfl, he₂⟩ | ⟨h2, he₂⟩ := update_eq_some.mp h₂
    · rfl
    · obtain rfl := Option.some.inj he₁
      exact absurd hw.symm (howner t₂ th₂ h2 he₂)
    · obtain rfl := Option.some.inj he₂
      exact absurd hw (howner t₁ th₁ h1 he₁)
    · exact hi.owners _ _ _ _ he₁ he₂ hw
  · obtain ⟨rfl, he₁⟩ | ⟨h1, he₁⟩ := update_eq_some.mp h₁ <;>
      obtain ⟨rfl, he₂⟩ | ⟨h2, he₂⟩ := update_eq_some.mp h₂
    · rfl
    · obtain rfl := Option.some.inj he₁
      exact absurd hl.symm (hlock t₂ th₂ h2 he₂ hs₂)
    · obtain rfl := Option.some.inj he₂
      exact absurd hl (hlock t₁ th₁ h1 he₁ hs₁)
    · exact hi.excl _ _ _ _ he₁ he₂ hs₁ hs₂ hl
  · by_cases hlt : l = C.lock th'.op
    · subst hlt
      exact ⟨t, th', update_eq_some.mpr (Or.inl ⟨rfl, rfl⟩), hheld hl, rfl⟩
    · obtain ⟨t₂, th₂, h₂, hsec, rfl⟩ := hi.held l ((hlocks l hlt).symm.trans hl)
      have htt : t₂ ≠ t := by
        rintro rfl
        obtain rfl : th = th₂ := Option.some.inj (ht.symm.trans h₂)
        exact hlt (congrArg C.lock hop.symm)
      exact ⟨t₂, th₂, update_eq_some.mpr (Or.inr ⟨htt, h₂⟩), hsec, rfl⟩
  · by_cases hmine : C.Mine th'.op a
    · exact hfree (fun hsec => ha t th' (update_eq_some.mpr (Or.inl ⟨rfl, rfl⟩)) hsec hmine) a hmine
    · obtain ⟨hm, hg⟩ := hcells a hmine
      show M.read m' a = M.read g' a
      rw [hm, hg]
      refine hi.cells a fun t₂ th₂ h₂ hsec hmine₂ => ?_
      by_cases htt : t₂ = t
      · subst htt
        obtain rfl : th = th₂ := Option.some.inj (ht.symm.trans h₂)
        exact hmine (hop ▸ hmine₂)
      · exact ha t₂ th₂ (update_eq_some.mpr (Or.inr ⟨htt, h₂⟩)) hsec hmine₂

theorem call_step (hi : C.Inv m₀ s g) (ht : s.threads t = none) (hr : C.Ready o g)
    (hw : ∀ t' th, s.threads t' = some th → C.owner th.op ≠ C.owner o) :
    C.Inv m₀ { s with threads := Function.update s.threads t (some ⟨o, C.body o, false⟩) } g := by
  have hout : ¬ (⟨o, C.body o, false⟩ : Thread α κ ν op).InSection := fun h =>
    Bool.false_ne_true h.1
  refine ⟨hi.serial, hi.good, fun t₂ th₂ h => ?_, fun t₁ t₂ th₁ th₂ h₁ h₂ he => ?_,
    fun t₁ t₂ th₁ th₂ h₁ h₂ hs₁ hs₂ hl => ?_, fun l hl => ?_, fun a ha => ?_⟩
  · obtain ⟨rfl, h'⟩ | ⟨-, h'⟩ := update_eq_some.mp h
    · obtain rfl := Option.some.inj h'
      exact ⟨fun _ => ⟨hr, .refl⟩, fun hsec => absurd hsec hout⟩
    · exact hi.thread t₂ th₂ h'
  · obtain ⟨rfl, he₁⟩ | ⟨-, he₁⟩ := update_eq_some.mp h₁ <;>
      obtain ⟨rfl, he₂⟩ | ⟨-, he₂⟩ := update_eq_some.mp h₂
    · rfl
    · obtain rfl := Option.some.inj he₁
      exact absurd he.symm (hw t₂ th₂ he₂)
    · obtain rfl := Option.some.inj he₂
      exact absurd he (hw t₁ th₁ he₁)
    · exact hi.owners _ _ _ _ he₁ he₂ he
  · obtain ⟨-, he₁⟩ | ⟨-, he₁⟩ := update_eq_some.mp h₁
    · obtain rfl := Option.some.inj he₁
      exact absurd hs₁ hout
    obtain ⟨-, he₂⟩ | ⟨-, he₂⟩ := update_eq_some.mp h₂
    · obtain rfl := Option.some.inj he₂
      exact absurd hs₂ hout
    · exact hi.excl _ _ _ _ he₁ he₂ hs₁ hs₂ hl
  · obtain ⟨t₂, th₂, h₂, hsec, hlk⟩ := hi.held l hl
    refine ⟨t₂, th₂, update_eq_some.mpr (Or.inr ⟨?_, h₂⟩), hsec, hlk⟩
    rintro rfl
    rw [ht] at h₂
    cases h₂
  · refine hi.cells a fun t₂ th₂ h₂ hsec => ha t₂ th₂ (update_eq_some.mpr (Or.inr ⟨?_, h₂⟩)) hsec
    rintro rfl
    rw [ht] at h₂
    cases h₂

theorem wait_step {c : Code α κ ν} (hi : C.Inv m₀ s g) (ht : s.threads t = some ⟨o, c, false⟩) :
    ∃ g', C.Inv m₀ (s.after M t ⟨o, c, false⟩) g' := by
  have hok := hi.thread t _ ht
  obtain ⟨hr, hloads⟩ := hok.waits rfl
  have hbefore := hloads.before (C.before o g hi.good hr)
  have hexec : c.exec M g = C.atomic o g := by
    rw [← hloads.exec_eq, C.exec_body o g hi.good hr]
  have hout : ∀ c', ¬ (⟨o, c', false⟩ : Thread α κ ν op).InSection := fun c' h =>
    Bool.false_ne_true h.1
  cases c with
  | ret =>
    refine ⟨g, hi.local_step ht (serial_snoc hi.serial hexec.symm) nofun fun hin => ?_⟩
    exact absurd hin (hout _)
  | load a k =>
    refine ⟨g, hi.local_step ht hi.serial (fun th' h => ?_) fun hin => absurd hin (hout _)⟩
    obtain rfl := Option.some.inj h
    refine ⟨rfl, ⟨fun _ => ⟨hr, ?_⟩, fun hin => absurd hin (hout _)⟩,
      fun hin => absurd hin (hout _)⟩
    show Code.Loads M _ g (C.body o) (k (M.read s.mem a))
    rw [hi.own_cell ht rfl hbefore.1]
    exact hloads.load hbefore.1
  | store a v k => exact hbefore.elim
  | release l k => exact hbefore.elim
  | get l k =>
    obtain ⟨rfl, hin⟩ := hbefore
    by_cases hl : M.locked s.mem (C.lock o) = true
    · refine ⟨g, ?_⟩
      simp only [State.after, Thread.step, if_pos hl, Bool.false_eq_true, if_false]
      refine hi.local_step ht hi.serial (fun th' h => ?_) fun hin => absurd hin (hout _)
      obtain rfl := Option.some.inj h
      exact ⟨rfl, hok, id⟩
    · obtain ⟨g', hg', hgcells, hgl, hglocks⟩ := hin.exec_eq
      rw [Code.exec, if_neg (by rw [C.unlocked g hi.good]; exact Bool.false_ne_true)] at hexec
      have hatomic : C.atomic o g = some g' := hexec.symm.trans hg'
      have hfree : ∀ a, C.Mine o a →
          M.read (M.setLock g (C.lock o) true) a = M.read (M.setLock s.mem (C.lock o) true) a := by
        intro a ha
        rw [M.read_setLock, M.read_setLock]
        refine (hi.cells a fun t₂ th₂ h₂ hsec hmine => ?_).symm
        have hlk := ((hi.thread t₂ th₂ h₂).inside hsec).2.1
        by_cases htt : t₂ = t
        · subst htt
          obtain rfl := Option.some.inj (ht.symm.trans h₂)
          exact hout _ hsec
        · refine not_mine (fun e => ?_) (hi.others ht htt h₂).1 hmine ha
          rw [e] at hlk
          exact hl hlk
      obtain ⟨hin', r, hrun, hag⟩ := hin.agree hfree hg'
      refine ⟨g', ?_⟩
      simp only [State.after, Thread.step, if_neg hl, if_true]
      refine hi.section_step ht (Or.inr (Bool.not_eq_true _ ▸ hl)) (serial_snoc hi.serial hatomic)
        (C.good_atomic o g g' hi.good hr hatomic) (fun o' ho' hw => ?_) (fun a ha => ?_)
        (fun l hne => M.locked_setLock_ne _ _ _ _ hne) rfl ⟨nofun, fun _ => ?_⟩ (fun _ => ?_)
        fun hno => ?_
      · exact C.ready_atomic o' o g g' hi.good ho' hr hw hatomic
      · rw [M.read_setLock, hgcells a ha, M.read_setLock]
        exact ⟨rfl, rfl⟩
      · exact ⟨hin', M.locked_setLock_self .., r, hrun, fun a ha => (hag a ha).symm⟩
      · exact ⟨rfl, hin'.ne_ret⟩
      · exact absurd ⟨rfl, hin'.ne_ret⟩ hno

theorem enter_step {c : Code α κ ν} (hi : C.Inv m₀ s g) (ht : s.threads t = some ⟨o, c, true⟩) :
    C.Inv m₀ (s.after M t ⟨o, c, true⟩) g := by
  have hok := hi.thread t _ ht
  by_cases hret : c = .ret
  · subst hret
    exact hi.local_step ht hi.serial nofun fun hin => absurd rfl hin.2
  have hsec : (⟨o, c, true⟩ : Thread α κ ν op).InSection := ⟨rfl, hret⟩
  obtain ⟨hin, hlk, r, hr, hag⟩ := hok.inside hsec
  cases c with
  | ret => exact absurd rfl hret
  | get l k => exact hin.elim
  | load a k =>
    refine hi.local_step ht hi.serial (fun th' h => ?_) fun _ => ⟨_, rfl, rfl, hin.2.ne_ret⟩
    obtain rfl := Option.some.inj h
    exact ⟨rfl, ⟨nofun, fun _ => ⟨hin.2, hlk, r, hr, hag⟩⟩, fun _ => hsec⟩
  | store a v k =>
    refine hi.section_step ht (Or.inl hsec) hi.serial hi.good (fun o ho _ => ho) (fun b hb => ?_)
      (fun l _ => M.locked_write ..) rfl ⟨nofun, fun _ => ⟨hin.2, ?_, r, hr, hag⟩⟩
      (fun _ => ⟨rfl, hin.2.ne_ret⟩) fun hno => absurd ⟨rfl, hin.2.ne_ret⟩ hno
    · have hba : b ≠ a := fun e => hb (e ▸ hin.1)
      exact ⟨M.read_write_ne _ _ _ _ hba, rfl⟩
    · exact (M.locked_write ..).trans hlk
  | release l k =>
    obtain ⟨hl, hk⟩ := hin
    change l = C.lock o at hl
    subst hl hk
    obtain rfl := Option.some.inj hr
    refine hi.section_step ht (Or.inl hsec) hi.serial hi.good (fun o ho _ => ho) (fun b _ => ?_)
      (fun l hne => M.locked_setLock_ne _ _ _ _ hne) rfl
      ⟨nofun, fun h => absurd rfl h.2⟩ (fun h => ?_) fun _ => hag
    · exact ⟨M.read_setLock .., rfl⟩
    · exact absurd ((M.locked_setLock_self ..).symm.trans h) Bool.false_ne_true

/-- **One access keeps the invariant.** -/
theorem step {a : Act ι op} (hi : C.Inv m₀ s g) (h : C.Step m₀ s a s') :
    ∃ g', C.Inv m₀ s' g' := by
  obtain ⟨hact, hcall⟩ := h
  cases a with
  | call t o =>
    obtain ⟨hw, hr⟩ := hcall t o rfl
    rw [State.act] at hact
    split_ifs at hact with ht
    obtain rfl := Option.some.inj hact
    exact ⟨g, hi.call_step (Option.isNone_iff_eq_none.mp ht) (hr g hi.serial) hw⟩
  | run t =>
    obtain ⟨th, ht, rfl⟩ := Option.map_eq_some_iff.mp hact
    obtain ⟨o, c, e⟩ := th
    cases e with
    | false => exact hi.wait_step ht
    | true => exact ⟨g, hi.enter_step ht⟩

theorem step_calls {a : Act ι op} (hi : C.Inv m₀ s g) (h : C.Step m₀ s a s') (t : ι) :
    s'.done t ++ s'.pending t = s.done t ++ s.pending t ++ callsOf t [a] := by
  obtain ⟨hact, -⟩ := h
  cases a with
  | call t₁ o =>
    rw [State.act] at hact
    split_ifs at hact with ht
    obtain rfl := Option.some.inj hact
    rw [Option.isNone_iff_eq_none] at ht
    by_cases htt : t = t₁
    · subst htt
      simp [State.done, State.pending, callsOf, ht]
    · simp [State.done, State.pending, callsOf, Function.update_of_ne htt, Ne.symm htt]
  | run t₁ =>
    obtain ⟨th, ht, rfl⟩ := Option.map_eq_some_iff.mp hact
    rw [callsOf, callsOf, List.append_nil]
    by_cases htt : t = t₁
    · subst htt
      obtain ⟨o, c, e⟩ := th
      have hok := hi.thread t _ ht
      cases e with
      | false =>
        cases c with
        | get l k =>
          by_cases hl : M.locked s.mem l = true <;>
            simp [State.after, Thread.step, State.done, State.pending, ht, hl]
        | ret | load | store | release =>
          simp [State.after, Thread.step, State.done, State.pending, ht]
      | true =>
        cases c with
        | get l k => exact (hok.inside ⟨rfl, nofun⟩).1.elim
        | ret | load | store | release =>
          simp [State.after, Thread.step, State.done, State.pending, ht]
    · have hne : t₁ ≠ t := Ne.symm htt
      have hpend : (s.after M t₁ th).pending t = s.pending t := by
        simp [State.after, State.pending, Function.update_of_ne htt]
      have hdone : (s.after M t₁ th).done t = s.done t := by
        simp only [State.after, State.done]
        split_ifs <;> simp [hne]
      rw [hpend, hdone]

omit [DecidableEq ι]

theorem mem_eq (hi : C.Inv m₀ s g) (hidle : ∀ t, s.threads t = none) : s.mem = g := by
  have hno : ∀ t th, s.threads t ≠ some th := fun t th h => by
    rw [hidle t] at h
    cases h
  refine M.ext _ _ (fun a => hi.cells a fun t th h => absurd h (hno t th)) fun l => ?_
  rw [C.unlocked g hi.good, Bool.eq_false_iff]
  intro hl
  obtain ⟨t, th, h, -⟩ := hi.held l hl
  exact hno t th h

theorem progress (hi : C.Inv m₀ s g) (ht : s.threads t = some th) :
    ∃ t' th', s.threads t' = some th' ∧
      ∀ l k, th'.code = .get l k → M.locked s.mem l = false := by
  by_cases hex : ∃ l k, th.code = .get l k ∧ M.locked s.mem l = true
  · obtain ⟨l, k, -, hl⟩ := hex
    obtain ⟨t', th', ht', hsec, -⟩ := hi.held l hl
    refine ⟨t', th', ht', fun l' k' hcode => ?_⟩
    have hin := ((hi.thread t' th' ht').inside hsec).1
    rw [hcode] at hin
    exact hin.elim
  · refine ⟨t, th, ht, fun l k hcode => ?_⟩
    rw [Bool.eq_false_iff]
    exact fun hl => hex ⟨l, k, hcode, hl⟩

end Inv

theorem inv_init (C : Calls M op ω) (hg : C.Good m) :
    C.Inv m (State.init m : State σ α κ ν op ι) m :=
  ⟨rfl, hg, nofun, nofun, nofun, fun l hl => by
    rw [State.init, C.unlocked m hg] at hl
    exact absurd hl Bool.false_ne_true, fun _ _ => rfl⟩

variable [DecidableEq ι] {as : List (Act ι op)}

theorem callsOf_cons (t : ι) (a : Act ι op) (as : List (Act ι op)) :
    callsOf t (a :: as) = callsOf t [a] ++ callsOf t as := by
  cases a with
  | call t' o =>
    rw [callsOf, callsOf, callsOf]
    split_ifs <;> rfl
  | run t' => rfl

theorem Inv.run (hi : C.Inv m₀ s g) (hrun : Transition.Run (C.Step m₀) s as s') :
    (∃ g', C.Inv m₀ s' g') ∧
      ∀ t, s'.done t ++ s'.pending t = s.done t ++ s.pending t ++ callsOf t as := by
  induction hrun generalizing g with
  | nil => exact ⟨⟨g, hi⟩, fun t => (List.append_nil _).symm⟩
  | @cons s₁ a s₂ as s head tail ih =>
    obtain ⟨g', hi'⟩ := hi.step head
    obtain ⟨hinv, hcalls⟩ := ih hi'
    refine ⟨hinv, fun t => ?_⟩
    rw [hcalls t, hi.step_calls head t, callsOf_cons t a as, List.append_assoc]

/-- **Every run does what its calls do one after the other**, in the order in which they got their
locks; each thread's calls take effect once, in its order. -/
theorem run_serial (hg : C.Good m) (hrun : Transition.Run (C.Step m) (State.init m) as s) :
    (∃ g, C.Inv m s g) ∧ ∀ t, s.done t ++ s.pending t = callsOf t as :=
  (C.inv_init hg).run hrun

end Calls

end Lock
