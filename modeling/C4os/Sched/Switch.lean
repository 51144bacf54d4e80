import Mathlib.Data.UInt
import C4os.Stdlib.List

/-!
# Task switching (`multitasking.c`)

* `Tasks`: the threads and processes of memory, the current ones, and the hardware state that
  `switch_task` writes.
* `selectLoop`, `switchTask`: the selection loop and the whole function; the loop runs on fuel.
* **`selectLoop_eq`**: on a ring with a runnable thread the loop stops at the first one.
-/

namespace C4os

open Linked

/-- `Registers`. -/
structure Registers where
  gs : UInt32
  fs : UInt32
  es : UInt32
  ds : UInt32
  ebp : UInt32
  edi : UInt32
  esi : UInt32
  edx : UInt32
  ecx : UInt32
  ebx : UInt32
  eax : UInt32
  eip : UInt32
  cs : UInt32
  eflags : UInt32
  esp : UInt32
  ss : UInt32
  deriving DecidableEq

/-- The fields of `Process` that task switching reads. -/
structure Process where
  pageDir : Nat
  suspend : Bool

/-- The fields of `Thread` that task switching reads; its `list_item` is in the list heap. -/
structure Thread where
  process : Nat
  suspend : Bool
  state : Registers

/-- `tss->ss0` and `tss->esp0`. -/
structure TssStack where
  ss0 : Nat
  esp0 : Nat

/-- The state of the scheduler. -/
structure Tasks where
  heap : ListHeap
  threads : Nat → Thread
  processes : Nat → Process
  currentThread : Nat
  currentProcess : Nat
  multitaskingEnabled : Bool
  /-- The byte at `0xB8000 + 79 * 2`. -/
  indicator : UInt8
  cr3 : Nat
  /-- The TSS that the page directory maps at the address `tss`. -/
  tss : Nat → TssStack

namespace Tasks

/-- `memcpy(&current_thread->state, regs, sizeof(Registers))`. -/
def saveState (regs : Registers) (s : Tasks) : Tasks :=
  { s with
    threads := Function.update s.threads s.currentThread
      { s.threads s.currentThread with state := regs } }

/-- The thread `t` passes the test of the selection loop. -/
def runnable (s : Tasks) (t : Nat) : Bool :=
  !((s.threads t).suspend || (s.processes (s.threads t).process).suspend)

/-- `tss_set_stack`, in the address space loaded in `cr3`. -/
def tssSetStack (ss esp : Nat) (s : Tasks) : Tasks :=
  { s with tss := Function.update s.tss s.cr3 ⟨ss, esp⟩ }

end Tasks

/-- The `do … while` of `switch_task`. -/
def selectLoop : Nat → Tasks → Option Tasks
  | 0, _ => none
  | fuel + 1, s =>
    let s := { s with currentThread := s.heap.next s.currentThread }
    let s := { s with currentProcess := (s.threads s.currentThread).process }
    if (s.threads s.currentThread).suspend || (s.processes s.currentProcess).suspend then
      selectLoop fuel s
    else
      some s

/-- `switch_task` after the loop: it loads the address space and the registers of the current
thread; the kernel process keeps its interrupt stack. -/
def loadContext (esp : Nat) (s : Tasks) : Tasks × Registers :=
  let s := { s with cr3 := (s.processes s.currentProcess).pageDir }
  let regs := (s.threads s.currentThread).state
  if (s.processes s.currentProcess).pageDir ≠ 0x1000 then
    (s.tssSetStack 0x10 ((esp + 17 * 4) % 2 ^ 32), regs)
  else
    (s, regs)

/-- `switch_task`: the new state and the registers the interrupt returns with. -/
def switchTask (fuel : Nat) (regs : Registers) (esp : Nat) (s : Tasks) :
    Option (Tasks × Registers) :=
  if s.multitaskingEnabled then
    let s := { s with indicator := s.indicator + 1 }
    (selectLoop fuel (s.saveState regs)).map (loadContext esp)
  else
    some (s, regs)

/-! ## The selection loop -/

/-- The state in which the loop stops at `t`. -/
def Tasks.select (s : Tasks) (t : Nat) : Tasks :=
  { s with currentThread := t, currentProcess := (s.threads t).process }

theorem selectLoop_succ (fuel : Nat) (s : Tasks) :
    selectLoop (fuel + 1) s =
      if s.runnable (s.heap.next s.currentThread) then some (s.select (s.heap.next s.currentThread))
      else selectLoop fuel (s.select (s.heap.next s.currentThread)) := by
  by_cases hr : s.runnable (s.heap.next s.currentThread) = true
  · rw [if_pos hr, selectLoop, if_neg (by simpa [Tasks.runnable] using hr)]
    rfl
  · have hs := hr
    simp only [Tasks.runnable, Bool.not_eq_true', Bool.not_eq_false] at hs
    rw [if_neg hr, selectLoop, if_pos hs]
    rfl

theorem selectLoop_chain (fuel x : Nat) (l₁ l₂ : List Nat) (s : Tasks)
    (hc : List.IsChain (fun a b => s.heap.next a = b) (s.currentThread :: (l₁ ++ x :: l₂)))
    (hl : ∀ y ∈ l₁, s.runnable y = false) (hx : s.runnable x = true)
    (hf : l₁.length < fuel) : selectLoop fuel s = some (s.select x) := by
  induction l₁ generalizing s fuel with
  | nil =>
    obtain ⟨fuel, rfl⟩ := Nat.exists_eq_succ_of_ne_zero (Nat.ne_of_gt hf)
    have hn : s.heap.next s.currentThread = x := (List.isChain_cons_cons.mp hc).1
    rw [selectLoop_succ, hn, if_pos hx]
  | cons y l₁ ih =>
    obtain ⟨fuel, rfl⟩ := Nat.exists_eq_succ_of_ne_zero (by omega : fuel ≠ 0)
    obtain ⟨hn, hc'⟩ := List.isChain_cons_cons.mp hc
    rw [selectLoop_succ, hn, if_neg (by simp [hl y (by simp)])]
    exact ih fuel (s.select y) hc' (fun z hz => hl z (by simp [hz])) hx
      (by simp only [List.length_cons] at hf; omega)

/-- The ring read from the thread after `t` on, ending with `t`. -/
def ringAfter (ts : List Nat) (t : Nat) : List Nat := ts.rotate (ts.idxOf t + 1)

theorem ringAfter_eq {l₁ l₂ : List Nat} {t : Nat} (hnd : (l₁ ++ t :: l₂).Nodup) :
    ringAfter (l₁ ++ t :: l₂) t = l₂ ++ l₁ ++ [t] := by
  have ht : t ∉ l₁ := fun h => (List.nodup_append.mp hnd).2.2 t h t (by simp) rfl
  have hi : (l₁ ++ t :: l₂).idxOf t + 1 = (l₁ ++ [t]).length := by
    simp [List.idxOf_append_of_notMem ht]
  rw [ringAfter, hi, show l₁ ++ t :: l₂ = (l₁ ++ [t]) ++ l₂ by simp, List.rotate_append_length_eq]
  simp

theorem perm_ringAfter (ts : List Nat) (t : Nat) : (ringAfter ts t).Perm ts :=
  List.rotate_perm ts _

/-- **The loop stops at the first runnable thread after the current one.** -/
theorem selectLoop_eq {s : Tasks} {tl : Nat} {ts : List Nat} (hr : OnRing s.heap tl ts)
    (hc : s.currentThread ∈ ts) {x fuel : Nat} (hf : ts.length ≤ fuel)
    (hx : (ringAfter ts s.currentThread).find? s.runnable = some x) :
    selectLoop fuel s = some (s.select x) := by
  cases ts with
  | nil => simp at hc
  | cons a r =>
    obtain ⟨l₁, l₂, he, hring⟩ := hr.2.2.exists_cons hc
    have hnd := hr.2.2.nodup
    rw [he] at hnd hf
    rw [he, ringAfter_eq hnd] at hx
    obtain ⟨hrx, u, v, huv, hu⟩ := List.find?_eq_some_iff_append.mp hx
    have hchain := hring.seg.isChain
    rw [huv] at hchain
    refine selectLoop_chain _ x u v s hchain (fun y hy => by simpa using hu y hy) hrx ?_
    have hlen := congrArg List.length huv
    simp only [List.length_append, List.length_cons, List.length_nil] at hlen hf
    omega

theorem selectLoop_mem {ts : Set Nat} {fuel : Nat} {s s' : Tasks}
    (hn : ∀ t ∈ ts, s.heap.next t ∈ ts) (hc : s.currentThread ∈ ts)
    (h : selectLoop fuel s = some s') : ∃ x ∈ ts, s' = s.select x := by
  induction fuel generalizing s with
  | zero => cases h
  | succ fuel ih =>
    have hx : s.heap.next s.currentThread ∈ ts := hn _ hc
    rw [selectLoop_succ] at h
    by_cases hr : s.runnable (s.heap.next s.currentThread) = true
    · rw [if_pos hr] at h
      exact ⟨_, hx, (Option.some.inj h).symm⟩
    · rw [if_neg hr] at h
      obtain ⟨x, hxs, he⟩ := ih (s := s.select (s.heap.next s.currentThread)) hn hx h
      exact ⟨x, hxs, he⟩

/-! ## The whole function -/

@[simp] theorem saveState_heap (regs : Registers) (s : Tasks) :
    (s.saveState regs).heap = s.heap := rfl

@[simp] theorem saveState_currentThread (regs : Registers) (s : Tasks) :
    (s.saveState regs).currentThread = s.currentThread := rfl

theorem saveState_threads (regs : Registers) (s : Tasks) (t : Nat) :
    ((s.saveState regs).threads t).process = (s.threads t).process ∧
      ((s.saveState regs).threads t).suspend = (s.threads t).suspend ∧
      ((s.saveState regs).threads t).state =
        if t = s.currentThread then regs else (s.threads t).state := by
  by_cases ht : t = s.currentThread <;> simp [Tasks.saveState, ht]

@[simp] theorem saveState_runnable (regs : Registers) (s : Tasks) :
    (s.saveState regs).runnable = s.runnable := by
  funext t
  obtain ⟨h1, h2, -⟩ := saveState_threads regs s t
  simp only [Tasks.runnable, h1, h2]
  rfl

theorem loadContext_spec (esp : Nat) (s : Tasks) :
    (loadContext esp s).2 = (s.threads s.currentThread).state ∧
      (loadContext esp s).1.heap = s.heap ∧ (loadContext esp s).1.threads = s.threads ∧
      (loadContext esp s).1.currentThread = s.currentThread ∧
      (loadContext esp s).1.currentProcess = s.currentProcess ∧
      (loadContext esp s).1.multitaskingEnabled = s.multitaskingEnabled := by
  unfold loadContext
  dsimp only
  split_ifs <;> exact ⟨rfl, rfl, rfl, rfl, rfl, rfl⟩

theorem loadContext_tss {esp : Nat} {s : Tasks}
    (h : (s.processes s.currentProcess).pageDir ≠ 0x1000) :
    (loadContext esp s).1.tss (loadContext esp s).1.cr3 = ⟨0x10, (esp + 17 * 4) % 2 ^ 32⟩ := by
  unfold loadContext
  dsimp only
  rw [if_pos h]
  exact Function.update_self _ _ _

/-- What a task switch to the thread `x` does. -/
structure Switched (regs : Registers) (esp : Nat) (s s' : Tasks) (x : Nat) : Prop where
  multitaskingEnabled : s'.multitaskingEnabled = true
  current : s'.currentThread = x
  heap : s'.heap = s.heap
  processes : s'.processes = s.processes
  process : ∀ t, (s'.threads t).process = (s.threads t).process
  state : ∀ t, (s'.threads t).state = if t = s.currentThread then regs else (s.threads t).state
  tss : (s.processes (s.threads x).process).pageDir ≠ 0x1000 →
    s'.tss s'.cr3 = ⟨0x10, (esp + 17 * 4) % 2 ^ 32⟩

/-- **A task switch goes to a thread of any set that `next` does not leave.** -/
theorem switchTask_mem {ts : Set Nat} {fuel esp : Nat} {regs : Registers} {s : Tasks}
    {q : Tasks × Registers} (hn : ∀ t ∈ ts, s.heap.next t ∈ ts) (hc : s.currentThread ∈ ts)
    (hen : s.multitaskingEnabled = true) (h : switchTask fuel regs esp s = some q) :
    ∃ x ∈ ts, Switched regs esp s q.1 x ∧ q.2 = (q.1.threads x).state := by
  unfold switchTask at h
  rw [if_pos hen] at h
  set s₁ : Tasks := { s with indicator := s.indicator + 1 } with hs₁
  obtain ⟨s₂, hsel, rfl⟩ := Option.map_eq_some_iff.mp h
  obtain ⟨x, hx, rfl⟩ := selectLoop_mem (s := s₁.saveState regs) hn hc hsel
  have hth := saveState_threads regs s₁
  have hproc : (loadContext esp ((s₁.saveState regs).select x)).1.processes = s.processes := by
    unfold loadContext
    dsimp only
    split_ifs <;> rfl
  obtain ⟨h1, h2, h3, h4, -, h6⟩ := loadContext_spec esp ((s₁.saveState regs).select x)
  refine ⟨x, hx, ⟨h6.trans hen, h4, h2, hproc, ?_, ?_, ?_⟩, ?_⟩
  · intro t
    rw [h3]
    exact (hth t).1
  · intro t
    rw [h3]
    exact (hth t).2.2
  · intro hp
    apply loadContext_tss
    show (s.processes ((s₁.saveState regs).threads x).process).pageDir ≠ 0x1000
    rw [(hth x).1]
    exact hp
  · rw [h1, h3]
    rfl

/-- **A task switch**: it saves the registers of the current thread, goes to the first runnable
thread behind it and returns with that thread's registers, and changes no other saved state. -/
theorem switchTask_eq {s : Tasks} {tl : Nat} {ts : List Nat} (hr : OnRing s.heap tl ts)
    (hc : s.currentThread ∈ ts) (hen : s.multitaskingEnabled = true) {x fuel : Nat}
    (hf : ts.length ≤ fuel) (hx : (ringAfter ts s.currentThread).find? s.runnable = some x)
    (regs : Registers) (esp : Nat) :
    ∃ s', switchTask fuel regs esp s = some (s', (s'.threads x).state) ∧ s'.heap = s.heap ∧
      s'.multitaskingEnabled = true ∧ s'.currentThread = x ∧
      s'.currentProcess = (s.threads x).process ∧
      (∀ t, (s'.threads t).process = (s.threads t).process) ∧
      ∀ t, (s'.threads t).state = if t = s.currentThread then regs else (s.threads t).state := by
  set s₁ : Tasks := { s with indicator := s.indicator + 1 } with hs₁
  have hx₁ : (ringAfter ts (s₁.saveState regs).currentThread).find?
      (s₁.saveState regs).runnable = some x := by
    rw [saveState_runnable]
    exact hx
  have hsel : selectLoop fuel (s₁.saveState regs) = some ((s₁.saveState regs).select x) :=
    selectLoop_eq (s := s₁.saveState regs) hr hc hf hx₁
  have hth := saveState_threads regs s₁
  obtain ⟨h1, h2, h3, h4, h5, h6⟩ := loadContext_spec esp ((s₁.saveState regs).select x)
  refine ⟨(loadContext esp ((s₁.saveState regs).select x)).1, ?_, h2, h6.trans hen, h4,
    h5.trans (hth x).1, fun t => ?_, fun t => ?_⟩
  · rw [switchTask, if_pos hen, ← hs₁]
    dsimp only
    rw [hsel, Option.map_some, h3]
    exact congrArg some (Prod.ext rfl h1)
  · rw [h3]
    exact (hth t).1
  · rw [h3]
    exact (hth t).2.2

end C4os
