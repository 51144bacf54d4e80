import C4os.Lib.Turns
import C4os.Sched.RoundRobin
import C4os.Stdlib.Traversal

/-!
# Waiting for a turn while threads are created

* `TaskAct`: a timer interrupt, or a thread that `create_thread` puts on the list.
* `TaskAct.turn`: each action is a turn of the queue `ringAfter`.
* **`thread_served`**: a thread that stays runnable runs again before there were more ticks than
  threads.
-/

namespace C4os

open Transition

/-- What happens to the threads: a timer interrupt and the switch it makes, or a new thread. -/
inductive TaskAct where
  | tick (tk : Tick) (sw : Switch)
  | create (t : Nat) (th : Thread)

/-- One action. `create_thread` fills in the thread, then appends it to the list `tl`. -/
def TaskAct.step (fuel tl : Nat) (s : Tasks) (a : TaskAct) (s' : Tasks) : Prop :=
  match a with
  | .tick tk sw => C4os.tick fuel tk s = some (s', sw)
  | .create t th => ∃ h, listAppend tl t s.heap = some h ∧
      s' = { s with heap := h, threads := Function.update s.threads t th }

/-- The threads that a run creates. -/
def created : List TaskAct → List Nat
  | [] => []
  | .tick .. :: acts => created acts
  | .create t _ :: acts => t :: created acts

/-- The action is a tick. -/
def TaskAct.isTick : TaskAct → Bool
  | .tick .. => true
  | .create .. => false

/-- The turn `u` of the queue is the action `a`: the threads that are ready are those that this tick
finds runnable. The thread `x` is one of the process `pr`. -/
def TaskAct.Is (x pr : Nat) : TaskAct → Turn Nat → Prop
  | .tick tk sw, .serve p y => y = sw.resumed ∧ p x = tk.runnable (fun _ => pr) x
  | .create t _, .join t' => t' = t
  | _, _ => False

variable {fuel tl x : Nat} {ts : List Nat} {s s' : Tasks} {a : TaskAct} {acts : List TaskAct}

theorem join_ringAfter (hnd : (ts ++ [x]).Nodup) {c : Nat} (hc : c ∈ ts) :
    Join x (ringAfter ts c) (ringAfter (ts ++ [x]) c) := by
  obtain ⟨l₁, l₂, rfl⟩ := List.append_of_mem hc
  refine ⟨l₂, l₁ ++ [c], ?_, ?_⟩
  · rw [ringAfter_eq (List.nodup_append.mp hnd).1, List.append_assoc]
  · have he : l₁ ++ c :: l₂ ++ [x] = l₁ ++ c :: (l₂ ++ [x]) := by simp
    rw [he, ringAfter_eq (he ▸ hnd)]
    simp

theorem serve_ringAfter (hnd : ts.Nodup) {c y : Nat} {p : Nat → Bool} (hc : c ∈ ts)
    (hy : (ringAfter ts c).find? p = some y) : Serve p y (ringAfter ts c) (ringAfter ts y) := by
  obtain ⟨-, u, v, he, hu⟩ := List.find?_eq_some_iff_append.mp hy
  exact ⟨u, v, he, fun z hz => by simpa using hu z hz, ringAfter_turn hnd hc he⟩

/-- **Each action is a turn**, and the scheduler goes on. -/
theorem TaskAct.turn (hs : Scheduling tl ts s) (hx : x ∈ ts) (hf : ts.length ≤ fuel)
    (hnew : ∀ t ∈ created [a], t ∉ ts ∧ t ≠ 0)
    (hready : ∀ tk sw, a = .tick tk sw → tk.runnable (fun t => (s.threads t).process) x = true)
    (h : a.step fuel tl s s') :
    ∃ ts' u, Scheduling tl ts' s' ∧ (ts' = ts ∨ ts' = ts ++ created [a]) ∧
      a.Is x (s.threads x).process u ∧
      u.step (ringAfter ts s.currentThread) (ringAfter ts' s'.currentThread) ∧
      ∀ t ∈ ts, (s'.threads t).process = (s.threads t).process := by
  have hnd := hs.onRing.nodup
  cases a with
  | tick tk sw =>
    obtain ⟨s₁, y, he, hy, hs₁, hcur, hproc, -⟩ := tick_eq hs hf ⟨x, hx, hready tk sw rfl⟩
    obtain ⟨rfl, rfl⟩ := Prod.mk.inj (Option.some.inj (he.symm.trans h))
    refine ⟨ts, .serve (tk.runnable fun t => (s.threads t).process) y, hs₁, Or.inl rfl,
      ⟨rfl, rfl⟩, ?_, fun t _ => hproc t⟩
    rw [hcur]
    exact serve_ringAfter hnd hs.current hy
  | create t th =>
    obtain ⟨h', happ, rfl⟩ := h
    obtain ⟨hfresh, h0⟩ := hnew t (List.mem_singleton_self t)
    have hothers : ∀ t' ∈ ts,
        (Function.update s.threads t th t').process = (s.threads t').process := by
      intro t' ht'
      have hne : t' ≠ t := fun e => hfresh (e ▸ ht')
      rw [Function.update_of_ne hne]
    obtain hr | ⟨hr, -⟩ := listAppend_cases hs.onRing hfresh happ
    · exact ⟨ts, .join t, ⟨hr, hs.current, hs.enabled⟩, Or.inl rfl, rfl, Or.inl rfl, hothers⟩
    · exact ⟨ts ++ [t], .join t, ⟨hr, List.mem_append_left _ hs.current, hs.enabled⟩, Or.inr rfl,
        rfl, Or.inr (join_ringAfter hr.nodup hs.current), hothers⟩

theorem turns {acts : List TaskAct} (hrun : Run (fun s a s' => a.step fuel tl s s') s acts s')
    (hs : Scheduling tl ts s) (hx : x ∈ ts) (hnd : (ts ++ created acts).Nodup)
    (h0 : ∀ t ∈ created acts, t ≠ 0) (hf : (ts ++ created acts).length ≤ fuel)
    (hready : ∀ tk sw, .tick tk sw ∈ acts → tk.runnable (fun t => (s.threads t).process) x = true) :
    ∃ ts' us, Scheduling tl ts' s' ∧ List.Forall₂ (TaskAct.Is x (s.threads x).process) acts us ∧
      Run (fun q u q' => Turn.step u q q') (ringAfter ts s.currentThread) us
        (ringAfter ts' s'.currentThread) := by
  induction hrun generalizing ts with
  | nil => exact ⟨ts, [], hs, .nil, .nil _⟩
  | @cons s a s₁ acts s₂ head tail ih =>
    have hsplit : created (a :: acts) = created [a] ++ created acts := by
      cases a <;> rfl
    rw [hsplit] at hnd hf h0
    have hlen : ts.length ≤ fuel := by
      simp only [List.length_append] at hf
      omega
    obtain ⟨ts₁, u, hs₁, hts, hu, hstep, hproc⟩ := TaskAct.turn hs hx hlen (fun t ht =>
      ⟨fun hmem => (List.nodup_append.mp hnd).2.2 t hmem t (List.mem_append_left _ ht) rfl,
        h0 t (List.mem_append_left _ ht)⟩)
      (fun tk sw he => hready tk sw (he ▸ List.mem_cons_self)) head
    have hx₁ : x ∈ ts₁ := by
      rcases hts with rfl | rfl
      · exact hx
      · exact List.mem_append_left _ hx
    have hpx := hproc x hx
    have hrest : (ts₁ ++ created acts).Nodup ∧ (ts₁ ++ created acts).length ≤ fuel := by
      rcases hts with rfl | rfl
      · refine ⟨hnd.sublist ?_, ?_⟩
        · exact List.Sublist.append_left (List.sublist_append_right _ _) _
        · simp only [List.length_append] at hf ⊢
          omega
      · rw [List.append_assoc]
        exact ⟨hnd, hf⟩
    obtain ⟨ts₂, us, hs₂, hus, hruns⟩ := ih hs₁ hx₁ hrest.1
      (fun t ht => h0 t (List.mem_append_right _ ht)) hrest.2 fun tk sw hmem => by
        have := hready tk sw (List.mem_cons_of_mem _ hmem)
        unfold Tick.runnable at this ⊢
        dsimp only at this ⊢
        rwa [hpx]
    rw [hpx] at hus
    exact ⟨ts₂, u :: us, hs₂, .cons hu hus, .cons hstep hruns⟩

theorem count_turns {pr : Nat} {us : List (Turn Nat)} (h : List.Forall₂ (TaskAct.Is x pr) acts us) :
    us.countP Turn.isServe = acts.countP TaskAct.isTick ∧
      us.countP (!·.isServe) = (created acts).length := by
  induction h with
  | nil => exact ⟨rfl, rfl⟩
  | @cons a u acts us ha hus ih =>
    cases a with
    | tick tk sw =>
      cases u with
      | serve p y =>
        rw [List.countP_cons_of_pos (by rfl), List.countP_cons_of_pos (by rfl),
          List.countP_cons_of_neg (by simp [Turn.isServe]), ih.1, ih.2]
        exact ⟨rfl, rfl⟩
      | join t => exact ha.elim
    | create t th =>
      cases u with
      | serve p y => exact ha.elim
      | join t' =>
        rw [List.countP_cons_of_neg (by simp [Turn.isServe]),
          List.countP_cons_of_neg (by simp [TaskAct.isTick]), List.countP_cons_of_pos (by rfl), ih.1,
          ih.2]
        exact ⟨rfl, rfl⟩

theorem act_of_turn {pr : Nat} {us : List (Turn Nat)} (h : List.Forall₂ (TaskAct.Is x pr) acts us)
    {u : Turn Nat} (hu : u ∈ us) : ∃ a ∈ acts, a.Is x pr u := by
  obtain ⟨i, hi, rfl⟩ := List.getElem_of_mem hu
  have hi' : i < acts.length := by rwa [h.length_eq]
  exact ⟨acts[i], List.getElem_mem hi', (List.forall₂_iff_get.mp h).2 i hi' hi⟩

/-- **A thread that stays runnable runs again** before there were more ticks than threads, however
many are created in between. -/
theorem thread_served (fuel tl : Nat) (ts : List Nat) (s s' : Tasks) (acts : List TaskAct) (x : Nat)
    (hs : Scheduling tl ts s) (hx : x ∈ ts) (hnd : (ts ++ created acts).Nodup)
    (h0 : ∀ t ∈ created acts, t ≠ 0) (hf : (ts ++ created acts).length ≤ fuel)
    (hrun : Run (fun s a s' => a.step fuel tl s s') s acts s')
    (hready : ∀ tk sw, .tick tk sw ∈ acts → tk.runnable (fun t => (s.threads t).process) x = true)
    (hlen : (ts ++ created acts).length ≤ acts.countP TaskAct.isTick) :
    ∃ tk sw, .tick tk sw ∈ acts ∧ sw.resumed = x := by
  obtain ⟨ts', us, -, hus, hruns⟩ := turns hrun hs hx hnd h0 hf hready
  obtain ⟨hticks, hnew⟩ := count_turns hus
  have hserved : ∃ p, Turn.serve p x ∈ us := by
    refine hruns.served ((perm_ringAfter ts _).mem_iff.mpr hx) (fun u hu => ?_) ?_
    · obtain ⟨a, ha, hat⟩ := act_of_turn hus hu
      cases u with
      | join t => trivial
      | serve p y =>
        cases a with
        | tick tk sw => exact hat.2.trans (hready tk sw ha)
        | create t th => exact hat.elim
    · rw [hnew, hticks, (perm_ringAfter ts _).length_eq, ← List.length_append]
      exact hlen
  obtain ⟨p, hp⟩ := hserved
  obtain ⟨a, ha, hat⟩ := act_of_turn hus hp
  cases a with
  | tick tk sw => exact ⟨tk, sw, ha, hat.1.symm⟩
  | create t th => exact hat.elim

/-- The threads at 1 and 2 on the list at 100. -/
def twoWaiting : Tasks where
  heap := ⟨fun i => if i = 1 then ⟨2, 2, 100⟩ else if i = 2 then ⟨1, 1, 100⟩ else ⟨0, 0, 0⟩,
    fun _ => ⟨1, 2, false⟩⟩
  threads := fun _ => ⟨0, false, idleTick.regs⟩
  processes := fun _ => ⟨0, false⟩
  currentThread := 2
  currentProcess := 0
  multitaskingEnabled := true
  indicator := 0
  cr3 := 0
  tss := fun _ => ⟨0, 0⟩

/-- A third thread is created between two ticks. -/
theorem thread_served_two : ∃ acts s' tk sw,
    Run (fun s a s' => TaskAct.step 3 100 s a s') twoWaiting acts s' ∧ created acts = [3] ∧
      .tick tk sw ∈ acts ∧ sw.resumed = 2 := by
  obtain ⟨sw₁, sw₂, sw₃, s', hrun⟩ : ∃ sw₁ sw₂ sw₃ s', Run (fun s a s' => TaskAct.step 3 100 s a s')
      twoWaiting [.tick idleTick sw₁, .create 3 ⟨0, false, idleTick.regs⟩, .tick idleTick sw₂,
        .tick idleTick sw₃] s' :=
    ⟨_, _, _, _, .cons rfl (.cons ⟨_, rfl, rfl⟩ (.cons rfl (.cons rfl (.nil _))))⟩
  have hs : Scheduling 100 [1, 2] twoWaiting :=
    ⟨⟨rfl, by decide, by decide, ⟨rfl, rfl⟩, rfl, rfl⟩, by decide, rfl⟩
  obtain ⟨tk, sw, hmem, hres⟩ := thread_served 3 100 [1, 2] twoWaiting s'
    [.tick idleTick sw₁, .create 3 ⟨0, false, idleTick.regs⟩, .tick idleTick sw₂, .tick idleTick sw₃] 2
    hs (by decide) (show [1, 2, 3].Nodup by decide) (show ∀ t ∈ [3], t ≠ 0 by decide)
    (Nat.le_refl 3) hrun (fun tk sw hmem => by
      simp only [List.mem_cons, TaskAct.tick.injEq, reduceCtorEq, List.not_mem_nil, false_or,
        or_false] at hmem
      rcases hmem with ⟨rfl, -⟩ | ⟨rfl, -⟩ | ⟨rfl, -⟩ <;> rfl) (Nat.le_refl 3)
  exact ⟨_, s', tk, sw, hrun, rfl, hmem, hres⟩

end C4os
