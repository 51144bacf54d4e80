import C4os.Sched.Interrupt

/-!
# Ring-3 threads (`interrupts.asm`, `interrupts.c`, `multitasking.c`)

* `interrupt_cases`: what an interrupt does to the scheduler and to the running ring-3
  thread.
* `Idles`: the steps in which a ring-3 thread does nothing; `Suspended`: what it needs meanwhile.
* **`user_resumes`**: a ring-3 thread resumes with its registers, in ring 3.
-/

namespace C4os

open Stack Transition

section

variable {k u fuel : Nat} {i : Irq} {c₀ c c' : Cpu} {r : Registers}

/-- **What an interrupt does.** The saved registers `r` are those of the running ring-3 thread; a task
switch loads others, a system call writes its result, the other handlers change nothing. -/
theorem interrupt_cases (hk : c₀.Kernel k) (h : Interrupted k c₀ c)
    (hc : interrupt fuel i c = some c') :
    ∃ r, (c.tasks.currentThread ≠ k → r = c.regs) ∧
      ((i.index = 0 ∧ ∃ q, switchTask fuel r (c₀.regs.esp - 60).toNat c.tasks = some q ∧
          c'.tasks = q.1 ∧ (q.2.ring = 3 → c'.regs = q.2)) ∨
        (i.index = 16 ∧ c'.tasks = c.tasks ∧ (r.ring = 3 →
          c'.regs = { r with eax := if r.eax < 1 then i.ret else r.eax })) ∨
        (i.index ≠ 0 ∧ i.index ≠ 16 ∧ c'.tasks = c.tasks ∧ (r.ring = 3 → c'.regs = r))) := by
  obtain ⟨r, m', hframe, hr, heq⟩ : ∃ r m', loadRegs m' (c₀.regs.esp - 56) = r ∧
      (c.tasks.currentThread ≠ k → r = c.regs) ∧
      interrupt fuel i c =
        (irqHandler fuel i (c₀.regs.esp - 56) (c₀.regs.esp - 60) { c with stack := m' }).map
          fun c' => { c' with
            regs := iretd c₀.regs.ss (c₀.regs.esp - 56) c'.stack
            stack := fun a => if a < c₀.regs.esp - 56 then i.frames a else c'.stack a } := by
    by_cases hcur : c.tasks.currentThread = k
    · obtain ⟨r, m', hh, heq⟩ := h.entered hk fuel i
      exact ⟨r, m', hh.frame, fun hne => absurd hcur hne, heq⟩
    · obtain ⟨hr1, hr2⟩ := hk.room
      obtain ⟨hring, -, htss⟩ := h.other hcur
      have h56 : (c₀.regs.esp - 56).toNat = c₀.regs.esp.toNat - 56 := toNat_sub_of_room
        (show 56 ≤ _ by omega)
      have h60 : c₀.regs.esp - 56 - 4 = c₀.regs.esp - 60 := by grind
      have hframe := commonIrqHandler_ring3 (c := c) (by rw [hring]; decide)
      rw [htss, userStack_esp (by omega),
        show UInt32.ofNat (userStack c₀.regs.esp).ss0 = c₀.regs.ss from hk.ss.symm] at hframe
      obtain ⟨m', hm', heq⟩ := interrupt_eq hframe (by omega) fuel i
      rw [h60] at heq
      exact ⟨c.regs, m', loadRegs_ring3 (by omega) hr2 hm', fun _ => rfl, heq⟩
  have hiret : ∀ (m : Ram) (r' : Registers), loadRegs m (c₀.regs.esp - 56) = r' → r'.ring = 3 →
      iretd c₀.regs.ss (c₀.regs.esp - 56) m = r' := by
    intro m r' hm h3
    unfold iretd
    rw [hm]
    dsimp only
    rw [if_neg (by rw [h3]; decide)]
  refine ⟨r, hr, ?_⟩
  rw [heq] at hc
  obtain ⟨d, hd, rfl⟩ := Option.map_eq_some_iff.mp hc
  unfold irqHandler at hd
  by_cases h0 : i.index = 0
  · rw [if_pos h0, hframe] at hd
    obtain ⟨q, hq, rfl⟩ := Option.map_eq_some_iff.mp hd
    exact Or.inl ⟨h0, q, hq, rfl, hiret _ _ (loadRegs_storeRegs _ _ _)⟩
  rw [if_neg h0] at hd
  by_cases h16 : i.index = 16
  · rw [if_pos h16] at hd
    cases hd
    refine Or.inr (Or.inl ⟨h16, rfl, fun h3 => hiret _ _ ?_ h3⟩)
    rw [loadRegs_syscallHandler, hframe]
  · rw [if_neg h16] at hd
    cases hd
    exact Or.inr (Or.inr ⟨h0, h16, rfl, hiret _ _ hframe⟩)

/-! ## Runs -/

/-- The ring-3 thread `u` does nothing: it neither runs nor makes a system call, and the ring-0 thread
leaves its saved registers alone. -/
def Event.Idles (u : Nat) (c : Cpu) : Event → Prop
  | .run d => (d.tasks.threads u).state = (c.tasks.threads u).state
  | .user _ => c.tasks.currentThread ≠ u
  | .interrupt _ i => c.tasks.currentThread = u → i.index ≠ 16

/-- A step in which the thread `u` does nothing. -/
def Idle (k u : Nat) (c : Cpu) (e : Event) (c' : Cpu) : Prop := Step k c e c' ∧ e.Idles u c

/-- The registers `r` of the thread `u` are those of the processor, or saved. -/
structure Suspended (u : Nat) (r : Registers) (c : Cpu) : Prop where
  self : c.tasks.currentThread = u → c.regs = r
  other : c.tasks.currentThread ≠ u → (c.tasks.threads u).state = r

/-- The ring-0 thread runs, or was interrupted. -/
def Running (k : Nat) (c : Cpu) : Prop := ∃ d : Cpu, d.Kernel k ∧ Interrupted k d c

theorem Running.step {e : Event} (h : Running k c) (hs : Step k c e c') : Running k c' := by
  obtain ⟨d, hd, hi⟩ := h
  by_cases hp : e.Preempts c
  · exact ⟨d, hd, hi.step hd ⟨hs, hp⟩⟩
  cases e with
  | run f =>
    obtain ⟨-, hf, rfl⟩ := hs
    exact ⟨c', hf, hf.interrupted⟩
  | user r => exact absurd trivial hp
  | interrupt fuel i =>
    obtain ⟨h0, h16⟩ : c.regs.ring = 0 ∧ i.index = 16 := by
      simpa [Event.Preempts] using hp
    obtain ⟨-, -, hc'⟩ := systemCall (hi.kernel hd h0) h16 hs
    exact ⟨c', hc', hc'.interrupted⟩

theorem Running.ring (h : Running k c) (hcur : c.tasks.currentThread ≠ k) : c.regs.ring = 3 := by
  obtain ⟨d, -, hi⟩ := h
  exact (hi.other hcur).1

theorem Suspended.interrupt (hs : Suspended u r c) (hr : r.ring = 3) (huk : u ≠ k)
    (h : Running k c) (hw : c.tasks.currentThread = u → i.index ≠ 16)
    (hc : C4os.interrupt fuel i c = some c') : Suspended u r c' := by
  obtain ⟨d, hd, hi⟩ := h
  obtain ⟨r', hr', hcases⟩ := interrupt_cases hd hi hc
  have hself : c.tasks.currentThread = u → r' = r := by
    intro hcur
    rw [hr' (hcur ▸ huk), hs.self hcur]
  obtain ⟨-, q, hq, htasks, hregs⟩ | ⟨h16, htasks, -⟩ | ⟨-, -, htasks, hregs⟩ := hcases
  · obtain ⟨ts, hts, hcur⟩ := hi.threads
    obtain ⟨x, -, hsw, hq2⟩ := switchTask_mem hts.next hcur hi.multitaskingEnabled hq
    have hstate : (q.1.threads u).state = r := by
      rw [hsw.state]
      split_ifs with hu
      · exact hself hu.symm
      · exact hs.other (Ne.symm hu)
    constructor
    · intro hcx
      rw [htasks, hsw.current] at hcx
      have hq3 : q.2 = r := by
        rw [hq2, hcx, hstate]
      rw [hregs (hq3 ▸ hr), hq3]
    · intro _
      rw [htasks]
      exact hstate
  · constructor
    · intro hcx
      rw [htasks] at hcx
      exact absurd h16 (hw hcx)
    · intro hcx
      rw [htasks] at hcx ⊢
      exact hs.other hcx
  · constructor
    · intro hcx
      rw [htasks] at hcx
      rw [hregs (hself hcx ▸ hr), hself hcx]
    · intro hcx
      rw [htasks] at hcx ⊢
      exact hs.other hcx

/-- **A step in which the thread does nothing keeps its registers.** -/
theorem Suspended.step {e : Event} (hs : Suspended u r c) (hr : r.ring = 3) (huk : u ≠ k)
    (h : Running k c) (hw : Idle k u c e c') : Suspended u r c' := by
  obtain ⟨hstep, hw⟩ := hw
  cases e with
  | run d =>
    obtain ⟨hc, hd, rfl⟩ := hstep
    have hw' : (c'.tasks.threads u).state = (c.tasks.threads u).state := hw
    constructor
    · intro hcur
      exact absurd (hcur.symm.trans hd.current) huk
    · intro _
      rw [hw']
      exact hs.other (hc.current ▸ Ne.symm huk)
  | user r' =>
    obtain ⟨-, -, rfl⟩ := hstep
    exact ⟨fun hcur => absurd hcur hw, fun hcur => hs.other hcur⟩
  | interrupt fuel i => exact hs.interrupt hr huk h hw hstep

/-- **A ring-3 thread resumes with its registers.** In every run, whenever the thread `u` is interrupted,
it runs in ring 3 and comes back with the same registers, whatever the other threads and the ring-0
thread do; its own system call changes `eax` alone, to the result. -/
theorem user_resumes {es : List Event} (hk : c₀.Kernel k) (hrun : Run (Step k) c₀ es c)
    (hu : c.tasks.currentThread = u) (huk : u ≠ k) :
    c.regs.ring = 3 ∧
      (∀ as c', Run (Idle k u) c as c' → c'.tasks.currentThread = u → c'.regs = c.regs) ∧
      ∀ fuel i c', i.index = 16 → interrupt fuel i c = some c' →
        c'.tasks.currentThread = u ∧
          c'.regs = { c.regs with eax := if c.regs.eax < 1 then i.ret else c.regs.eax } := by
  have hc : Running k c :=
    hrun.invariant (fun _ _ _ h hs => h.step hs) ⟨c₀, hk, hk.interrupted⟩
  have hring := hc.ring (hu ▸ huk)
  refine ⟨hring, fun as c' has hcur => ?_, fun fuel i c' h16 hint => ?_⟩
  · obtain ⟨-, hsus⟩ : Running k c' ∧ Suspended u c.regs c' :=
      has.invariant (I := fun d => Running k d ∧ Suspended u c.regs d)
        (fun _ _ _ h hs => ⟨h.1.step hs.1, h.2.step hring huk h.1 hs⟩)
        ⟨hc, fun _ => rfl, fun hne => absurd hu hne⟩
    exact hsus.self hcur
  · obtain ⟨d, hd, hi⟩ := hc
    obtain ⟨r', hr', hcases⟩ := interrupt_cases hd hi hint
    obtain rfl := hr' (hu ▸ huk)
    obtain ⟨h0, -⟩ | ⟨-, htasks, hregs⟩ | ⟨-, hne, -⟩ := hcases
    · omega
    · rw [htasks]
      exact ⟨hu, hregs hring⟩
    · exact absurd h16 hne

/-- The ring-0 thread of the small run comes back, and is interrupted again. -/
def twoCpuKernel : Cpu := (interrupt 1 timer twoCpuUser).getD twoCpuUser

/-- The same system behind one tick of the timer. -/
def twoCpuAgain : Cpu := (interrupt 1 timer twoCpuKernel).getD twoCpuKernel

theorem user_resumes_small : Run (Idle 1 2) twoCpuUser [.interrupt 1 timer, .interrupt 1 timer]
    twoCpuAgain ∧ twoCpuAgain.regs = twoCpuUser.regs ∧ twoCpuUser.regs.ring = 3 := by
  have h1 : interrupt 1 timer twoCpu = some twoCpuUser := by rfl
  have h2 : interrupt 1 timer twoCpuUser = some twoCpuKernel := by rfl
  have h3 : interrupt 1 timer twoCpuKernel = some twoCpuAgain := by rfl
  have hrun : Run (Idle 1 2) twoCpuUser [.interrupt 1 timer, .interrupt 1 timer] twoCpuAgain :=
    .cons ⟨h2, fun _ => by decide⟩ (.cons ⟨h3, fun _ => by decide⟩ (.nil _))
  have hstart : Run (Step 1) twoCpu [.interrupt 1 timer] twoCpuUser := .cons h1 (.nil _)
  obtain ⟨hring, hresume, -⟩ := user_resumes twoCpu_kernel hstart (u := 2) (by rfl) (by decide)
  exact ⟨hrun, hresume _ _ hrun (by rfl), hring⟩

end

end C4os
