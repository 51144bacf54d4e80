import C4os.Lib.Run
import C4os.Lib.Stack
import C4os.Sched.Switch

/-!
# Interrupts (`interrupts.asm`, `interrupts.c`, `syscall.c`)

* `Cpu`: the running thread, the kernel stack and the scheduler. The kernel stack lies in the first
  megabyte, which every page directory maps alike.
* `enter`, `commonIrqHandler`, `irqHandler`, `syscallHandler`, `iretd`, **`interrupt`**: an
  interrupt, from the push of the processor to its return.
* `Step`, `Preempted`: a run of one ring-0 thread and any number of ring-3 threads.
* `Interrupted`, `Handled`: what the ring-0 thread needs while another thread runs, and while a
  handler runs.
* **`kernel_resumes`**: the ring-0 thread resumes with its registers and its stack.
-/

namespace C4os

open Stack Transition

namespace Registers

/-- The words of a `Registers`, from its first field on. -/
def words (r : Registers) : List UInt32 :=
  [r.gs, r.fs, r.es, r.ds, r.ebp, r.edi, r.esi, r.edx, r.ecx, r.ebx, r.eax, r.eip, r.cs, r.eflags,
    r.esp, r.ss]

/-- The privilege level. -/
def ring (r : Registers) : UInt32 := r.cs &&& 3

end Registers

/-- The `Registers` at the address `p`. -/
def loadRegs (m : Ram) (p : UInt32) : Registers where
  gs := word m p
  fs := word m (p + 4)
  es := word m (p + 8)
  ds := word m (p + 12)
  ebp := word m (p + 16)
  edi := word m (p + 20)
  esi := word m (p + 24)
  edx := word m (p + 28)
  ecx := word m (p + 32)
  ebx := word m (p + 36)
  eax := word m (p + 40)
  eip := word m (p + 44)
  cs := word m (p + 48)
  eflags := word m (p + 52)
  esp := word m (p + 56)
  ss := word m (p + 60)

/-- `memcpy(p, &r, sizeof(Registers))`. -/
def storeRegs (m : Ram) (p : UInt32) (r : Registers) : Ram := storeWords m p r.words

/-- The processor and what the interrupt code works on. -/
structure Cpu where
  /-- The registers of the running thread. -/
  regs : Registers
  /-- The bytes of the kernel stack. -/
  stack : Ram
  tasks : Tasks
  /-- `_pit_ticks`. -/
  pitTicks : UInt32

/-- An interrupt, and what the model takes from outside. -/
structure Irq where
  index : Nat
  /-- What `printf` returns to a system call. -/
  ret : UInt32
  /-- The address behind `call _irq_handler`. -/
  returnAddress : UInt32
  /-- What the called functions leave on the stack below the saved registers. -/
  frames : Ram

/-! ## The functions -/

/-- The processor takes the interrupt: the stack segment of the handler and its stack. -/
def Cpu.enter (c : Cpu) : UInt32 × Stack :=
  if c.regs.ring = 0 then
    (c.regs.ss, pushes [c.regs.eflags, c.regs.cs, c.regs.eip] ⟨c.regs.esp, c.stack⟩)
  else
    let tss := c.tasks.tss c.tasks.cr3
    (UInt32.ofNat tss.ss0,
      pushes [c.regs.ss, c.regs.esp, c.regs.eflags, c.regs.cs, c.regs.eip]
        ⟨UInt32.ofNat tss.esp0, c.stack⟩)

/-- The pushes of `IRQ_handler` and `common_irq_handler`. -/
def Cpu.commonIrqHandler (c : Cpu) : UInt32 × Stack :=
  let (ss, s) := c.enter
  (ss, pushes [c.regs.eax, c.regs.ebx, c.regs.ecx, c.regs.edx, c.regs.esi, c.regs.edi, c.regs.ebp,
    c.regs.ds, c.regs.es, c.regs.fs, c.regs.gs] s)

/-- `syscall_handler`; the only system call is `printf`. -/
def syscallHandler (ret regs : UInt32) (m : Ram) : Ram :=
  if word m (regs + 40) ≥ 1 then m else setWord m (regs + 40) ret

/-- `irq_handler`, where `esp` is the address of its parameter `regs`. The keyboard and the floppy
handler work on data of their own. -/
def irqHandler (fuel : Nat) (i : Irq) (regs esp : UInt32) (c : Cpu) : Option Cpu :=
  if i.index = 0 then
    (switchTask fuel (loadRegs c.stack regs) esp.toNat c.tasks).map fun q =>
      { c with
        pitTicks := c.pitTicks + 1
        tasks := q.1
        stack := storeRegs c.stack regs q.2 }
  else if i.index = 16 then
    some { c with stack := syscallHandler i.ret regs c.stack }
  else
    some c

/-- The pops of `common_irq_handler`, and `iretd`. -/
def iretd (ss regs : UInt32) (m : Ram) : Registers :=
  let r := loadRegs m regs
  if r.ring = 0 then { r with esp := regs + 56, ss := ss } else r

/-- A whole interrupt. -/
def interrupt (fuel : Nat) (i : Irq) (c : Cpu) : Option Cpu :=
  let (ss, s) := c.commonIrqHandler
  let regs := s.esp
  let s := pushes [regs, UInt32.ofNat i.index, i.returnAddress] s
  -- `&regs` is behind the return address and `index`
  (irqHandler fuel i regs (s.esp + 8) { c with stack := s.mem }).map fun c' =>
    { c' with
      regs := iretd ss regs c'.stack
      stack := fun a => if a < regs then i.frames a else c'.stack a }

/-! ## Runs -/

/-- The threads `ts` are the ring-0 thread `k` and ring-3 threads of user processes. -/
structure Threads (k : Nat) (ts : Set Nat) (s : Tasks) : Prop where
  mem : k ∈ ts
  next : ∀ t ∈ ts, s.heap.next t ∈ ts
  /-- The test of `switch_task` for a user process. -/
  pageDir : ∀ t ∈ ts, t ≠ k → (s.processes (s.threads t).process).pageDir ≠ 0x1000
  ring : ∀ t ∈ ts, t ≠ k → (s.threads t).state.ring = 3

/-- The ring-0 thread runs. -/
structure Cpu.Kernel (k : Nat) (c : Cpu) : Prop where
  multitaskingEnabled : c.tasks.multitaskingEnabled = true
  current : c.tasks.currentThread = k
  ring : c.regs.ring = 0
  ss : c.regs.ss = 0x10
  /-- The registers and the arguments of an interrupt fit below the stack pointer, and two words lie
  at it. -/
  room : 68 ≤ c.regs.esp.toNat ∧ c.regs.esp.toNat + 8 ≤ 2 ^ 32
  threads : ∃ ts, Threads k ts c.tasks

/-- What happens next. -/
inductive Event where
  /-- The ring-0 thread runs, up to this state. -/
  | run (c : Cpu)
  /-- The ring-3 thread runs, up to these registers. -/
  | user (r : Registers)
  | interrupt (fuel : Nat) (i : Irq)

/-- A step of the system: ring-0 code runs, ring-3 code runs, or an interrupt comes. -/
def Step (k : Nat) (c : Cpu) : Event → Cpu → Prop
  | .run d, c' => c.Kernel k ∧ d.Kernel k ∧ c' = d
  | .user r, c' => c.regs.ring = 3 ∧ r.ring = 3 ∧ c' = { c with regs := r }
  | .interrupt fuel i, c' => interrupt fuel i c = some c'

/-- The event leaves the ring-0 thread where it is: the thread neither runs nor makes a system
call. -/
def Event.Preempts (c : Cpu) : Event → Prop
  | .run _ => False
  | .user _ => True
  | .interrupt _ i => c.regs.ring = 0 → i.index ≠ 16

/-- A step that leaves the ring-0 thread where it is. -/
def Preempted (k : Nat) (c : Cpu) (e : Event) (c' : Cpu) : Prop := Step k c e c' ∧ e.Preempts c

/-! ## Registers in memory -/

section

variable {m m' : Ram} {p : UInt32} {r : Registers}

theorem Registers.words_inj {r r' : Registers} (h : r.words = r'.words) : r = r' := by
  cases r
  cases r'
  simpa [Registers.words, and_assoc] using h

theorem words_loadRegs (m : Ram) (p : UInt32) : (loadRegs m p).words = loadWords m p 16 := by
  simp only [loadWords, UInt32.add_assoc]
  rfl

theorem loadRegs_congr (h : ∀ b, off p b < 64 → m b = m' b) : loadRegs m p = loadRegs m' p := by
  apply Registers.words_inj
  rw [words_loadRegs, words_loadRegs]
  exact loadWords_congr (by decide) h

theorem loadRegs_storeRegs (m : Ram) (p : UInt32) (r : Registers) :
    loadRegs (storeRegs m p r) p = r := by
  apply Registers.words_inj
  rw [words_loadRegs]
  exact loadWords_storeWords (show 4 * r.words.length ≤ 2 ^ 32 by simp [Registers.words])

theorem loadRegs_setEax (v : UInt32) :
    loadRegs (setWord m (p + 40) v) p = { loadRegs m p with eax := v } := by
  have hne : ∀ x : UInt32, 4 ≤ off 40 x → 4 ≤ off x 40 →
      word (setWord m (p + 40) v) (p + x) = word m (p + x) := by
    intro x h1 h2
    apply word_setWord_of_ne
    · rwa [off_add_left]
    · rwa [off_add_left]
  have h0 := hne 0 (by decide) (by decide)
  rw [UInt32.add_zero] at h0
  unfold loadRegs
  rw [h0, word_setWord]
  simp only [hne 4 (by decide) (by decide), hne 8 (by decide) (by decide),
    hne 12 (by decide) (by decide), hne 16 (by decide) (by decide), hne 20 (by decide) (by decide),
    hne 24 (by decide) (by decide), hne 28 (by decide) (by decide), hne 32 (by decide) (by decide),
    hne 36 (by decide) (by decide), hne 44 (by decide) (by decide), hne 48 (by decide) (by decide),
    hne 52 (by decide) (by decide), hne 56 (by decide) (by decide), hne 60 (by decide) (by decide)]

theorem loadRegs_syscallHandler (ret p : UInt32) (m : Ram) :
    loadRegs (syscallHandler ret p m) p =
      { loadRegs m p with
        eax := if (loadRegs m p).eax < 1 then ret else (loadRegs m p).eax } := by
  unfold syscallHandler
  by_cases h : word m (p + 40) ≥ 1
  · have heax : (if (loadRegs m p).eax < 1 then ret else (loadRegs m p).eax) =
        (loadRegs m p).eax := if_neg (UInt32.not_lt.mpr h)
    rw [if_pos h, heax]
  · have heax : (if (loadRegs m p).eax < 1 then ret else (loadRegs m p).eax) = ret :=
      if_pos (UInt32.not_le.mp h)
    rw [if_neg h, loadRegs_setEax, heax]

theorem syscallHandler_of_le {ret a : UInt32} (h : 4 ≤ off (p + 40) a) :
    syscallHandler ret p m a = m a := by
  unfold syscallHandler
  split_ifs
  · rfl
  · exact setWord_of_le h ret

end

/-! ## The frame of an interrupt -/

section

variable {k fuel : Nat} {i : Irq} {c : Cpu} {ss p : UInt32} {m : Ram}

theorem commonIrqHandler_ring0 (h : c.regs.ring = 0) : c.commonIrqHandler =
    (c.regs.ss, ⟨c.regs.esp - 56,
      storeWords c.stack (c.regs.esp - 56) (c.regs.words.take 14)⟩) := by
  unfold Cpu.commonIrqHandler Cpu.enter
  rw [if_pos h]
  dsimp only
  rw [← pushes_append, pushes_eq]
  rfl

theorem commonIrqHandler_ring3 (h : c.regs.ring ≠ 0) : c.commonIrqHandler =
    (UInt32.ofNat (c.tasks.tss c.tasks.cr3).ss0,
      ⟨UInt32.ofNat (c.tasks.tss c.tasks.cr3).esp0 - 64,
        storeRegs c.stack (UInt32.ofNat (c.tasks.tss c.tasks.cr3).esp0 - 64) c.regs⟩) := by
  unfold Cpu.commonIrqHandler Cpu.enter
  rw [if_neg h]
  dsimp only
  rw [← pushes_append, pushes_eq]
  rfl

theorem interrupt_eq (hc : c.commonIrqHandler = (ss, ⟨p, m⟩)) (hp : 12 ≤ p.toNat) (fuel : Nat)
    (i : Irq) : ∃ m', SameFrom p.toNat m' m ∧
      interrupt fuel i c = (irqHandler fuel i p (p - 4) { c with stack := m' }).map fun c' =>
        { c' with
          regs := iretd ss p c'.stack
          stack := fun a => if a < p then i.frames a else c'.stack a } := by
  have hargs := pushes_eq [p, UInt32.ofNat i.index, i.returnAddress] ⟨p, m⟩
  have hesp : p - 12 + 8 = p - 4 := by grind
  have h12 : (p - 12).toNat = p.toNat - 12 :=
    UInt32.toNat_sub_of_le p 12 (UInt32.le_iff_toNat_le.mpr hp)
  refine ⟨storeWords m (p - 12) [i.returnAddress, UInt32.ofNat i.index, p], ?_, ?_⟩
  · apply (sameFrom_storeWords m (p - 12) _).mono
    rw [h12]
    exact Nat.le_of_eq (Nat.sub_add_cancel hp)
  · unfold interrupt
    rw [hc]
    dsimp only
    rw [hargs, ← hesp]
    rfl

end

/-! ## The interrupted thread -/

/-- What an interrupt of ring-0 code saves: the two words at its stack pointer take the places of
`esp` and `ss`. -/
def Cpu.saved (c : Cpu) : Registers :=
  { c.regs with esp := word c.stack c.regs.esp, ss := word c.stack (c.regs.esp + 4) }

/-- The stack of the ring-3 threads while the ring-0 thread is interrupted at `e`. -/
def userStack (e : UInt32) : TssStack := ⟨0x10, ((e - 60).toNat + 17 * 4) % 2 ^ 32⟩

/-- The ring-0 thread `k` was interrupted in the state `c₀`; some thread runs. -/
structure Interrupted (k : Nat) (c₀ c : Cpu) : Prop where
  multitaskingEnabled : c.tasks.multitaskingEnabled = true
  threads : ∃ ts, Threads k ts c.tasks ∧ c.tasks.currentThread ∈ ts
  above : SameFrom (c₀.regs.esp.toNat + 8) c.stack c₀.stack
  self : c.tasks.currentThread = k →
    c.regs = c₀.regs ∧ SameFrom c₀.regs.esp.toNat c.stack c₀.stack
  other : c.tasks.currentThread ≠ k → c.regs.ring = 3 ∧
    (c.tasks.threads k).state = c₀.saved ∧ c.tasks.tss c.tasks.cr3 = userStack c₀.regs.esp

/-- The same inside the handler, where `r` are the registers to return with. -/
structure Handled (k : Nat) (c₀ : Cpu) (r : Registers) (c : Cpu) : Prop where
  multitaskingEnabled : c.tasks.multitaskingEnabled = true
  threads : ∃ ts, Threads k ts c.tasks ∧ c.tasks.currentThread ∈ ts
  frame : loadRegs c.stack (c₀.regs.esp - 56) = r
  above : SameFrom (c₀.regs.esp.toNat + 8) c.stack c₀.stack
  self : c.tasks.currentThread = k → r = c₀.saved
  other : c.tasks.currentThread ≠ k → r.ring = 3 ∧
    (c.tasks.threads k).state = c₀.saved ∧ c.tasks.tss c.tasks.cr3 = userStack c₀.regs.esp

section

variable {k fuel : Nat} {i : Irq} {c₀ c c' : Cpu} {e a : UInt32} {m m' : Ram} {r : Registers}

theorem toNat_sub_of_room {n : UInt32} (h : n.toNat ≤ e.toNat) :
    (e - n).toNat = e.toNat - n.toNat :=
  UInt32.toNat_sub_of_le e n (UInt32.le_iff_toNat_le.mpr h)

theorem storeRegs_above (he : 56 ≤ e.toNat) (m : Ram) (r : Registers) :
    SameFrom (e.toNat + 8) (storeRegs m (e - 56) r) m := by
  have h56 : (e - 56).toNat = e.toNat - 56 := toNat_sub_of_room he
  apply (sameFrom_storeWords m (e - 56) r.words).mono
  rw [h56]
  show e.toNat - 56 + 64 ≤ e.toNat + 8
  omega

theorem sameFrom_of_saved {v : UInt32}
    (hf : loadRegs m (c₀.regs.esp - 56) = { c₀.saved with eax := v })
    (ha : SameFrom (c₀.regs.esp.toNat + 8) m c₀.stack) :
    SameFrom c₀.regs.esp.toNat m c₀.stack := by
  intro a hle
  by_cases h8 : c₀.regs.esp.toNat + 8 ≤ a.toNat
  · exact ha a h8
  have hadd : ∀ n : UInt32, c₀.regs.esp - 56 + (56 + n) = c₀.regs.esp + n := by
    intro n
    grind
  have h0 : word m c₀.regs.esp = word c₀.stack c₀.regs.esp := by
    have := congrArg Registers.esp hf
    have hz := hadd 0
    rw [UInt32.add_zero, UInt32.add_zero] at hz
    simpa [loadRegs, Cpu.saved, hz] using this
  have h4 : word m (c₀.regs.esp + 4) = word c₀.stack (c₀.regs.esp + 4) := by
    have := congrArg Registers.ss hf
    have hz := hadd 4
    simpa [loadRegs, Cpu.saved, ← hz] using this
  have hw : loadWords m c₀.regs.esp 2 = loadWords c₀.stack c₀.regs.esp 2 := by
    rw [loadWords, loadWords, loadWords, loadWords, h0, h4]
    rfl
  have hoff : off c₀.regs.esp a < 4 * 2 := by
    rw [off_of_le (UInt32.le_iff_toNat_le.mpr hle)]
    omega
  have hm := storeWords_loadWords m m c₀.regs.esp a (n := 2) (by decide)
  have hm₀ := storeWords_loadWords c₀.stack m c₀.regs.esp a (n := 2) (by decide)
  rw [hw, hm₀, if_pos hoff, if_pos hoff] at hm
  exact hm.symm

theorem loadRegs_ring0 (he : 56 ≤ e.toNat) (he' : e.toNat + 8 ≤ 2 ^ 32) (hr : c.regs.esp = e)
    (hm : SameFrom (e - 56).toNat m (storeWords c.stack (e - 56) (c.regs.words.take 14))) :
    loadRegs m (e - 56) = c.saved := by
  have h56 : (e - 56).toNat = e.toNat - 56 := toNat_sub_of_room he
  have hback : e - 56 + 4 * UInt32.ofNat 14 = e := by
    show e - 56 + 56 = e
    exact UInt32.sub_add_cancel e 56
  have hcongr : loadWords m (e - 56) 16 =
      loadWords (storeWords c.stack (e - 56) (c.regs.words.take 14)) (e - 56) 16 := by
    apply loadWords_congr (by decide)
    intro b hb
    apply hm
    have := b.toNat_lt
    rw [off_eq] at hb
    omega
  have hlow : loadWords (storeWords c.stack (e - 56) (c.regs.words.take 14)) (e - 56) 14 =
      c.regs.words.take 14 :=
    loadWords_storeWords (show 4 * (c.regs.words.take 14).length ≤ 2 ^ 32 by simp [Registers.words])
  have hhigh : loadWords (storeWords c.stack (e - 56) (c.regs.words.take 14)) e 2 =
      loadWords c.stack e 2 := by
    apply loadWords_congr (by decide)
    intro b hb
    apply storeWords_of_le
    have := b.toNat_lt
    rw [off_eq] at hb
    rw [off_eq]
    show 56 ≤ _
    omega
  apply Registers.words_inj
  rw [words_loadRegs, hcongr, loadWords_add 14 2, hback, hlow, hhigh]
  subst hr
  rfl

theorem loadRegs_ring3 (he : 56 ≤ e.toNat) (he' : e.toNat + 8 ≤ 2 ^ 32)
    (hm : SameFrom (e - 56).toNat m (storeRegs m' (e - 56) r)) : loadRegs m (e - 56) = r := by
  have h56 : (e - 56).toNat = e.toNat - 56 := toNat_sub_of_room he
  have hcongr : loadRegs m (e - 56) = loadRegs (storeRegs m' (e - 56) r) (e - 56) := by
    apply loadRegs_congr
    intro b hb
    apply hm
    have := b.toNat_lt
    rw [off_eq] at hb
    omega
  rw [hcongr, loadRegs_storeRegs]

theorem userStack_esp (he : 60 ≤ e.toNat) :
    UInt32.ofNat (userStack e).esp0 - 64 = e - 56 := by
  have h60 : (e - 60).toNat = e.toNat - 60 := toNat_sub_of_room he
  have hlt := e.toNat_lt
  apply UInt32.toNat_inj.mp
  rw [UInt32.toNat_sub, UInt32.toNat_ofNat', UInt32.toNat_sub]
  show (2 ^ 32 - 64 + ((e - 60).toNat + 17 * 4) % 2 ^ 32 % 2 ^ 32) % 2 ^ 32 =
    (2 ^ 32 - 56 + e.toNat) % 2 ^ 32
  rw [h60]
  omega

variable (hk : c₀.Kernel k)

include hk

/-- **Every interrupt finds room for its frame at the same address.** -/
theorem Interrupted.entered (h : Interrupted k c₀ c) (fuel : Nat) (i : Irq) :
    ∃ r m', Handled k c₀ r { c with stack := m' } ∧
      interrupt fuel i c =
        (irqHandler fuel i (c₀.regs.esp - 56) (c₀.regs.esp - 60) { c with stack := m' }).map
          fun c' => { c' with
            regs := iretd c₀.regs.ss (c₀.regs.esp - 56) c'.stack
            stack := fun a => if a < c₀.regs.esp - 56 then i.frames a else c'.stack a } := by
  obtain ⟨hr1, hr2⟩ := hk.room
  have h56 : (c₀.regs.esp - 56).toNat = c₀.regs.esp.toNat - 56 := toNat_sub_of_room
    (show 56 ≤ _ by omega)
  have h60 : c₀.regs.esp - 56 - 4 = c₀.regs.esp - 60 := by grind
  by_cases hcur : c.tasks.currentThread = k
  · obtain ⟨hregs, hsame⟩ := h.self hcur
    have hc := commonIrqHandler_ring0 (c := c) (hregs ▸ hk.ring)
    rw [hregs] at hc
    obtain ⟨m', hm', heq⟩ := interrupt_eq hc (by omega) fuel i
    rw [h60] at heq
    have hframe : loadRegs m' (c₀.regs.esp - 56) = c.saved :=
      loadRegs_ring0 (by omega) hr2 (congrArg Registers.esp hregs) (hregs ▸ hm')
    have h4 : (c₀.regs.esp + 4).toNat = c₀.regs.esp.toNat + 4 := by
      rw [UInt32.toNat_add]
      exact Nat.mod_eq_of_lt (show c₀.regs.esp.toNat + 4 < 2 ^ 32 by omega)
    have hsaved : c.saved = c₀.saved := by
      unfold Cpu.saved
      rw [hregs, hsame.word (Nat.le_refl _) (by omega), hsame.word (by omega) (by omega)]
    have habove : SameFrom (c₀.regs.esp.toNat + 8) m' c₀.stack := by
      apply (hm'.mono (by omega)).trans
      apply SameFrom.trans _ (hsame.mono (by omega))
      apply (sameFrom_storeWords c.stack _ _).mono
      rw [h56]
      show c₀.regs.esp.toNat - 56 + 56 ≤ _
      omega
    exact ⟨c₀.saved, m', ⟨h.multitaskingEnabled, h.threads, hframe.trans hsaved, habove,
      fun _ => rfl, fun hne => absurd hcur hne⟩, heq⟩
  · obtain ⟨hring, hst, htss⟩ := h.other hcur
    have hc := commonIrqHandler_ring3 (c := c) (by rw [hring]; decide)
    rw [htss, userStack_esp (by omega), show UInt32.ofNat (userStack c₀.regs.esp).ss0 = c₀.regs.ss
      from hk.ss.symm] at hc
    obtain ⟨m', hm', heq⟩ := interrupt_eq hc (by omega) fuel i
    rw [h60] at heq
    have habove : SameFrom (c₀.regs.esp.toNat + 8) m' c₀.stack := by
      apply (hm'.mono (by omega)).trans
      exact (storeRegs_above (by omega) _ _).trans h.above
    exact ⟨c.regs, m', ⟨h.multitaskingEnabled, h.threads, loadRegs_ring3 (by omega) hr2 hm', habove,
      fun he => absurd he hcur, fun _ => ⟨hring, hst, htss⟩⟩, heq⟩

theorem Handled.switchTask (h : Handled k c₀ r c) {q : Tasks × Registers}
    (hq : switchTask fuel r (c₀.regs.esp - 60).toNat c.tasks = some q) (n : UInt32) :
    Handled k c₀ q.2
      { c with
        pitTicks := n
        tasks := q.1
        stack := storeRegs c.stack (c₀.regs.esp - 56) q.2 } := by
  obtain ⟨ts, hts, hcur⟩ := h.threads
  obtain ⟨x, hx, hsw, hq2⟩ := switchTask_mem hts.next hcur h.multitaskingEnabled hq
  have hsaved : (q.1.threads k).state = c₀.saved := by
    rw [hsw.state]
    by_cases hk : k = c.tasks.currentThread
    · rw [if_pos hk, h.self hk.symm]
    · rw [if_neg hk, (h.other (Ne.symm hk)).2.1]
  have hring : ∀ t ∈ ts, t ≠ k → (q.1.threads t).state.ring = 3 := by
    intro t ht htk
    rw [hsw.state]
    by_cases htc : t = c.tasks.currentThread
    · rw [if_pos htc]
      exact (h.other (htc ▸ htk)).1
    · rw [if_neg htc]
      exact hts.ring t ht htk
  have hdir : ∀ t ∈ ts, t ≠ k → (q.1.processes (q.1.threads t).process).pageDir ≠ 0x1000 := by
    intro t ht htk
    rw [hsw.processes, hsw.process]
    exact hts.pageDir t ht htk
  have hnext : ∀ t ∈ ts, q.1.heap.next t ∈ ts := by
    rw [hsw.heap]
    exact hts.next
  have habove := (storeRegs_above (Nat.le_trans (by decide) hk.room.1) c.stack q.2).trans h.above
  refine ⟨hsw.multitaskingEnabled, ⟨ts, ⟨hts.mem, hnext, hdir, hring⟩, ?_⟩,
    loadRegs_storeRegs _ _ _, habove, ?_, ?_⟩
  · show q.1.currentThread ∈ ts
    rwa [hsw.current]
  · intro hcx
    rw [hq2, ← hsw.current]
    exact hcx ▸ hsaved
  · intro hcx
    have hxk : x ≠ k := hsw.current ▸ hcx
    rw [hq2]
    exact ⟨hring x hx hxk, hsaved, hsw.tss (hts.pageDir x hx hxk)⟩

theorem syscallHandler_above (ret : UInt32) (m : Ram) :
    SameFrom (c₀.regs.esp.toNat + 8) (syscallHandler ret (c₀.regs.esp - 56) m) m := by
  intro a ha
  apply syscallHandler_of_le
  have h40 : c₀.regs.esp - 56 + 40 = c₀.regs.esp - 16 := by grind
  have h16 : (c₀.regs.esp - 16).toNat = c₀.regs.esp.toNat - 16 := toNat_sub_of_room
    (Nat.le_trans (by decide) hk.room.1)
  have := a.toNat_lt
  rw [h40, off_eq, h16]
  omega

theorem Handled.syscallHandler (h : Handled k c₀ r c) (hc : c.tasks.currentThread ≠ k)
    (ret : UInt32) : ∃ r', Handled k c₀ r'
      { c with stack := syscallHandler ret (c₀.regs.esp - 56) c.stack } := by
  have hframe := loadRegs_syscallHandler ret (c₀.regs.esp - 56) c.stack
  rw [h.frame] at hframe
  exact ⟨_, h.multitaskingEnabled, h.threads, hframe,
    (syscallHandler_above hk ret c.stack).trans h.above, fun he => absurd he hc, h.other⟩

theorem Handled.irqHandler (h : Handled k c₀ r c) (hi : c.tasks.currentThread = k → i.index ≠ 16)
    (hc : irqHandler fuel i (c₀.regs.esp - 56) (c₀.regs.esp - 60) c = some c') :
    ∃ r', Handled k c₀ r' c' := by
  unfold C4os.irqHandler at hc
  by_cases h0 : i.index = 0
  · rw [if_pos h0, h.frame] at hc
    obtain ⟨q, hq, rfl⟩ := Option.map_eq_some_iff.mp hc
    exact ⟨q.2, h.switchTask hk hq _⟩
  rw [if_neg h0] at hc
  by_cases h16 : i.index = 16
  · rw [if_pos h16] at hc
    cases hc
    exact h.syscallHandler hk (fun he => hi he h16) i.ret
  · rw [if_neg h16] at hc
    cases hc
    exact ⟨r, h⟩

theorem sameFrom_frames (frames m : Ram) : SameFrom c₀.regs.esp.toNat
    (fun a => if a < c₀.regs.esp - 56 then frames a else m a) m := by
  intro a ha
  apply if_neg
  have h56 : (c₀.regs.esp - 56).toNat = c₀.regs.esp.toNat - 56 := toNat_sub_of_room
    (Nat.le_trans (by decide) hk.room.1)
  rw [UInt32.lt_iff_toNat_lt]
  omega

theorem iretd_saved {v : UInt32}
    (hf : loadRegs m (c₀.regs.esp - 56) = { c₀.saved with eax := v }) :
    iretd c₀.regs.ss (c₀.regs.esp - 56) m = { c₀.regs with eax := v } := by
  have hring : ({ c₀.saved with eax := v } : Registers).ring = 0 := hk.ring
  have hesp : c₀.regs.esp - 56 + 56 = c₀.regs.esp := UInt32.sub_add_cancel _ _
  unfold iretd
  rw [hf]
  dsimp only
  rw [if_pos hring, hesp]
  rfl

theorem Handled.iretd (h : Handled k c₀ r c) (frames : Ram) : Interrupted k c₀
    { c with
      regs := iretd c₀.regs.ss (c₀.regs.esp - 56) c.stack
      stack := fun a => if a < c₀.regs.esp - 56 then frames a else c.stack a } := by
  have hsame := sameFrom_frames hk frames c.stack
  refine ⟨h.multitaskingEnabled, h.threads, (hsame.mono (by omega)).trans h.above, ?_, ?_⟩
  · intro hcur
    have hframe : loadRegs c.stack (c₀.regs.esp - 56) = c₀.saved := h.frame.trans (h.self hcur)
    exact ⟨iretd_saved hk hframe, hsame.trans (sameFrom_of_saved hframe h.above)⟩
  · intro hcur
    obtain ⟨hring, hrest⟩ := h.other hcur
    refine ⟨?_, hrest⟩
    show (C4os.iretd _ _ _).ring = 3
    unfold C4os.iretd
    rw [h.frame]
    dsimp only
    rw [if_neg (by rw [hring]; decide)]
    exact hring

/-- **An interrupt keeps what the ring-0 thread needs.** -/
theorem Interrupted.interrupt (h : Interrupted k c₀ c)
    (hi : c.tasks.currentThread = k → i.index ≠ 16) (hc : interrupt fuel i c = some c') :
    Interrupted k c₀ c' := by
  obtain ⟨r, m', hh, heq⟩ := h.entered hk fuel i
  rw [heq] at hc
  obtain ⟨d, hd, rfl⟩ := Option.map_eq_some_iff.mp hc
  obtain ⟨r', hh'⟩ := hh.irqHandler hk hi hd
  exact hh'.iretd hk i.frames

omit hk

theorem Cpu.Kernel.interrupted (h : c.Kernel k) : Interrupted k c c := by
  obtain ⟨ts, hts⟩ := h.threads
  exact ⟨h.multitaskingEnabled, ⟨ts, hts, h.current.symm ▸ hts.mem⟩, .refl _ _,
    fun _ => ⟨rfl, .refl _ _⟩, fun hne => absurd h.current hne⟩

/-- **Ring-0 code is the ring-0 thread, as it was.** -/
theorem Interrupted.resumed (h : Interrupted k c₀ c) (hr : c.regs.ring = 0) :
    c.tasks.currentThread = k ∧ c.regs = c₀.regs ∧
      SameFrom c₀.regs.esp.toNat c.stack c₀.stack := by
  have hcur : c.tasks.currentThread = k := by
    by_contra hne
    have h3 := (h.other hne).1
    rw [hr] at h3
    exact absurd h3 (by decide)
  exact ⟨hcur, h.self hcur⟩

theorem Interrupted.kernel (hk : c₀.Kernel k) (h : Interrupted k c₀ c) (hr : c.regs.ring = 0) :
    c.Kernel k := by
  obtain ⟨hcur, hregs, -⟩ := h.resumed hr
  obtain ⟨ts, hts, -⟩ := h.threads
  exact ⟨h.multitaskingEnabled, hcur, hr, hregs ▸ hk.ss, hregs ▸ hk.room, ts, hts⟩

theorem systemCall (hk : c.Kernel k) (hi : i.index = 16) (hc : interrupt fuel i c = some c') :
    c'.regs = { c.regs with eax := if c.regs.eax < 1 then i.ret else c.regs.eax } ∧
      SameFrom c.regs.esp.toNat c'.stack c.stack ∧ c'.Kernel k := by
  obtain ⟨r, m', hh, heq⟩ := hk.interrupted.entered hk fuel i
  have hframe := loadRegs_syscallHandler i.ret (c.regs.esp - 56) m'
  have hm' : loadRegs m' (c.regs.esp - 56) = c.saved := hh.frame.trans (hh.self hk.current)
  have habove := (syscallHandler_above hk i.ret m').trans hh.above
  rw [hm'] at hframe
  unfold irqHandler at heq
  rw [if_neg (by omega), if_pos hi, hc] at heq
  cases heq
  have hregs := iretd_saved hk hframe
  have hsame := (sameFrom_frames hk i.frames _).trans (sameFrom_of_saved hframe habove)
  refine ⟨hregs, hsame, hk.multitaskingEnabled, hk.current, ?_, ?_, ?_, hk.threads⟩
  · exact (congrArg Registers.ring hregs).trans hk.ring
  · exact (congrArg Registers.ss hregs).trans hk.ss
  · exact (congrArg (fun r : Registers => 68 ≤ r.esp.toNat ∧ r.esp.toNat + 8 ≤ 2 ^ 32) hregs).mpr
      hk.room

theorem Interrupted.step {e : Event} (hk : c₀.Kernel k) (h : Interrupted k c₀ c)
    (hp : Preempted k c e c') : Interrupted k c₀ c' := by
  obtain ⟨hs, hp⟩ := hp
  cases e with
  | run d => exact absurd hp id
  | user r =>
    obtain ⟨h3, hr3, rfl⟩ := hs
    have hne : c.tasks.currentThread ≠ k := by
      intro hcur
      have h0 := hk.ring
      rw [← (h.self hcur).1, h3] at h0
      exact absurd h0 (by decide)
    exact ⟨h.multitaskingEnabled, h.threads, h.above, fun hcur => absurd hcur hne,
      fun _ => ⟨hr3, (h.other hne).2⟩⟩
  | interrupt fuel i =>
    apply h.interrupt hk _ hs
    intro hcur
    apply hp
    rw [(h.self hcur).1, hk.ring]

/-- **In every run**, ring-0 code is the ring-0 thread. -/
theorem kernel_of_run {es : List Event} (hk : c₀.Kernel k) (h : Run (Step k) c₀ es c)
    (hr : c.regs.ring = 0) : c.Kernel k := by
  have hinv : ∃ d, d.Kernel k ∧ Interrupted k d c := by
    apply h.invariant (I := fun c => ∃ d : Cpu, d.Kernel k ∧ Interrupted k d c) _
      ⟨c₀, hk, hk.interrupted⟩
    rintro c e c' ⟨d, hd, hi⟩ hs
    by_cases hp : e.Preempts c
    · exact ⟨d, hd, hi.step hd ⟨hs, hp⟩⟩
    cases e with
    | run f =>
      obtain ⟨-, hf, rfl⟩ := hs
      exact ⟨c', hf, hf.interrupted⟩
    | user r => exact absurd trivial hp
    | interrupt fuel i =>
      obtain ⟨h0, h16⟩ : c.regs.ring = 0 ∧ i.index = 16 := by
        simpa [Event.Preempts] using hp
      obtain ⟨-, -, hc'⟩ := systemCall (hi.kernel hd h0) h16 hs
      exact ⟨c', hc', hc'.interrupted⟩
  obtain ⟨d, hd, hi⟩ := hinv
  exact hi.kernel hd hr

/-- **The ring-0 thread resumes on an intact stack.** In every run, whenever it is preempted, it
resumes with its registers and with its stack from the stack pointer up; its own system call changes
`eax` alone, to the result. -/
theorem kernel_resumes {es : List Event} (hk : c₀.Kernel k) (hrun : Run (Step k) c₀ es c)
    (hr : c.regs.ring = 0) :
    (∀ as c', Run (Preempted k) c as c' → c'.regs.ring = 0 →
      c'.regs = c.regs ∧ ∀ a, c.regs.esp ≤ a → c'.stack a = c.stack a) ∧
    ∀ fuel i c', i.index = 16 → interrupt fuel i c = some c' →
      c'.regs = { c.regs with eax := if c.regs.eax < 1 then i.ret else c.regs.eax } ∧
        ∀ a, c.regs.esp ≤ a → c'.stack a = c.stack a := by
  have hkc : c.Kernel k := kernel_of_run hk hrun hr
  constructor
  · intro as c' has hr'
    have hi : Interrupted k c c' :=
      has.invariant (fun d e d' hd hs => hd.step hkc hs) hkc.interrupted
    obtain ⟨-, hregs, hsame⟩ := hi.resumed hr'
    exact ⟨hregs, fun a ha => hsame a (UInt32.le_iff_toNat_le.mp ha)⟩
  · intro fuel i c' hi hc
    obtain ⟨hregs, hsame, -⟩ := systemCall hkc hi hc
    exact ⟨hregs, fun a ha => hsame a (UInt32.le_iff_toNat_le.mp ha)⟩

end

/-! ## A small run -/

/-- The registers of a new ring-3 thread. -/
def userRegs : Registers :=
  ⟨35, 35, 35, 35, 0, 0, 0, 0, 0, 0, 0, 0x100000, 27, 0x202, 0x201000, 35⟩

/-- The ring-0 thread `1` and a ring-3 thread `2`, in turn. -/
def twoTasks : Tasks where
  heap := ⟨fun t => ⟨3 - t, 3 - t, 3⟩, fun _ => ⟨1, 2, false⟩⟩
  threads t := ⟨t, false, userRegs⟩
  processes p := ⟨if p = 1 then 0x1000 else 0x8000, false⟩
  currentThread := 1
  currentProcess := 1
  multitaskingEnabled := true
  indicator := 0
  cr3 := 0x1000
  tss _ := ⟨0, 0⟩

/-- The processor runs the ring-0 thread. -/
def twoCpu : Cpu :=
  ⟨⟨16, 16, 16, 16, 0x7BF0, 7, 6, 5, 4, 3, 2, 0xFFC00123, 8, 0x246, 0x7B80, 16⟩,
    fun a => UInt8.ofNat a.toNat, twoTasks, 0⟩

/-- The interrupt of the timer. -/
def timer : Irq := ⟨0, 0, 0, fun _ => 0xCC⟩

/-- After the timer interrupts the ring-0 thread. -/
def twoCpuUser : Cpu := (interrupt 1 timer twoCpu).getD twoCpu

/-- After the ring-3 thread has run. -/
def twoCpuRan : Cpu := { twoCpuUser with regs := { userRegs with eax := 9 } }

/-- After the timer interrupts the ring-3 thread. -/
def twoCpuBack : Cpu := (interrupt 1 timer twoCpuRan).getD twoCpu

theorem twoCpu_kernel : twoCpu.Kernel 1 := by
  refine ⟨rfl, rfl, rfl, rfl, by decide, Set.univ, trivial, fun _ _ => trivial, ?_, ?_⟩
  · intro t _ ht
    show (if t = 1 then 0x1000 else 0x8000) ≠ 0x1000
    rw [if_neg ht]
    decide
  · intro t _ _
    show userRegs.ring = 3
    decide

theorem twoCpu_run : Run (Preempted 1) twoCpu
    [.interrupt 1 timer, .user { userRegs with eax := 9 }, .interrupt 1 timer] twoCpuBack := by
  have h1 : interrupt 1 timer twoCpu = some twoCpuUser := by rfl
  have h2 : interrupt 1 timer twoCpuRan = some twoCpuBack := by rfl
  have h3 : twoCpuUser.regs.ring = 3 := by decide +kernel
  have hrun : Step 1 twoCpuUser (.user { userRegs with eax := 9 }) twoCpuRan := ⟨h3, rfl, rfl⟩
  exact .cons ⟨h1, fun _ => by decide⟩ (.cons ⟨hrun, trivial⟩
    (.cons ⟨h2, fun _ => by decide⟩ (.nil _)))

theorem kernel_resumes_small : twoCpuBack.regs = twoCpu.regs ∧
    ∀ a, twoCpu.regs.esp ≤ a → twoCpuBack.stack a = twoCpu.stack a :=
  (kernel_resumes twoCpu_kernel (.nil _) rfl).1 _ _ twoCpu_run (by decide +kernel)

end C4os
