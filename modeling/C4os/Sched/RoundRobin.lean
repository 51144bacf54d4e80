import C4os.Sched.Switch

/-!
# Runs of the scheduler

A tick sets the suspend flags, then the timer interrupt calls `switch_task`.

* `Tick`, `Switch`, `runTicks`: a run of ticks and the switches it makes.
* `InTurn`: each switch goes to the first runnable thread behind the preempted one.
* `lastSaved`: the registers stored at the last preemption of a thread.
* `filter_ringAfter`, **`resumed_eq_filter`**: under fixed flags the turn order rotates by one with
  every switch, so a window as long as the number of runnable threads serves each of them once.
* **`round_robin`**: every run of ticks over a ring built by `list_append`.
-/

namespace C4os

/-- The suspend flags and the interrupted registers at a timer interrupt. -/
structure Tick where
  threadSuspend : Nat → Bool
  processSuspend : Nat → Bool
  regs : Registers
  esp : Nat

/-- One task switch, as seen from outside. -/
structure Switch where
  preempted : Nat
  saved : Registers
  resumed : Nat
  process : Nat
  regs : Registers

/-- The `suspend` fields as they are at the tick. -/
def Tasks.setFlags (tk : Tick) (s : Tasks) : Tasks :=
  { s with
    threads := fun t => { s.threads t with suspend := tk.threadSuspend t }
    processes := fun p => { s.processes p with suspend := tk.processSuspend p } }

/-- A tick of the timer, and the switch that it makes. -/
def tick (fuel : Nat) (tk : Tick) (s : Tasks) : Option (Tasks × Switch) :=
  (switchTask fuel tk.regs tk.esp (s.setFlags tk)).map fun r =>
    (r.1, ⟨s.currentThread, tk.regs, r.1.currentThread, r.1.currentProcess, r.2⟩)

/-- A run of ticks. -/
def runTicks (fuel : Nat) : List Tick → Tasks → Option (Tasks × List Switch)
  | [], s => some (s, [])
  | tk :: tks, s =>
    (tick fuel tk s).bind fun r => (runTicks fuel tks r.1).map fun q => (q.1, r.2 :: q.2)

/-! ## What a run should do -/

/-- The thread `t` is runnable at this tick; `procOf` gives the process of a thread. -/
def Tick.runnable (tk : Tick) (procOf : Nat → Nat) (t : Nat) : Bool :=
  !(tk.threadSuspend t || tk.processSuspend (procOf t))

/-- Each switch preempts the thread that runs and goes to the first runnable thread behind it in
the ring, and to its process. -/
def InTurn (ts : List Nat) (procOf : Nat → Nat) : Nat → List Tick → List Switch → Prop
  | _, [], [] => True
  | cur, tk :: tks, e :: es =>
    (e.preempted = cur ∧ e.saved = tk.regs ∧
      (ringAfter ts cur).find? (tk.runnable procOf) = some e.resumed ∧
      e.process = procOf e.resumed) ∧ InTurn ts procOf e.resumed tks es
  | _, _, _ => False

/-- The registers stored at the last preemption of `t`, or its initial state. -/
def lastSaved (init : Nat → Registers) (es : List Switch) (t : Nat) : Registers :=
  ((es.reverse.find? fun e => e.preempted = t).map Switch.saved).getD (init t)

theorem lastSaved_append (init : Nat → Registers) (es : List Switch) (e : Switch) (t : Nat) :
    lastSaved init (es ++ [e]) t = if t = e.preempted then e.saved else lastSaved init es t := by
  by_cases ht : t = e.preempted
  · simp [lastSaved, ht]
  · simp [lastSaved, ht, Ne.symm ht]

/-! ## The turn order -/

variable {ts : List Nat} {procOf : Nat → Nat}

theorem ringAfter_turn (hnd : ts.Nodup) {c x : Nat} {m₁ m₂ : List Nat} (hc : c ∈ ts)
    (he : ringAfter ts c = m₁ ++ x :: m₂) : ringAfter ts x = m₂ ++ m₁ ++ [x] := by
  obtain ⟨l₁, l₂, rfl⟩ := List.append_of_mem hc
  rw [ringAfter_eq hnd, List.append_assoc] at he
  rcases List.append_eq_append_iff.mp he with ⟨u, rfl, hu⟩ | ⟨u, rfl, hu⟩
  · -- `x` is among `l₁ ++ [c]`
    rcases List.append_eq_append_iff.mp hu with ⟨v, rfl, hv⟩ | ⟨v, rfl, hv⟩
    · cases v with
      | nil =>
        obtain ⟨rfl, rfl⟩ : x = c ∧ m₂ = [] := by simpa using hv.symm
        rw [ringAfter_eq (by simpa using hnd)]
        simp
      | cons y v => simp at hv
    · cases v with
      | nil =>
        obtain ⟨rfl, rfl⟩ : x = c ∧ m₂ = [] := by simpa using hv
        rw [ringAfter_eq (by simpa using hnd)]
        simp
      | cons y v =>
        obtain ⟨rfl, rfl⟩ : x = y ∧ m₂ = v ++ [c] := by simpa using hv
        have hnd' : (u ++ x :: (v ++ c :: l₂)).Nodup := by simpa using hnd
        rw [show u ++ x :: v ++ c :: l₂ = u ++ x :: (v ++ c :: l₂) by simp, ringAfter_eq hnd']
        simp
  · -- `x` is among `l₂`
    cases u with
    | nil =>
      cases l₁ with
      | nil =>
        obtain ⟨rfl, rfl⟩ : x = c ∧ m₂ = [] := by simpa using hu
        rw [ringAfter_eq (by simpa using hnd)]
        simp
      | cons y l₁ =>
        obtain ⟨rfl, rfl⟩ : x = y ∧ m₂ = l₁ ++ [c] := by simpa using hu
        rw [List.cons_append, show x :: (l₁ ++ c :: (m₁ ++ [])) = [] ++ x :: (l₁ ++ c :: m₁) by simp,
          ringAfter_eq (by simpa using hnd)]
        simp
    | cons y u =>
      obtain ⟨rfl, rfl⟩ : x = y ∧ m₂ = u ++ (l₁ ++ [c]) := by simpa using hu
      rw [show l₁ ++ c :: (m₁ ++ x :: u) = (l₁ ++ c :: m₁) ++ x :: u by simp,
        ringAfter_eq (by simpa using hnd)]
      simp

/-- **One turn**: the runnable threads behind the selected one are those behind the current one,
turned by one. -/
theorem filter_ringAfter (hnd : ts.Nodup) {c x : Nat} {p : Nat → Bool} (hc : c ∈ ts)
    (hx : (ringAfter ts c).find? p = some x) :
    (ringAfter ts c).filter p = x :: ((ringAfter ts c).filter p).tail ∧
      (ringAfter ts x).filter p = ((ringAfter ts c).filter p).tail ++ [x] := by
  obtain ⟨hpx, u, v, he, hu⟩ := List.find?_eq_some_iff_append.mp hx
  have hu' : u.filter p = [] := List.filter_eq_nil_iff.mpr fun y hy => by simpa using hu y hy
  have hfc : (ringAfter ts c).filter p = x :: v.filter p := by simp [he, hu', hpx]
  rw [ringAfter_turn hnd hc he, hfc]
  simp [hu', hpx]

/-- **A window of turns**: from a thread `c`, as many switches as there are runnable threads go
through all of them, in ring order. -/
theorem resumed_eq_filter (hnd : ts.Nodup) {p : Nat → Bool} {tks : List Tick} {es : List Switch}
    {c : Nat} (hc : c ∈ ts) (hp : ∀ tk ∈ tks, tk.runnable procOf = p)
    (ht : InTurn ts procOf c tks es) {l m : List Nat}
    (hl : (ringAfter ts c).filter p = l ++ m) (hlen : tks.length = l.length) :
    es.map Switch.resumed = l := by
  induction tks generalizing c es l m with
  | nil =>
    cases es with
    | nil => exact (List.length_eq_zero_iff.mp hlen.symm).symm
    | cons e es => exact ht.elim
  | cons tk tks ih =>
    cases es with
    | nil => exact ht.elim
    | cons e es =>
      cases l with
      | nil => simp at hlen
      | cons x l =>
        obtain ⟨⟨-, -, hx, -⟩, ht⟩ := ht
        rw [hp tk (by simp)] at hx
        obtain ⟨h1, h2⟩ := filter_ringAfter hnd hc hx
        rw [hl] at h1 h2
        obtain rfl : x = e.resumed := (List.cons.inj h1).1
        have hmem : e.resumed ∈ ts :=
          (perm_ringAfter ts c).mem_iff.mp (List.mem_of_find?_eq_some hx)
        have := ih hmem (fun tk' h' => hp tk' (by simp [h'])) ht (l := l) (m := m ++ [e.resumed])
          (by simpa using h2) (by simpa using hlen)
        simp [this]

/-! ## Runs -/

/-- The scheduler is running on the ring `ts`. -/
structure Scheduling (tl : Nat) (ts : List Nat) (s : Tasks) : Prop where
  onRing : OnRing s.heap tl ts
  current : s.currentThread ∈ ts
  enabled : s.multitaskingEnabled = true

/-- **A tick**, from a scheduling state with a runnable thread. -/
theorem tick_eq {tl fuel : Nat} {s : Tasks} (hs : Scheduling tl ts s) (hf : ts.length ≤ fuel)
    {tk : Tick} (hrun : ∃ t ∈ ts, tk.runnable (fun t => (s.threads t).process) t = true) :
    ∃ s' x, tick fuel tk s =
        some (s', ⟨s.currentThread, tk.regs, x, (s.threads x).process, (s'.threads x).state⟩) ∧
      (ringAfter ts s.currentThread).find? (tk.runnable fun t => (s.threads t).process) = some x ∧
      Scheduling tl ts s' ∧ s'.currentThread = x ∧
      (∀ t, (s'.threads t).process = (s.threads t).process) ∧
      ∀ t, (s'.threads t).state = if t = s.currentThread then tk.regs else (s.threads t).state := by
  obtain ⟨t, ht, hrt⟩ := hrun
  have hmem : t ∈ ringAfter ts s.currentThread := (perm_ringAfter ts _).mem_iff.mpr ht
  have hsome : ((ringAfter ts s.currentThread).find?
      (tk.runnable fun t => (s.threads t).process)).isSome = true :=
    List.find?_isSome.mpr ⟨t, hmem, hrt⟩
  obtain ⟨x, hx⟩ := Option.isSome_iff_exists.mp hsome
  obtain ⟨s', h1, h2, h3, h4, h5, h6, h7⟩ := switchTask_eq (s := s.setFlags tk) hs.onRing hs.current
    hs.enabled hf hx tk.regs tk.esp
  have hxts : x ∈ ts := (perm_ringAfter ts _).mem_iff.mp (List.mem_of_find?_eq_some hx)
  refine ⟨s', x, ?_, hx, ⟨h2 ▸ hs.onRing, h4 ▸ hxts, h3⟩, h4, h6, h7⟩
  rw [tick, h1, Option.map_some, h4, h5]
  rfl

/-- Every run of ticks that leave a runnable thread goes through: its switches are in turn, and
each thread is resumed with what was stored for it last. -/
theorem runTicks_eq {tl fuel : Nat} {s : Tasks} (hs : Scheduling tl ts s) (hf : ts.length ≤ fuel)
    {tks : List Tick}
    (hrun : ∀ tk ∈ tks, ∃ t ∈ ts, tk.runnable (fun t => (s.threads t).process) t = true)
    (init : Nat → Registers) (es₀ : List Switch)
    (hsaved : ∀ t, (s.threads t).state = lastSaved init es₀ t) :
    ∃ s' es, runTicks fuel tks s = some (s', es) ∧
      InTurn ts (fun t => (s.threads t).process) s.currentThread tks es ∧
      (∀ pre e post, es = pre ++ e :: post →
        e.regs = lastSaved init (es₀ ++ pre ++ [e]) e.resumed) ∧
      ∀ t, (s'.threads t).state = lastSaved init (es₀ ++ es) t := by
  induction tks generalizing s es₀ with
  | nil => exact ⟨s, [], rfl, trivial, by simp, by simpa using hsaved⟩
  | cons tk tks ih =>
    obtain ⟨s₁, x, he, hx, hs₁, hcur, hproc, hstate⟩ := tick_eq hs hf (hrun tk (by simp))
    set e : Switch := ⟨s.currentThread, tk.regs, x, (s.threads x).process, (s₁.threads x).state⟩
    have hsaved₁ : ∀ t, (s₁.threads t).state = lastSaved init (es₀ ++ [e]) t := by
      intro t
      rw [lastSaved_append, hstate, hsaved]
    have hproc' : (fun t => (s₁.threads t).process) = fun t => (s.threads t).process :=
      funext hproc
    obtain ⟨s', es, he', hturn, hregs, hstate'⟩ := ih hs₁
      (fun tk' h' => by rw [hproc']; exact hrun tk' (by simp [h'])) (es₀ ++ [e]) hsaved₁
    refine ⟨s', e :: es, by simp [runTicks, he, he'], ⟨⟨rfl, rfl, hx, rfl⟩, ?_⟩, ?_, ?_⟩
    · rw [hproc', hcur] at hturn
      exact hturn
    · intro pre e' post hpre
      cases pre with
      | nil =>
        obtain ⟨rfl, -⟩ := List.cons.inj hpre
        simpa using hsaved₁ x
      | cons a pre =>
        obtain ⟨rfl, hes⟩ := List.cons.inj hpre
        simpa using hregs pre e' post hes
    · simpa using hstate'

theorem InTurn.drop {c : Nat} {pre tks : List Tick} {es : List Switch} (hc : c ∈ ts)
    (h : InTurn ts procOf c (pre ++ tks) es) :
    ∃ c' ∈ ts, InTurn ts procOf c' tks (es.drop pre.length) := by
  induction pre generalizing c es with
  | nil => exact ⟨c, hc, h⟩
  | cons tk pre ih =>
    cases es with
    | nil => exact h.elim
    | cons e es =>
      have hmem : e.resumed ∈ ts :=
        (perm_ringAfter ts c).mem_iff.mp (List.mem_of_find?_eq_some h.1.2.2.1)
      exact ih hmem h.2

theorem InTurn.take {c : Nat} {tks post : List Tick} {es : List Switch}
    (h : InTurn ts procOf c (tks ++ post) es) :
    InTurn ts procOf c tks (es.take tks.length) := by
  induction tks generalizing c es with
  | nil => exact trivial
  | cons tk tks ih =>
    cases es with
    | nil => exact h.elim
    | cons e es => exact ⟨h.1, ih h.2⟩

/-- **Round robin with intact contexts.** On a ring built by `list_append`, every run of ticks that
each leave a runnable thread terminates and goes to the threads in turn; a thread is resumed with
the registers stored at its last preemption, and no other saved state changes; and any window of
switches under fixed flags, as long as the number of runnable threads, resumes each of them once. -/
theorem round_robin {tl fuel : Nat} {heap₀ : ListHeap} {s : Tasks} {tks : List Tick}
    (hitems : ∀ t ∈ ts, t ≠ 0 ∧ (heap₀.items t).list = 0) (hnd : ts.Nodup)
    (hbuilt : appendAll tl ts (listInit tl heap₀) = some s.heap)
    (hcur : s.currentThread ∈ ts) (hen : s.multitaskingEnabled = true) (hf : ts.length ≤ fuel)
    (hrun : ∀ tk ∈ tks, ∃ t ∈ ts, tk.runnable (fun t => (s.threads t).process) t = true) :
    ∃ s' es, runTicks fuel tks s = some (s', es) ∧
      InTurn ts (fun t => (s.threads t).process) s.currentThread tks es ∧
      (∀ pre e post, es = pre ++ e :: post →
        e.regs = lastSaved (fun t => (s.threads t).state) (pre ++ [e]) e.resumed) ∧
      (∀ t, (s'.threads t).state = lastSaved (fun t => (s.threads t).state) es t) ∧
      ∀ pre win post p, tks = pre ++ win ++ post →
        (∀ tk ∈ win, tk.runnable (fun t => (s.threads t).process) = p) →
        win.length = (ts.filter p).length →
        (((es.drop pre.length).take win.length).map Switch.resumed).Perm (ts.filter p) := by
  obtain ⟨h', he, hr⟩ := appendAll_onRing (l := tl) (fun i hi => (hitems i hi).2) hnd
    fun i hi => (hitems i hi).1
  obtain rfl : h' = s.heap := Option.some.inj (he.symm.trans hbuilt)
  obtain ⟨s', es, h1, h2, h3, h4⟩ := runTicks_eq ⟨hr, hcur, hen⟩ hf hrun
    (fun t => (s.threads t).state) [] fun t => by simp [lastSaved]
  refine ⟨s', es, h1, h2, by simpa using h3, by simpa using h4, ?_⟩
  rintro pre win post p rfl hp hlen
  rw [List.append_assoc] at h2
  obtain ⟨c, hc, hturn⟩ := h2.drop hcur
  have hperm : ((ringAfter ts c).filter p).Perm (ts.filter p) := (perm_ringAfter ts c).filter p
  rw [resumed_eq_filter hnd hc hp hturn.take (List.append_nil _).symm (hlen.trans hperm.length_eq.symm)]
  exact hperm

/-- A tick that suspends nothing. -/
def idleTick : Tick :=
  ⟨fun _ => false, fun _ => false, ⟨0, 0, 0, 0, 0, 0, 0, 0, 0, 0, 0, 0, 0, 0, 0, 0⟩, 0⟩

/-- Two threads, at 1 and 2, that never sleep. -/
theorem round_robin_two : ∃ s s' es, runTicks 2 [idleTick, idleTick] s = some (s', es) ∧
    s.currentThread = 1 ∧ ((es.take 2).map Switch.resumed).Perm [1, 2] := by
  obtain ⟨h, hb, -⟩ : ∃ h, appendAll 100 [1, 2] (listInit 100
      ⟨fun _ => ⟨0, 0, 0⟩, fun _ => ⟨0, 0, false⟩⟩) = some h ∧ OnRing h 100 [1, 2] :=
    appendAll_onRing (fun _ _ => rfl) (by decide) (by decide)
  let s : Tasks := ⟨h, fun _ => ⟨0, false, idleTick.regs⟩, fun _ => ⟨0, false⟩, 1, 0, true, 0, 0,
    fun _ => ⟨0, 0⟩⟩
  have htick : ∀ tk ∈ [idleTick, idleTick], tk = idleTick := by simp
  obtain ⟨s', es, he, -, -, -, hwin⟩ : ∃ s' es, runTicks 2 [idleTick, idleTick] s = some (s', es) ∧
      _ := round_robin (fun t ht => ⟨fun e => by simp [e] at ht, rfl⟩) (by decide) hb (by simp [s])
    rfl (Nat.le_refl 2) fun tk ht => ⟨1, by simp, by rw [htick tk ht]; rfl⟩
  refine ⟨s, s', es, he, rfl, ?_⟩
  exact hwin [] [idleTick, idleTick] [] (fun _ => true) rfl
    (fun tk ht => by rw [htick tk ht]; rfl) rfl

end C4os
