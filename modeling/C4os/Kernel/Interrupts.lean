import C4os.Boot.Paging
import C4os.Drivers.Dma
import C4os.Lib.Pic
import C4os.Lib.Run
import C4os.Stdlib.Fill

/-!
# Interrupts and their handlers (`interrupts.c`, `interrupts.asm`)

* `setIntHandler`, `initInterrupts`: the stores to the interrupt descriptor table, and the bytes to
  the ports of the interrupt controllers.
* `gateAt`: a gate as the processor reads it; **`gateAt_initInterrupts`**: the table has gates for
  the 16 lines and for the system calls, which alone can be called by user code.
* `Stubs`: the code before `common_irq_handler`.
* `IrqStep`: the devices, the controllers and the processor, with `int` instructions of user code,
  in any order.
* **`irq_served`**: every interrupt reaches its own handler, the most urgent one first, and none is
  lost.
-/

namespace C4os

open Pic Transition

/-! ## The functions -/

/-- `set_int_handler`. -/
def setIntHandler (idt index : Nat) (handler : UInt32) (type : UInt8) (m : Bytes) : Bytes :=
  let i := idt + 8 * (index % 256)
  let m := store16 (i + 2) 8 m
  let m := store16 i (handler.toNat &&& 0xFFFF) m
  let m := store16 (i + 6) (handler.toNat >>> 16) m
  let m := Function.update m (i + 5) type
  Function.update m (i + 4) 0

/-- The loop of `init_interrupts`. -/
def setIrqHandlers (idt irqBase : Nat) (irqHandlers : Nat → UInt32) : Nat → Bytes → Bytes
  | 0, m => m
  | n + 1, m =>
    setIntHandler idt (irqBase + n) (irqHandlers n) 0x8E (setIrqHandlers idt irqBase irqHandlers n m)

/-- The bytes that `init_interrupts` sends to the controllers. -/
def initPorts (irqBase : UInt8) : List PortWrite :=
  [(0x20, 0x11), (0x21, irqBase), (0x21, 4), (0x21, 1),
    (0xA0, 0x11), (0xA1, irqBase + 8), (0xA1, 2), (0xA1, 1)]

/-- `init_interrupts`, with the page `idt`. -/
def initInterrupts (idt : UInt32) (irqHandlers : Nat → UInt32) (m : Mem32) :
    Bytes × List PortWrite :=
  let irqBase : UInt8 := 0x20
  let m := (m.memset idt 0 (256 * 8)).flat
  let m := setIrqHandlers idt.toNat irqBase.toNat irqHandlers 16 m
  (setIntHandler idt.toNat (irqBase.toNat + 16) (irqHandlers 16) 0xEE m, initPorts irqBase)

/-! ## The gates -/

/-- An interrupt gate. -/
structure Gate where
  offset : Nat
  selector : Nat
  /-- The least privileged level that may call it. -/
  dpl : Nat
  deriving DecidableEq

/-- The gate of a vector, in a table of `limit + 1` bytes: `none` is a fault. -/
def gateAt (m : Bytes) (idt limit vector : Nat) : Option Gate :=
  let i := idt + 8 * vector
  let type := (m (i + 5)).toNat
  if 8 * vector + 7 ≤ limit ∧ type.testBit 7 ∧ type % 32 = 0xE then
    some ⟨(m i).toNat + 256 * (m (i + 1)).toNat + 65536 * (m (i + 6)).toNat +
        16777216 * (m (i + 7)).toNat,
      (m (i + 2)).toNat + 256 * (m (i + 3)).toNat, type / 32 % 4⟩
  else none

/-- The bytes of a descriptor. -/
def intDesc (handler : UInt32) (type : UInt8) : List UInt8 :=
  [byteOf handler.toNat 0, byteOf handler.toNat 1, 8, 0, 0, type, byteOf handler.toNat 2,
    byteOf handler.toNat 3]

section

variable {m : Bytes} {idt index j k n : Nat} {handler : UInt32} {type : UInt8}
  {irqHandlers : Nat → UInt32}

theorem byteOf_low (x i : Nat) (hi : i < 2) : byteOf (x &&& 0xFFFF) i = byteOf x i := by
  have hmod : x &&& 0xFFFF = x % 2 ^ 16 := Nat.and_two_pow_sub_one_eq_mod x 16
  rw [hmod]
  unfold byteOf
  apply UInt8.toNat_inj.mp
  rw [UInt8.toNat_ofNat', UInt8.toNat_ofNat', Nat.shiftRight_eq_div_pow, Nat.shiftRight_eq_div_pow]
  obtain rfl | rfl : i = 0 ∨ i = 1 := by omega
  · omega
  · omega

theorem byteOf_high (x i : Nat) : byteOf (x >>> 16) i = byteOf x (i + 2) := by
  unfold byteOf
  rw [← Nat.shiftRight_add]
  congr 2
  omega

/-- **`set_int_handler` writes a descriptor**, and no other one. -/
theorem setIntHandler_apply (hindex : index < 256) (hk : k < 8) :
    setIntHandler idt index handler type m (idt + 8 * j + k) =
      if j = index then (intDesc handler type).getD k 0 else m (idt + 8 * j + k) := by
  unfold setIntHandler
  rw [Nat.mod_eq_of_lt hindex]
  simp only [Function.update_apply, store16]
  by_cases hj : j = index
  · subst hj
    rw [if_pos rfl]
    obtain rfl | rfl | rfl | rfl | rfl | rfl | rfl | rfl :
      k = 0 ∨ k = 1 ∨ k = 2 ∨ k = 3 ∨ k = 4 ∨ k = 5 ∨ k = 6 ∨ k = 7 := by omega
    · rw [if_neg (by omega), if_neg (by omega), if_neg (by omega), if_pos (by omega)]
      exact (congrArg _ (by omega)).trans (byteOf_low _ 0 (by decide))
    · rw [if_neg (by omega), if_neg (by omega), if_neg (by omega), if_pos (by omega)]
      exact (congrArg _ (by omega)).trans (byteOf_low _ 1 (by decide))
    · rw [if_neg (by omega), if_neg (by omega), if_neg (by omega), if_neg (by omega),
        if_pos (by omega), Nat.sub_self]
      rfl
    · rw [if_neg (by omega), if_neg (by omega), if_neg (by omega), if_neg (by omega),
        if_pos (by omega)]
      exact (congrArg (byteOf 8) (by omega : _ = 1)).trans rfl
    · rw [if_pos rfl]
      rfl
    · rw [if_neg (by omega), if_pos rfl]
      rfl
    · rw [if_neg (by omega), if_neg (by omega), if_pos (by omega)]
      exact (congrArg _ (by omega)).trans (byteOf_high _ 0)
    · rw [if_neg (by omega), if_neg (by omega), if_pos (by omega)]
      exact (congrArg _ (by omega)).trans (byteOf_high _ 1)
  · rw [if_neg hj, if_neg (by omega), if_neg (by omega), if_neg (by omega), if_neg (by omega),
      if_neg (by omega)]

theorem setIrqHandlers_apply {irqBase : Nat} (hn : irqBase + n ≤ 256) (hk : k < 8) :
    setIrqHandlers idt irqBase irqHandlers n m (idt + 8 * j + k) =
      if irqBase ≤ j ∧ j < irqBase + n then (intDesc (irqHandlers (j - irqBase)) 0x8E).getD k 0
      else m (idt + 8 * j + k) := by
  induction n with
  | zero => rw [setIrqHandlers, if_neg (by omega)]
  | succ n ih =>
    rw [setIrqHandlers, setIntHandler_apply (by omega) hk, ih (by omega)]
    by_cases hj : j = irqBase + n
    · subst hj
      rw [if_pos rfl, if_pos (by omega), Nat.add_sub_cancel_left]
    · rw [if_neg hj]
      exact if_congr (by omega) rfl rfl

theorem flat_memset_zero (m : Mem32) {idt : UInt32} (hidt : idt.toNat + 2048 ≤ 2 ^ 32)
    {x : Nat} (hx : x < 2048) : (m.memset idt 0 (256 * 8)).flat (idt.toNat + x) = 0 := by
  have haddr : (UInt32.ofNat (idt.toNat + x) - idt).toNat = x := by
    rw [UInt32.toNat_sub, UInt32.toNat_ofNat']
    omega
  have hquot : 4 * ((256 * 8 : UInt32).toNat / 4) = 2048 := rfl
  unfold Mem32.flat
  rw [if_pos (by omega), memset_apply, haddr, hquot, if_pos hx]
  unfold byteOf
  exact congrArg UInt8.ofNat (Nat.zero_shiftRight _)

theorem initInterrupts_apply (m : Mem32) {idt : UInt32} (hidt : idt.toNat + 2048 ≤ 2 ^ 32)
    (hj : j < 256) (hk : k < 8) :
    (initInterrupts idt irqHandlers m).1 (idt.toNat + 8 * j + k) =
      if 0x20 ≤ j ∧ j ≤ 0x30 then
        (intDesc (irqHandlers (j - 0x20)) (if j = 0x30 then 0xEE else 0x8E)).getD k 0
      else 0 := by
  unfold initInterrupts
  dsimp only
  rw [setIntHandler_apply (by decide) hk, setIrqHandlers_apply (by decide) hk, Nat.add_assoc,
    flat_memset_zero m hidt (by omega)]
  have hbase : (0x20 : UInt8).toNat = 0x20 := rfl
  rw [hbase]
  by_cases hlast : j = 0x30
  · subst hlast
    rfl
  · rw [if_neg hlast]
    exact if_congr (by omega) (by rw [if_neg hlast]) rfl

theorem gate_intDesc (handler : UInt32) (type : UInt8) :
    (⟨((intDesc handler type).getD 0 0).toNat + 256 * ((intDesc handler type).getD 1 0).toNat +
        65536 * ((intDesc handler type).getD 6 0).toNat +
        16777216 * ((intDesc handler type).getD 7 0).toNat,
      ((intDesc handler type).getD 2 0).toNat + 256 * ((intDesc handler type).getD 3 0).toNat,
      ((intDesc handler type).getD 5 0).toNat / 32 % 4⟩ : Gate) =
      ⟨handler.toNat, 8, type.toNat / 32 % 4⟩ := by
  have hlt := handler.toNat_lt
  have hoffset : (byteOf handler.toNat 0).toNat + 256 * (byteOf handler.toNat 1).toNat +
      65536 * (byteOf handler.toNat 2).toNat + 16777216 * (byteOf handler.toNat 3).toNat =
        handler.toNat := by
    simp only [byteOf, UInt8.toNat_ofNat', Nat.shiftRight_eq_div_pow]
    omega
  exact congrArg (Gate.mk · 8 (type.toNat / 32 % 4)) hoffset

/-- **The gates**: of the 16 lines, and of the system calls, which user code can call. -/
theorem gateAt_initInterrupts (m : Mem32) {idt : UInt32} (hidt : idt.toNat + 2048 ≤ 2 ^ 32)
    (irqHandlers : Nat → UInt32) (vector : Nat) :
    gateAt (initInterrupts idt irqHandlers m).1 idt.toNat (256 * 8) vector =
      if 0x20 ≤ vector ∧ vector ≤ 0x30 then
        some ⟨(irqHandlers (vector - 0x20)).toNat, 8, if vector = 0x30 then 3 else 0⟩
      else none := by
  unfold gateAt
  dsimp only
  by_cases hv : vector < 256
  · have hbyte : ∀ k < 8, (initInterrupts idt irqHandlers m).1 (idt.toNat + 8 * vector + k) =
        if 0x20 ≤ vector ∧ vector ≤ 0x30 then
          (intDesc (irqHandlers (vector - 0x20)) (if vector = 0x30 then 0xEE else 0x8E)).getD k 0
        else 0 := fun k hk => initInterrupts_apply m hidt hv hk
    have h0 := hbyte 0 (by decide)
    rw [Nat.add_zero] at h0
    rw [h0, hbyte 1 (by decide), hbyte 2 (by decide), hbyte 3 (by decide), hbyte 5 (by decide),
      hbyte 6 (by decide), hbyte 7 (by decide)]
    by_cases hin : 0x20 ≤ vector ∧ vector ≤ 0x30
    · simp only [if_pos hin]
      by_cases hlast : vector = 0x30
      · have htype : (0xEE : UInt8).toNat.testBit 7 = true ∧ (0xEE : UInt8).toNat % 32 = 0xE := by
          decide
        simp only [if_pos hlast]
        rw [if_pos ⟨by omega, htype⟩]
        exact congrArg some (gate_intDesc _ 0xEE)
      · have htype : (0x8E : UInt8).toNat.testBit 7 = true ∧ (0x8E : UInt8).toNat % 32 = 0xE := by
          decide
        simp only [if_neg hlast]
        rw [if_pos ⟨by omega, htype⟩]
        exact congrArg some (gate_intDesc _ 0x8E)
    · simp only [if_neg hin]
      rw [if_neg fun h => absurd h.2.1 (by decide)]
  · rw [if_neg (by omega), if_neg (by omega)]

end

/-! ## Interrupts -/

/-- The addresses of `IRQ1_handler` to `IRQ17_handler`. -/
structure Stubs where
  address : Nat → UInt32
  distinct : ∀ i j, i < 17 → j < 17 → address (i + 1) = address (j + 1) → i = j

namespace Stubs

/-- `_irq_handlers`. -/
def irqHandlers (s : Stubs) (i : Nat) : UInt32 := s.address (i + 1)

/-- The argument `index` of `irq_handler`, when the processor goes to the address: the macro
`IRQ_handler index` puts `index - 1` into `eax`. -/
def run (s : Stubs) (offset : Nat) : Option Nat :=
  ((List.range' 1 17).find? fun index => (s.address index).toNat = offset).map fun index => index - 1

theorem run_irqHandlers (s : Stubs) {i : Nat} (hi : i < 17) :
    s.run (s.irqHandlers i).toNat = some i := by
  have hfind : (List.range' 1 17).find?
      (fun index => (s.address index).toNat = (s.irqHandlers i).toNat) = some (i + 1) := by
    rw [List.find?_range'_eq_some]
    refine ⟨decide_eq_true rfl, ?_, fun j hj hji => ?_⟩
    · rw [List.mem_range'_1]
      omega
    · have hne : ¬ (s.address j).toNat = (s.irqHandlers i).toNat := by
        intro h
        have := s.distinct (j - 1) i (by omega) hi (by
          rw [Nat.sub_add_cancel hj]
          exact UInt32.toNat_inj.mp h)
        omega
      rw [decide_eq_false hne]
      rfl
  unfold run
  rw [hfind]
  rfl

end Stubs

/-- What happened so far. -/
inductive IrqEvent where
  | raised (line : Nat)
  /-- `irq_handler` was called with `index` for the line. -/
  | served (line index : Nat)
  /-- `irq_handler` was called with `index` for an `int` of user code. -/
  | called (index : Nat)

/-- The controllers, and the argument of `irq_handler` while it runs, with interrupts disabled. -/
structure IrqState where
  pics : Pair
  handling : Option Nat
  log : List IrqEvent

/-- A step of the devices, of the processor or of user code. -/
inductive IrqAct where
  /-- A device raises its line. -/
  | raise (line : Nat)
  /-- The processor takes an interrupt. -/
  | accept
  /-- User code executes `int`. -/
  | int (vector : UInt8)
  /-- The end of `common_irq_handler`. -/
  | done

/-- The line is raised. -/
def IrqState.raised (s : IrqState) (line : Nat) : IrqState :=
  ⟨s.pics.raise line, s.handling, s.log ++ [.raised line]⟩

/-- The end of the handler: `0x20` to both controllers, and `iretd`. -/
def IrqState.commonEnd (s : IrqState) : IrqState :=
  ⟨(s.pics.out (0x20, 0x20)).out (0xA0, 0x20), none, s.log⟩

/-- A step, with the gates and the code at their addresses. The line `2` has no device. -/
def IrqStep (gate : Nat → Option Gate) (stubs : Stubs) (s : IrqState) (a : IrqAct) (s' : IrqState) :
    Prop :=
  match a with
  | .raise line => line < 16 ∧ line ≠ 2 ∧ s' = s.raised line
  | .accept => s.handling = none ∧ ∃ line vector pics g index,
      s.pics.acknowledge = some (line, vector, pics) ∧ gate vector = some g ∧
      stubs.run g.offset = some index ∧ s' = ⟨pics, some index, s.log ++ [.served line index]⟩
  | .int vector => s.handling = none ∧ ∃ g index, gate vector.toNat = some g ∧ 3 ≤ g.dpl ∧
      stubs.run g.offset = some index ∧ s' = ⟨s.pics, some index, s.log ++ [.called index]⟩
  | .done => s.handling ≠ none ∧ s' = s.commonEnd

/-- Whether the line waits after the event. -/
def IrqEvent.waits (line : Nat) (w : Bool) : IrqEvent → Bool
  | .raised l => if line = l then true else w
  | .served l _ => if line = l then false else w
  | .called _ => w

/-- The line was raised and has not been served since. -/
def waiting (log : List IrqEvent) (line : Nat) : Bool := log.foldl (IrqEvent.waits line) false

/-- The handler of a line has its number, and user code calls the system calls. -/
def IrqEvent.Right : IrqEvent → Prop
  | .raised _ => True
  | .served line index => index = line
  | .called index => index = 16

/-- What every step keeps. -/
structure IrqInv (s : IrqState) : Prop where
  ready : s.pics.Ready 0x20
  serving : ∃ o, s.pics.Serving o ∧ (∀ line ∈ o, line < 16) ∧ (s.handling = none → o = none)
  requested : s.pics.requested = waiting s.log
  right : ∀ e ∈ s.log, e.Right

variable {stubs : Stubs} {gate : Nat → Option Gate} {s s' : IrqState} {log : List IrqEvent}
  {line index : Nat}

theorem waiting_raised : waiting (log ++ [.raised line]) = Function.update (waiting log) line true := by
  funext l
  unfold waiting
  rw [List.foldl_concat, Function.update_apply]
  rfl

theorem waiting_served :
    waiting (log ++ [.served line index]) = Function.update (waiting log) line false := by
  funext l
  unfold waiting
  rw [List.foldl_concat, Function.update_apply]
  rfl

theorem waiting_called : waiting (log ++ [.called index]) = waiting log := by
  funext l
  unfold waiting
  rw [List.foldl_concat]
  rfl

/-- **`init_interrupts` sets the controllers up**, whatever they did before. -/
theorem ready_initPorts (p : Pair) :
    ((initPorts 0x20).foldl (fun p w => p.out w) p).Ready 0x20 ∧
      ((initPorts 0x20).foldl (fun p w => p.out w) p).Serving none ∧
      ((initPorts 0x20).foldl (fun p w => p.out w) p).requested = fun _ => false := by
  refine ⟨?_, ?_, ?_⟩
  · constructor
    all_goals first | rfl | exact fun _ => rfl
  · exact ⟨fun _ => rfl, fun _ => rfl⟩
  · funext line
    unfold Pair.requested
    split_ifs <;> rfl

theorem commonEnd_pics (p : Pair) :
    (p.out (0x20, 0x20)).out (0xA0, 0x20) = p.endOfInterrupt := rfl

/-- The gates of `init_interrupts`, with the code behind them. -/
structure Gates (stubs : Stubs) (gate : Nat → Option Gate) : Prop where
  line : ∀ line < 16, ∃ g, gate (0x20 + line) = some g ∧ stubs.run g.offset = some line
  user : ∀ vector g, gate vector = some g → 3 ≤ g.dpl → stubs.run g.offset = some 16

theorem gates_initInterrupts (stubs : Stubs) (m : Mem32) {idt : UInt32}
    (hidt : idt.toNat + 2048 ≤ 2 ^ 32) :
    Gates stubs (gateAt (initInterrupts idt stubs.irqHandlers m).1 idt.toNat (256 * 8)) := by
  constructor
  · intro line hline
    rw [gateAt_initInterrupts m hidt, if_pos (by omega), Nat.add_sub_cancel_left]
    exact ⟨_, rfl, stubs.run_irqHandlers (by omega)⟩
  · intro vector g hg hdpl
    rw [gateAt_initInterrupts m hidt] at hg
    split_ifs at hg with hin hlast
    · obtain rfl := Option.some.inj hg
      subst hlast
      exact stubs.run_irqHandlers (by decide)
    · obtain rfl := Option.some.inj hg
      exact absurd hdpl (Nat.not_succ_le_zero 2)

theorem accept_iff (hg : Gates stubs gate) (h : IrqInv s) (hs : s.handling = none) :
    IrqStep gate stubs s .accept s' ↔ ∃ line, urgency.find? (waiting s.log) = some line ∧
      s' = ⟨s.pics.taken line, some line, s.log ++ [.served line line]⟩ := by
  obtain ⟨o, hserving, -, ho⟩ := h.serving
  obtain rfl := ho hs
  have hack := Pair.acknowledge_eq h.ready hserving
  rw [h.requested] at hack
  constructor
  · rintro ⟨-, line, vector, pics, g, index, hp, hgate, hrun, rfl⟩
    rw [hack] at hp
    obtain ⟨l, hl, heq⟩ := Option.map_eq_some_iff.mp hp
    obtain ⟨rfl, rfl, rfl⟩ : l = line ∧ 0x20 + l = vector ∧ s.pics.taken l = pics := by
      simpa using heq
    obtain ⟨g', hg', hrun'⟩ := hg.line l (Pair.mem_urgency.mp (List.mem_of_find?_eq_some hl)).1
    obtain rfl := Option.some.inj (hg'.symm.trans hgate)
    obtain rfl := Option.some.inj (hrun'.symm.trans hrun)
    exact ⟨l, hl, rfl⟩
  · rintro ⟨l, hl, rfl⟩
    obtain ⟨g, hgate, hrun⟩ := hg.line l (Pair.mem_urgency.mp (List.mem_of_find?_eq_some hl)).1
    refine ⟨hs, l, 0x20 + l, s.pics.taken l, g, l, ?_, hgate, hrun, rfl⟩
    rw [hack, hl]
    rfl

/-- **Every step keeps the invariant.** -/
theorem IrqInv.step (hg : Gates stubs gate) {a : IrqAct} (h : IrqInv s)
    (hs : IrqStep gate stubs s a s') : IrqInv s' := by
  obtain ⟨o, hserving, ho, hnone⟩ := h.serving
  have hright : ∀ e : IrqEvent, e.Right → ∀ e' ∈ s.log ++ [e], e'.Right := by
    intro e he e' he'
    obtain he' | he' := List.mem_append.mp he'
    · exact h.right e' he'
    · obtain rfl := List.mem_singleton.mp he'
      exact he
  cases a with
  | raise line =>
    obtain ⟨-, h2, rfl⟩ := hs
    refine ⟨h.ready.raise h2, ⟨o, hserving.raise, ho, hnone⟩, ?_, hright _ trivial⟩
    show (s.pics.raise line).requested = waiting (s.log ++ [.raised line])
    rw [Pair.requested_raise, h.requested, waiting_raised]
  | accept =>
    have hhandling : s.handling = none := hs.1
    obtain rfl := hnone hhandling
    obtain ⟨line, hl, rfl⟩ := (accept_iff hg h hhandling).mp hs
    have hlt := (Pair.mem_urgency.mp (List.mem_of_find?_eq_some hl)).1
    refine ⟨h.ready.taken, ⟨some line, hserving.taken h.ready, ?_, nofun⟩, ?_, hright _ rfl⟩
    · intro l hmem
      obtain rfl := Option.some.inj hmem
      exact hlt
    · rw [Pair.requested_taken h.ready, h.requested, waiting_served]
  | int vector =>
    obtain ⟨hhandling, g, index, hgate, hdpl, hrun, rfl⟩ := hs
    obtain rfl := Option.some.inj (hrun.symm.trans (hg.user _ g hgate hdpl))
    refine ⟨h.ready, ⟨o, hserving, ho, nofun⟩, ?_, hright _ rfl⟩
    rw [h.requested, waiting_called]
  | done =>
    obtain ⟨-, rfl⟩ := hs
    obtain ⟨hready, hfree, hreq⟩ := Pair.ended h.ready hserving ho
    exact ⟨hready, ⟨none, hfree, nofun, fun _ => rfl⟩, hreq.trans h.requested, h.right⟩

/-- **Every interrupt reaches its own handler.** After `init_interrupts`, with any devices and any
user code: a line is served by the handler with its number, `int` of user code reaches the system
calls alone, and whenever interrupts are enabled the processor takes the most urgent of the lines that
were raised and have not been served since. -/
theorem irq_served (stubs : Stubs) (m : Mem32) (p : Pair) {idt : UInt32}
    (hidt : idt.toNat + 2048 ≤ 2 ^ 32) {as : List IrqAct}
    (hrun : Run (IrqStep (gateAt (initInterrupts idt stubs.irqHandlers m).1 idt.toNat (256 * 8)) stubs)
      ⟨(initInterrupts idt stubs.irqHandlers m).2.foldl (fun p w => p.out w) p, none, []⟩ as s) :
    (∀ e ∈ s.log, e.Right) ∧
      (s.handling = none → ∀ s', IrqStep
        (gateAt (initInterrupts idt stubs.irqHandlers m).1 idt.toNat (256 * 8)) stubs s .accept s' ↔
          ∃ line, urgency.find? (waiting s.log) = some line ∧
            s' = ⟨s.pics.taken line, some line, s.log ++ [.served line line]⟩) := by
  have hg := gates_initInterrupts stubs m hidt
  obtain ⟨hready, hserving, hreq⟩ := ready_initPorts p
  have hinv : IrqInv s := hrun.invariant (fun _ _ _ h hs => h.step hg hs)
    ⟨hready, ⟨none, hserving, nofun, fun _ => rfl⟩, hreq, nofun⟩
  exact ⟨hinv.right, fun hs s' => accept_iff hg hinv hs⟩

/-- The addresses `0x11010` to `0x11110`. -/
def smallStubs : Stubs where
  address n := UInt32.ofNat (0x11000 + 16 * n)
  distinct := by
    intro i j hi hj h
    have := congrArg UInt32.toNat h
    rw [UInt32.toNat_ofNat', UInt32.toNat_ofNat'] at this
    omega

/-- The controllers before the boot. -/
def smallPics : Pair :=
  ⟨⟨fun _ => true, fun _ => true, fun _ => true, 8, 4, false, .ocw⟩,
    ⟨fun _ => true, fun _ => true, fun _ => true, 0x70, 2, false, .ocw⟩⟩

/-- The gates of the small system. -/
def smallGate : Nat → Option Gate :=
  gateAt (initInterrupts 0xFFC00000 smallStubs.irqHandlers fun _ => 0).1
    (0xFFC00000 : UInt32).toNat (256 * 8)

/-- The small system behind `init_interrupts`. -/
def smallStart : IrqState :=
  ⟨(initInterrupts 0xFFC00000 smallStubs.irqHandlers fun _ => 0).2.foldl (fun p w => p.out w) smallPics,
    none, []⟩

/-- The clock comes before the key, which came first. -/
theorem irq_served_two : ∃ s, Run (IrqStep smallGate smallStubs) smallStart
      [.raise 1, .raise 0, .accept, .done] s ∧
    s.log = [.raised 1, .raised 0, .served 0 0] ∧ (∀ e ∈ s.log, e.Right) ∧
    ∃ s', IrqStep smallGate smallStubs s .accept s' ∧ s'.handling = some 1 := by
  have hg : Gates smallStubs smallGate := gates_initInterrupts smallStubs _ (by decide)
  obtain ⟨hready, hserving, hreq⟩ := ready_initPorts smallPics
  have h0 : IrqInv smallStart := ⟨hready, ⟨none, hserving, nofun, fun _ => rfl⟩, hreq, nofun⟩
  have hs1 : IrqStep smallGate smallStubs smallStart (.raise 1) (smallStart.raised 1) :=
    ⟨by decide, by decide, rfl⟩
  have h1 := h0.step hg hs1
  have hs2 : IrqStep smallGate smallStubs (smallStart.raised 1) (.raise 0)
      ((smallStart.raised 1).raised 0) := ⟨by decide, by decide, rfl⟩
  have h2 := h1.step hg hs2
  have hs3 : IrqStep smallGate smallStubs _ .accept _ := (accept_iff hg h2 rfl).mpr ⟨0, rfl, rfl⟩
  have hrun : Run (IrqStep smallGate smallStubs) smallStart [.raise 1, .raise 0, .accept, .done] _ :=
    .cons hs1 (.cons hs2 (.cons hs3 (.cons ⟨nofun, rfl⟩ (.nil _))))
  obtain ⟨hright, haccept⟩ := irq_served smallStubs (fun _ => 0) smallPics (by decide) hrun
  exact ⟨_, hrun, rfl, hright, _, (haccept rfl _).mpr ⟨1, rfl, rfl⟩, rfl⟩

end C4os
