import C4os.Drivers.Dma
import C4os.Drivers.Geometry
import C4os.Lib.Outcome

/-!
# The floppy driver (`floppy.c`)

* `Floppy`: the driver, the bytes that the controller has for it, and what has happened so far.
* `flpydskSendCommand` to `flpydskReadSector`: the functions. A wait for the interrupt that does not
  end is a failure; `sleep` has no effect.
* `DriveOp`, `Floppy.step`, `Floppy.after`: what the driver does between two decisions.
* **`Performs`**: the program does a list of operations and returns; `Performs.bind`.
* `performs_seekLoop`: the seek stops at the first attempt that gets the cylinder.
-/

namespace C4os

open Outcome

/-! ## The driver and the controller -/

/-- What the driver does at the ports. -/
inductive PortEvent where
  /-- `outportb` to another register than the data register. -/
  | out (port : Nat) (val : UInt8)
  /-- A command byte, and whether the controller was ready for it in time. -/
  | sent (cmd : UInt8) (accepted : Bool)
  /-- A byte from the data register, if there was one in time. -/
  | got (result : Option UInt8)
  /-- The end of a wait for the interrupt. -/
  | irq
  deriving DecidableEq

/-- The driver with the bytes that the controller will give. -/
structure Floppy where
  currentDrive : UInt8
  /-- `DMA_BUFFER`. -/
  dmaBuffer : UInt32
  /-- What the reads of the main status register give, in order. -/
  status : Nat → UInt8
  /-- What the reads of the data register give. -/
  data : Nat → UInt8
  /-- Which waits for the interrupt end. -/
  waits : Nat → Bool
  statusReads : Nat
  dataReads : Nat
  irqWaits : Nat
  trace : List PortEvent

/-- A wait for the interrupt without an end. -/
inductive Hang where
  | irq

/-- A function of the driver, which may hang. -/
abbrev Drive := EStateM Hang Floppy

/-- The port of the digital output register. -/
def FLPYDSK_DOR : Nat := 0x3f2

/-! ## Registers -/

/-- An access to a port, or a wait. -/
def logEvent (e : PortEvent) : Drive PUnit := modify fun s => { s with trace := s.trace ++ [e] }

/-- `flpydsk_read_status`. -/
def flpydskReadStatus : Drive UInt8 :=
  modifyGet fun s => (s.status s.statusReads, { s with statusReads := s.statusReads + 1 })

/-- `flpydsk_write_dor`. -/
def flpydskWriteDor (val : UInt8) : Drive PUnit := logEvent (.out FLPYDSK_DOR val)

/-- `FLPYDSK_MSR_MASK_DATAREG`. -/
def dataReady (status : UInt8) : Bool := status &&& 128 ≠ 0

/-- The loop of `flpydsk_send_command`. -/
def sendLoop (cmd : UInt8) : Nat → Drive PUnit
  | 0 => logEvent (.sent cmd false)
  | i + 1 => do
    let status ← flpydskReadStatus
    if dataReady status then logEvent (.sent cmd true) else sendLoop cmd i

/-- `flpydsk_send_command`. -/
def flpydskSendCommand (cmd : UInt8) : Drive PUnit := sendLoop cmd 500

/-- `inportb(FLPYDSK_FIFO, result)`. -/
def readFifo : Drive UInt8 :=
  modifyGet fun s => (s.data s.dataReads, { s with
    dataReads := s.dataReads + 1
    trace := s.trace ++ [.got (some (s.data s.dataReads))] })

/-- The loop of `flpydsk_read_data`. -/
def readLoop : Nat → Drive UInt8
  | 0 => do
    logEvent (.got none)
    return 0
  | i + 1 => do
    let status ← flpydskReadStatus
    if dataReady status then readFifo else readLoop i

/-- `flpydsk_read_data`. -/
def flpydskReadData : Drive UInt8 := readLoop 500

/-- `flpydsk_wait_irq`. -/
def flpydskWaitIrq : Drive PUnit := do
  let s ← get
  if s.waits s.irqWaits then
    set { s with irqWaits := s.irqWaits + 1, trace := s.trace ++ [PortEvent.irq] }
  else throw Hang.irq

/-! ## Commands -/

/-- `flpydsk_check_int`: the status and the cylinder. -/
def flpydskCheckInt : Drive (UInt8 × UInt8) := do
  flpydskSendCommand 8
  let st0 ← flpydskReadData
  let cyl ← flpydskReadData
  return (st0, cyl)

/-- The motor bit of a drive. -/
def motorBit (drive : UInt8) : UInt8 :=
  if drive = 0 then 16 else if drive = 1 then 32 else if drive = 2 then 64 else
  if drive = 3 then 128 else 0

/-- `flpydsk_control_motor`. -/
def flpydskControlMotor (b : Bool) : Drive PUnit := do
  let s ← get
  if s.currentDrive > 3 then
    return ⟨⟩
  else
    flpydskWriteDor (if b then s.currentDrive ||| motorBit s.currentDrive ||| 4 ||| 8 else 4)

/-- An attempt of `flpydsk_seek`: the cylinder that is reported. -/
def seekAttempt (cyl head : UInt8) : Drive UInt8 := do
  let s ← get
  flpydskSendCommand 0xf
  flpydskSendCommand (head <<< 2 ||| s.currentDrive)
  flpydskSendCommand cyl
  flpydskWaitIrq
  let r ← flpydskCheckInt
  return r.2

/-- The loop of `flpydsk_seek`. -/
def seekLoop (cyl head : UInt8) : Nat → Drive Int
  | 0 => return -1
  | i + 1 => do
    let cyl0 ← seekAttempt cyl head
    if cyl0 = cyl then return 0 else seekLoop cyl head i

/-- `flpydsk_seek`. -/
def flpydskSeek (cyl head : UInt8) : Drive Int := do
  let s ← get
  if s.currentDrive ≥ 4 then return -1 else seekLoop cyl head 10

/-- Reads of result bytes. -/
def readResults : Nat → Drive PUnit
  | 0 => return ⟨⟩
  | j + 1 => do
    let _ ← flpydskReadData
    readResults j

/-- The command byte for the end of the track. -/
def endOfTrack (sector : UInt8) : UInt8 :=
  if sector.toNat + 1 ≥ 18 then 18 else UInt8.ofNat (sector.toNat + 1)

/-- `outportb` for each write. -/
def logWrites : List PortWrite → Drive PUnit
  | [] => return ⟨⟩
  | w :: ws => do
    logEvent (.out w.1 w.2)
    logWrites ws

/-- `flpydsk_read_sector_imp`. The result of `dma_initialize_floppy` is not used. -/
def flpydskReadSectorImp (head track sector : UInt8) : Drive PUnit := do
  let s ← get
  logWrites (dmaInitializeFloppy s.dmaBuffer 512).2
  flpydskSendCommand (6 ||| 0x80 ||| 0x20 ||| 0x40)
  flpydskSendCommand (head <<< 2 ||| s.currentDrive)
  flpydskSendCommand track
  flpydskSendCommand head
  flpydskSendCommand sector
  flpydskSendCommand 2
  flpydskSendCommand (endOfTrack sector)
  flpydskSendCommand 27
  flpydskSendCommand 0xff
  flpydskWaitIrq
  readResults 7
  let _ ← flpydskCheckInt

/-- The loop of `flpydsk_reset`. -/
def checkInts : Nat → Drive PUnit
  | 0 => return ⟨⟩
  | i + 1 => do
    let _ ← flpydskCheckInt
    checkInts i

/-- `flpydsk_reset`. -/
def flpydskReset : Drive PUnit := do
  flpydskWriteDor 0
  flpydskWriteDor (4 ||| 8)
  flpydskWaitIrq
  checkInts 4

/-- The variables of `flpydsk_read_sector`, cast to `uint8`. -/
def headOf (sectorLBA : UInt32) : UInt8 := UInt8.ofInt (flpydskLbaToChs (int32Of sectorLBA.toNat)).1

/-- The cylinder of a sector, as a byte of the command. -/
def trackOf (sectorLBA : UInt32) : UInt8 :=
  UInt8.ofInt (flpydskLbaToChs (int32Of sectorLBA.toNat)).2.1

/-- The number of a sector in its track, as a byte of the command. -/
def sectorOf (sectorLBA : UInt32) : UInt8 :=
  UInt8.ofInt (flpydskLbaToChs (int32Of sectorLBA.toNat)).2.2

/-- `flpydsk_read_sector`: the address that it returns. -/
def flpydskReadSector (sectorLBA : UInt32) : Drive UInt32 := do
  let s ← get
  if s.currentDrive ≥ 4 then return 0
  else
    flpydskControlMotor true
    let r ← flpydskSeek (trackOf sectorLBA) (headOf sectorLBA)
    if r ≠ 0 then return 0
    else
      flpydskReadSectorImp (headOf sectorLBA) (trackOf sectorLBA) (sectorOf sectorLBA)
      flpydskControlMotor false
      flpydskReset
      return s.dmaBuffer

/-! ## Scripts -/

/-- An operation of the driver. -/
inductive DriveOp where
  | out (w : PortWrite)
  | send (cmd : UInt8)
  | recv
  | wait

/-- The status reads of a poll, at most `n`, from the read `i` on. -/
def pollReads (status : Nat → UInt8) : Nat → Nat → Nat
  | 0, _ => 0
  | n + 1, i => if dataReady (status i) then 1 else pollReads status n (i + 1) + 1

/-- One of these reads finds the data register ready. -/
def pollReady (status : Nat → UInt8) : Nat → Nat → Bool
  | 0, _ => false
  | n + 1, i => if dataReady (status i) then true else pollReady status n (i + 1)

namespace Floppy

variable (s : Floppy)

/-- The next poll finds the data register ready. -/
@[irreducible] def ready : Bool := pollReady s.status 500 s.statusReads

/-- The status reads behind the next poll. -/
@[irreducible] def polled : Nat := s.statusReads + pollReads s.status 500 s.statusReads

/-- The byte that the next read of data gets. -/
def answer : Option UInt8 := if s.ready then some (s.data s.dataReads) else none

/-- The driver after an operation. -/
def step : DriveOp → Floppy
  | .out w => { s with trace := s.trace ++ [.out w.1 w.2] }
  | .send cmd => { s with
      statusReads := s.polled
      trace := s.trace ++ [.sent cmd s.ready] }
  | .recv => { s with
      statusReads := s.polled
      dataReads := s.dataReads + s.ready.toNat
      trace := s.trace ++ [.got s.answer] }
  | .wait => { s with irqWaits := s.irqWaits + 1, trace := s.trace ++ [.irq] }

/-- The driver after a list of operations. -/
def after (l : List DriveOp) : Floppy := l.foldl step s

@[simp] theorem after_nil : s.after [] = s := rfl

@[simp] theorem after_cons (o : DriveOp) (l : List DriveOp) : s.after (o :: l) = (s.step o).after l := rfl

@[simp] theorem after_append (l l' : List DriveOp) : s.after (l ++ l') = (s.after l).after l' :=
  List.foldl_append

@[simp] theorem step_currentDrive (o : DriveOp) : (s.step o).currentDrive = s.currentDrive := by
  cases o <;> rfl

@[simp] theorem step_dmaBuffer (o : DriveOp) : (s.step o).dmaBuffer = s.dmaBuffer := by
  cases o <;> rfl

@[simp] theorem step_status (o : DriveOp) : (s.step o).status = s.status := by
  cases o <;> rfl

@[simp] theorem step_data (o : DriveOp) : (s.step o).data = s.data := by
  cases o <;> rfl

@[simp] theorem step_waits (o : DriveOp) : (s.step o).waits = s.waits := by
  cases o <;> rfl

@[simp] theorem after_currentDrive (l : List DriveOp) : (s.after l).currentDrive = s.currentDrive := by
  induction l generalizing s with
  | nil => rfl
  | cons o l ih => rw [after_cons, ih, step_currentDrive]

@[simp] theorem after_dmaBuffer (l : List DriveOp) : (s.after l).dmaBuffer = s.dmaBuffer := by
  induction l generalizing s with
  | nil => rfl
  | cons o l ih => rw [after_cons, ih, step_dmaBuffer]

@[simp] theorem after_status (l : List DriveOp) : (s.after l).status = s.status := by
  induction l generalizing s with
  | nil => rfl
  | cons o l ih => rw [after_cons, ih, step_status]

@[simp] theorem after_data (l : List DriveOp) : (s.after l).data = s.data := by
  induction l generalizing s with
  | nil => rfl
  | cons o l ih => rw [after_cons, ih, step_data]

@[simp] theorem after_waits (l : List DriveOp) : (s.after l).waits = s.waits := by
  induction l generalizing s with
  | nil => rfl
  | cons o l ih => rw [after_cons, ih, step_waits]

end Floppy

/-- The number of waits in a script. -/
def waitCount : List DriveOp → Nat
  | [] => 0
  | .wait :: l => waitCount l + 1
  | .out _ :: l => waitCount l
  | .send _ :: l => waitCount l
  | .recv :: l => waitCount l

/-- The waits of the script end. -/
def Floppy.WaitsEnd (s : Floppy) (l : List DriveOp) : Prop :=
  ∀ i < waitCount l, s.waits (s.irqWaits + i) = true

/-- **The program does the operations `l` and returns `a`**, if their waits end. -/
structure Performs {α : Type} (s : Floppy) (x : Drive α) (l : List DriveOp) (a : α) : Prop where
  returns : s.WaitsEnd l → x s = .ok a (s.after l)
  hangs : ¬ s.WaitsEnd l → ∃ s', x s = .error .irq s'

section

variable {α β : Type} {s : Floppy} {x : Drive α} {g : α → Drive β} {l l' : List DriveOp} {a : α} {b : β}

theorem waitCount_append (l l' : List DriveOp) : waitCount (l ++ l') = waitCount l + waitCount l' := by
  induction l with
  | nil => exact (Nat.zero_add _).symm
  | cons o l ih => cases o <;> simp only [List.cons_append, waitCount, ih]; omega

theorem Floppy.after_irqWaits (s : Floppy) (l : List DriveOp) :
    (s.after l).irqWaits = s.irqWaits + waitCount l := by
  induction l generalizing s with
  | nil => rfl
  | cons o l ih =>
    rw [Floppy.after_cons, ih]
    cases o with
    | wait =>
      show s.irqWaits + 1 + waitCount l = s.irqWaits + (waitCount l + 1)
      omega
    | out w => rfl
    | send cmd => rfl
    | recv => rfl

theorem Floppy.waitsEnd_append : s.WaitsEnd (l ++ l') ↔ s.WaitsEnd l ∧ (s.after l).WaitsEnd l' := by
  unfold Floppy.WaitsEnd
  rw [waitCount_append, Floppy.after_irqWaits, Floppy.after_waits]
  constructor
  · intro h
    refine ⟨fun i hi => h i (by omega), fun i hi => ?_⟩
    rw [Nat.add_assoc]
    exact h _ (by omega)
  · rintro ⟨h, h'⟩ i hi
    by_cases hlt : i < waitCount l
    · exact h i hlt
    · have := h' (i - waitCount l) (by omega)
      rwa [Nat.add_assoc, Nat.add_sub_cancel' (by omega)] at this

theorem Performs.of_ok {s' : Floppy} {a' : α} (h : Performs s x l a) (hr : x s = .ok a' s') :
    a' = a ∧ s' = s.after l ∧ s.WaitsEnd l := by
  by_cases hw : s.WaitsEnd l
  · rw [h.returns hw] at hr
    cases hr
    exact ⟨rfl, rfl, hw⟩
  · obtain ⟨s'', he⟩ := h.hangs hw
    rw [he] at hr
    cases hr

theorem Performs.pure (s : Floppy) (a : α) : Performs s (pure a) [] a where
  returns := fun _ => rfl
  hangs := fun h => absurd (fun _ hi => absurd hi (Nat.not_lt_zero _)) h

/-- **One script after the other.** -/
theorem Performs.bind (hx : Performs s x l a) (hg : Performs (s.after l) (g a) l' b) :
    Performs s (x >>= g) (l ++ l') b where
  returns := by
    intro h
    rw [Floppy.waitsEnd_append] at h
    rw [bind_ok (hx.returns h.1), hg.returns h.2, Floppy.after_append]
  hangs := by
    intro h
    rw [Floppy.waitsEnd_append, not_and_or] at h
    by_cases hw : s.WaitsEnd l
    · obtain ⟨s', he⟩ := hg.hangs (h.resolve_left (not_not.mpr hw))
      exact ⟨s', by rw [bind_ok (hx.returns hw), he]⟩
    · obtain ⟨s', he⟩ := hx.hangs hw
      exact ⟨s', bind_error he⟩

theorem Performs.get {f : Floppy → Drive α} (h : Performs s (f s) l a) :
    Performs s (MonadState.get >>= f) l a where
  returns := fun hw => (bind_get s).trans (h.returns hw)
  hangs := fun hw => (h.hangs hw).imp fun _ he => (bind_get s).trans he

theorem Performs.of_eq (hl : waitCount l = 0) (h : x s = .ok a (s.after l)) : Performs s x l a where
  returns := fun _ => h
  hangs := fun hw => absurd (fun i hi => by rw [hl] at hi; exact absurd hi (Nat.not_lt_zero i)) hw

end

/-! ## The functions as scripts -/

section

variable (s : Floppy)

theorem sendLoop_eq (cmd : UInt8) (n : Nat) : sendLoop cmd n s = .ok ⟨⟩ { s with
    statusReads := s.statusReads + pollReads s.status n s.statusReads
    trace := s.trace ++ [.sent cmd (pollReady s.status n s.statusReads)] } := by
  induction n generalizing s with
  | zero => rfl
  | succ n ih =>
    have hread : flpydskReadStatus s =
        .ok (s.status s.statusReads) { s with statusReads := s.statusReads + 1 } := rfl
    rw [sendLoop, bind_ok hread, pollReads, pollReady]
    by_cases h : dataReady (s.status s.statusReads) = true
    · rw [if_pos h, if_pos h, if_pos h]
      rfl
    · rw [if_neg h, if_neg h, if_neg h, ih]
      dsimp only
      rw [Nat.add_assoc, Nat.add_comm 1]

theorem readLoop_eq (n : Nat) : readLoop n s =
    .ok (if pollReady s.status n s.statusReads then s.data s.dataReads else 0) { s with
      statusReads := s.statusReads + pollReads s.status n s.statusReads
      dataReads := s.dataReads + (pollReady s.status n s.statusReads).toNat
      trace := s.trace ++ [.got (if pollReady s.status n s.statusReads then
        some (s.data s.dataReads) else none)] } := by
  induction n generalizing s with
  | zero => rfl
  | succ n ih =>
    have hread : flpydskReadStatus s =
        .ok (s.status s.statusReads) { s with statusReads := s.statusReads + 1 } := rfl
    rw [readLoop, bind_ok hread, pollReads, pollReady]
    by_cases h : dataReady (s.status s.statusReads) = true
    · rw [if_pos h, if_pos h, if_pos h]
      rfl
    · rw [if_neg h, if_neg h, if_neg h, ih]
      dsimp only
      rw [Nat.add_assoc, Nat.add_comm 1]

theorem performs_sendCommand (cmd : UInt8) : Performs s (flpydskSendCommand cmd) [.send cmd] ⟨⟩ :=
  .of_eq rfl <| by
    unfold flpydskSendCommand
    rw [sendLoop_eq, Floppy.after_cons, Floppy.after_nil, Floppy.step, Floppy.polled, Floppy.ready]

theorem performs_readData :
    Performs s flpydskReadData [.recv] (s.answer.getD 0) := by
  refine .of_eq rfl ?_
  unfold flpydskReadData
  rw [readLoop_eq, Floppy.after_cons, Floppy.after_nil, Floppy.step, Floppy.polled, Floppy.answer,
    Floppy.ready]
  congr 1
  split_ifs <;> rfl

theorem performs_waitIrq : Performs s flpydskWaitIrq [.wait] ⟨⟩ where
  returns := by
    intro h
    have h0 : s.waits s.irqWaits = true := h 0 Nat.one_pos
    unfold flpydskWaitIrq
    rw [bind_get, if_pos h0]
    rfl
  hangs := by
    intro h
    have h0 : ¬ s.waits s.irqWaits = true := by
      intro h0
      apply h
      intro i hi
      rw [Nat.lt_one_iff.mp hi]
      exact h0
    unfold flpydskWaitIrq
    rw [bind_get, if_neg h0]
    exact ⟨s, rfl⟩

theorem performs_log (port : Nat) (val : UInt8) :
    Performs s (logEvent (.out port val)) [.out (port, val)] ⟨⟩ := .of_eq rfl rfl

/-- The operations of `flpydsk_check_int`. -/
def checkIntScript : List DriveOp := [.send 8, .recv, .recv]

theorem performs_checkInt : Performs s flpydskCheckInt checkIntScript
    ((s.after [.send 8]).answer.getD 0, (s.after [.send 8, .recv]).answer.getD 0) :=
  (performs_sendCommand s 8).bind <| (performs_readData _).bind <|
    (performs_readData _).bind (.pure _ _)

/-- The operations of one attempt to seek, up to the read of the cylinder. -/
def seekCommand (drive cyl head : UInt8) : List DriveOp :=
  [.send 0xf, .send (head <<< 2 ||| drive), .send cyl, .wait, .send 8, .recv]

/-- A seek: the command, the wait and the two bytes of the interrupt's status. -/
def seekScript (drive cyl head : UInt8) : List DriveOp := seekCommand drive cyl head ++ [.recv]

/-- The operations of `n` attempts. -/
def seekScripts (drive cyl head : UInt8) (n : Nat) : List DriveOp :=
  (List.replicate n (seekScript drive cyl head)).flatten

/-- The cylinder that the attempt `j` gets. -/
def Floppy.reported (cyl head : UInt8) (j : Nat) : UInt8 :=
  ((s.after (seekScripts s.currentDrive cyl head j)).after
    (seekCommand s.currentDrive cyl head)).answer.getD 0

theorem seekScripts_succ (drive cyl head : UInt8) (n : Nat) :
    seekScripts drive cyl head (n + 1) = seekScript drive cyl head ++ seekScripts drive cyl head n := by
  rw [seekScripts, List.replicate_succ, List.flatten_cons]
  rfl

theorem Floppy.reported_succ (cyl head : UInt8) (j : Nat) :
    s.reported cyl head (j + 1) =
      (s.after (seekScript s.currentDrive cyl head)).reported cyl head j := by
  unfold Floppy.reported
  rw [seekScripts_succ, Floppy.after_append, Floppy.after_currentDrive]

theorem performs_seekAttempt (cyl head : UInt8) : Performs s (seekAttempt cyl head)
    (seekScript s.currentDrive cyl head) (s.reported cyl head 0) :=
  .get <| (performs_sendCommand s 0xf).bind <|
    (performs_sendCommand _ (head <<< 2 ||| s.currentDrive)).bind <|
    (performs_sendCommand _ cyl).bind <| (performs_waitIrq _).bind <|
    (performs_checkInt _).bind (.pure _ _)

/-- **The seek stops at the first attempt that gets the cylinder**, or fails after all. -/
theorem performs_seekLoop (cyl head : UInt8) (n : Nat) :
    (∃ a < n, s.reported cyl head a = cyl ∧ (∀ j < a, s.reported cyl head j ≠ cyl) ∧
      Performs s (seekLoop cyl head n) (seekScripts s.currentDrive cyl head (a + 1)) 0) ∨
    ((∀ j < n, s.reported cyl head j ≠ cyl) ∧
      Performs s (seekLoop cyl head n) (seekScripts s.currentDrive cyl head n) (-1)) := by
  induction n generalizing s with
  | zero => exact Or.inr ⟨fun j hj => absurd hj (Nat.not_lt_zero j), .pure _ _⟩
  | succ n ih =>
    have hattempt := performs_seekAttempt s cyl head
    by_cases hhit : s.reported cyl head 0 = cyl
    · left
      refine ⟨0, Nat.succ_pos n, hhit, fun j hj => absurd hj (Nat.not_lt_zero j), ?_⟩
      rw [seekScripts_succ]
      apply hattempt.bind
      rw [if_pos hhit]
      exact .pure _ _
    · have hmiss : ∀ {k : Nat} {r : Int},
          Performs (s.after (seekScript s.currentDrive cyl head)) (seekLoop cyl head n)
            (seekScripts s.currentDrive cyl head k) r →
          Performs s (seekLoop cyl head (n + 1)) (seekScripts s.currentDrive cyl head (k + 1)) r := by
        intro k r h
        rw [seekScripts_succ]
        apply hattempt.bind
        rw [if_neg hhit]
        exact h
      have hbefore : ∀ {k : Nat},
          (∀ j < k, (s.after (seekScript s.currentDrive cyl head)).reported cyl head j ≠ cyl) →
          ∀ j < k + 1, s.reported cyl head j ≠ cyl := by
        intro k h j hj
        cases j with
        | zero => exact hhit
        | succ j =>
          rw [Floppy.reported_succ]
          exact h j (Nat.lt_of_succ_lt_succ hj)
      have hrest := ih (s.after (seekScript s.currentDrive cyl head))
      rw [Floppy.after_currentDrive] at hrest
      rcases hrest with ⟨a, ha, hreported, hmisses, hrun⟩ | ⟨hall, hrun⟩
      · left
        refine ⟨a + 1, Nat.succ_lt_succ ha, ?_, hbefore hmisses, hmiss hrun⟩
        rw [Floppy.reported_succ]
        exact hreported
      · right
        exact ⟨hbefore hall, hmiss hrun⟩

end

end C4os
