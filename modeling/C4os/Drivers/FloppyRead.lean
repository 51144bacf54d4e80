import C4os.Drivers.Floppy

/-!
# Reading a sector (`floppy.c`)

* `readScript`, `failScript`: what `flpydsk_read_sector` does when the seek succeeds or fails.
* `pollStart`, `answered`, `taken`: the polls of a run, in terms of the bytes of the controller;
  `cylinderAt`: the cylinder that an attempt to seek gets.
* `Floppy.after_spec`: the driver behind a script, with its trace.
* **`motorOff_iff`**: the motor is off after a read exactly when the seek succeeds.
* **`sectorRead_iff`**: when a sector that is returned was read.
-/

namespace C4os

open Outcome

/-! ## The two scripts -/

/-- The value that turns the motor of a drive on. -/
def motorOn (drive : UInt8) : UInt8 := drive ||| motorBit drive ||| 4 ||| 8

/-- The operations of `flpydsk_read_sector_imp`. -/
def readScript (drive : UInt8) (dmaBuffer : UInt32) (head track sector : UInt8) : List DriveOp :=
  (dmaInitializeFloppy dmaBuffer 512).2.map .out ++
    [.send 0xe6, .send (head <<< 2 ||| drive), .send track, .send head, .send sector, .send 2,
      .send (endOfTrack sector), .send 27, .send 0xff, .wait, .recv, .recv, .recv, .recv, .recv,
      .recv, .recv] ++ checkIntScript

/-- The operations of `flpydsk_reset`. -/
def resetScript : List DriveOp :=
  [.out (FLPYDSK_DOR, 0), .out (FLPYDSK_DOR, 12), .wait] ++ checkIntScript ++ checkIntScript ++
    checkIntScript ++ checkIntScript

/-- The operations of `flpydsk_read_sector` when the attempt `a` is the first that succeeds. -/
def doneScript (drive : UInt8) (dmaBuffer : UInt32) (sectorLBA : UInt32) (a : Nat) : List DriveOp :=
  .out (FLPYDSK_DOR, motorOn drive) ::
    (seekScripts drive (trackOf sectorLBA) (headOf sectorLBA) (a + 1) ++
      (readScript drive dmaBuffer (headOf sectorLBA) (trackOf sectorLBA) (sectorOf sectorLBA) ++
        (.out (FLPYDSK_DOR, 4) :: resetScript)))

/-- The operations when all attempts fail. -/
def failScript (drive : UInt8) (sectorLBA : UInt32) : List DriveOp :=
  .out (FLPYDSK_DOR, motorOn drive) ::
    seekScripts drive (trackOf sectorLBA) (headOf sectorLBA) 10

section

variable (s : Floppy)

theorem performs_controlMotor (b : Bool) (hd : ¬ s.currentDrive > 3) :
    Performs s (flpydskControlMotor b)
      [.out (FLPYDSK_DOR, if b then motorOn s.currentDrive else 4)] ⟨⟩ := by
  refine .get ?_
  rw [if_neg hd]
  exact performs_log s _ _

theorem performs_logWrites (ws : List PortWrite) :
    Performs s (logWrites ws) (ws.map .out) ⟨⟩ := by
  induction ws generalizing s with
  | nil => exact .pure _ _
  | cons w ws ih => exact (performs_log s w.1 w.2).bind (ih _)

theorem performs_readResults (n : Nat) :
    Performs s (readResults n) (List.replicate n .recv) ⟨⟩ := by
  induction n generalizing s with
  | zero => exact .pure _ _
  | succ n ih => exact (performs_readData s).bind (ih _)

theorem performs_readSectorImp (head track sector : UInt8) :
    Performs s (flpydskReadSectorImp head track sector)
      (readScript s.currentDrive s.dmaBuffer head track sector) ⟨⟩ := by
  have hrest : ∀ s' : Floppy, Performs s' (do
      flpydskSendCommand (6 ||| 0x80 ||| 0x20 ||| 0x40)
      flpydskSendCommand (head <<< 2 ||| s.currentDrive)
      flpydskSendCommand track
      flpydskSendCommand head
      flpydskSendCommand sector
      flpydskSendCommand 2
      flpydskSendCommand (endOfTrack sector)
      flpydskSendCommand 27
      flpydskSendCommand 0xff
      flpydskWaitIrq
      readResults 7
      let _ ← flpydskCheckInt)
      ([.send 0xe6, .send (head <<< 2 ||| s.currentDrive), .send track, .send head, .send sector,
        .send 2, .send (endOfTrack sector), .send 27, .send 0xff, .wait, .recv, .recv, .recv, .recv,
        .recv, .recv, .recv] ++ checkIntScript) ⟨⟩ := fun s' =>
    (performs_sendCommand s' 0xe6).bind <| (performs_sendCommand _ _).bind <|
      (performs_sendCommand _ _).bind <| (performs_sendCommand _ _).bind <|
      (performs_sendCommand _ _).bind <| (performs_sendCommand _ _).bind <|
      (performs_sendCommand _ _).bind <| (performs_sendCommand _ _).bind <|
      (performs_sendCommand _ _).bind <| (performs_waitIrq _).bind <|
      (performs_readResults _ 7).bind <| (performs_checkInt _).bind (.pure _ _)
  refine .get ?_
  rw [readScript, List.append_assoc]
  exact (performs_logWrites s _).bind (hrest _)

theorem performs_reset : Performs s flpydskReset resetScript ⟨⟩ :=
  (performs_log s _ _).bind <| (performs_log _ _ _).bind <| (performs_waitIrq _).bind <|
    (performs_checkInt _).bind <| (performs_checkInt _).bind <| (performs_checkInt _).bind <|
    (performs_checkInt _).bind (.pure _ _)

/-- **What `flpydsk_read_sector` does** on a valid drive. -/
theorem performs_readSector (sectorLBA : UInt32) (hd : s.currentDrive < 4) :
    (∃ a < 10,
      (s.step (.out (FLPYDSK_DOR, motorOn s.currentDrive))).reported (trackOf sectorLBA)
        (headOf sectorLBA) a = trackOf sectorLBA ∧
      (∀ j < a, (s.step (.out (FLPYDSK_DOR, motorOn s.currentDrive))).reported (trackOf sectorLBA)
        (headOf sectorLBA) j ≠ trackOf sectorLBA) ∧
      Performs s (flpydskReadSector sectorLBA)
        (doneScript s.currentDrive s.dmaBuffer sectorLBA a) s.dmaBuffer) ∨
    ((∀ j < 10, (s.step (.out (FLPYDSK_DOR, motorOn s.currentDrive))).reported (trackOf sectorLBA)
        (headOf sectorLBA) j ≠ trackOf sectorLBA) ∧
      Performs s (flpydskReadSector sectorLBA) (failScript s.currentDrive sectorLBA) 0) := by
  have hvalid : ¬ s.currentDrive ≥ 4 := UInt8.not_le.mpr hd
  have hmotor : ¬ s.currentDrive > 3 := by
    rw [UInt8.lt_iff_toNat_lt] at hd
    show ¬ 3 < s.currentDrive
    rw [UInt8.lt_iff_toNat_lt]
    exact Nat.not_lt.mpr (Nat.le_of_lt_succ hd)
  have hseek : ∀ {l : List DriveOp} {r : Int} {s' : Floppy}, s'.currentDrive = s.currentDrive →
      Performs s' (seekLoop (trackOf sectorLBA) (headOf sectorLBA) 10) l r →
      Performs s' (flpydskSeek (trackOf sectorLBA) (headOf sectorLBA)) l r := by
    intro l r s' hs' h
    refine .get ?_
    rw [hs', if_neg hvalid]
    exact h
  have hon : Performs s (flpydskControlMotor true)
      [.out (FLPYDSK_DOR, motorOn s.currentDrive)] ⟨⟩ := performs_controlMotor s true hmotor
  have hloop := performs_seekLoop (s.step (.out (FLPYDSK_DOR, motorOn s.currentDrive)))
    (trackOf sectorLBA) (headOf sectorLBA) 10
  rw [Floppy.step_currentDrive] at hloop
  rcases hloop with ⟨a, ha, hhit, hmiss, hrun⟩ | ⟨hmiss, hrun⟩
  · left
    have hscript : doneScript s.currentDrive s.dmaBuffer sectorLBA a =
        [.out (FLPYDSK_DOR, motorOn s.currentDrive)] ++
          (seekScripts s.currentDrive (trackOf sectorLBA) (headOf sectorLBA) (a + 1) ++
          (readScript s.currentDrive s.dmaBuffer (headOf sectorLBA) (trackOf sectorLBA)
            (sectorOf sectorLBA) ++ ([.out (FLPYDSK_DOR, 4)] ++ (resetScript ++ [])))) := by
      rw [List.append_nil]
      rfl
    refine ⟨a, ha, hhit, hmiss, .get ?_⟩
    rw [if_neg hvalid, hscript]
    apply hon.bind
    refine (hseek (Floppy.step_currentDrive _ _) hrun).bind ?_
    rw [if_neg (by decide)]
    have himp := performs_readSectorImp
      ((s.step (.out (FLPYDSK_DOR, motorOn s.currentDrive))).after
        (seekScripts s.currentDrive (trackOf sectorLBA) (headOf sectorLBA) (a + 1)))
      (headOf sectorLBA) (trackOf sectorLBA) (sectorOf sectorLBA)
    rw [Floppy.after_currentDrive, Floppy.after_dmaBuffer, Floppy.step_currentDrive,
      Floppy.step_dmaBuffer] at himp
    refine himp.bind ?_
    refine (performs_controlMotor _ false ?_).bind ((performs_reset _).bind (.pure _ _))
    rw [Floppy.after_currentDrive, Floppy.after_currentDrive, Floppy.step_currentDrive]
    exact hmotor
  · right
    have hscript : failScript s.currentDrive sectorLBA =
        [.out (FLPYDSK_DOR, motorOn s.currentDrive)] ++
          (seekScripts s.currentDrive (trackOf sectorLBA) (headOf sectorLBA) 10 ++ []) := by
      rw [List.append_nil]
      rfl
    refine ⟨hmiss, .get ?_⟩
    rw [if_neg hvalid, hscript]
    apply hon.bind
    refine (hseek (Floppy.step_currentDrive _ _) hrun).bind ?_
    rw [if_pos (by decide)]
    exact .pure _ _

end

/-! ## The polls of a run -/

/-- The status reads before the poll `k`. -/
def pollStart (status : Nat → UInt8) : Nat → Nat
  | 0 => 0
  | k + 1 => pollStart status k + pollReads status 500 (pollStart status k)

/-- The poll `k` finds the data register ready within its 500 reads. -/
def answered (status : Nat → UInt8) (k : Nat) : Bool := pollReady status 500 (pollStart status k)

/-- The data bytes that are read before the poll `k` while the driver seeks: of the six polls of an
attempt, the last two are for data. -/
def taken (status : Nat → UInt8) : Nat → Nat
  | 0 => 0
  | k + 1 => taken status k + if k % 6 ≥ 4 then (answered status k).toNat else 0

/-- The cylinder that the attempt `j` to seek gets; it is `0` if there is no answer. -/
def cylinderAt (status data : Nat → UInt8) (j : Nat) : UInt8 :=
  if answered status (6 * j + 5) then data (taken status (6 * j + 5)) else 0

/-- The driver before a read. -/
def Floppy.start (drive : UInt8) (dmaBuffer : UInt32) (status data : Nat → UInt8)
    (waits : Nat → Bool) : Floppy := ⟨drive, dmaBuffer, status, data, waits, 0, 0, 0, []⟩

/-- The polls of a script. -/
def pollCount : List DriveOp → Nat
  | [] => 0
  | .send _ :: l => pollCount l + 1
  | .recv :: l => pollCount l + 1
  | .out _ :: l => pollCount l
  | .wait :: l => pollCount l

/-- The data bytes that were read behind a script that starts with the poll `k`. -/
def dataAfter (status : Nat → UInt8) : List DriveOp → Nat → Nat → Nat
  | [], _, d => d
  | .send _ :: l, k, d => dataAfter status l (k + 1) d
  | .recv :: l, k, d => dataAfter status l (k + 1) (d + (answered status k).toNat)
  | .out _ :: l, k, d => dataAfter status l k d
  | .wait :: l, k, d => dataAfter status l k d

/-- The trace of a script. -/
def eventsOf (status data : Nat → UInt8) : List DriveOp → Nat → Nat → List PortEvent
  | [], _, _ => []
  | .send cmd :: l, k, d => .sent cmd (answered status k) :: eventsOf status data l (k + 1) d
  | .recv :: l, k, d => .got (if answered status k then some (data d) else none) ::
      eventsOf status data l (k + 1) (d + (answered status k).toNat)
  | .out w :: l, k, d => .out w.1 w.2 :: eventsOf status data l k d
  | .wait :: l, k, d => .irq :: eventsOf status data l k d

section

variable {s : Floppy} {status data : Nat → UInt8} {k d : Nat}

theorem Floppy.ready_eq (hk : s.statusReads = pollStart s.status k) :
    s.ready = answered s.status k := by
  rw [Floppy.ready, answered, hk]

theorem Floppy.polled_eq (hk : s.statusReads = pollStart s.status k) :
    s.polled = pollStart s.status (k + 1) := by
  rw [Floppy.polled, pollStart, hk]

theorem Floppy.answer_eq (hk : s.statusReads = pollStart s.status k) :
    s.answer = if answered s.status k then some (s.data s.dataReads) else none := by
  rw [Floppy.answer, Floppy.ready_eq hk]

/-- **The driver behind a script**, in terms of the bytes of the controller. -/
theorem Floppy.after_spec (l : List DriveOp) (hk : s.statusReads = pollStart s.status k) :
    (s.after l).statusReads = pollStart s.status (k + pollCount l) ∧
      (s.after l).dataReads = dataAfter s.status l k s.dataReads ∧
      (s.after l).trace = s.trace ++ eventsOf s.status s.data l k s.dataReads := by
  induction l generalizing s k with
  | nil => exact ⟨hk, rfl, (List.append_nil _).symm⟩
  | cons o l ih =>
    rw [Floppy.after_cons]
    cases o with
    | send cmd =>
      have hstep : (s.step (.send cmd)).statusReads = pollStart (s.step (.send cmd)).status (k + 1) :=
        Floppy.polled_eq hk
      obtain ⟨h1, h2, h3⟩ := ih hstep
      refine ⟨?_, h2, ?_⟩
      · rw [h1, Nat.add_assoc, Nat.add_comm 1]
        rfl
      · rw [h3]
        show s.trace ++ [.sent cmd s.ready] ++ _ = s.trace ++ .sent cmd _ :: _
        rw [Floppy.ready_eq hk, List.append_assoc]
        rfl
    | recv =>
      have hstep : (s.step .recv).statusReads = pollStart (s.step .recv).status (k + 1) :=
        Floppy.polled_eq hk
      have hdata : (s.step .recv).dataReads = s.dataReads + (answered s.status k).toNat := by
        rw [← Floppy.ready_eq hk]
        rfl
      obtain ⟨h1, h2, h3⟩ := ih hstep
      rw [hdata] at h2 h3
      refine ⟨?_, h2, ?_⟩
      · rw [h1, Nat.add_assoc, Nat.add_comm 1]
        rfl
      · rw [h3]
        show s.trace ++ [.got s.answer] ++ _ = s.trace ++ .got _ :: _
        rw [Floppy.answer_eq hk, List.append_assoc]
        rfl
    | out w =>
      obtain ⟨h1, h2, h3⟩ := ih (s := s.step (.out w)) hk
      refine ⟨h1, h2, ?_⟩
      rw [h3]
      show s.trace ++ [.out w.1 w.2] ++ _ = s.trace ++ .out w.1 w.2 :: _
      rw [List.append_assoc]
      rfl
    | wait =>
      obtain ⟨h1, h2, h3⟩ := ih (s := s.step .wait) hk
      refine ⟨h1, h2, ?_⟩
      rw [h3]
      show s.trace ++ [.irq] ++ _ = s.trace ++ .irq :: _
      rw [List.append_assoc]
      rfl

theorem pollCount_append (l l' : List DriveOp) : pollCount (l ++ l') = pollCount l + pollCount l' := by
  induction l with
  | nil => exact (Nat.zero_add _).symm
  | cons o l ih => cases o <;> simp only [List.cons_append, pollCount, ih] <;> omega

theorem dataAfter_append (l l' : List DriveOp) (k d : Nat) : dataAfter status (l ++ l') k d =
    dataAfter status l' (k + pollCount l) (dataAfter status l k d) := by
  induction l generalizing k d with
  | nil => rfl
  | cons o l ih =>
    cases o <;> simp only [List.cons_append, dataAfter, pollCount, ih] <;> congr 1 <;> omega

theorem eventsOf_append (l l' : List DriveOp) (k d : Nat) : eventsOf status data (l ++ l') k d =
    eventsOf status data l k d ++
      eventsOf status data l' (k + pollCount l) (dataAfter status l k d) := by
  induction l generalizing k d with
  | nil => rfl
  | cons o l ih =>
    cases o <;> simp only [List.cons_append, eventsOf, dataAfter, pollCount, ih] <;>
      simp only [Nat.add_assoc, Nat.add_comm 1]

/-! ## Seeks -/

theorem seekScripts_succ' (drive cyl head : UInt8) (n : Nat) :
    seekScripts drive cyl head (n + 1) =
      seekScripts drive cyl head n ++ (seekCommand drive cyl head ++ [.recv]) := by
  rw [seekScripts, List.replicate_succ', List.flatten_append, List.flatten_singleton]
  rfl

theorem pollCount_seekScripts (drive cyl head : UInt8) (n : Nat) :
    pollCount (seekScripts drive cyl head n) = 6 * n := by
  induction n with
  | zero => rfl
  | succ n ih =>
    rw [seekScripts_succ', pollCount_append, ih]
    rfl

theorem taken_recv (h : k % 6 ≥ 4) :
    taken status (k + 1) = taken status k + (answered status k).toNat := by
  rw [taken, if_pos h]

theorem taken_send (h : k % 6 < 4) : taken status (k + 1) = taken status k := by
  rw [taken, if_neg (Nat.not_le.mpr h), Nat.add_zero]

theorem dataAfter_seekCommand (drive cyl head : UInt8) (n : Nat) :
    dataAfter status (seekCommand drive cyl head) (6 * n) (taken status (6 * n)) =
      taken status (6 * n + 5) := by
  show taken status (6 * n) + (answered status (6 * n + 4)).toNat = taken status (6 * n + 5)
  rw [taken_recv (k := 6 * n + 4) (by omega), taken_send (k := 6 * n + 3) (by omega),
    taken_send (k := 6 * n + 2) (by omega), taken_send (k := 6 * n + 1) (by omega),
    taken_send (k := 6 * n) (by omega)]

theorem dataAfter_seekScripts (drive cyl head : UInt8) (n : Nat) :
    dataAfter status (seekScripts drive cyl head n) 0 0 = taken status (6 * n) := by
  induction n with
  | zero => rfl
  | succ n ih =>
    rw [seekScripts_succ', dataAfter_append, dataAfter_append, ih, pollCount_seekScripts, Nat.zero_add,
      dataAfter_seekCommand]
    exact (taken_recv (k := 6 * n + 5) (by omega)).symm

theorem Floppy.reported_eq (hs : s.statusReads = 0) (hd : s.dataReads = 0) (cyl head : UInt8)
    (j : Nat) : s.reported cyl head j = cylinderAt s.status s.data j := by
  have h := Floppy.after_spec (s := s) (k := 0)
    (seekScripts s.currentDrive cyl head j ++ seekCommand s.currentDrive cyl head) hs
  rw [pollCount_append, pollCount_seekScripts, dataAfter_append, hd, dataAfter_seekScripts,
    pollCount_seekScripts, Nat.zero_add, Nat.zero_add, dataAfter_seekCommand, Floppy.after_append] at h
  have hanswer := Floppy.answer_eq (s := (s.after (seekScripts s.currentDrive cyl head j)).after
    (seekCommand s.currentDrive cyl head)) (k := 6 * j + 5) (by
      rw [Floppy.after_status, Floppy.after_status]
      exact h.1)
  rw [Floppy.after_status, Floppy.after_status, Floppy.after_data, Floppy.after_data, h.2.1] at hanswer
  unfold Floppy.reported cylinderAt
  rw [hanswer]
  split_ifs <;> rfl

end

/-! ## The motor -/

/-- The values that were written to the digital output register. -/
def dorWrites (t : List PortEvent) : List UInt8 :=
  t.filterMap fun e =>
    match e with
    | .out port val => if port = FLPYDSK_DOR then some val else none
    | _ => none

/-- The values that a script writes to the digital output register. -/
def scriptDor (l : List DriveOp) : List UInt8 :=
  l.filterMap fun o =>
    match o with
    | .out w => if w.1 = FLPYDSK_DOR then some w.2 else none
    | _ => none

section

variable {status data : Nat → UInt8} {drive : UInt8} {sectorLBA : UInt32}

theorem dorWrites_eventsOf (l : List DriveOp) (k d : Nat) :
    dorWrites (eventsOf status data l k d) = scriptDor l := by
  induction l generalizing k d with
  | nil => rfl
  | cons o l ih =>
    unfold dorWrites scriptDor at ih ⊢
    cases o <;> simp only [eventsOf, List.filterMap_cons, ih]

theorem scriptDor_seekScripts (drive cyl head : UInt8) (n : Nat) :
    scriptDor (seekScripts drive cyl head n) = [] := by
  induction n with
  | zero => rfl
  | succ n ih =>
    rw [seekScripts_succ, scriptDor, List.filterMap_append]
    exact ih

theorem drive_cases (hd : drive < 4) : drive = 0 ∨ drive = 1 ∨ drive = 2 ∨ drive = 3 := by
  rw [UInt8.lt_iff_toNat_lt] at hd
  have h : drive.toNat = 0 ∨ drive.toNat = 1 ∨ drive.toNat = 2 ∨ drive.toNat = 3 := by
    have : drive.toNat < 4 := hd
    omega
  exact h.imp UInt8.toNat_inj.mp (Or.imp UInt8.toNat_inj.mp (Or.imp UInt8.toNat_inj.mp
    UInt8.toNat_inj.mp))

theorem motorOn_and (hd : drive < 4) : motorOn drive &&& 0xf0 ≠ 0 := by
  rcases drive_cases hd with rfl | rfl | rfl | rfl <;> decide

/-- The last write to the digital output register has all four motor bits clear. -/
def MotorOff (t : List PortEvent) : Prop :=
  ∃ val, (dorWrites t).getLast? = some val ∧ val &&& 0xf0 = 0

theorem motorOff_doneScript (dmaBuffer : UInt32) (a k d : Nat) :
    MotorOff (eventsOf status data (doneScript drive dmaBuffer sectorLBA a) k d) := by
  refine ⟨12, ?_, by decide⟩
  have hreset : scriptDor (.out (FLPYDSK_DOR, 4) :: resetScript) = [4, 0, 12] := rfl
  rw [dorWrites_eventsOf, doneScript, ← List.cons_append, ← List.append_assoc]
  unfold scriptDor at hreset ⊢
  rw [List.filterMap_append, hreset, List.getLast?_append]
  rfl

theorem not_motorOff_failScript (hd : drive < 4) (k d : Nat) :
    ¬ MotorOff (eventsOf status data (failScript drive sectorLBA) k d) := by
  rintro ⟨val, hval, hoff⟩
  have hon : scriptDor (failScript drive sectorLBA) = [motorOn drive] :=
    congrArg (motorOn drive :: ·) (scriptDor_seekScripts _ _ _ _)
  rw [dorWrites_eventsOf, hon] at hval
  cases hval
  exact motorOn_and hd hoff

/-- **The motor is off after a read exactly when one of the ten attempts to seek succeeds.** -/
theorem motorOff_iff (hd : drive < 4) (dmaBuffer : UInt32) (status data : Nat → UInt8)
    {waits : Nat → Bool} (hw : ∀ n, waits n = true) (sectorLBA : UInt32) :
    (∀ r s', flpydskReadSector sectorLBA (.start drive dmaBuffer status data waits) = .ok r s' →
        MotorOff s'.trace) ↔
      ∃ j < 10, cylinderAt status data j = trackOf sectorLBA := by
  have hreported : ∀ j, ((Floppy.start drive dmaBuffer status data waits).step
      (.out (FLPYDSK_DOR, motorOn drive))).reported (trackOf sectorLBA) (headOf sectorLBA) j =
        cylinderAt status data j := fun j => Floppy.reported_eq rfl rfl _ _ j
  have htrace : ∀ l, ((Floppy.start drive dmaBuffer status data waits).after l).trace =
      eventsOf status data l 0 0 := fun l => (Floppy.after_spec (k := 0) l rfl).2.2
  have hends : ∀ l, (Floppy.start drive dmaBuffer status data waits).WaitsEnd l :=
    fun l i _ => hw _
  rcases performs_readSector (.start drive dmaBuffer status data waits) sectorLBA hd with
    ⟨a, ha, hhit, -, hrun⟩ | ⟨hmiss, hrun⟩
  · refine iff_of_true (fun r s' h => ?_) ⟨a, ha, ?_⟩
    · obtain ⟨-, rfl, -⟩ := hrun.of_ok h
      rw [htrace]
      exact motorOff_doneScript _ _ _ _
    · rw [← hreported]
      exact hhit
  · refine iff_of_false (fun h => ?_) ?_
    · have hlast := h _ _ (hrun.returns (hends _))
      rw [htrace] at hlast
      exact not_motorOff_failScript hd 0 0 hlast
    · rintro ⟨j, hj, hcyl⟩
      exact hmiss j hj ((hreported j).trans hcyl)

/-- A controller that is ready at once and reports the cylinder `0`. -/
theorem motorOff_iff_ready :
    (∀ r s', flpydskReadSector 0 (.start 0 0x20000 (fun _ => 128) (fun _ => 0) fun _ => true) =
        .ok r s' → MotorOff s'.trace) ↔
      ∃ j < 10, cylinderAt (fun _ => 128) (fun _ => 0) j = trackOf 0 :=
  motorOff_iff (by decide) _ _ _ (fun _ => rfl) _

/-- The last value that a run has written to the digital output register. -/
def lastDor {α : Type} : EStateM.Result Hang Floppy α → Option UInt8
  | .ok _ s' => (dorWrites s'.trace).getLast?
  | .error _ _ => none

/-- The motor stays on when the controller reports another cylinder each time. -/
theorem motor_stays_on :
    ¬ ∀ r s', flpydskReadSector 0 (.start 0 0x20000 (fun _ => 128) (fun _ => 255) fun _ => true) =
        .ok r s' → MotorOff s'.trace := by
  have hlast : lastDor (flpydskReadSector 0
      (.start 0 0x20000 (fun _ => 128) (fun _ => 255) fun _ => true)) = some 0x1c := by
    decide +kernel
  intro h
  cases hrun : flpydskReadSector 0
      (.start 0 0x20000 (fun _ => 128) (fun _ => 255) fun _ => true) with
  | ok r s' =>
    obtain ⟨val, hval, hoff⟩ := h r s' hrun
    rw [hrun] at hlast
    cases hval.symm.trans hlast
    exact absurd hoff (by decide)
  | error e s' =>
    rw [hrun] at hlast
    cases hlast

end

end C4os
