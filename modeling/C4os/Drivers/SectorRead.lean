import C4os.Drivers.FloppyRead

/-!
# A sector that was read (`floppy.c`)

* `SectorRead`: the controller took every command byte, sought the cylinder and read the sector.
* `place_iff`: the 8-bit numbers of cylinder, head and sector give the LBA back below 9216.
* `commandPolls`: the polls that a successful read makes for its command bytes.
* **`sectorRead_iff`**: when a sector that is returned was read.
-/

namespace C4os

open Outcome

/-! ## The place of a sector -/

theorem ofInt_natCast (n : Nat) : (UInt8.ofInt (n : Int)).toNat = n % 256 := by
  unfold UInt8.ofInt
  rw [UInt8.toNat_ofNat']
  omega

/-- **The bytes give the LBA back below `256 * 36`**, where the cylinder fits into a byte. -/
theorem place_iff (sectorLBA : UInt32) :
    ((trackOf sectorLBA).toNat * 2 + (headOf sectorLBA).toNat) * 18 + (sectorOf sectorLBA).toNat =
      sectorLBA.toNat + 1 ↔ sectorLBA.toNat < 9216 := by
  have hlt := sectorLBA.toNat_lt
  by_cases h31 : sectorLBA.toNat < 2 ^ 31
  · unfold trackOf headOf sectorOf
    rw [int32Of_eq h31, flpydskLbaToChs_natCast]
    dsimp only
    rw [ofInt_natCast, ofInt_natCast, ofInt_natCast]
    omega
  · -- the numbers of a negative `int` are too small
    have ht := (trackOf sectorLBA).toNat_lt
    have hh := (headOf sectorLBA).toNat_lt
    have hs := (sectorOf sectorLBA).toNat_lt
    omega

/-! ## Traces -/

/-- The command bytes that were sent. -/
def sentBytes (t : List PortEvent) : List UInt8 :=
  t.filterMap fun e =>
    match e with
    | .sent cmd _ => some cmd
    | _ => none

/-- The answers of the controller. -/
def answers (t : List PortEvent) : List (Option UInt8) :=
  t.filterMap fun e =>
    match e with
    | .got result => some result
    | _ => none

/-- The command bytes of a seek, with the one of the status check behind it. -/
def seekBytes (drive cyl head : UInt8) : List UInt8 := [0xf, head <<< 2 ||| drive, cyl, 8]

/-- The command bytes of a read. -/
def readBytes (drive cyl head sector : UInt8) : List UInt8 :=
  [0xe6, head <<< 2 ||| drive, cyl, head, sector, 2, endOfTrack sector, 27, 0xff]

/-- **The sector was read**: the controller took every command byte; the last seek reported the
cylinder that it asked for; the first result byte of the read reported normal termination; and the
cylinder, head and sector in the commands are those of the LBA. -/
def SectorRead (sectorLBA : UInt32) (drive : UInt8) (t : List PortEvent) : Prop :=
  (∀ cmd, PortEvent.sent cmd false ∉ t) ∧ ∃ (n : Nat) (cyl head sector st0 : UInt8),
    sentBytes t = (List.replicate (n + 1) (seekBytes drive cyl head)).flatten ++
      (readBytes drive cyl head sector ++ List.replicate 5 8) ∧
    (answers t)[2 * n + 1]? = some (some cyl) ∧
    (answers t)[2 * n + 2]? = some (some st0) ∧ st0 >>> 6 = 0 ∧
    (cyl.toNat * 2 + head.toNat) * 18 + sector.toNat = sectorLBA.toNat + 1

/-- The command bytes of a script. -/
def scriptBytes : List DriveOp → List UInt8
  | [] => []
  | .send cmd :: l => cmd :: scriptBytes l
  | .recv :: l => scriptBytes l
  | .out _ :: l => scriptBytes l
  | .wait :: l => scriptBytes l

/-- The polls of a script for its command bytes. -/
def sendPolls : List DriveOp → Nat → List Nat
  | [], _ => []
  | .send _ :: l, k => k :: sendPolls l (k + 1)
  | .recv :: l, k => sendPolls l (k + 1)
  | .out _ :: l, k => sendPolls l k
  | .wait :: l, k => sendPolls l k

/-- The polls for command bytes when the attempt `a` is the first that succeeds: six polls for each
attempt, and those of the commands behind. -/
def commandPolls (a : Nat) : List Nat :=
  ((List.range (a + 1)).flatMap fun j => [6 * j, 6 * j + 1, 6 * j + 2, 6 * j + 3]) ++
    [0, 1, 2, 3, 4, 5, 6, 7, 8, 16, 19, 22, 25, 28].map (6 * (a + 1) + ·)

section

variable {status data : Nat → UInt8} {drive : UInt8} {sectorLBA dmaBuffer : UInt32} {a : Nat}

theorem sentBytes_eventsOf (l : List DriveOp) (k d : Nat) :
    sentBytes (eventsOf status data l k d) = scriptBytes l := by
  induction l generalizing k d with
  | nil => rfl
  | cons o l ih =>
    unfold sentBytes at ih ⊢
    cases o <;> simp only [eventsOf, scriptBytes, List.filterMap_cons, ih]

theorem not_lost_iff (l : List DriveOp) (k d : Nat) :
    (∀ cmd, PortEvent.sent cmd false ∉ eventsOf status data l k d) ↔
      ∀ i ∈ sendPolls l k, answered status i = true := by
  induction l generalizing k d with
  | nil => simp [eventsOf, sendPolls]
  | cons o l ih =>
    cases o with
    | send cmd =>
      simp only [eventsOf, sendPolls, List.mem_cons, not_or, forall_and, ih, forall_eq_or_imp,
        PortEvent.sent.injEq, not_and, forall_eq, eq_comm (a := false), Bool.not_eq_false]
    | recv => simp only [eventsOf, sendPolls, List.mem_cons, reduceCtorEq, false_or, ih]
    | out w => simp only [eventsOf, sendPolls, List.mem_cons, reduceCtorEq, false_or, ih]
    | wait => simp only [eventsOf, sendPolls, List.mem_cons, reduceCtorEq, false_or, ih]

theorem scriptBytes_append (l l' : List DriveOp) :
    scriptBytes (l ++ l') = scriptBytes l ++ scriptBytes l' := by
  induction l with
  | nil => rfl
  | cons o l ih => cases o <;> simp only [List.cons_append, scriptBytes, ih]

theorem sendPolls_append (l l' : List DriveOp) (k : Nat) :
    sendPolls (l ++ l') k = sendPolls l k ++ sendPolls l' (k + pollCount l) := by
  induction l generalizing k with
  | nil => rfl
  | cons o l ih =>
    cases o <;> simp only [List.cons_append, sendPolls, pollCount, ih, Nat.add_assoc, Nat.add_comm 1]

theorem answers_append (t t' : List PortEvent) : answers (t ++ t') = answers t ++ answers t' :=
  List.filterMap_append

/-! ## Port writes without polls -/

theorem scriptBytes_outs (ws : List PortWrite) : scriptBytes (ws.map .out) = [] := by
  induction ws with
  | nil => rfl
  | cons w ws ih => exact ih

theorem sendPolls_outs (ws : List PortWrite) (k : Nat) : sendPolls (ws.map .out) k = [] := by
  induction ws with
  | nil => rfl
  | cons w ws ih => exact ih

theorem pollCount_outs (ws : List PortWrite) : pollCount (ws.map .out) = 0 := by
  induction ws with
  | nil => rfl
  | cons w ws ih => exact ih

theorem waitCount_outs (ws : List PortWrite) : waitCount (ws.map .out) = 0 := by
  induction ws with
  | nil => rfl
  | cons w ws ih => exact ih

theorem dataAfter_outs (ws : List PortWrite) (k d : Nat) :
    dataAfter status (ws.map .out) k d = d := by
  induction ws with
  | nil => rfl
  | cons w ws ih => exact ih

theorem answers_outs (ws : List PortWrite) (k d : Nat) :
    answers (eventsOf status data (ws.map .out) k d) = [] := by
  induction ws with
  | nil => rfl
  | cons w ws ih => exact ih

/-! ## Seeks -/

theorem scriptBytes_seekScripts (drive cyl head : UInt8) (n : Nat) :
    scriptBytes (seekScripts drive cyl head n) =
      (List.replicate n (seekBytes drive cyl head)).flatten := by
  induction n with
  | zero => rfl
  | succ n ih =>
    rw [seekScripts_succ, scriptBytes_append, ih, List.replicate_succ, List.flatten_cons]
    rfl

theorem sendPolls_seekScripts (drive cyl head : UInt8) (n : Nat) :
    sendPolls (seekScripts drive cyl head n) 0 =
      (List.range n).flatMap fun j => [6 * j, 6 * j + 1, 6 * j + 2, 6 * j + 3] := by
  induction n with
  | zero => rfl
  | succ n ih =>
    rw [seekScripts_succ', sendPolls_append, ih, List.range_succ, List.flatMap_append,
      pollCount_seekScripts, Nat.zero_add]
    rfl

theorem waitCount_seekScripts (drive cyl head : UInt8) (n : Nat) :
    waitCount (seekScripts drive cyl head n) = n := by
  induction n with
  | zero => rfl
  | succ n ih =>
    rw [seekScripts_succ, waitCount_append, ih, Nat.add_comm]
    rfl

theorem length_answers_seekScripts (drive cyl head : UInt8) (n : Nat) :
    (answers (eventsOf status data (seekScripts drive cyl head n) 0 0)).length = 2 * n := by
  induction n with
  | zero => rfl
  | succ n ih =>
    rw [seekScripts_succ', eventsOf_append, answers_append, List.length_append, ih]
    rfl

/-! ## The script of a read -/

/-- The operations of a read behind the set-up of the DMA controller. -/
def readTail (drive head track sector : UInt8) : List DriveOp :=
  [.send 0xe6, .send (head <<< 2 ||| drive), .send track, .send head, .send sector, .send 2,
    .send (endOfTrack sector), .send 27, .send 0xff, .wait, .recv, .recv, .recv, .recv, .recv,
    .recv, .recv] ++ checkIntScript ++ (.out (FLPYDSK_DOR, 4) :: resetScript)

theorem doneScript_eq (drive : UInt8) (dmaBuffer sectorLBA : UInt32) (a : Nat) :
    doneScript drive dmaBuffer sectorLBA a = .out (FLPYDSK_DOR, motorOn drive) ::
      (seekScripts drive (trackOf sectorLBA) (headOf sectorLBA) (a + 1) ++
        ((dmaInitializeFloppy dmaBuffer 512).2.map .out ++
          readTail drive (headOf sectorLBA) (trackOf sectorLBA) (sectorOf sectorLBA))) := by
  unfold doneScript readScript readTail
  rw [List.append_assoc, List.append_assoc, List.append_assoc]

theorem scriptBytes_doneScript (drive : UInt8) (dmaBuffer sectorLBA : UInt32) (a : Nat) :
    scriptBytes (doneScript drive dmaBuffer sectorLBA a) =
      (List.replicate (a + 1) (seekBytes drive (trackOf sectorLBA) (headOf sectorLBA))).flatten ++
        (readBytes drive (trackOf sectorLBA) (headOf sectorLBA) (sectorOf sectorLBA) ++
          List.replicate 5 8) := by
  rw [doneScript_eq, scriptBytes, scriptBytes_append, scriptBytes_append, scriptBytes_outs,
    scriptBytes_seekScripts]
  rfl

theorem sendPolls_doneScript (drive : UInt8) (dmaBuffer sectorLBA : UInt32) (a : Nat) :
    sendPolls (doneScript drive dmaBuffer sectorLBA a) 0 = commandPolls a := by
  rw [doneScript_eq, sendPolls, sendPolls_append, sendPolls_append, sendPolls_outs, pollCount_outs,
    sendPolls_seekScripts, pollCount_seekScripts, Nat.zero_add]
  rfl

theorem waitCount_doneScript (drive : UInt8) (dmaBuffer sectorLBA : UInt32) (a : Nat) :
    waitCount (doneScript drive dmaBuffer sectorLBA a) = a + 3 := by
  rw [doneScript_eq, waitCount, waitCount_append, waitCount_append, waitCount_outs,
    waitCount_seekScripts]
  rfl

/-- The answers of a read: those of the seeks before, the status and the cylinder of the last seek,
and the first result byte. -/
theorem answers_doneScript (status data : Nat → UInt8) (drive : UInt8) (dmaBuffer sectorLBA : UInt32) (a : Nat) :
    ∃ before z after, before.length = 2 * a ∧
      answers (eventsOf status data (doneScript drive dmaBuffer sectorLBA a) 0 0) = before ++
        z :: (if answered status (6 * a + 5) then some (data (taken status (6 * a + 5))) else none) ::
        (if answered status (6 * a + 15) then some (data (taken status (6 * a + 6))) else none) ::
          after := by
  refine ⟨answers (eventsOf status data
      (seekScripts drive (trackOf sectorLBA) (headOf sectorLBA) a) 0 0),
    if answered status (6 * a + 4) then some (data (taken status (6 * a))) else none,
    (answers (eventsOf status data (readTail drive (headOf sectorLBA) (trackOf sectorLBA)
      (sectorOf sectorLBA)) (6 * (a + 1)) (taken status (6 * (a + 1))))).tail,
    length_answers_seekScripts drive (trackOf sectorLBA) (headOf sectorLBA) a, ?_⟩
  rw [doneScript_eq, eventsOf]
  show answers (eventsOf status data (_ ++ _) 0 0) = _
  rw [eventsOf_append, eventsOf_append, answers_append, answers_append, answers_outs,
    pollCount_outs, dataAfter_outs, pollCount_seekScripts, dataAfter_seekScripts, seekScripts_succ',
    eventsOf_append, eventsOf_append, answers_append, answers_append, dataAfter_seekScripts,
    pollCount_seekScripts, Nat.zero_add, Nat.zero_add, dataAfter_seekCommand, List.append_assoc,
    List.append_assoc]
  rfl

/-! ## The sector -/

theorem replicate_flatten_length (n : Nat) (drive cyl head : UInt8) :
    ((List.replicate n (seekBytes drive cyl head)).flatten).length = 4 * n := by
  induction n with
  | zero => rfl
  | succ n ih =>
    rw [List.replicate_succ, List.flatten_cons, List.length_append, ih]
    show 4 + 4 * n = 4 * (n + 1)
    omega

/-- **The trace of a read whose attempt `a` is the first to succeed** shows a sector that was read
exactly when the LBA is small, the command bytes were taken, and the answers are there. -/
theorem sectorRead_doneScript (hcyl : cylinderAt status data a = trackOf sectorLBA) :
    SectorRead sectorLBA drive
        (eventsOf status data (doneScript drive dmaBuffer sectorLBA a) 0 0) ↔
      sectorLBA.toNat < 9216 ∧ (∀ k ∈ commandPolls a, answered status k = true) ∧
        answered status (6 * a + 5) = true ∧ answered status (6 * a + 15) = true ∧
        data (taken status (6 * a + 6)) >>> 6 = 0 := by
  obtain ⟨before, z, after, hlen, hanswers⟩ := answers_doneScript status data drive dmaBuffer
    sectorLBA a
  have hfirst : (answers (eventsOf status data (doneScript drive dmaBuffer sectorLBA a) 0 0))[
      2 * a + 1]? =
        some (if answered status (6 * a + 5) then some (data (taken status (6 * a + 5))) else none) := by
    rw [hanswers, List.getElem?_append_right (by omega), hlen, Nat.add_sub_cancel_left]
    rfl
  have hsecond : (answers (eventsOf status data (doneScript drive dmaBuffer sectorLBA a) 0 0))[
      2 * a + 2]? =
        some (if answered status (6 * a + 15) then some (data (taken status (6 * a + 6))) else none) := by
    rw [hanswers, List.getElem?_append_right (by omega), hlen, Nat.add_sub_cancel_left]
    rfl
  unfold SectorRead
  rw [not_lost_iff, sendPolls_doneScript, sentBytes_eventsOf, scriptBytes_doneScript, ← place_iff]
  constructor
  · rintro ⟨htaken, n, cyl, head, sector, st0, hbytes, hreported, hresult, hnormal, hplace⟩
    have hn : n = a := by
      have hsent := congrArg List.length hbytes
      simp only [List.length_append, replicate_flatten_length, readBytes, List.length_cons] at hsent
      omega
    subst hn
    have hread := (List.append_inj hbytes (by
      rw [replicate_flatten_length, replicate_flatten_length])).2
    simp only [readBytes, List.cons_append, List.cons.injEq] at hread
    obtain ⟨-, -, rfl, rfl, rfl, -⟩ := hread
    rw [hfirst] at hreported
    rw [hsecond] at hresult
    have h5 : answered status (6 * n + 5) = true := by
      by_contra h5
      rw [if_neg h5] at hreported
      cases hreported
    have h15 : answered status (6 * n + 15) = true := by
      by_contra h15
      rw [if_neg h15] at hresult
      cases hresult
    rw [if_pos h15] at hresult
    cases hresult
    exact ⟨hplace, htaken, h5, h15, hnormal⟩
  · rintro ⟨hplace, htaken, h5, h15, hnormal⟩
    refine ⟨htaken, a, _, _, _, _, rfl, ?_, ?_, hnormal, hplace⟩
    · rw [hfirst, if_pos h5, ← hcyl, cylinderAt, if_pos h5]
    · rw [hsecond, if_pos h15]

/-- **When a sector that is returned was read.** The drive is not valid, or the buffer is at `0`, so
that nothing is returned; or, when `a` is the first of the ten attempts that gets the cylinder and
the waits end, then the LBA is below 9216, every command byte finds the controller ready within 500
polls, and so do the reads of that cylinder and of the first result byte, which reports normal
termination. -/
theorem sectorRead_iff (drive : UInt8) (dmaBuffer : UInt32) (status data : Nat → UInt8)
    (waits : Nat → Bool) (sectorLBA : UInt32) :
    (∀ r s', flpydskReadSector sectorLBA (.start drive dmaBuffer status data waits) = .ok r s' →
        r ≠ 0 → SectorRead sectorLBA drive s'.trace) ↔
      drive ≥ 4 ∨ dmaBuffer = 0 ∨ ∀ a < 10, cylinderAt status data a = trackOf sectorLBA →
        (∀ j < a, cylinderAt status data j ≠ trackOf sectorLBA) →
        (∀ i < a + 3, waits i = true) →
        sectorLBA.toNat < 9216 ∧ (∀ k ∈ commandPolls a, answered status k = true) ∧
          answered status (6 * a + 5) = true ∧ answered status (6 * a + 15) = true ∧
          data (taken status (6 * a + 6)) >>> 6 = 0 := by
  have hreported : ∀ j, ((Floppy.start drive dmaBuffer status data waits).step
      (.out (FLPYDSK_DOR, motorOn drive))).reported (trackOf sectorLBA) (headOf sectorLBA) j =
        cylinderAt status data j := fun j => Floppy.reported_eq rfl rfl _ _ j
  have htrace : ∀ l, ((Floppy.start drive dmaBuffer status data waits).after l).trace =
      eventsOf status data l 0 0 := fun l => (Floppy.after_spec (k := 0) l rfl).2.2
  have hends : ∀ a, (Floppy.start drive dmaBuffer status data waits).WaitsEnd
      (doneScript drive dmaBuffer sectorLBA a) ↔ ∀ i < a + 3, waits i = true := by
    intro a
    unfold Floppy.WaitsEnd
    rw [waitCount_doneScript]
    simp only [Floppy.start, Nat.zero_add]
  by_cases hd : drive < 4
  swap
  · have hdrive : drive ≥ 4 := UInt8.not_lt.mp hd
    refine iff_of_true (fun r s' h hr => ?_) (Or.inl hdrive)
    have hrun : flpydskReadSector sectorLBA (.start drive dmaBuffer status data waits) =
        (if drive ≥ 4 then (return 0 : Drive UInt32) else _) _ := rfl
    rw [hrun, if_pos hdrive] at h
    cases h
    exact absurd rfl hr
  rw [or_iff_right (UInt8.not_le.mpr hd)]
  rcases performs_readSector (.start drive dmaBuffer status data waits) sectorLBA hd with
    ⟨a, ha, hhit, hmiss, hrun⟩ | ⟨hmiss, hrun⟩
  · have hcyl := (hreported a).symm.trans hhit
    constructor
    · intro h
      by_cases h0 : dmaBuffer = 0
      · exact Or.inl h0
      refine Or.inr fun b hb hbcyl hbmiss hwaits => ?_
      have hba : b = a := by
        rcases Nat.lt_trichotomy b a with hlt | heq | hgt
        · exact absurd ((hreported b).trans hbcyl) (hmiss b hlt)
        · exact heq
        · exact absurd hcyl (hbmiss a hgt)
      subst hba
      have hread := h _ _ (hrun.returns ((hends b).mpr hwaits)) h0
      rw [htrace] at hread
      exact (sectorRead_doneScript hcyl).mp hread
    · intro h r s' hr hne
      obtain ⟨rfl, rfl, hw⟩ := hrun.of_ok hr
      rw [htrace]
      have hbefore : ∀ j < a, cylinderAt status data j ≠ trackOf sectorLBA := fun j hj hc =>
        hmiss j hj ((hreported j).trans hc)
      exact (sectorRead_doneScript hcyl).mpr
        (h.resolve_left hne a ha hcyl hbefore ((hends a).mp hw))
  · refine iff_of_true (fun r s' h hr => ?_) (Or.inr fun a ha hcyl => ?_)
    · exact absurd (hrun.of_ok h).1 hr
    · exact absurd ((hreported a).trans hcyl) (hmiss a ha)

/-- The answers of a controller that is ready at once and at the cylinder `0`, but whose read ends
with an error. -/
def failedRead (n : Nat) : UInt8 := if n = 2 then 0x40 else 0

/-- What a run returned, and the first result byte of its read behind `a` seeks that failed. -/
def resultOf (a : Nat) : EStateM.Result Hang Floppy UInt32 → Option (UInt32 × Option (Option UInt8) × Nat)
  | .ok r s' => some (r, (answers s'.trace)[2 * a + 2]?, (sentBytes s'.trace).length)
  | .error _ _ => none

/-- **A failed read is returned as if the sector was read.** -/
theorem failed_read_returned :
    ¬ ∀ r s', flpydskReadSector 0 (.start 0 0x20000 (fun _ => 128) failedRead fun _ => true) =
        .ok r s' → r ≠ 0 → SectorRead 0 0 s'.trace := by
  have hresult : resultOf 0 (flpydskReadSector 0
      (.start 0 0x20000 (fun _ => 128) failedRead fun _ => true)) =
        some (0x20000, some (some 0x40), 18) := by
    decide +kernel
  intro h
  cases hrun : flpydskReadSector 0 (.start 0 0x20000 (fun _ => 128) failedRead fun _ => true) with
  | error e s' =>
    rw [hrun] at hresult
    cases hresult
  | ok r s' =>
    rw [hrun] at hresult
    simp only [resultOf, Option.some.injEq, Prod.mk.injEq] at hresult
    obtain ⟨hr, hst0, hsent⟩ := hresult
    obtain ⟨-, n, cyl, head, sector, st0, hbytes, -, hgot, hnormal, -⟩ := h r s' hrun (by
      rw [hr]
      decide)
    have hn : n = 0 := by
      have hlen := congrArg List.length hbytes
      rw [hsent] at hlen
      simp only [List.length_append, replicate_flatten_length, readBytes, List.length_cons,
        List.length_nil, List.length_replicate] at hlen
      omega
    subst hn
    rw [hst0] at hgot
    cases hgot
    exact absurd hnormal (by decide)

end

end C4os
