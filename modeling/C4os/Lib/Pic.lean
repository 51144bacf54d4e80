import Mathlib.Data.List.Basic
import Mathlib.Logic.Function.Basic

/-!
# Interrupt controllers

A pair of 8259A controllers; the second one, the slave, is behind a line of the first one.

* `Chip`: a controller, with its two ports `command` and `data`; `pending`: the interrupt that it
  asks for.
* `Pair`: the two of them; `acknowledge`: what the processor gets for an interrupt.
* `Ready`: both are set up, with no line masked; `Serving`: which line is in service.
* **`acknowledge_eq`**: the most urgent line comes first, with its vector.
* `Serving.taken`, `Serving.endOfInterrupt`: the line is in service until both get the end of
  interrupt.
-/

namespace Pic

/-- The byte that the data port expects. -/
inductive Expect where
  | icw2 (cascade icw4 : Bool)
  | icw3 (icw4 : Bool)
  | icw4
  | ocw

/-- An interrupt controller. -/
structure Chip where
  /-- Requests. -/
  irr : Nat → Bool
  /-- Interrupts in service. -/
  isr : Nat → Bool
  /-- Masked lines. -/
  imr : Nat → Bool
  /-- The vector of line `0`. -/
  base : Nat
  /-- The lines with a slave; for a slave, the line that it is on. -/
  cascade : UInt8
  autoEoi : Bool
  expect : Expect

namespace Chip

variable {c : Chip} {n : Nat} {o : Option Nat}

/-- The end of the most urgent interrupt in service. -/
def endOfInterrupt (c : Chip) : Chip :=
  match (List.range 8).find? c.isr with
  | none => c
  | some n => { c with isr := Function.update c.isr n false }

/-- A byte to the command port: the start of an initialisation, or the end of an interrupt. -/
def command (b : UInt8) (c : Chip) : Chip :=
  if b &&& 0x10 ≠ 0 then
    { c with
      irr := fun _ => false
      isr := fun _ => false
      imr := fun _ => false
      autoEoi := false
      expect := .icw2 (b &&& 2 = 0) (b &&& 1 ≠ 0) }
  else if b &&& 0xE8 = 0x20 then c.endOfInterrupt
  else c

/-- A byte to the data port: the rest of an initialisation, or the mask. -/
def data (b : UInt8) (c : Chip) : Chip :=
  match c.expect with
  | .icw2 cascade icw4 =>
    { c with
      base := (b &&& 0xF8).toNat
      expect := if cascade then .icw3 icw4 else if icw4 then .icw4 else .ocw }
  | .icw3 icw4 => { c with cascade := b, expect := if icw4 then .icw4 else .ocw }
  | .icw4 => { c with autoEoi := b &&& 2 ≠ 0, expect := .ocw }
  | .ocw => { c with imr := b.toNat.testBit }

/-- The interrupt that the controller asks for: the most urgent request that is not masked, when it
is more urgent than those in service. -/
def pending (c : Chip) (request : Nat → Bool) : Option Nat :=
  ((List.range 8).find? fun n => request n && !c.imr n).filter fun n =>
    !(List.range (n + 1)).any c.isr

/-- The processor takes the interrupt. -/
def take (n : Nat) (c : Chip) : Chip :=
  { c with irr := Function.update c.irr n false, isr := Function.update c.isr n !c.autoEoi }

/-- The line `o` is in service. -/
def Serving (c : Chip) (o : Option Nat) : Prop := ∀ n, c.isr n = decide (o = some n)

theorem pending_eq (hs : c.Serving none) (hm : ∀ n, c.imr n = false) (request : Nat → Bool) :
    c.pending request = (List.range 8).find? request := by
  have hreq : (fun n => request n && !c.imr n) = request := by
    funext n
    rw [hm n, Bool.not_false, Bool.and_true]
  have hisr : c.isr = fun _ => false := by
    funext n
    rw [hs n]
    rfl
  unfold pending
  rw [hreq, hisr]
  cases (List.range 8).find? request with
  | none => rfl
  | some n => simp

theorem Serving.take (hs : c.Serving none) (ha : c.autoEoi = false) :
    (c.take n).Serving (some n) := by
  intro k
  show Function.update c.isr n (!c.autoEoi) k = _
  by_cases hk : k = n
  · subst hk
    rw [Function.update_self, ha]
    simp
  · rw [Function.update_of_ne hk, hs k]
    simp [Ne.symm hk]

theorem Serving.endOfInterrupt (hs : c.Serving o) (ho : ∀ n ∈ o, n < 8) :
    c.endOfInterrupt = { c with isr := fun _ => false } := by
  unfold Chip.endOfInterrupt
  cases o with
  | none =>
    have hisr : c.isr = fun _ => false := funext fun n => hs n
    have hfind : (List.range 8).find? c.isr = none := by
      rw [hisr]
      simp
    rw [hfind, ← hisr]
  | some n =>
    have hisr : c.isr = fun k => decide (n = k) := by
      funext k
      rw [hs k]
      simp
    have hfind : (List.range 8).find? c.isr = some n := by
      rw [hisr, List.find?_range_eq_some, List.mem_range]
      refine ⟨by simp, ho n rfl, fun k hk => ?_⟩
      simp
      omega
    rw [hfind]
    dsimp only
    congr 1
    funext k
    by_cases hk : k = n
    · rw [hk, Function.update_self]
    · rw [Function.update_of_ne hk, hisr]
      simp [Ne.symm hk]

end Chip

/-- Two controllers, the second one at the line 2 of the first. -/
structure Pair where
  master : Chip
  slave : Chip

namespace Pair

/-- The slave is on the line `n` of the master. -/
def slaveAt (p : Pair) (n : Nat) : Bool :=
  p.master.cascade.toNat.testBit n && p.slave.cascade.toNat == n

/-- The requests at the master. -/
def request (p : Pair) (n : Nat) : Bool :=
  if p.slaveAt n then (p.slave.pending p.slave.irr).isSome else p.master.irr n

/-- The processor asks for the interrupt: the line, its vector, and the controllers after it. -/
def acknowledge (p : Pair) : Option (Nat × Nat × Pair) :=
  (p.master.pending p.request).bind fun n =>
    if p.slaveAt n then
      (p.slave.pending p.slave.irr).map fun k =>
        (8 + k, p.slave.base + k, ⟨p.master.take n, p.slave.take k⟩)
    else some (n, p.master.base + n, { p with master := p.master.take n })

/-- A byte to a port. -/
def out (w : Nat × UInt8) (p : Pair) : Pair :=
  if w.1 = 0x20 then { p with master := p.master.command w.2 }
  else if w.1 = 0x21 then { p with master := p.master.data w.2 }
  else if w.1 = 0xA0 then { p with slave := p.slave.command w.2 }
  else if w.1 = 0xA1 then { p with slave := p.slave.data w.2 }
  else p

/-- A device raises a line. -/
def raise (line : Nat) (p : Pair) : Pair :=
  if line < 8 then
    { p with master := { p.master with irr := Function.update p.master.irr line true } }
  else { p with slave := { p.slave with irr := Function.update p.slave.irr (line - 8) true } }

/-- The line waits. -/
def requested (p : Pair) (line : Nat) : Bool :=
  if line < 8 then p.master.irr line else p.slave.irr (line - 8)

/-- The controllers when the line has been taken. -/
def taken (line : Nat) (p : Pair) : Pair :=
  if line < 8 then { p with master := p.master.take line }
  else ⟨p.master.take 2, p.slave.take (line - 8)⟩

/-- The ends of the interrupts. -/
def endOfInterrupt (p : Pair) : Pair := ⟨p.master.endOfInterrupt, p.slave.endOfInterrupt⟩

/-- The two controllers are set up, the slave on line `2`, where no device is. -/
structure Ready (base : Nat) (p : Pair) : Prop where
  masterBase : p.master.base = base
  slaveBase : p.slave.base = base + 8
  masterCascade : p.master.cascade = 4
  slaveCascade : p.slave.cascade = 2
  masterMask : ∀ n, p.master.imr n = false
  slaveMask : ∀ n, p.slave.imr n = false
  masterEoi : p.master.autoEoi = false
  slaveEoi : p.slave.autoEoi = false
  noDevice : p.master.irr 2 = false

/-- The line `o` is in service. -/
def Serving (p : Pair) : Option Nat → Prop
  | none => p.master.Serving none ∧ p.slave.Serving none
  | some line =>
    if line < 8 then p.master.Serving (some line) ∧ p.slave.Serving none
    else p.master.Serving (some 2) ∧ p.slave.Serving (some (line - 8))

end Pair

/-- The lines of devices, the most urgent one first. -/
def urgency : List Nat := [0, 1] ++ (List.range 8).map (8 + ·) ++ [3, 4, 5, 6, 7]

namespace Pair

variable {p : Pair} {base line k : Nat} {o : Option Nat}

theorem Ready.slaveAt_iff (h : p.Ready base) : p.slaveAt k = decide (k = 2) := by
  unfold slaveAt
  rw [h.masterCascade, h.slaveCascade]
  by_cases hk : k = 2
  · subst hk
    rfl
  · have hne : ((2 : UInt8).toNat == k) = false := by
      simpa using Ne.symm hk
    rw [hne, Bool.and_false, decide_eq_false hk]

theorem Ready.find?_master (h : p.Ready base) {l : List Nat} (hl : ∀ n ∈ l, n ≠ 2 ∧ n < 8) :
    l.find? p.request = l.find? p.requested ∧ ∀ n, l.find? p.requested = some n →
      n ≠ 2 ∧ n < 8 := by
  refine ⟨?_, fun n hn => hl n (List.mem_of_find?_eq_some hn)⟩
  induction l with
  | nil => rfl
  | cons n l ih =>
    obtain ⟨h2, h8⟩ := hl n List.mem_cons_self
    have hn : p.request n = p.requested n := by
      unfold request requested
      rw [h.slaveAt_iff, if_pos h8, decide_eq_false h2]
      rfl
    rw [List.find?_cons, List.find?_cons, hn, ih fun k hk => hl k (List.mem_cons_of_mem _ hk)]

theorem find?_slave (p : Pair) :
    ((List.range 8).map (8 + ·)).find? p.requested =
      ((List.range 8).find? p.slave.irr).map (8 + ·) := by
  have hirr : p.requested ∘ (8 + ·) = p.slave.irr := by
    funext n
    show p.requested (8 + n) = _
    unfold requested
    rw [if_neg (by omega), Nat.add_sub_cancel_left]
  rw [List.find?_map, hirr]

/-- **The most urgent line comes first**, with its vector. -/
theorem acknowledge_eq (h : p.Ready base) (hs : p.Serving none) :
    p.acknowledge = (urgency.find? p.requested).map fun line =>
      (line, base + line, p.taken line) := by
  have hrange : List.range 8 = [0, 1] ++ [2] ++ [3, 4, 5, 6, 7] := rfl
  obtain ⟨hfirst, hfirst'⟩ := h.find?_master (l := [0, 1]) (by decide)
  obtain ⟨hlast, hlast'⟩ := h.find?_master (l := [3, 4, 5, 6, 7]) (by decide)
  have hslave : p.slave.pending p.slave.irr = (List.range 8).find? p.slave.irr :=
    Chip.pending_eq hs.2 h.slaveMask _
  have hmaster : ∀ n, n ≠ 2 ∧ n < 8 →
      (if p.slaveAt n then
        (p.slave.pending p.slave.irr).map fun k =>
          (8 + k, p.slave.base + k, (⟨p.master.take n, p.slave.take k⟩ : Pair))
      else some (n, p.master.base + n, { p with master := p.master.take n })) =
        some (n, base + n, p.taken n) := by
    rintro n ⟨h2, h8⟩
    rw [h.slaveAt_iff, decide_eq_false h2, if_neg Bool.false_ne_true, h.masterBase]
    unfold taken
    rw [if_pos h8]
  unfold acknowledge urgency
  rw [Chip.pending_eq hs.1 h.masterMask, hrange, List.find?_append, List.find?_append,
    List.find?_append, List.find?_append, ← hrange, find?_slave, hfirst, hlast]
  cases hA : [0, 1].find? p.requested with
  | some n => exact hmaster n (hfirst' n hA)
  | none =>
    have hreq : p.request 2 = ((List.range 8).find? p.slave.irr).isSome := by
      unfold request
      rw [h.slaveAt_iff, hslave]
      rfl
    cases hB : (List.range 8).find? p.slave.irr with
    | some k =>
      have hk : k < 8 := List.mem_range.mp (List.mem_of_find?_eq_some hB)
      have htwo : [2].find? p.request = some 2 := by
        rw [List.find?_singleton, hreq, hB]
        rfl
      have htaken : p.taken (8 + k) = ⟨p.master.take 2, p.slave.take k⟩ := by
        unfold taken
        rw [if_neg (by omega), Nat.add_sub_cancel_left]
      rw [htwo, hslave, hB]
      show (if p.slaveAt 2 then _ else _) = some (8 + k, base + (8 + k), p.taken (8 + k))
      rw [h.slaveAt_iff, h.slaveBase, htaken, ← Nat.add_assoc]
      rfl
    | none =>
      have htwo : [2].find? p.request = none := by
        rw [List.find?_singleton, hreq, hB]
        rfl
      rw [htwo]
      cases hC : [3, 4, 5, 6, 7].find? p.requested with
      | some n => exact hmaster n (hlast' n hC)
      | none => rfl

theorem mem_urgency : k ∈ urgency ↔ k < 16 ∧ k ≠ 2 := by
  unfold urgency
  simp only [List.mem_append, List.mem_map, List.mem_range, List.mem_cons, List.not_mem_nil,
    or_false]
  constructor
  · rintro (((rfl | rfl) | ⟨n, hn, rfl⟩) | h)
    · decide
    · decide
    · omega
    · omega
  · intro h
    by_cases h8 : 8 ≤ k
    · exact Or.inl (Or.inr ⟨k - 8, by omega, by omega⟩)
    · omega

/-! ### A line that is taken -/

theorem Serving.taken (h : p.Ready base) (hs : p.Serving none) :
    (p.taken line).Serving (some line) := by
  unfold Pair.taken Pair.Serving
  by_cases hl : line < 8
  · rw [if_pos hl]
    simp only [if_pos hl]
    exact ⟨hs.1.take h.masterEoi, hs.2⟩
  · rw [if_neg hl]
    simp only [if_neg hl]
    exact ⟨hs.1.take h.masterEoi, hs.2.take h.slaveEoi⟩

theorem Ready.taken (h : p.Ready base) : (p.taken line).Ready base := by
  have hirr : (p.taken line).master.irr 2 = false := by
    unfold Pair.taken
    split_ifs with hl
    · show Function.update p.master.irr line false 2 = false
      rw [Function.update_apply, h.noDevice, ite_self]
    · show Function.update p.master.irr 2 false 2 = false
      rw [Function.update_self]
  unfold Pair.taken at hirr ⊢
  split_ifs at hirr ⊢
  · exact { h with noDevice := hirr }
  · exact { h with noDevice := hirr }

theorem requested_taken (h : p.Ready base) :
    (p.taken line).requested = Function.update p.requested line false := by
  funext k
  rw [Function.update_apply]
  unfold Pair.taken requested
  by_cases hl : line < 8
  · rw [if_pos hl]
    by_cases hk : k < 8
    · rw [if_pos hk, if_pos hk]
      show Function.update p.master.irr line false k = _
      rw [Function.update_apply]
    · rw [if_neg hk, if_neg hk, if_neg (by omega)]
  · rw [if_neg hl]
    by_cases hk : k < 8
    · rw [if_pos hk, if_pos hk, if_neg (by omega)]
      show Function.update p.master.irr 2 false k = _
      rw [Function.update_apply]
      split_ifs with h2
      · rw [h2, h.noDevice]
      · rfl
    · rw [if_neg hk, if_neg hk]
      show Function.update p.slave.irr (line - 8) false (k - 8) = _
      rw [Function.update_apply]
      exact if_congr (by omega) rfl rfl

/-! ### Requests -/

theorem Ready.raise (h : p.Ready base) (h2 : line ≠ 2) : (p.raise line).Ready base := by
  unfold Pair.raise
  split_ifs
  · refine { h with noDevice := ?_ }
    show Function.update p.master.irr line true 2 = false
    rw [Function.update_of_ne (Ne.symm h2), h.noDevice]
  · exact { h with }

theorem Serving.raise (hs : p.Serving o) : (p.raise line).Serving o := by
  unfold Pair.raise
  split_ifs <;> exact hs

theorem requested_raise (p : Pair) (line : Nat) :
    (p.raise line).requested = Function.update p.requested line true := by
  funext k
  rw [Function.update_apply]
  unfold Pair.raise requested
  by_cases hl : line < 8
  · rw [if_pos hl]
    by_cases hk : k < 8
    · rw [if_pos hk, if_pos hk]
      show Function.update p.master.irr line true k = _
      rw [Function.update_apply]
    · rw [if_neg hk, if_neg hk, if_neg (by omega)]
  · rw [if_neg hl]
    by_cases hk : k < 8
    · rw [if_pos hk, if_pos hk, if_neg (by omega)]
    · rw [if_neg hk, if_neg hk]
      show Function.update p.slave.irr (line - 8) true (k - 8) = _
      rw [Function.update_apply]
      exact if_congr (by omega) rfl rfl

/-! ### The end of an interrupt -/

/-- The two controllers with nothing in service. -/
theorem Serving.endOfInterrupt (hs : p.Serving o) (ho : ∀ line ∈ o, line < 16) :
    p.endOfInterrupt = ⟨{ p.master with isr := fun _ => false },
      { p.slave with isr := fun _ => false }⟩ := by
  unfold Pair.endOfInterrupt
  cases o with
  | none => rw [hs.1.endOfInterrupt nofun, hs.2.endOfInterrupt nofun]
  | some line =>
    have hlt : line < 16 := ho line rfl
    unfold Pair.Serving at hs
    dsimp only at hs
    split_ifs at hs with hl
    · rw [hs.1.endOfInterrupt fun n hn => Option.some.inj hn ▸ hl, hs.2.endOfInterrupt nofun]
    · rw [hs.1.endOfInterrupt fun n hn => Option.some.inj hn ▸ by decide,
        hs.2.endOfInterrupt fun n hn => Option.some.inj hn ▸ by omega]

/-- **Both ends of the interrupt free the controllers**, and requests stay. -/
theorem ended (h : p.Ready base) (hs : p.Serving o) (ho : ∀ line ∈ o, line < 16) :
    p.endOfInterrupt.Ready base ∧ p.endOfInterrupt.Serving none ∧
      p.endOfInterrupt.requested = p.requested := by
  rw [hs.endOfInterrupt ho]
  exact ⟨{ h with }, ⟨fun _ => rfl, fun _ => rfl⟩, rfl⟩

end Pair

end Pic
