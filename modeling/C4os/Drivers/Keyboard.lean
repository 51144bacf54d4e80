import C4os.Lib.Run
import Mathlib.Data.List.Basic
import Mathlib.Data.List.TakeDrop
import Mathlib.Logic.Function.Basic

/-!
# The keyboard buffer (`tty.c`)

* `keyboardInterrupt`: the interrupt; `inScancode`: one read or write of `in_scancode`, at the
  program counter `Pc`.
* `Fifo`: what is taken out is what was stored, in order.
* `slot n`: the index of both sides after `n` scancodes; `KeyInv`: the invariant between any two
  accesses.
* **`keyboard_fifo`**: the runs in which at most 15 scancodes are unread.
-/

namespace C4os

open Transition

/-- The scancodes that the buffer has room for. -/
def KEY_BUFFER_SIZE : Nat := 16

/-- Where the reader is in `in_scancode`. The counts `n` are the scancodes that were stored when the
tail was read; the code does not have them. -/
inductive Pc where
  | idle
  /-- `key_buffer_head` was read first. -/
  | testTail (head : Nat)
  /-- `key_buffer_tail` was read first. -/
  | testHead (tail n : Nat)
  | empty (n : Nat)
  | wrap
  | wrapWrite
  | load
  | loadAt (i : Nat)
  | inc (result : UInt8)
  | incWrite (result : UInt8) (head : Nat)

/-- The variables of the buffer, the reader, and what was stored and taken so far. -/
structure KeyState where
  keyBuffer : Nat → UInt8
  keyBufferHead : Nat
  keyBufferTail : Nat
  pc : Pc
  stored : List UInt8
  taken : List UInt8

namespace KeyState

/-- The buffer before the first interrupt. -/
def init (keyBuffer : Nat → UInt8) : KeyState := ⟨keyBuffer, 0, 0, .idle, [], []⟩

/-- The index that `keyboard_interrupt` writes to. -/
def storeIndex (s : KeyState) : Nat :=
  (if s.keyBufferTail ≥ KEY_BUFFER_SIZE then 0 else s.keyBufferTail) + 1 - 1

/-- `keyboard_interrupt`, with the byte `keyCode` at the port. -/
def keyboardInterrupt (keyCode : UInt8) (s : KeyState) : KeyState :=
  let tail := (if s.keyBufferTail ≥ KEY_BUFFER_SIZE then 0 else s.keyBufferTail) + 1
  { s with
    keyBufferTail := tail
    keyBuffer := Function.update s.keyBuffer (tail - 1) keyCode
    stored := s.stored ++ [keyCode] }

/-- One read or write of `in_scancode`; the operands of the test are read in either order. -/
def inScancode (headFirst : Bool) (s : KeyState) : KeyState :=
  match s.pc with
  | .idle =>
    if headFirst then { s with pc := .testTail s.keyBufferHead }
    else { s with pc := .testHead s.keyBufferTail s.stored.length }
  | .testTail head =>
    { s with pc := if head ≠ s.keyBufferTail then .wrap else .empty s.stored.length }
  | .testHead tail n =>
    { s with pc := if s.keyBufferHead ≠ tail then .wrap else .empty n }
  | .empty _ => { s with pc := .idle }
  | .wrap => { s with pc := if s.keyBufferHead ≥ KEY_BUFFER_SIZE then .wrapWrite else .load }
  | .wrapWrite => { s with keyBufferHead := 0, pc := .load }
  | .load => { s with pc := .loadAt s.keyBufferHead }
  | .loadAt i => { s with pc := .inc (s.keyBuffer i) }
  | .inc result => { s with pc := .incWrite result s.keyBufferHead }
  | .incWrite result head =>
    { s with keyBufferHead := head + 1, pc := .idle, taken := s.taken ++ [result] }

/-- The scancodes that the head has not passed. -/
def unread (s : KeyState) : Nat := s.stored.length - s.taken.length

end KeyState

open KeyState

/-- A step: a key interrupt, or an access of the reader, which may read `head` or `tail` first. -/
inductive KeyAct where
  | interrupt (keyCode : UInt8)
  | reader (headFirst : Bool)

/-- An interrupt, or one access of the reader. -/
def KeyAct.apply : KeyAct → KeyState → KeyState
  | .interrupt keyCode => keyboardInterrupt keyCode
  | .reader headFirst => inScancode headFirst

/-- A step after which at most 15 scancodes are unread. -/
def KeyStep (s : KeyState) (a : KeyAct) (s' : KeyState) : Prop :=
  s' = a.apply s ∧ s'.unread ≤ KEY_BUFFER_SIZE - 1

/-- The buffer is a queue: a prefix of what was stored is taken out, it is reported empty only when
all that was stored has been taken, and no access is outside the buffer. -/
structure Fifo (s : KeyState) : Prop where
  taken : s.taken <+: s.stored
  empty : ∀ n, s.pc = .empty n → s.taken.length = n
  load : ∀ i, s.pc = .loadAt i → i < KEY_BUFFER_SIZE
  store : s.storeIndex < KEY_BUFFER_SIZE

/-- The index after `n` scancodes: `0` at the start, then `1` to `16`. -/
def slot : Nat → Nat
  | 0 => 0
  | n + 1 => n % 16 + 1

theorem slot_zero : slot 0 = 0 := rfl

theorem slot_succ (n : Nat) : slot (n + 1) = n % 16 + 1 := rfl

theorem slot_wrap (n : Nat) : (if slot n ≥ 16 then 0 else slot n) = n % 16 := by
  cases n with
  | zero => rfl
  | succ n =>
    rw [slot_succ]
    split <;> omega

theorem slot_inj {k n : Nat} (hk : k ≤ n) (hn : n ≤ k + 15) (h : slot k = slot n) : k = n := by
  cases k with
  | zero =>
    cases n with
    | zero => rfl
    | succ n =>
      rw [slot_zero, slot_succ] at h
      omega
  | succ k =>
    cases n with
    | zero => omega
    | succ n =>
      rw [slot_succ, slot_succ] at h
      omega

/-- What holds at each access of the reader, when `k` scancodes are taken. -/
def PcInv (s : KeyState) (k : Nat) : Prop :=
  match s.pc with
  | .idle => s.keyBufferHead = slot k
  | .testTail head => s.keyBufferHead = slot k ∧ head = slot k
  | .testHead tail n => s.keyBufferHead = slot k ∧ tail = slot n ∧ k ≤ n ∧ n ≤ s.stored.length
  | .empty n => s.keyBufferHead = slot k ∧ k = n
  | .wrap => s.keyBufferHead = slot k ∧ k < s.stored.length
  | .wrapWrite => slot k ≥ 16 ∧ k < s.stored.length
  | .load => s.keyBufferHead = k % 16 ∧ k < s.stored.length
  | .loadAt i => s.keyBufferHead = k % 16 ∧ i = k % 16 ∧ k < s.stored.length
  | .inc result => s.keyBufferHead = k % 16 ∧ s.stored[k]? = some result
  | .incWrite result head => head = k % 16 ∧ s.stored[k]? = some result

/-- The invariant of the buffer, when `k` scancodes are taken. -/
structure KeyInv (s : KeyState) (k : Nat) : Prop where
  taken : s.taken = s.stored.take k
  le : k ≤ s.stored.length
  unread : s.stored.length ≤ k + 15
  tail : s.keyBufferTail = slot s.stored.length
  cells : ∀ j, k ≤ j → j < s.stored.length → s.stored[j]? = some (s.keyBuffer (j % 16))
  pc : PcInv s k

variable {s s' : KeyState} {k : Nat}

theorem KeyInv.length_taken (h : KeyInv s k) : s.taken.length = k := by
  rw [h.taken, List.length_take, Nat.min_eq_left h.le]

theorem KeyInv.storeIndex (h : KeyInv s k) : s.storeIndex = s.stored.length % 16 := by
  unfold KeyState.storeIndex KEY_BUFFER_SIZE
  rw [h.tail, slot_wrap, Nat.add_sub_cancel]

theorem KeyInv.fifo (h : KeyInv s k) : Fifo s := by
  refine ⟨h.taken ▸ List.take_prefix k s.stored, fun n hn => ?_, fun i hi => ?_, ?_⟩
  · have := h.pc
    unfold PcInv at this
    rw [hn] at this
    exact h.length_taken.trans this.2
  · have := h.pc
    unfold PcInv at this
    rw [hi] at this
    rw [this.2.1]
    exact Nat.mod_lt k (by decide)
  · rw [h.storeIndex]
    exact Nat.mod_lt _ (by decide)

theorem keyInv_init (keyBuffer : Nat → UInt8) : KeyInv (init keyBuffer) 0 :=
  ⟨rfl, Nat.le_refl 0, Nat.zero_le 15, rfl, fun _ _ h => absurd h (Nat.not_lt_zero _), rfl⟩

theorem PcInv.interrupt (h : PcInv s k) (keyCode : UInt8) :
    PcInv (keyboardInterrupt keyCode s) k := by
  have hget : ∀ result, s.stored[k]? = some result →
      (s.stored ++ [keyCode])[k]? = some result := by
    intro result hr
    rw [List.getElem?_append_left (List.getElem?_eq_some_iff.mp hr).1, hr]
  unfold PcInv keyboardInterrupt at *
  cases hpc : s.pc <;> simp only [hpc, List.length_append, List.length_singleton] at h ⊢
  case inc => exact ⟨h.1, hget _ h.2⟩
  case incWrite => exact ⟨h.1, hget _ h.2⟩
  all_goals omega

theorem KeyInv.interrupt (h : KeyInv s k) {keyCode : UInt8}
    (hu : (keyboardInterrupt keyCode s).unread ≤ 15) : KeyInv (keyboardInterrupt keyCode s) k := by
  have hlen : (keyboardInterrupt keyCode s).stored.length = s.stored.length + 1 := by
    simp [keyboardInterrupt]
  have hu' : s.stored.length + 1 ≤ k + 15 := by
    unfold KeyState.unread at hu
    rw [hlen, show (keyboardInterrupt keyCode s).taken.length = k from h.length_taken] at hu
    omega
  have hle := h.le
  have hslot : (if s.keyBufferTail ≥ KEY_BUFFER_SIZE then 0 else s.keyBufferTail) =
      s.stored.length % 16 := by
    unfold KEY_BUFFER_SIZE
    rw [h.tail, slot_wrap]
  refine ⟨?_, by omega, by omega, ?_, fun j hkj hj => ?_, h.pc.interrupt keyCode⟩
  · show s.taken = (s.stored ++ [keyCode]).take k
    rw [List.take_append_of_le_length hle, h.taken]
  · rw [hlen]
    show (if s.keyBufferTail ≥ KEY_BUFFER_SIZE then 0 else s.keyBufferTail) + 1 = slot _
    rw [hslot]
    rfl
  · show (s.stored ++ [keyCode])[j]? = some (Function.update s.keyBuffer
      ((if s.keyBufferTail ≥ KEY_BUFFER_SIZE then 0 else s.keyBufferTail) + 1 - 1) keyCode (j % 16))
    rw [hslot, Nat.add_sub_cancel]
    rw [hlen] at hj
    by_cases hjn : j = s.stored.length
    · rw [hjn, List.getElem?_concat_length, Function.update_self]
    · -- the unread cells are less than a round away from the one that is written
      rw [List.getElem?_append_left (by omega), Function.update_of_ne (by omega)]
      exact h.cells j hkj (by omega)

/-- **One access of the reader.** -/
theorem KeyInv.reader (h : KeyInv s k) (headFirst : Bool) :
    ∃ k', KeyInv (inScancode headFirst s) k' := by
  have hpc := h.pc
  have hle := h.le
  have hun := h.unread
  unfold PcInv at hpc
  unfold inScancode
  cases hs : s.pc with
  | idle =>
    rw [hs] at hpc
    dsimp only at hpc ⊢
    cases headFirst with
    | true => exact ⟨k, h.taken, hle, hun, h.tail, h.cells, hpc, hpc⟩
    | false => exact ⟨k, h.taken, hle, hun, h.tail, h.cells, hpc, h.tail, hle, Nat.le_refl _⟩
  | testTail head =>
    rw [hs] at hpc
    dsimp only at hpc ⊢
    refine ⟨k, h.taken, hle, hun, h.tail, h.cells, ?_⟩
    unfold PcInv
    by_cases he : head = s.keyBufferTail
    · rw [if_neg (not_not.mpr he)]
      exact ⟨hpc.1, slot_inj hle hun (by rw [← hpc.2, he, h.tail])⟩
    · rw [if_pos he]
      refine ⟨hpc.1, Nat.lt_of_le_of_ne hle fun e => he ?_⟩
      rw [hpc.2, h.tail, e]
  | testHead tail n =>
    rw [hs] at hpc
    dsimp only at hpc ⊢
    obtain ⟨hhead, htail, hkn, hn⟩ := hpc
    refine ⟨k, h.taken, hle, hun, h.tail, h.cells, ?_⟩
    unfold PcInv
    by_cases he : s.keyBufferHead = tail
    · rw [if_neg (not_not.mpr he)]
      exact ⟨hhead, slot_inj hkn (by omega) (by rw [← hhead, he, htail])⟩
    · rw [if_pos he]
      refine ⟨hhead, Nat.lt_of_lt_of_le (Nat.lt_of_le_of_ne hkn fun e => he ?_) hn⟩
      rw [hhead, htail, e]
  | empty n =>
    rw [hs] at hpc
    exact ⟨k, h.taken, hle, hun, h.tail, h.cells, hpc.1⟩
  | wrap =>
    rw [hs] at hpc
    dsimp only at hpc ⊢
    refine ⟨k, h.taken, hle, hun, h.tail, h.cells, ?_⟩
    have hw : (if slot k ≥ KEY_BUFFER_SIZE then 0 else slot k) = k % 16 := slot_wrap k
    unfold PcInv
    rw [hpc.1]
    by_cases hge : slot k ≥ KEY_BUFFER_SIZE
    · rw [if_pos hge]
      exact ⟨hge, hpc.2⟩
    · rw [if_neg hge]
      rw [if_neg hge] at hw
      exact ⟨hw, hpc.2⟩
  | wrapWrite =>
    rw [hs] at hpc
    have hw := slot_wrap k
    rw [if_pos hpc.1] at hw
    exact ⟨k, h.taken, hle, hun, h.tail, h.cells, hw, hpc.2⟩
  | load =>
    rw [hs] at hpc
    exact ⟨k, h.taken, hle, hun, h.tail, h.cells, hpc.1, hpc.1, hpc.2⟩
  | loadAt i =>
    rw [hs] at hpc
    obtain ⟨hhead, rfl, hlt⟩ := hpc
    exact ⟨k, h.taken, hle, hun, h.tail, h.cells, hhead, h.cells k (Nat.le_refl k) hlt⟩
  | inc result =>
    rw [hs] at hpc
    exact ⟨k, h.taken, hle, hun, h.tail, h.cells, hpc⟩
  | incWrite result head =>
    rw [hs] at hpc
    obtain ⟨rfl, hget⟩ := hpc
    obtain ⟨hlt, rfl⟩ := List.getElem?_eq_some_iff.mp hget
    refine ⟨k + 1, ?_, hlt, Nat.le_trans hun (by omega), h.tail, fun j hj => h.cells j (by omega), rfl⟩
    show s.taken ++ [s.stored[k]] = s.stored.take (k + 1)
    rw [h.taken, List.take_succ_eq_append_getElem hlt]

theorem KeyInv.step {a : KeyAct} (h : KeyInv s k) (hs : KeyStep s a s') : ∃ k', KeyInv s' k' := by
  obtain ⟨rfl, hu⟩ := hs
  cases a with
  | interrupt keyCode => exact ⟨k, h.interrupt hu⟩
  | reader headFirst => exact h.reader headFirst

/-- **The keyboard buffer is a queue under interrupts** as long as at most 15 scancodes are unread. -/
theorem keyboard_fifo {keyBuffer : Nat → UInt8} {as : List KeyAct}
    (hrun : Run KeyStep (init keyBuffer) as s) : Fifo s := by
  obtain ⟨k, h⟩ := hrun.invariant (I := fun s => ∃ k, KeyInv s k) (fun _ _ _ ⟨_, h⟩ hs => h.step hs)
    ⟨0, keyInv_init keyBuffer⟩
  exact h.fifo

/-- One scancode, taken out while a second one comes in. -/
theorem keyboard_fifo_two :
    ∃ s, Run KeyStep (init fun _ => 0) [.interrupt 30, .reader true, .reader true, .reader true,
        .interrupt 31, .reader true, .reader true, .reader true, .reader true] s ∧
      s.stored = [30, 31] ∧ s.taken = [30] ∧ Fifo s := by
  have hrun : Run KeyStep (init fun _ => 0) [.interrupt 30, .reader true, .reader true,
      .reader true, .interrupt 31, .reader true, .reader true, .reader true, .reader true] _ :=
    .cons ⟨rfl, by decide⟩ (.cons ⟨rfl, by decide⟩ (.cons ⟨rfl, by decide⟩ (.cons ⟨rfl, by decide⟩
      (.cons ⟨rfl, by decide⟩ (.cons ⟨rfl, by decide⟩ (.cons ⟨rfl, by decide⟩
        (.cons ⟨rfl, by decide⟩ (.cons ⟨rfl, by decide⟩ (.nil _)))))))))
  exact ⟨_, hrun, rfl, rfl, keyboard_fifo hrun⟩

end C4os
