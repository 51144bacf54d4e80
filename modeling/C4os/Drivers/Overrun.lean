import C4os.Drivers.Keyboard
import Mathlib.Data.List.Induction

/-!
# Typing ahead of the reader (`tty.c`)

`keyboard_interrupt` never looks at `key_buffer_head`, so any number of scancodes may be unread.

* `scancodeCall`: a whole call of `in_scancode`; `iterate_inScancode`: it is its accesses, one by one.
* `KeyCall`, `after`: runs of interrupts and whole calls; `CallInv`: the indices are still the slots
  of what was stored and taken.
* `Typed`: a scancode came in since one was last taken out.
* **`buffer_looks_empty_iff`**: such a buffer looks empty when an interrupt puts the writer a
  multiple of 16 scancodes ahead of a reader that has started.
-/

namespace C4os

namespace KeyState

/-- A whole call of `in_scancode`. -/
def scancodeCall (s : KeyState) : UInt8 × KeyState :=
  if s.keyBufferHead ≠ s.keyBufferTail then
    let head := if s.keyBufferHead ≥ KEY_BUFFER_SIZE then 0 else s.keyBufferHead
    let result := s.keyBuffer head
    (result, { s with keyBufferHead := head + 1, taken := s.taken ++ [result] })
  else
    (0, s)

/-- **A call is its accesses**, when no interrupt comes between them. -/
theorem iterate_inScancode {s : KeyState} (hpc : s.pc = .idle) :
    ∃ k, (inScancode true)^[k] s = s.scancodeCall.2 := by
  obtain ⟨buf, head, tail, pc, stored, taken⟩ := s
  obtain rfl : pc = .idle := hpc
  unfold scancodeCall
  by_cases he : head = tail
  · exact ⟨3, by simp [Function.iterate_succ_apply, inScancode, he]⟩
  · by_cases hw : head ≥ KEY_BUFFER_SIZE
    · exact ⟨8, by simp [Function.iterate_succ_apply, inScancode, he, hw]⟩
    · exact ⟨7, by simp [Function.iterate_succ_apply, inScancode, he, hw]⟩

end KeyState

open KeyState

/-- A call from outside. -/
inductive KeyCall where
  | interrupt (keyCode : UInt8)
  | inScancode

/-- A call on the buffer. -/
def KeyCall.apply : KeyCall → KeyState → KeyState
  | .interrupt keyCode, s => keyboardInterrupt keyCode s
  | .inScancode, s => s.scancodeCall.2

/-- The state after a run of calls. -/
def after (keyBuffer : Nat → UInt8) (cs : List KeyCall) : KeyState :=
  cs.foldl (fun s c => c.apply s) (init keyBuffer)

theorem after_concat (keyBuffer : Nat → UInt8) (cs : List KeyCall) (c : KeyCall) :
    after keyBuffer (cs ++ [c]) = c.apply (after keyBuffer cs) := by
  simp [after]

/-- The indices are the slots of what was stored and taken, and each cell that was written since the
start holds a scancode. -/
structure CallInv (s : KeyState) : Prop where
  le : s.taken.length ≤ s.stored.length
  head : s.keyBufferHead = slot s.taken.length
  tail : s.keyBufferTail = slot s.stored.length
  cells : ∀ i < 16, i < s.stored.length → s.keyBuffer i ∈ s.stored

theorem slot_eq_iff {k n : Nat} (h : k ≤ n) : slot k = slot n ↔ k = n ∨ 1 ≤ k ∧ 16 ∣ n - k := by
  cases k with
  | zero =>
    cases n with
    | zero => simp
    | succ n =>
      rw [slot_zero, slot_succ]
      omega
  | succ k =>
    cases n with
    | zero => omega
    | succ n =>
      rw [slot_succ, slot_succ]
      omega

variable {keyBuffer : Nat → UInt8} {s : KeyState}

theorem callInv_init (keyBuffer : Nat → UInt8) : CallInv (init keyBuffer) :=
  ⟨Nat.le_refl 0, rfl, rfl, fun _ _ h => absurd h (Nat.not_lt_zero _)⟩

theorem CallInv.interrupt (h : CallInv s) (keyCode : UInt8) :
    CallInv (keyboardInterrupt keyCode s) := by
  have hlen : (keyboardInterrupt keyCode s).stored.length = s.stored.length + 1 := by
    simp [keyboardInterrupt]
  have hslot : (if s.keyBufferTail ≥ KEY_BUFFER_SIZE then 0 else s.keyBufferTail) =
      s.stored.length % 16 := by
    unfold KEY_BUFFER_SIZE
    rw [h.tail, slot_wrap]
  refine ⟨?_, h.head, ?_, fun i hi hin => ?_⟩
  · rw [hlen]
    exact Nat.le_succ_of_le h.le
  · rw [hlen]
    show (if s.keyBufferTail ≥ KEY_BUFFER_SIZE then 0 else s.keyBufferTail) + 1 = slot _
    rw [hslot, slot_succ]
  · rw [hlen] at hin
    show Function.update s.keyBuffer
      ((if s.keyBufferTail ≥ KEY_BUFFER_SIZE then 0 else s.keyBufferTail) + 1 - 1) keyCode i ∈
        s.stored ++ [keyCode]
    rw [hslot, Nat.add_sub_cancel]
    by_cases hii : i = s.stored.length % 16
    · rw [hii, Function.update_self]
      simp
    · rw [Function.update_of_ne hii]
      exact List.mem_append_left _ (h.cells i hi (by omega))

/-- **A call on a buffer that does not look empty** takes a stored scancode out. -/
theorem CallInv.scancodeCall (h : CallInv s) (hne : s.keyBufferHead ≠ s.keyBufferTail) :
    s.scancodeCall.1 ∈ s.stored ∧ s.scancodeCall.2.taken = s.taken ++ [s.scancodeCall.1] ∧
      CallInv s.scancodeCall.2 := by
  have hslot : (if s.keyBufferHead ≥ KEY_BUFFER_SIZE then 0 else s.keyBufferHead) =
      s.taken.length % 16 := by
    unfold KEY_BUFFER_SIZE
    rw [h.head, slot_wrap]
  have hlt : s.taken.length < s.stored.length := by
    refine Nat.lt_of_le_of_ne h.le fun e => hne ?_
    rw [h.head, h.tail, e]
  unfold KeyState.scancodeCall
  rw [if_pos hne]
  refine ⟨?_, rfl, ?_, ?_, h.tail, h.cells⟩
  · rw [hslot]
    exact h.cells _ (Nat.mod_lt _ (by decide)) (by omega)
  · show (s.taken ++ [_]).length ≤ s.stored.length
    rw [List.length_append, List.length_singleton]
    exact hlt
  · dsimp only
    rw [hslot, List.length_append, List.length_singleton, slot_succ]

theorem scancodeCall_of_eq (he : s.keyBufferHead = s.keyBufferTail) : s.scancodeCall = (0, s) := by
  unfold KeyState.scancodeCall
  rw [if_neg (not_not.mpr he)]

theorem CallInv.apply (h : CallInv s) (c : KeyCall) : CallInv (c.apply s) := by
  cases c with
  | interrupt keyCode => exact h.interrupt keyCode
  | inScancode =>
    show CallInv s.scancodeCall.2
    by_cases he : s.keyBufferHead = s.keyBufferTail
    · rw [scancodeCall_of_eq he]
      exact h
    · exact (h.scancodeCall he).2.2

theorem callInv_after (keyBuffer : Nat → UInt8) (cs : List KeyCall) :
    CallInv (after keyBuffer cs) := by
  induction cs using List.reverseRecOn with
  | nil => exact callInv_init keyBuffer
  | append_singleton cs c ih =>
    rw [after_concat]
    exact ih.apply c

theorem CallInv.head_eq_tail_iff (h : CallInv s) :
    s.keyBufferHead = s.keyBufferTail ↔ s.unread = 0 ∨ 1 ≤ s.taken.length ∧ 16 ∣ s.unread := by
  have := h.le
  rw [h.head, h.tail, slot_eq_iff h.le]
  unfold KeyState.unread
  omega

/-! ## A scancode is waiting -/

/-- At least one interrupt came since a scancode was last taken out, or since the start. -/
def Typed (keyBuffer : Nat → UInt8) (cs : List KeyCall) : Prop :=
  ∃ cs₁ keyCode cs₂, cs = cs₁ ++ .interrupt keyCode :: cs₂ ∧
    (after keyBuffer cs).taken = (after keyBuffer cs₁).taken

/-- The buffer does not look empty, and the next call takes a stored scancode out. -/
structure Waiting (s : KeyState) : Prop where
  ne : s.keyBufferHead ≠ s.keyBufferTail
  next : s.scancodeCall.1 ∈ s.stored ∧ s.scancodeCall.2.taken = s.taken ++ [s.scancodeCall.1]

/-- An interrupt before the first scancode is taken, or one that does not put the writer ahead by a
multiple of 16 scancodes. -/
def KeyCall.Spaced (s : KeyState) : KeyCall → Prop
  | .interrupt _ => s.taken = [] ∨ ¬ 16 ∣ s.unread + 1
  | .inScancode => True

theorem CallInv.waiting (h : CallInv s) (hne : s.keyBufferHead ≠ s.keyBufferTail) : Waiting s :=
  ⟨hne, (h.scancodeCall hne).1, (h.scancodeCall hne).2.1⟩

theorem unread_interrupt (h : CallInv s) (keyCode : UInt8) :
    (keyboardInterrupt keyCode s).unread = s.unread + 1 := by
  have := h.le
  have hlen : (keyboardInterrupt keyCode s).stored.length = s.stored.length + 1 := by
    simp [keyboardInterrupt]
  unfold KeyState.unread
  rw [hlen]
  show s.stored.length + 1 - s.taken.length = _
  omega

theorem CallInv.interrupt_ne_iff (h : CallInv s) (keyCode : UInt8) :
    (keyboardInterrupt keyCode s).keyBufferHead ≠ (keyboardInterrupt keyCode s).keyBufferTail ↔
      KeyCall.Spaced s (.interrupt keyCode) := by
  rw [Ne, (h.interrupt keyCode).head_eq_tail_iff, unread_interrupt h]
  show ¬ (_ ∨ 1 ≤ s.taken.length ∧ _) ↔ s.taken = [] ∨ _
  rw [← List.length_eq_zero_iff]
  omega

theorem taken_mono (keyBuffer : Nat → UInt8) (cs cs' : List KeyCall) :
    (after keyBuffer cs).taken <+: (after keyBuffer (cs ++ cs')).taken := by
  induction cs' using List.reverseRecOn with
  | nil =>
    simp
  | append_singleton cs' c ih =>
    refine ih.trans ?_
    rw [← List.append_assoc, after_concat]
    cases c with
    | interrupt keyCode => exact List.prefix_rfl
    | inScancode =>
      have hinv := callInv_after keyBuffer (cs ++ cs')
      show _ <+: (KeyState.scancodeCall _).2.taken
      by_cases he : (after keyBuffer (cs ++ cs')).keyBufferHead =
          (after keyBuffer (cs ++ cs')).keyBufferTail
      · simp [scancodeCall_of_eq he]
      · rw [(hinv.scancodeCall he).2.1]
        exact List.prefix_append _ _

theorem typed_inScancode {cs : List KeyCall} (ht : Typed keyBuffer (cs ++ [.inScancode])) :
    Typed keyBuffer cs ∧ after keyBuffer (cs ++ [.inScancode]) = after keyBuffer cs := by
  obtain ⟨cs₁, keyCode, cs₂, he, htaken⟩ := ht
  rcases List.eq_nil_or_concat cs₂ with rfl | ⟨cs₂, c, rfl⟩
  · have := (List.append_inj' he rfl).2
    simp at this
  · rw [List.concat_eq_append, ← List.cons_append, ← List.append_assoc] at he
    obtain ⟨rfl, hc⟩ := List.append_inj' he rfl
    have hstep : after keyBuffer (cs₁ ++ .interrupt keyCode :: cs₂ ++ [.inScancode]) =
        (after keyBuffer (cs₁ ++ .interrupt keyCode :: cs₂)).scancodeCall.2 := after_concat _ _ _
    have hle := (taken_mono keyBuffer cs₁ (.interrupt keyCode :: cs₂)).length_le
    have hinv := callInv_after keyBuffer (cs₁ ++ .interrupt keyCode :: cs₂)
    rw [hstep] at htaken ⊢
    by_cases hne : (after keyBuffer (cs₁ ++ .interrupt keyCode :: cs₂)).keyBufferHead =
        (after keyBuffer (cs₁ ++ .interrupt keyCode :: cs₂)).keyBufferTail
    · rw [scancodeCall_of_eq hne] at htaken ⊢
      exact ⟨⟨cs₁, keyCode, cs₂, rfl, htaken⟩, rfl⟩
    · have hlen := congrArg List.length ((hinv.scancodeCall hne).2.1.symm.trans htaken)
      rw [List.length_append, List.length_singleton] at hlen
      omega

/-- **When a buffer with something typed looks empty.** In a run of calls the buffer never looks empty
while a scancode came in since the last one was taken out, if and only if every interrupt of the run
is spaced: none is taken out yet, or it does not put the writer ahead of the reader by a multiple of
16 scancodes. -/
theorem buffer_looks_empty_iff (keyBuffer : Nat → UInt8) (cs : List KeyCall) :
    (∀ cs₁, cs₁ <+: cs → Typed keyBuffer cs₁ → Waiting (after keyBuffer cs₁)) ↔
      ∀ cs₁ c, cs₁ ++ [c] <+: cs → c.Spaced (after keyBuffer cs₁) := by
  constructor
  · intro h cs₁ c hc
    cases c with
    | inScancode => trivial
    | interrupt keyCode =>
      have hinv := callInv_after keyBuffer cs₁
      have hw := h _ hc ⟨cs₁, keyCode, [], rfl, by rw [after_concat]; rfl⟩
      rw [after_concat] at hw
      exact (hinv.interrupt_ne_iff keyCode).mp hw.ne
  · intro h cs₁ hc ht
    induction cs₁ using List.reverseRecOn with
    | nil =>
      obtain ⟨cs₁, keyCode, cs₂, he, -⟩ := ht
      simp at he
    | append_singleton cs₁ c ih =>
      have hinv := callInv_after keyBuffer cs₁
      cases c with
      | interrupt keyCode =>
        rw [after_concat]
        exact (hinv.interrupt keyCode).waiting ((hinv.interrupt_ne_iff keyCode).mpr (h _ _ hc))
      | inScancode =>
        obtain ⟨ht', he⟩ := typed_inScancode ht
        rw [he]
        exact ih ((List.prefix_append cs₁ _).trans hc) ht'

/-- One scancode is taken out, then sixteen are typed: the buffer looks empty and the next call
returns 0. -/
theorem full_buffer_looks_empty :
    let cs := .interrupt 30 :: .inScancode :: List.replicate 16 (.interrupt 31)
    Typed (fun _ => 0) cs ∧ ¬ Waiting (after (fun _ => 0) cs) ∧
      (after (fun _ => 0) cs).scancodeCall.1 = 0 := by
  refine ⟨⟨[.interrupt 30, .inScancode], 31, List.replicate 15 (.interrupt 31), rfl, rfl⟩,
    fun hw => hw.ne rfl, rfl⟩

end C4os
