import C4os.Drivers.Tty

/-!
# The accesses of the console to its buffer (`tty.c`, `stdlib.c`)

* `Traced`: memory that records the byte offsets which are read or written; `memcpy` and
  `memset_word` on it.
* `Console`: the console on such memory; `Console.call_tty`: otherwise it is the console.
* `charCursor`, `stringCursor`, `callCursor`: where a call that does not scroll leaves the cursor.
* **`console_accesses_iff`**: the sequences of calls that stay in the mapped page.
-/

namespace C4os

/-- Memory, with the offsets that were read or written. -/
structure Traced where
  mem : Bytes
  accesses : List Nat

namespace Traced

/-- A read, which is recorded. -/
def read (a : Nat) (m : Traced) : UInt8 × Traced :=
  (m.mem a, { m with accesses := m.accesses ++ [a] })

/-- A write, which is recorded. -/
def write (a : Nat) (v : UInt8) (m : Traced) : Traced :=
  { mem := Function.update m.mem a v
    accesses := m.accesses ++ [a] }

/-- `memcpy`. -/
def memcpy (dest src : Nat) : Nat → Traced → Traced
  | 0, m => m
  | len + 1, m =>
    let r := m.read src
    memcpy (dest + 1) (src + 1) len (r.2.write dest r.1)

/-- The store of a double word. -/
def store32 (a x : Nat) (m : Traced) : Traced :=
  (((m.write a (byteOf x 0)).write (a + 1) (byteOf x 1)).write (a + 2) (byteOf x 2)).write (a + 3)
    (byteOf x 3)

/-- `rep stosl`. -/
def repStosl (eax : Nat) : Nat → Nat → Traced → Traced
  | _, 0, m => m
  | edi, ecx + 1, m => repStosl eax (edi + 4) ecx (m.store32 edi eax)

/-- `memset_word`. -/
def memsetWord (mem value count : Nat) (m : Traced) : Traced :=
  m.repStosl (value ||| value <<< 16) mem (count >>> 1)

variable {m : Traced} {dest src len a x : Nat}

@[simp] theorem memcpy_mem : (m.memcpy dest src len).mem = C4os.memcpy dest src len m.mem := by
  induction len generalizing dest src m with
  | zero => rfl
  | succ len ih => exact ih

theorem store32_mem : (m.store32 a x).mem = C4os.store32 a x m.mem := by
  funext i
  show Function.update (Function.update (Function.update (Function.update m.mem _ _) _ _) _ _) _ _ i
    = C4os.store32 a x m.mem i
  unfold C4os.store32
  by_cases hi : a ≤ i ∧ i < a + 4
  · obtain ⟨k, rfl⟩ := Nat.exists_eq_add_of_le hi.1
    rw [if_pos hi, Nat.add_sub_cancel_left]
    have hk : k = 0 ∨ k = 1 ∨ k = 2 ∨ k = 3 := by omega
    rcases hk with rfl | rfl | rfl | rfl <;> simp [Function.update]
  · rw [if_neg hi, Function.update_of_ne (by omega), Function.update_of_ne (by omega),
      Function.update_of_ne (by omega), Function.update_of_ne (by omega)]

@[simp] theorem repStosl_mem {eax edi ecx : Nat} :
    (m.repStosl eax edi ecx).mem = C4os.repStosl eax edi ecx m.mem := by
  induction ecx generalizing edi m with
  | zero => rfl
  | succ n ih => exact ih.trans (congrArg _ store32_mem)

@[simp] theorem memsetWord_mem {mem value count : Nat} :
    (m.memsetWord mem value count).mem = C4os.memsetWord mem value count m.mem := repStosl_mem

/-- **A copy** reads its source and writes its destination. -/
theorem mem_memcpy {i : Nat} : i ∈ (m.memcpy dest src len).accesses ↔
    i ∈ m.accesses ∨ (dest ≤ i ∧ i < dest + len) ∨ (src ≤ i ∧ i < src + len) := by
  induction len generalizing dest src m with
  | zero =>
    exact ⟨Or.inl, fun h => h.resolve_right (by omega)⟩
  | succ len ih =>
    refine ih.trans ?_
    show i ∈ m.accesses ++ [src] ++ [dest] ∨ _ ↔ _
    simp only [List.mem_append, List.mem_singleton]
    by_cases hi : i ∈ m.accesses
    · simp [hi]
    · simp only [hi, false_or]
      omega

theorem mem_repStosl {eax edi ecx i : Nat} : i ∈ (m.repStosl eax edi ecx).accesses ↔
    i ∈ m.accesses ∨ (edi ≤ i ∧ i < edi + 4 * ecx) := by
  induction ecx generalizing edi m with
  | zero =>
    exact ⟨Or.inl, fun h => h.resolve_right (by omega)⟩
  | succ n ih =>
    refine ih.trans ?_
    show i ∈ m.accesses ++ [edi] ++ [edi + 1] ++ [edi + 2] ++ [edi + 3] ∨ _ ↔ _
    simp only [List.mem_append, List.mem_singleton]
    by_cases hi : i ∈ m.accesses
    · simp [hi]
    · simp only [hi, false_or]
      omega

/-- **A fill** writes two bytes for each word; an odd last word is left out. -/
theorem mem_memsetWord {mem value count i : Nat} : i ∈ (m.memsetWord mem value count).accesses ↔
    i ∈ m.accesses ∨ (mem ≤ i ∧ i < mem + 4 * (count / 2)) := by
  unfold memsetWord
  rw [mem_repStosl, Nat.shiftRight_eq_div_pow, Nat.pow_one]

end Traced

/-- The console, with the offsets of `tty_buffer` that were read or written. -/
structure Console where
  tty : Tty
  accesses : List Nat

namespace Console

/-- The buffer of the console. -/
def traced (s : Console) : Traced := ⟨s.tty.mem, s.accesses⟩

/-- The console with other memory. -/
def withMem (s : Console) (m : Traced) : Console := ⟨{ s.tty with mem := m.mem }, m.accesses⟩

/-- The scroll of `move_cursor`. -/
def scroll (s : Console) : Console :=
  let s : Console := { s with tty := { s.tty with cursor := (s.tty.ttyHeight - 1) * s.tty.ttyWidth } }
  let s := s.withMem (s.traced.memcpy 0 (2 * s.tty.ttyWidth) (s.tty.ttyWidth * s.tty.ttyHeight * 2))
  s.withMem (s.traced.memsetWord (2 * (s.tty.ttyWidth * (s.tty.ttyHeight - 1))) s.tty.blankWord
    s.tty.ttyWidth)

/-- `move_cursor`. -/
def moveCursor (pos : Nat) (s : Console) : Console :=
  let s : Console := { s with tty := { s.tty with cursor := pos } }
  let s := if s.tty.cursor ≥ s.tty.ttyWidth * s.tty.ttyHeight then s.scroll else s
  { s with tty := s.tty.showCursor }

/-- `tty_buffer[cursor].chr = chr`, then the attribute. -/
def store (chr : UInt8) (s : Console) : Console :=
  let s := s.withMem (s.traced.write (2 * s.tty.cursor) chr)
  s.withMem (s.traced.write (2 * s.tty.cursor + 1) s.tty.textAttr)

/-- `out_char`. -/
def outChar (chr : UInt8) (s : Console) : Console :=
  if chr = 10 then s.moveCursor ((s.tty.cursor / s.tty.ttyWidth + 1) * s.tty.ttyWidth)
  else (s.store chr).moveCursor ((s.store chr).tty.cursor + 1)

/-- `out_string`, up to the terminating NUL. -/
def outString : List UInt8 → Console → Console
  | [], s => s
  | chr :: str, s => if chr = 0 then s else outString str (s.outChar chr)

/-- `clear_screen`. -/
def clearScreen (s : Console) : Console :=
  (s.withMem (s.traced.memsetWord 0 s.tty.blankWord (s.tty.ttyWidth * s.tty.ttyHeight))).moveCursor 0

/-- `set_text_attr`. -/
def setTextAttr (attr : UInt8) (s : Console) : Console := { s with tty := s.tty.setTextAttr attr }

/-- What a call does. -/
def call (s : Console) : TtyCall → Console
  | .outChar chr => s.outChar chr
  | .outString str => s.outString str
  | .clearScreen => s.clearScreen
  | .setTextAttr attr => s.setTextAttr attr

/-! ## Otherwise it is the console -/

variable {s : Console}

theorem scroll_tty : s.scroll.tty = s.tty.scroll := by
  unfold scroll withMem traced Tty.scroll
  simp [Tty.blankWord]

theorem moveCursor_tty (pos : Nat) : (s.moveCursor pos).tty = s.tty.moveCursor pos := by
  unfold moveCursor Tty.moveCursor
  dsimp only
  split_ifs
  · rw [scroll_tty]
  · rfl

theorem store_tty (chr : UInt8) : (s.store chr).tty = s.tty.store chr := rfl

theorem outChar_tty (chr : UInt8) : (s.outChar chr).tty = s.tty.outChar chr := by
  unfold outChar Tty.outChar
  split_ifs
  · exact moveCursor_tty _
  · rw [moveCursor_tty, store_tty]

theorem outString_tty (str : List UInt8) : (s.outString str).tty = s.tty.outString str := by
  induction str generalizing s with
  | nil => rfl
  | cons chr str ih =>
    rw [outString, Tty.outString]
    split_ifs
    · rfl
    · rw [ih, outChar_tty]

theorem clearScreen_tty : s.clearScreen.tty = s.tty.clearScreen := by
  unfold clearScreen Tty.clearScreen
  rw [moveCursor_tty]
  simp [withMem, traced]

/-- **The traced console is the console.** -/
theorem call_tty (c : TtyCall) : (s.call c).tty = s.tty.call c := by
  cases c with
  | outChar chr => exact outChar_tty chr
  | outString str => exact outString_tty str
  | clearScreen => exact clearScreen_tty
  | setTextAttr attr => rfl

/-! ## What the calls access -/

/-- The screen of `init_tty`, with the cursor on it. -/
structure OnScreen (s : Console) : Prop where
  width : s.tty.ttyWidth = 80
  height : s.tty.ttyHeight = 25
  cursor : s.tty.cursor < 80 * 25

/-- Every access so far is in the page that `init_tty` maps. -/
def Inside (s : Console) : Prop := ∀ a ∈ s.accesses, a < 4096

theorem mem_scroll {a : Nat} (hw : s.tty.ttyWidth = 80) (hh : s.tty.ttyHeight = 25) :
    a ∈ s.scroll.accesses ↔ a ∈ s.accesses ∨ a < 4160 := by
  unfold scroll
  refine Traced.mem_memsetWord.trans ?_
  refine (or_congr_left Traced.mem_memcpy).trans ?_
  show ((a ∈ s.accesses ∨ _) ∨ _) ↔ _
  simp only [withMem, traced, hw, hh]
  by_cases ha : a ∈ s.accesses
  · simp [ha]
  · simp only [ha, false_or]
    omega

theorem subset_moveCursor (pos : Nat) : s.accesses ⊆ (s.moveCursor pos).accesses := by
  intro a ha
  unfold moveCursor
  dsimp only
  split_ifs
  · exact Traced.mem_memsetWord.mpr (Or.inl (Traced.mem_memcpy.mpr (Or.inl ha)))
  · exact ha

theorem mem_store {chr : UInt8} {a : Nat} : a ∈ (s.store chr).accesses ↔
    a ∈ s.accesses ∨ a = 2 * s.tty.cursor ∨ a = 2 * s.tty.cursor + 1 := by
  show a ∈ s.accesses ++ [2 * s.tty.cursor] ++ [2 * s.tty.cursor + 1] ↔ _
  simp only [List.mem_append, List.mem_singleton, or_assoc]

theorem subset_outChar (chr : UInt8) : s.accesses ⊆ (s.outChar chr).accesses := by
  unfold outChar
  split_ifs
  · exact subset_moveCursor _
  · exact fun a ha => subset_moveCursor _ (mem_store.mpr (Or.inl ha))

theorem subset_outString (str : List UInt8) : s.accesses ⊆ (s.outString str).accesses := by
  induction str generalizing s with
  | nil => exact List.Subset.refl _
  | cons chr str ih =>
    rw [outString]
    split_ifs
    · exact List.Subset.refl _
    · exact fun a ha => ih (subset_outChar chr ha)

theorem subset_call (c : TtyCall) : s.accesses ⊆ (s.call c).accesses := by
  cases c with
  | outChar chr => exact subset_outChar chr
  | outString str => exact subset_outString str
  | clearScreen =>
    exact fun a ha => subset_moveCursor 0 (Traced.mem_memsetWord.mpr (Or.inl ha))
  | setTextAttr attr => exact List.Subset.refl _

theorem OnScreen.moveCursor (h : OnScreen s) {pos : Nat} (hpos : pos < 80 * 25) :
    OnScreen (s.moveCursor pos) ∧ (s.moveCursor pos).tty.cursor = pos ∧
      (s.moveCursor pos).accesses = s.accesses := by
  unfold Console.moveCursor
  dsimp only
  rw [if_neg (by rw [h.width, h.height]; exact Nat.not_le_of_lt hpos)]
  exact ⟨⟨h.width, h.height, hpos⟩, rfl, rfl⟩

/-- **A move below the screen** copies from behind the page. -/
theorem OnScreen.not_inside_moveCursor (h : OnScreen s) {pos : Nat} (hpos : 80 * 25 ≤ pos) :
    ¬ Inside (s.moveCursor pos) := by
  intro hin
  unfold Console.moveCursor at hin
  dsimp only at hin
  rw [if_pos (by rw [h.width, h.height]; exact hpos)] at hin
  have := hin 4096 ((mem_scroll (s := { s with tty := { s.tty with cursor := pos } }) h.width
    h.height).mpr (Or.inr (by decide)))
  omega

end Console

/-! ## Calls that do not scroll -/

/-- The cursor after a character, unless that is below the screen. -/
def charCursor (chr : UInt8) (c : Nat) : Option Nat :=
  let pos := if chr = 10 then (c / 80 + 1) * 80 else c + 1
  if pos < 80 * 25 then some pos else none

/-- The cursor behind a string, or `none` if the string scrolls. -/
def stringCursor : List UInt8 → Nat → Option Nat
  | [], c => some c
  | chr :: str, c => if chr = 0 then some c else (charCursor chr c).bind (stringCursor str)

/-- The cursor after a call that does not scroll. -/
def callCursor (c : Nat) : TtyCall → Option Nat
  | .outChar chr => charCursor chr c
  | .outString str => stringCursor str c
  | .clearScreen => some 0
  | .setTextAttr _ => some c

/-- The sequence of calls scrolls nowhere, from the cursor `c` on. -/
def NeverScrolls (c : Nat) (cs : List TtyCall) : Prop := (cs.foldlM callCursor c).isSome = true

instance (c : Nat) (cs : List TtyCall) : Decidable (NeverScrolls c cs) :=
  inferInstanceAs (Decidable (_ = true))

open Console

variable {s : Console}

/-- The console after a call: on the screen, with the cursor where it should be and no access
outside the page, or with such an access after a scroll. -/
def CallEnd (s : Console) : Option Nat → Prop
  | some c => OnScreen s ∧ s.tty.cursor = c ∧ Inside s
  | none => ¬ Inside s

theorem callEnd_moveCursor (h : OnScreen s) (hin : Inside s) (pos : Nat) :
    CallEnd (s.moveCursor pos) (if pos < 80 * 25 then some pos else none) := by
  by_cases hpos : pos < 80 * 25
  · rw [if_pos hpos]
    obtain ⟨hs, hc, ha⟩ := h.moveCursor hpos
    refine ⟨hs, hc, ?_⟩
    unfold Inside
    rw [ha]
    exact hin
  · rw [if_neg hpos]
    exact h.not_inside_moveCursor (Nat.le_of_not_lt hpos)

theorem callEnd_outChar (h : OnScreen s) (hin : Inside s) (chr : UInt8) :
    CallEnd (s.outChar chr) (charCursor chr s.tty.cursor) := by
  unfold Console.outChar charCursor
  by_cases h10 : chr = 10
  · rw [if_pos h10, if_pos h10, h.width]
    exact callEnd_moveCursor h hin _
  · rw [if_neg h10, if_neg h10]
    refine callEnd_moveCursor (s := s.store chr) ⟨h.width, h.height, h.cursor⟩ (fun a ha => ?_) _
    have hc := h.cursor
    rcases mem_store.mp ha with ha | ha | ha
    · exact hin a ha
    · omega
    · omega

theorem callEnd_outString (h : OnScreen s) (hin : Inside s) (str : List UInt8) :
    CallEnd (s.outString str) (stringCursor str s.tty.cursor) := by
  induction str generalizing s with
  | nil => exact ⟨h, rfl, hin⟩
  | cons chr str ih =>
    rw [Console.outString, stringCursor]
    by_cases h0 : chr = 0
    · rw [if_pos h0, if_pos h0]
      exact ⟨h, rfl, hin⟩
    · rw [if_neg h0, if_neg h0]
      have hend := callEnd_outChar h hin chr
      cases he : charCursor chr s.tty.cursor with
      | none =>
        rw [he] at hend
        exact fun hin' => hend fun a ha => hin' a (subset_outString str ha)
      | some c =>
        rw [he] at hend
        obtain ⟨h', rfl, hin'⟩ := hend
        exact ih h' hin'

/-- **One call.** -/
theorem callEnd_call (h : OnScreen s) (hin : Inside s) (c : TtyCall) :
    CallEnd (s.call c) (callCursor s.tty.cursor c) := by
  cases c with
  | outChar chr => exact callEnd_outChar h hin chr
  | outString str => exact callEnd_outString h hin str
  | clearScreen =>
    refine callEnd_moveCursor (s := s.withMem _) ⟨h.width, h.height, h.cursor⟩ (fun a ha => ?_) 0
    rcases Traced.mem_memsetWord.mp ha with ha | ha
    · exact hin a ha
    · rw [h.width, h.height] at ha
      omega
  | setTextAttr attr => exact ⟨⟨h.width, h.height, h.cursor⟩, rfl, hin⟩

theorem subset_calls (s : Console) (cs : List TtyCall) :
    s.accesses ⊆ (cs.foldl Console.call s).accesses := by
  induction cs generalizing s with
  | nil => exact List.Subset.refl _
  | cons c cs ih => exact fun a ha => ih (s.call c) (subset_call c ha)

theorem inside_calls_iff (h : OnScreen s) (hin : Inside s) (cs : List TtyCall) :
    Inside (cs.foldl Console.call s) ↔ NeverScrolls s.tty.cursor cs := by
  unfold NeverScrolls
  induction cs generalizing s with
  | nil => simpa using hin
  | cons c cs ih =>
    rw [List.foldl_cons, List.foldlM_cons]
    have hend := callEnd_call h hin c
    cases he : callCursor s.tty.cursor c with
    | none =>
      rw [he] at hend
      simp only [Option.bind_eq_bind, Option.bind_none, Option.isSome_none, Bool.false_eq_true,
        iff_false]
      exact fun hin' => hend fun a ha => hin' a (subset_calls _ cs ha)
    | some pos =>
      rw [he] at hend
      obtain ⟨h', rfl, hin'⟩ := hend
      exact ih h' hin'

theorem calls_tty (s : Console) (cs : List TtyCall) :
    (cs.foldl Console.call s).tty = cs.foldl Tty.call s.tty := by
  induction cs generalizing s with
  | nil => rfl
  | cons c cs ih => rw [List.foldl_cons, ih, call_tty, List.foldl_cons]

/-- **Console output stays inside its mapping** exactly as long as it does not scroll: on the screen
of 80 columns and 25 rows, every byte of `tty_buffer` that a sequence of calls reads or writes is in
the mapped page if and only if no call of the sequence scrolls. -/
theorem console_accesses_iff (tty : Tty) (hw : tty.ttyWidth = 80) (hh : tty.ttyHeight = 25)
    (hc : tty.cursor < 80 * 25) (cs : List TtyCall) :
    (cs.foldl Console.call ⟨tty, []⟩).tty = cs.foldl Tty.call tty ∧
      (Inside (cs.foldl Console.call ⟨tty, []⟩) ↔ NeverScrolls tty.cursor cs) :=
  ⟨calls_tty ⟨tty, []⟩ cs, inside_calls_iff ⟨hw, hh, hc⟩ (by simp [Inside]) cs⟩

theorem console_accesses_iff_line :
    Inside ([TtyCall.clearScreen, .outString [72, 105, 10]].foldl Console.call
      ⟨⟨80, 25, 0, 7, fun _ => 0, fun _ => 0⟩, []⟩) :=
  (console_accesses_iff ⟨80, 25, 0, 7, fun _ => 0, fun _ => 0⟩ rfl rfl (by decide) _).2.mpr
    (by decide)

/-- On the screen of `init_tty`, the newline after 24 others scrolls, and reads behind the page. -/
theorem scroll_outside_page :
    ¬ Inside ((List.replicate 25 (TtyCall.outChar 10)).foldl Console.call
      ⟨⟨80, 25, 0, 7, fun _ => 0, fun _ => 0⟩, []⟩) := by
  rw [inside_calls_iff ⟨rfl, rfl, by decide⟩ (by simp [Inside])]
  decide

end C4os
