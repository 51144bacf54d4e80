import C4os.Drivers.InChar
import C4os.Drivers.Tty
import Mathlib.Data.List.TakeWhile

/-!
# Line input (`tty.c`)

* `Edit`, `inString`: `in_string` over the characters that `in_char` returns, with its echo.
* `edit`: what a character does to the line; `echoed`: what it puts on the screen.
* **`inString_line`**: the buffer gets the edited line, and nothing is written behind it.
* **`inString_echo_iff`**: the screen shows that line unless a character is erased.
-/

namespace C4os

/-- The characters that successive calls `in_char(true)` return. -/
def FromInChar (chars : List UInt8) : Prop := ∃ behind bs s, charsWait behind bs s = chars

/-- The variables of `in_string`, the console, and the indices of `buffer` that were written. -/
structure Edit where
  buffer : Nat → UInt8
  position : UInt32
  tty : Tty
  written : List Nat

namespace Edit

/-- `buffer[position] = chr`. -/
def store (chr : UInt8) (s : Edit) : Edit :=
  { s with
    buffer := Function.update s.buffer s.position.toNat chr
    written := s.written ++ [s.position.toNat] }

/-- The `switch` of `in_string`. -/
def step (bufferSize : UInt32) (chr : UInt8) (s : Edit) : Edit :=
  if chr = 0 then s
  else if chr = 8 then
    if s.position > 0 then { s with position := s.position - 1, tty := s.tty.outChar 8 } else s
  else if chr = 10 then { s with tty := s.tty.outChar 10 }
  else if s.position < bufferSize - 1 then
    let s := s.store chr
    { s with position := s.position + 1, tty := s.tty.outChar chr }
  else s

end Edit

/-- The loop of `in_string` and the store behind it: the result and the characters that are left,
unless it waits for more. -/
def inStringLoop (bufferSize : UInt32) : List UInt8 → Edit → Option (Edit × List UInt8)
  | [], _ => none
  | chr :: chars, s =>
    let s := s.step bufferSize chr
    if chr ≠ 10 then inStringLoop bufferSize chars s else some (s.store 0, chars)

/-- `in_string`. -/
def inString (buffer : Nat → UInt8) (bufferSize : UInt32) (tty : Tty) (chars : List UInt8) :
    Option (Edit × List UInt8) :=
  inStringLoop bufferSize chars ⟨buffer, 0, tty, []⟩

/-- The state just before the newline is handled. -/
def beforeNewline (buffer : Nat → UInt8) (bufferSize : UInt32) (tty : Tty) (chars : List UInt8) :
    Edit :=
  (chars.takeWhile (· ≠ 10)).foldl (fun s chr => s.step bufferSize chr) ⟨buffer, 0, tty, []⟩

theorem FromInChar.ne_zero {chars : List UInt8} (h : FromInChar chars) : ∀ chr ∈ chars, chr ≠ 0 := by
  obtain ⟨behind, bs, s, rfl⟩ := h
  exact charsWait_ne_zero

/-! ## The line -/

/-- A backspace removes the last character, any other one is appended when it fits. -/
def edit (bufferSize : Nat) (kept : List UInt8) (chr : UInt8) : List UInt8 :=
  if chr = 8 then kept.dropLast
  else if kept.length < bufferSize - 1 then kept ++ [chr] else kept

/-- The line that the characters before the first newline make. -/
def typedLine (bufferSize : Nat) (chars : List UInt8) : List UInt8 :=
  (chars.takeWhile (· ≠ 10)).foldl (edit bufferSize) []

/-- The buffer holds the line, which fits with its NUL, and only cells of the buffer changed. -/
structure Holds (buffer : Nat → UInt8) (bufferSize : UInt32) (s : Edit) (kept : List UInt8) :
    Prop where
  position : s.position.toNat = kept.length
  fits : kept.length < bufferSize.toNat
  cells : ∀ i < kept.length, kept[i]? = some (s.buffer i)
  written : ∀ i ∈ s.written, i < bufferSize.toNat
  rest : ∀ i, i ∉ s.written → s.buffer i = buffer i

variable {buffer : Nat → UInt8} {bufferSize : UInt32} {s : Edit} {kept : List UInt8} {chars : List UInt8}

/-- **One character.** -/
theorem Holds.step (h : Holds buffer bufferSize s kept) {chr : UInt8} (h0 : chr ≠ 0) (hn : chr ≠ 10) :
    Holds buffer bufferSize (s.step bufferSize chr) (edit bufferSize.toNat kept chr) := by
  obtain ⟨hpos, hfits, hcells, hwritten, hrest⟩ := h
  have hsize := bufferSize.toNat_lt
  unfold Edit.step edit
  rw [if_neg h0]
  by_cases h8 : chr = 8
  · rw [if_pos h8, if_pos h8]
    by_cases hp : s.position > 0
    · rw [if_pos hp]
      rw [gt_iff_lt, UInt32.lt_iff_toNat_lt] at hp
      have hsub : (s.position - 1).toNat = kept.length - 1 := by
        rw [UInt32.toNat_sub_of_le _ _ (by rw [UInt32.le_iff_toNat_le]; exact hp), hpos]
        rfl
      refine ⟨by rw [List.length_dropLast]; exact hsub, ?_, fun i hi => ?_, hwritten, hrest⟩
      · rw [List.length_dropLast]
        omega
      · rw [List.length_dropLast] at hi
        rw [List.getElem?_dropLast, if_pos hi]
        exact hcells i (by omega)
    · rw [if_neg hp]
      have hnil : kept = [] := by
        rw [gt_iff_lt, UInt32.lt_iff_toNat_lt, hpos] at hp
        exact List.length_eq_zero_iff.mp (Nat.eq_zero_of_not_pos hp)
      rw [hnil] at hpos hfits hcells ⊢
      exact ⟨hpos, hfits, hcells, hwritten, hrest⟩
  · rw [if_neg h8, if_neg h8, if_neg hn]
    have hsub : (bufferSize - 1).toNat = bufferSize.toNat - 1 :=
      UInt32.toNat_sub_of_le _ _ (by
        rw [UInt32.le_iff_toNat_le]
        exact Nat.one_le_of_lt hfits)
    by_cases hp : kept.length < bufferSize.toNat - 1
    · rw [if_pos (by rw [UInt32.lt_iff_toNat_lt, hpos, hsub]; exact hp), if_pos hp]
      have hadd : (s.position + 1).toNat = kept.length + 1 := by
        rw [UInt32.toNat_add, hpos]
        show (kept.length + 1) % 2 ^ 32 = _
        exact Nat.mod_eq_of_lt (by omega)
      refine ⟨by rw [List.length_append]; exact hadd, ?_, fun i hi => ?_, fun i hi => ?_,
        fun i hi => ?_⟩
      · rw [List.length_append, List.length_singleton]
        omega
      · show _ = some (Function.update s.buffer s.position.toNat chr i)
        rw [List.length_append, List.length_singleton] at hi
        rw [hpos]
        by_cases hil : i = kept.length
        · rw [hil, List.getElem?_concat_length, Function.update_self]
        · rw [List.getElem?_append_left (by omega), Function.update_of_ne hil]
          exact hcells i (by omega)
      · rcases List.mem_append.mp hi with hi | hi
        · exact hwritten i hi
        · rw [List.mem_singleton.mp hi, hpos]
          exact hfits
      · obtain ⟨hi, hip⟩ := not_or.mp fun e => hi (List.mem_append.mpr e)
        show Function.update s.buffer s.position.toNat chr i = _
        rw [Function.update_of_ne (fun e => hip (by simp [e]))]
        exact hrest i hi
    · rw [if_neg (by rw [UInt32.lt_iff_toNat_lt, hpos, hsub]; exact hp), if_neg hp]
      exact ⟨hpos, hfits, hcells, hwritten, hrest⟩

theorem Holds.store_zero (h : Holds buffer bufferSize s kept) :
    (∀ i ∈ (s.store 0).written, i < bufferSize.toNat) ∧
      (∀ i, i ∉ (s.store 0).written → (s.store 0).buffer i = buffer i) ∧
      (∀ i < kept.length, kept[i]? = some ((s.store 0).buffer i)) ∧
      (s.store 0).buffer kept.length = 0 := by
  unfold Edit.store
  rw [h.position]
  refine ⟨fun i hi => ?_, fun i hi => ?_, fun i hi => ?_, Function.update_self _ _ _⟩
  · rcases List.mem_append.mp hi with hi | hi
    · exact h.written i hi
    · rw [List.mem_singleton.mp hi]
      exact h.fits
  · obtain ⟨hi, hip⟩ := not_or.mp fun e => hi (List.mem_append.mpr e)
    dsimp only
    rw [Function.update_of_ne (fun e => hip (by simp [e]))]
    exact h.rest i hi
  · dsimp only
    rw [Function.update_of_ne (Nat.ne_of_lt hi)]
    exact h.cells i hi

theorem Holds.steps (h : Holds buffer bufferSize s kept) (hc : ∀ chr ∈ chars, chr ≠ 0 ∧ chr ≠ 10) :
    Holds buffer bufferSize (chars.foldl (fun s chr => s.step bufferSize chr) s)
      (chars.foldl (edit bufferSize.toNat) kept) := by
  induction chars generalizing s kept with
  | nil => exact h
  | cons chr chars ih =>
    have h' := hc chr (by simp)
    exact ih (h.step h'.1 h'.2) fun c hc' => hc c (by simp [hc'])

theorem mem_edit_foldl {n : Nat} {c : UInt8} (hc : c ∈ chars.foldl (edit n) kept) :
    c ∈ kept ∨ c ∈ chars := by
  induction chars generalizing kept with
  | nil => exact Or.inl hc
  | cons chr chars ih =>
    rcases ih hc with h | h
    · unfold edit at h
      split_ifs at h
      · exact Or.inl (List.mem_of_mem_dropLast h)
      · rcases List.mem_append.mp h with h | h
        · exact Or.inl h
        · exact Or.inr (by simp [List.mem_singleton.mp h])
      · exact Or.inl h
    · exact Or.inr (List.mem_cons_of_mem _ h)

theorem inStringLoop_eq (bufferSize : UInt32) (s : Edit) (hn : 10 ∈ chars) :
    ∃ rest, chars = chars.takeWhile (· ≠ 10) ++ 10 :: rest ∧
      inStringLoop bufferSize chars s = some
        ((((chars.takeWhile (· ≠ 10)).foldl (fun s chr => s.step bufferSize chr) s).step
          bufferSize 10).store 0, rest) := by
  induction chars generalizing s with
  | nil => simp at hn
  | cons chr chars ih =>
    rw [inStringLoop]
    by_cases h10 : chr = 10
    · subst h10
      exact ⟨chars, rfl, rfl⟩
    · obtain ⟨rest, he, hr⟩ := ih (s := s.step bufferSize chr)
        ((List.mem_cons.mp hn).resolve_left (Ne.symm h10))
      rw [List.takeWhile_cons_of_pos (by simpa using h10)]
      refine ⟨rest, congrArg (chr :: ·) he, ?_⟩
      rw [if_pos h10, hr]
      rfl

theorem holds_start (buffer : Nat → UInt8) (tty : Tty) (hs : 1 ≤ bufferSize) :
    Holds buffer bufferSize ⟨buffer, 0, tty, []⟩ [] :=
  ⟨rfl, UInt32.le_iff_toNat_le.mp hs, by simp, by simp, fun _ _ => rfl⟩

theorem holds_beforeNewline (buffer : Nat → UInt8) (tty : Tty) (hs : 1 ≤ bufferSize)
    (hc : FromInChar chars) :
    Holds buffer bufferSize (beforeNewline buffer bufferSize tty chars)
      (typedLine bufferSize.toNat chars) := by
  refine (holds_start buffer tty hs).steps fun chr hchr => ⟨hc.ne_zero chr ?_, ?_⟩
  · exact (List.takeWhile_prefix _).subset hchr
  · simpa using List.mem_takeWhile_imp hchr

/-- **Line input is bounded and edits correctly.** With a newline to come, `in_string` takes the
characters up to the first one, writes below `buffer_size` only, and leaves the typed line and a
NUL in the buffer; the line holds no other NUL. -/
theorem inString_line (buffer : Nat → UInt8) (tty : Tty) (hs : 1 ≤ bufferSize)
    (hc : FromInChar chars) (hn : 10 ∈ chars) :
    let kept := typedLine bufferSize.toNat chars
    ∃ s rest, inString buffer bufferSize tty chars = some (s, rest) ∧
      chars = chars.takeWhile (· ≠ 10) ++ 10 :: rest ∧
      (∀ i ∈ s.written, i < bufferSize.toNat) ∧
      (∀ i, i ∉ s.written → s.buffer i = buffer i) ∧
      (∀ i < kept.length, kept[i]? = some (s.buffer i)) ∧ s.buffer kept.length = 0 ∧ 0 ∉ kept := by
  intro kept
  have h := holds_beforeNewline buffer tty hs hc
  obtain ⟨rest, he, hr⟩ := inStringLoop_eq bufferSize ⟨buffer, 0, tty, []⟩ hn
  have hnl : Holds buffer bufferSize ((beforeNewline buffer bufferSize tty chars).step bufferSize 10)
      kept := ⟨h.position, h.fits, h.cells, h.written, h.rest⟩
  obtain ⟨hw, hrest, hcells, hnul⟩ := hnl.store_zero
  refine ⟨_, rest, hr, he, hw, hrest, hcells, hnul, fun h0 => ?_⟩
  rcases mem_edit_foldl h0 with h0 | h0
  · simp at h0
  · exact hc.ne_zero 0 ((List.takeWhile_prefix _).subset h0) rfl

/-- The scancodes of `a`, a backspace, `b` and the newline. -/
theorem inString_line_erase :
    FromInChar [97, 8, 98, 10] ∧
      ∃ s rest, inString (fun _ => 1) 4 ⟨80, 25, 0, 7, fun _ => 0, fun _ => 0⟩ [97, 8, 98, 10] =
        some (s, rest) ∧ s.buffer 0 = 98 ∧ s.buffer 1 = 0 := by
  have hc : FromInChar [97, 8, 98, 10] :=
    ⟨fun _ _ => 0, [0x1E, 0x9E, 0x0E, 0x30, 0x1C], ⟨false, []⟩, by decide⟩
  obtain ⟨s, rest, hr, -, -, -, hcells, hnul, -⟩ := inString_line (fun _ => 1)
    ⟨80, 25, 0, 7, fun _ => 0, fun _ => 0⟩ (show (1 : UInt32) ≤ 4 by decide) hc (by decide)
  exact ⟨hc, s, rest, hr, Option.some.inj (hcells 0 (by decide)).symm, hnul⟩

/-! ## The echo -/

/-- What a character puts on the screen. -/
def echoed (bufferSize : Nat) (kept : List UInt8) (chr : UInt8) : List UInt8 :=
  if chr = 8 then if kept = [] then [] else [8]
  else if kept.length < bufferSize - 1 then [chr] else []

/-- What the characters put on the screen, one after the other. -/
def echo (bufferSize : Nat) : List UInt8 → List UInt8 → List UInt8
  | _, [] => []
  | kept, chr :: chars =>
    echoed bufferSize kept chr ++ echo bufferSize (edit bufferSize kept chr) chars

/-- The screen cells from `start` up to the cursor hold the kept characters, in order. -/
structure Shown (start : Nat) (s : Edit) : Prop where
  cursor : s.tty.cursor = start + s.position.toNat
  cells : ∀ i < s.position.toNat, (s.tty.cell (start + i)).chr = s.buffer i

/-- **One character's echo.** -/
theorem Holds.echoed (h : Holds buffer bufferSize s kept) {chr : UInt8} (h0 : chr ≠ 0)
    (hn : chr ≠ 10) :
    (s.step bufferSize chr).tty = (C4os.echoed bufferSize.toNat kept chr).foldl
      (fun t c => t.outChar c) s.tty := by
  have hfits := h.fits
  unfold Edit.step C4os.echoed
  rw [if_neg h0]
  by_cases h8 : chr = 8
  · rw [if_pos h8, if_pos h8]
    by_cases hp : kept = []
    · have hpos : ¬ s.position > 0 := by
        rw [gt_iff_lt, UInt32.lt_iff_toNat_lt, h.position, hp]
        exact Nat.lt_irrefl 0
      rw [if_neg hpos, if_pos hp]
      rfl
    · have hpos : s.position > 0 := by
        rw [gt_iff_lt, UInt32.lt_iff_toNat_lt, h.position]
        exact List.length_pos_iff.mpr hp
      rw [if_pos hpos, if_neg hp]
      rfl
  · rw [if_neg h8, if_neg h8, if_neg hn]
    have hsub : (bufferSize - 1).toNat = bufferSize.toNat - 1 :=
      UInt32.toNat_sub_of_le _ _ (by
        rw [UInt32.le_iff_toNat_le]
        exact Nat.one_le_of_lt hfits)
    by_cases hp : kept.length < bufferSize.toNat - 1
    · rw [if_pos (by rw [UInt32.lt_iff_toNat_lt, h.position, hsub]; exact hp), if_pos hp]
      rfl
    · rw [if_neg (by rw [UInt32.lt_iff_toNat_lt, h.position, hsub]; exact hp), if_neg hp]
      rfl

theorem Holds.echo (h : Holds buffer bufferSize s kept)
    (hc : ∀ chr ∈ chars, chr ≠ 0 ∧ chr ≠ 10) :
    (chars.foldl (fun s chr => s.step bufferSize chr) s).tty =
      (C4os.echo bufferSize.toNat kept chars).foldl (fun t c => t.outChar c) s.tty := by
  induction chars generalizing s kept with
  | nil => rfl
  | cons chr chars ih =>
    have h' := hc chr (by simp)
    rw [C4os.echo, List.foldl_append, ← h.echoed h'.1 h'.2]
    exact ih (h.step h'.1 h'.2) fun c hc' => hc c (by simp [hc'])

theorem outChar_cell (chr : UInt8) {t : Tty} (hn : chr ≠ 10)
    (hfit : t.cursor + 1 < t.ttyWidth * t.ttyHeight) :
    (t.outChar chr).cursor = t.cursor + 1 ∧
      (t.outChar chr).ttyWidth * (t.outChar chr).ttyHeight = t.ttyWidth * t.ttyHeight ∧
      ∀ i, (t.outChar chr).cell i = if i = t.cursor then ⟨chr, t.textAttr⟩ else t.cell i := by
  have he : t.outChar chr = Tty.showCursor { t.store chr with cursor := t.cursor + 1 } := by
    unfold Tty.outChar
    rw [if_neg hn]
    exact Tty.moveCursor_of_lt hfit
  rw [he]
  refine ⟨rfl, rfl, fun i => ?_⟩
  show TtyChar.mk
    (Function.update (Function.update t.mem (2 * t.cursor) chr) (2 * t.cursor + 1) t.textAttr
      (2 * i))
    (Function.update (Function.update t.mem (2 * t.cursor) chr) (2 * t.cursor + 1) t.textAttr
      (2 * i + 1)) = _
  by_cases hi : i = t.cursor
  · rw [if_pos hi, hi, Function.update_of_ne (by omega), Function.update_self,
      Function.update_self]
  · rw [if_neg hi, Function.update_of_ne (by omega), Function.update_of_ne (by omega),
      Function.update_of_ne (by omega), Function.update_of_ne (by omega)]
    rfl

/-- **Characters that do not scroll** go to the cells from the cursor on. -/
theorem outChars_cells {str : List UInt8} {t : Tty} (hn : 10 ∉ str)
    (hfit : t.cursor + str.length < t.ttyWidth * t.ttyHeight) :
    (str.foldl (fun t c => t.outChar c) t).cursor = t.cursor + str.length ∧
      (∀ i < t.cursor, (str.foldl (fun t c => t.outChar c) t).cell i = t.cell i) ∧
      ∀ i < str.length,
        str[i]? = some ((str.foldl (fun t c => t.outChar c) t).cell (t.cursor + i)).chr := by
  induction str generalizing t with
  | nil => exact ⟨rfl, fun _ _ => rfl, by simp⟩
  | cons chr str ih =>
    rw [List.length_cons] at hfit
    have hfirst : t.cursor + 1 < t.ttyWidth * t.ttyHeight := by omega
    obtain ⟨hcur, hsize, hcell⟩ := outChar_cell chr (fun e => hn (by simp [e])) hfirst
    obtain ⟨hcur', hkeep, hstr⟩ := ih (t := t.outChar chr) (fun e => hn (by simp [e]))
      (by rw [hcur, hsize]; omega)
    rw [hcur] at hcur' hkeep hstr
    rw [List.foldl_cons, List.length_cons]
    refine ⟨by rw [hcur']; omega, fun i hi => ?_, fun i hi => ?_⟩
    · rw [hkeep i (by omega), hcell, if_neg (by omega)]
    · cases i with
      | zero => rw [Nat.add_zero, hkeep _ (by omega), hcell, if_pos rfl, List.getElem?_cons_zero]
      | succ i =>
        rw [List.getElem?_cons_succ, hstr i (by omega)]
        congr 3
        omega

/-! ## Erased characters -/

/-- Nothing is kept, or no backspace comes behind the first character that is none. -/
def NoErase (bufferSize : Nat) (chars : List UInt8) : Prop :=
  bufferSize = 1 ∨ 8 ∉ (chars.takeWhile (· ≠ 10)).dropWhile (· = 8)

theorem length_edit_le (n : Nat) (kept chars : List UInt8) :
    (chars.foldl (edit n) kept).length ≤ kept.length + (echo n kept chars).length := by
  induction chars generalizing kept with
  | nil => exact Nat.le_refl _
  | cons chr chars ih =>
    have h := ih (edit n kept chr)
    have hstep : (edit n kept chr).length ≤ kept.length + (echoed n kept chr).length := by
      unfold edit echoed
      split_ifs <;> simp
      omega
    rw [List.foldl_cons, echo, List.length_append]
    omega

theorem length_edit_lt {n : Nat} {kept chars : List UInt8} (hl : kept ≠ []) (h8 : 8 ∈ chars) :
    (chars.foldl (edit n) kept).length < kept.length + (echo n kept chars).length := by
  induction chars generalizing kept with
  | nil => simp at h8
  | cons chr chars ih =>
    rw [List.foldl_cons, echo, List.length_append]
    by_cases hc : chr = 8
    · have h := length_edit_le n (edit n kept chr) chars
      have hpos := List.length_pos_iff.mpr hl
      have hedit : (edit n kept chr).length = kept.length - 1 := by
        rw [edit, if_pos hc, List.length_dropLast]
      have hechoed : (echoed n kept chr).length = 1 := by
        rw [echoed, if_pos hc, if_neg hl, List.length_singleton]
      omega
    · have h8' := (List.mem_cons.mp h8).resolve_left (Ne.symm hc)
      have hedit : edit n kept chr = if kept.length < n - 1 then kept ++ [chr] else kept := by
        rw [edit, if_neg hc]
      have hechoed : echoed n kept chr = if kept.length < n - 1 then [chr] else [] := by
        rw [echoed, if_neg hc]
      rw [hedit, hechoed]
      split_ifs
      · have hne : kept ++ [chr] ≠ [] := by simp
        have h := ih hne h8'
        rw [List.length_append] at h
        omega
      · have h := ih hl h8'
        rw [List.length_nil, Nat.zero_add]
        exact h

theorem edit_eq_echo (n : Nat) (kept : List UInt8) {chars : List UInt8} (h8 : 8 ∉ chars) :
    chars.foldl (edit n) kept = kept ++ echo n kept chars := by
  induction chars generalizing kept with
  | nil => simp [echo]
  | cons chr chars ih =>
    have hc : chr ≠ 8 := fun e => h8 (by simp [e])
    rw [List.foldl_cons, echo, ih _ fun e => h8 (by simp [e])]
    unfold edit echoed
    rw [if_neg hc, if_neg hc]
    split_ifs <;> simp

theorem edit_dropWhile (n : Nat) (chars : List UInt8) :
    chars.foldl (edit n) [] = (chars.dropWhile (· = 8)).foldl (edit n) [] ∧
      echo n [] chars = echo n [] (chars.dropWhile (· = 8)) := by
  induction chars with
  | nil => exact ⟨rfl, rfl⟩
  | cons chr chars ih =>
    by_cases hc : chr = 8
    · rw [List.dropWhile_cons_of_pos (by simpa using hc)]
      subst hc
      exact ih
    · rw [List.dropWhile_cons_of_neg (by simpa using hc)]
      exact ⟨rfl, rfl⟩

theorem echo_one (chars : List UInt8) :
    chars.foldl (edit 1) [] = [] ∧ echo 1 [] chars = [] := by
  have hstep : ∀ chr, edit 1 [] chr = [] ∧ echoed 1 [] chr = [] := by
    intro chr
    by_cases hc : chr = 8 <;> simp [edit, echoed, hc]
  induction chars with
  | nil => exact ⟨rfl, rfl⟩
  | cons chr chars ih => rw [List.foldl_cons, echo, (hstep chr).1, (hstep chr).2]; exact ih

theorem mem_echo {n : Nat} {kept chars : List UInt8} {c : UInt8} (hc : c ∈ echo n kept chars) :
    c = 8 ∨ c ∈ chars := by
  induction chars generalizing kept with
  | nil => simp [echo] at hc
  | cons chr chars ih =>
    rcases List.mem_append.mp hc with h | h
    · unfold echoed at h
      split_ifs at h <;> simp_all
    · exact (ih h).imp_right (List.mem_cons_of_mem _)

/-- **The screen gets what the line gets** when no character is erased. -/
theorem echo_eq_iff {n : Nat} (hn : 1 ≤ n) (chars : List UInt8) :
    echo n [] chars = chars.foldl (edit n) [] ↔ n = 1 ∨ 8 ∉ chars.dropWhile (· = 8) := by
  obtain ⟨hline, hecho⟩ := edit_dropWhile n chars
  rw [hline, hecho]
  have hhead : ∀ chr rest, chars.dropWhile (· = 8) = chr :: rest → chr ≠ 8 := by
    intro chr rest he e
    have := List.head?_dropWhile_not (fun c : UInt8 => decide (c = 8)) chars
    rw [he, e] at this
    simp at this
  generalize chars.dropWhile (· = 8) = cs at hhead ⊢
  by_cases h8 : 8 ∈ cs
  · cases cs with
    | nil => simp at h8
    | cons chr rest =>
      have hc := hhead chr rest rfl
      have h8' : 8 ∈ rest := (List.mem_cons.mp h8).resolve_left (Ne.symm hc)
      rcases Nat.lt_or_ge 1 n with hn1 | hn1
      · have hedit : edit n [] chr = [chr] := by
          rw [edit, if_neg hc, if_pos (by simpa using hn1), List.nil_append]
        have hechoed : echoed n [] chr = [chr] := by
          rw [echoed, if_neg hc, if_pos (by simpa using hn1)]
        have hne : [chr] ≠ [] := by simp
        have hlt := length_edit_lt (n := n) hne h8'
        rw [echo, List.foldl_cons, hedit, hechoed]
        constructor
        · intro e
          have := congrArg List.length e
          rw [List.length_append] at this
          omega
        · rintro (h1 | h8n)
          · omega
          · exact absurd h8 h8n
      · obtain rfl : n = 1 := by omega
        exact ⟨fun _ => Or.inl rfl, fun _ => (echo_one _).2.trans (echo_one _).1.symm⟩
  · have := edit_eq_echo n [] h8
    rw [List.nil_append] at this
    simp [this, h8]

/-- **When the screen shows the line.** As long as the echo does not scroll, the cells from the
starting cursor up to the cursor hold the characters kept in the buffer if and only if no character
is erased: the buffer keeps none, or no backspace is typed after the first other character. -/
theorem inString_echo_iff (buffer : Nat → UInt8) (tty : Tty) (hs : 1 ≤ bufferSize)
    (hc : FromInChar chars)
    (hfit : tty.cursor + (echo bufferSize.toNat [] (chars.takeWhile (· ≠ 10))).length <
      tty.ttyWidth * tty.ttyHeight) :
    Shown tty.cursor (beforeNewline buffer bufferSize tty chars) ↔
      NoErase bufferSize.toNat chars := by
  have hchr : ∀ chr ∈ chars.takeWhile (· ≠ 10), chr ≠ 0 ∧ chr ≠ 10 := fun chr h =>
    ⟨hc.ne_zero chr ((List.takeWhile_prefix _).subset h), by
      simpa using List.mem_takeWhile_imp h⟩
  have hstart := holds_start buffer tty hs
  have h := hstart.steps hchr
  have htty := hstart.echo hchr
  have hn10 : 10 ∉ echo bufferSize.toNat [] (chars.takeWhile (· ≠ 10)) := by
    intro h10
    rcases mem_echo h10 with h10 | h10
    · exact absurd h10 (by decide)
    · exact (hchr 10 h10).2 rfl
  obtain ⟨hcur, -, hcells⟩ := outChars_cells hn10 hfit
  rw [← htty] at hcur hcells
  unfold NoErase
  rw [← echo_eq_iff (UInt32.le_iff_toNat_le.mp hs)]
  have hpos : (beforeNewline buffer bufferSize tty chars).position.toNat = _ := h.position
  constructor
  · intro hshown
    have hlen := hshown.cursor.symm.trans hcur
    rw [hpos] at hlen
    refine List.ext_getElem (by omega) fun i hi hi' => ?_
    have hcell := hshown.cells i (by rw [hpos]; exact hi')
    have h1 := hcells i hi
    have h2 := h.cells i hi'
    rw [List.getElem?_eq_getElem hi] at h1
    rw [List.getElem?_eq_getElem hi'] at h2
    exact (Option.some.inj h1).trans (hcell.trans (Option.some.inj h2).symm)
  · intro he
    refine ⟨?_, fun i hi => ?_⟩
    · rw [hpos, ← he]
      exact hcur
    · rw [hpos] at hi
      have h2 := h.cells i hi
      rw [← he, hcells i (by rw [he]; exact hi)] at h2
      exact Option.some.inj h2

theorem inString_echo_iff_plain :
    Shown 5 (beforeNewline (fun _ => 0) 4 ⟨80, 25, 5, 7, fun _ => 0, fun _ => 0⟩ [97, 98, 10]) :=
  (inString_echo_iff (fun _ => 0) ⟨80, 25, 5, 7, fun _ => 0, fun _ => 0⟩
    (show (1 : UInt32) ≤ 4 by decide) ⟨fun _ _ => 0, [0x1E, 0x30, 0x1C], ⟨false, []⟩, by decide⟩
    (by decide)).mpr
    (Or.inr (by decide))

/-- After `a` and a backspace the buffer is empty and the screen shows two characters. -/
theorem erased_on_screen :
    let s := beforeNewline (fun _ => 0) 4 ⟨80, 25, 5, 7, fun _ => 0, fun _ => 0⟩ [97, 8, 10]
    FromInChar [97, 8, 10] ∧ ¬ Shown 5 s ∧ s.position = 0 ∧ s.tty.cursor = 7 ∧
      s.tty.cell 5 = ⟨97, 7⟩ ∧ s.tty.cell 6 = ⟨8, 7⟩ := by
  refine ⟨⟨fun _ _ => 0, [0x1E, 0x0E, 0x1C], ⟨false, []⟩, by decide⟩, fun h => ?_, by decide,
    by decide, by decide, by decide⟩
  exact absurd h.cursor (by decide)

end C4os
