import C4os.Stdlib.Mem

/-!
# The text console (`tty.c`)

* `Tty`: the variables of the console; `outChar`, `outString`, `clearScreen`, `moveCursor`.
* `Terminal w h`: the reference terminal, a grid of cells with a cursor in it.
* `Refines`: the cells of the screen and the cursor are those of the terminal; `Refines.moveCursor`:
  a move to the start of the next row is a new line.
* **`console_refines`**: so they stay under every sequence of calls.
-/

namespace C4os

/-- A cell of the screen. -/
structure TtyChar where
  chr : UInt8
  attr : UInt8
  deriving DecidableEq

/-- The console; `mem` is memory from `tty_buffer` on, `crtc` the registers of the video port. The
screen lies in memory, so no product of its sizes wraps. -/
structure Tty where
  ttyWidth : Nat
  ttyHeight : Nat
  cursor : Nat
  textAttr : UInt8
  mem : Bytes
  crtc : Nat → Nat

namespace Tty

/-- `tty_buffer[i]`. -/
def cell (s : Tty) (i : Nat) : TtyChar := ⟨s.mem (2 * i), s.mem (2 * i + 1)⟩

/-- `(text_attr << 8) + ' '`. -/
def blankWord (s : Tty) : Nat := s.textAttr.toNat <<< 8 + 32

/-- The screen moves up by one row. -/
def scroll (s : Tty) : Tty :=
  { s with
    cursor := (s.ttyHeight - 1) * s.ttyWidth
    mem := memsetWord (2 * (s.ttyWidth * (s.ttyHeight - 1))) s.blankWord s.ttyWidth
      (memcpy 0 (2 * s.ttyWidth) (s.ttyWidth * s.ttyHeight * 2) s.mem) }

/-- The four writes to the video port. -/
def showCursor (s : Tty) : Tty :=
  { s with
    crtc := Function.update (Function.update s.crtc 0x0E (s.cursor >>> 8)) 0x0F (s.cursor &&& 0xFF) }

/-- `move_cursor`. -/
def moveCursor (pos : Nat) (s : Tty) : Tty :=
  let s := { s with cursor := pos }
  (if s.cursor ≥ s.ttyWidth * s.ttyHeight then s.scroll else s).showCursor

/-- `tty_buffer[cursor].chr = chr`, then the attribute. -/
def store (chr : UInt8) (s : Tty) : Tty :=
  let s := { s with mem := Function.update s.mem (2 * s.cursor) chr }
  { s with mem := Function.update s.mem (2 * s.cursor + 1) s.textAttr }

/-- `out_char`. -/
def outChar (chr : UInt8) (s : Tty) : Tty :=
  if chr = 10 then s.moveCursor ((s.cursor / s.ttyWidth + 1) * s.ttyWidth)
  else (s.store chr).moveCursor ((s.store chr).cursor + 1)

/-- `out_string`, up to the terminating NUL. -/
def outString : List UInt8 → Tty → Tty
  | [], s => s
  | chr :: str, s => if chr = 0 then s else outString str (s.outChar chr)

/-- `clear_screen`. -/
def clearScreen (s : Tty) : Tty :=
  { s with mem := memsetWord 0 s.blankWord (s.ttyWidth * s.ttyHeight) s.mem }.moveCursor 0

/-- `set_text_attr`. -/
def setTextAttr (attr : UInt8) (s : Tty) : Tty := { s with textAttr := attr }

end Tty

/-! ## The reference terminal -/

/-- A grid of cells with a cursor in it. -/
structure Terminal (w h : Nat) where
  cells : Fin h → Fin w → TtyChar
  row : Fin h
  col : Fin w
  attr : UInt8

namespace Terminal

variable {w h : Nat}

/-- A blank with the attribute in force. -/
def blank (t : Terminal w h) : TtyChar := ⟨32, t.attr⟩

/-- The start of the next row; below the last row, every row moves up and the last one is blank. -/
def newLine (t : Terminal w h) : Terminal w h :=
  let start : Fin w := ⟨0, Nat.lt_of_le_of_lt (Nat.zero_le _) t.col.isLt⟩
  if hr : t.row.val + 1 < h then { t with row := ⟨t.row + 1, hr⟩, col := start }
  else
    { t with
      cells := fun r c => if hr : r.val + 1 < h then t.cells ⟨r + 1, hr⟩ c else t.blank
      col := start }

/-- The cell of the cursor. -/
def store (chr : UInt8) (t : Terminal w h) : Terminal w h :=
  { t with
    cells := Function.update t.cells t.row (Function.update (t.cells t.row) t.col ⟨chr, t.attr⟩) }

/-- One character. -/
def put (chr : UInt8) (t : Terminal w h) : Terminal w h :=
  if chr = 10 then t.newLine
  else if hc : t.col.val + 1 < w then { t.store chr with col := ⟨t.col + 1, hc⟩ }
  else (t.store chr).newLine

/-- The characters of a string before the first NUL. -/
def putString (str : List UInt8) (t : Terminal w h) : Terminal w h :=
  (str.takeWhile (· ≠ 0)).foldl (fun t chr => t.put chr) t

/-- An empty screen with the cursor in the first cell. -/
def clear (t : Terminal w h) : Terminal w h :=
  { t with
    cells := fun _ _ => t.blank
    row := ⟨0, Nat.lt_of_le_of_lt (Nat.zero_le _) t.row.isLt⟩
    col := ⟨0, Nat.lt_of_le_of_lt (Nat.zero_le _) t.col.isLt⟩ }

/-- The attribute of what is printed next. -/
def setAttr (attr : UInt8) (t : Terminal w h) : Terminal w h := { t with attr := attr }

end Terminal

/-! ## The console shows the terminal -/

/-- The sizes, the cursor, the attribute and the cells of the screen are those of the terminal. -/
structure Refines {w h : Nat} (s : Tty) (t : Terminal w h) : Prop where
  width : s.ttyWidth = w
  height : s.ttyHeight = h
  attr : s.textAttr = t.attr
  cursor : s.cursor = t.row * w + t.col
  cells : ∀ (r : Fin h) (c : Fin w), s.cell (r * w + c) = t.cells r c

variable {w h : Nat} {s : Tty} {t : Terminal w h}

theorem cell_lt {r c : Nat} (hr : r < h) (hc : c < w) : r * w + c < w * h := by
  calc r * w + c < r * w + w := by omega
    _ = (r + 1) * w := (Nat.succ_mul r w).symm
    _ ≤ h * w := Nat.mul_le_mul_right w hr
    _ = w * h := Nat.mul_comm h w

theorem Refines.cursor_lt (hr : Refines s t) : s.cursor < s.ttyWidth * s.ttyHeight := by
  rw [hr.cursor, hr.width, hr.height]
  exact cell_lt t.row.isLt t.col.isLt

theorem cell_inj {r r' c c' : Nat} (hc : c < w) (hc' : c' < w) (h : r * w + c = r' * w + c') :
    r = r' ∧ c = c' := by
  have hw : 0 < w := by omega
  have h1 := congrArg (· / w) h
  have h2 := congrArg (· % w) h
  simp only [Nat.mul_comm _ w, Nat.mul_add_div hw, Nat.mul_add_mod, Nat.div_eq_of_lt hc,
    Nat.div_eq_of_lt hc', Nat.mod_eq_of_lt hc, Nat.mod_eq_of_lt hc', Nat.add_zero] at h1 h2
  exact ⟨h1, h2⟩

/-! ## Fills -/

theorem blankWord_lt : s.blankWord < 2 ^ 16 := by
  have := s.textAttr.toNat_lt
  unfold Tty.blankWord
  omega

theorem byteOf_blankWord : byteOf s.blankWord 0 = 32 ∧ byteOf s.blankWord 1 = s.textAttr := by
  have := s.textAttr.toNat_lt
  unfold Tty.blankWord byteOf
  constructor
  · apply UInt8.toNat_inj.mp
    rw [UInt8.toNat_ofNat', Nat.mul_zero, Nat.shiftRight_zero, Nat.shiftLeft_eq]
    show _ = 32
    omega
  · apply UInt8.toNat_inj.mp
    rw [UInt8.toNat_ofNat', Nat.shiftLeft_eq, Nat.shiftRight_eq_div_pow]
    omega

theorem cell_memsetWord {a n i : Nat} {m : Bytes} (hn : 2 ∣ n) :
    ({ s with mem := memsetWord (2 * a) s.blankWord n m } : Tty).cell i =
      if a ≤ i ∧ i < a + n then ⟨32, s.textAttr⟩ else ⟨m (2 * i), m (2 * i + 1)⟩ := by
  obtain ⟨k, rfl⟩ := hn
  unfold Tty.cell
  dsimp only
  rw [memsetWord_apply blankWord_lt, memsetWord_apply blankWord_lt]
  by_cases hi : a ≤ i ∧ i < a + 2 * k
  · rw [if_pos (by omega), if_pos (by omega), if_pos hi, show (2 * i - 2 * a) % 2 = 0 by omega,
      show (2 * i + 1 - 2 * a) % 2 = 1 by omega, byteOf_blankWord.1, byteOf_blankWord.2]
  · rw [if_neg (by omega), if_neg (by omega), if_neg hi]

/-- **The scroll** moves every row up by one and blanks the last one; the row that is copied from
behind the screen does not survive. -/
theorem cell_scroll {i : Nat} (hw : 2 ∣ s.ttyWidth) (hi : i < s.ttyWidth * s.ttyHeight) :
    s.scroll.cell i = if i < s.ttyWidth * (s.ttyHeight - 1) then s.cell (i + s.ttyWidth)
      else ⟨32, s.textAttr⟩ := by
  have hrow : s.ttyWidth * (s.ttyHeight - 1) + s.ttyWidth = s.ttyWidth * s.ttyHeight := by
    have hh : 1 ≤ s.ttyHeight := Nat.pos_of_mul_pos_left (Nat.zero_lt_of_lt hi)
    rw [← Nat.mul_succ, Nat.succ_eq_add_one, Nat.sub_add_cancel hh]
  refine Eq.trans (show s.scroll.cell i = _ from cell_memsetWord hw) ?_
  by_cases hlast : i < s.ttyWidth * (s.ttyHeight - 1)
  · rw [if_neg (by omega), if_pos hlast, memcpy_apply (Nat.zero_le _),
      memcpy_apply (Nat.zero_le _), if_pos (by omega), if_pos (by omega)]
    unfold Tty.cell
    congr 2 <;> omega
  · rw [if_pos (by omega), if_neg hlast]

/-! ## One character -/

theorem Tty.moveCursor_of_lt {pos : Nat} (hpos : pos < s.ttyWidth * s.ttyHeight) :
    s.moveCursor pos = Tty.showCursor { s with cursor := pos } := by
  unfold Tty.moveCursor
  dsimp only
  rw [if_neg (by omega)]

/-- **A move to the start of the next row is a new line.** -/
theorem Refines.moveCursor (hr : Refines s t) (hw : 2 ∣ w) :
    Refines (s.moveCursor ((t.row + 1) * w)) t.newLine := by
  have hpos : 0 < w := Nat.zero_lt_of_lt t.col.isLt
  unfold Terminal.newLine
  dsimp only
  by_cases hrow : t.row.val + 1 < h
  · rw [dif_pos hrow, Tty.moveCursor_of_lt (by
      rw [hr.width, hr.height]
      exact cell_lt (c := 0) hrow hpos)]
    exact ⟨hr.width, hr.height, hr.attr, rfl, hr.cells⟩
  · rw [dif_neg hrow]
    have hlast : t.row.val + 1 = h := by
      have := t.row.isLt
      omega
    have hge : (t.row + 1) * w ≥ s.ttyWidth * s.ttyHeight := by
      rw [hr.width, hr.height, hlast, Nat.mul_comm]
    unfold Tty.moveCursor
    dsimp only
    rw [if_pos hge]
    refine ⟨hr.width, hr.height, hr.attr, ?_, fun r c => ?_⟩
    · show (s.ttyHeight - 1) * s.ttyWidth = t.row * w + 0
      rw [hr.width, hr.height, show h - 1 = t.row.val by omega, Nat.add_zero]
    · show Tty.cell (Tty.scroll _) _ = _
      have hlt := cell_lt r.isLt c.isLt
      rw [cell_scroll (by rwa [hr.width]) (by
        show _ < s.ttyWidth * s.ttyHeight
        rwa [hr.width, hr.height])]
      dsimp only
      rw [hr.width, hr.height, hr.attr]
      have hrest : h - 1 = t.row := by omega
      by_cases hr1 : r.val + 1 < h
      · rw [dif_pos hr1, if_pos]
        · have hc := hr.cells ⟨r + 1, hr1⟩ c
          rw [← hc]
          show Tty.cell s _ = Tty.cell s _
          congr 1
          show _ = (r.val + 1) * w + c
          rw [Nat.succ_mul]
          omega
        · rw [hrest]
          exact cell_lt (by omega) c.isLt
      · rw [dif_neg hr1, if_neg]
        · rfl
        · rw [Nat.not_lt, hrest, show r.val = t.row.val by omega, Nat.mul_comm]
          exact Nat.le_add_right _ _

theorem Refines.store (hr : Refines s t) (chr : UInt8) : Refines (s.store chr) (t.store chr) := by
  refine ⟨hr.width, hr.height, hr.attr, hr.cursor, fun r c => ?_⟩
  have hcell := hr.cells r c
  unfold Tty.cell at hcell ⊢
  unfold Tty.store Terminal.store
  dsimp only
  by_cases he : r = t.row ∧ c = t.col
  · obtain ⟨rfl, rfl⟩ := he
    rw [← hr.cursor, Function.update_self, Function.update_of_ne (by omega), Function.update_self,
      Function.update_self, Function.update_self, hr.attr]
  · have hne : r.val * w + c ≠ s.cursor := by
      rw [hr.cursor]
      intro e
      obtain ⟨h1, h2⟩ := cell_inj c.isLt t.col.isLt e
      exact he ⟨Fin.ext h1, Fin.ext h2⟩
    rw [Function.update_of_ne (by omega), Function.update_of_ne (by omega),
      Function.update_of_ne (by omega), Function.update_of_ne (by omega), hcell]
    by_cases hrow : r = t.row
    · subst hrow
      rw [Function.update_self, Function.update_of_ne fun e => he ⟨rfl, e⟩]
    · rw [Function.update_of_ne hrow]

/-- **One character.** -/
theorem Refines.outChar (hr : Refines s t) (hw : 2 ∣ w) (chr : UInt8) :
    Refines (s.outChar chr) (t.put chr) := by
  unfold Tty.outChar Terminal.put
  by_cases hnl : chr = 10
  · rw [if_pos hnl, if_pos hnl]
    have hdiv : s.cursor / s.ttyWidth = t.row := by
      rw [hr.cursor, hr.width, Nat.mul_comm, Nat.mul_add_div (Nat.zero_lt_of_lt t.col.isLt),
        Nat.div_eq_of_lt t.col.isLt, Nat.add_zero]
    rw [hdiv, hr.width]
    exact hr.moveCursor hw
  · rw [if_neg hnl, if_neg hnl]
    have hs := hr.store chr
    by_cases hc : t.col.val + 1 < w
    · rw [dif_pos hc, Tty.moveCursor_of_lt]
      · refine ⟨hs.width, hs.height, hs.attr, ?_, hs.cells⟩
        show (s.store chr).cursor + 1 = t.row * w + (t.col + 1)
        rw [hs.cursor, Nat.add_assoc]
        rfl
      · rw [hs.cursor, hs.width, hs.height, Nat.add_assoc]
        exact cell_lt t.row.isLt hc
    · rw [dif_neg hc]
      have hend : (s.store chr).cursor + 1 = ((t.store chr).row + 1) * w := by
        have hcol : (t.store chr).col.val + 1 = w := by
          have := t.col.isLt
          show t.col.val + 1 = w
          omega
        rw [hs.cursor, Nat.add_assoc, hcol, Nat.succ_mul]
      rw [hend]
      exact hs.moveCursor hw

theorem Refines.outString (hr : Refines s t) (hw : 2 ∣ w) (str : List UInt8) :
    Refines (s.outString str) (t.putString str) := by
  unfold Terminal.putString
  induction str generalizing s t with
  | nil => exact hr
  | cons chr str ih =>
    rw [Tty.outString]
    by_cases h0 : chr = 0
    · rw [if_pos h0, List.takeWhile_cons_of_neg (by simpa using h0)]
      exact hr
    · rw [if_neg h0, List.takeWhile_cons_of_pos (by simpa using h0)]
      exact ih (hr.outChar hw chr)

theorem Refines.clearScreen (hr : Refines s t) (hw : 2 ∣ w) : Refines s.clearScreen t.clear := by
  have hpos : 0 < s.ttyWidth * s.ttyHeight := Nat.zero_lt_of_lt hr.cursor_lt
  unfold Tty.clearScreen
  rw [Tty.moveCursor_of_lt (by exact hpos)]
  refine ⟨hr.width, hr.height, hr.attr, ?_, fun r c => ?_⟩
  · show 0 = 0 * w + 0
    omega
  · have hlt := cell_lt r.isLt c.isLt
    have hn : 2 ∣ s.ttyWidth * s.ttyHeight := Dvd.dvd.mul_right (by rwa [hr.width]) _
    refine Eq.trans (cell_memsetWord (a := 0) hn) ?_
    rw [if_pos ⟨Nat.zero_le _, by rwa [Nat.zero_add, hr.width, hr.height]⟩, hr.attr]
    rfl

/-! ## Every sequence of calls -/

/-- A call of the console. -/
inductive TtyCall where
  | outChar (chr : UInt8)
  | outString (str : List UInt8)
  | clearScreen
  | setTextAttr (attr : UInt8)

/-- What a call does. -/
def Tty.call (s : Tty) : TtyCall → Tty
  | .outChar chr => s.outChar chr
  | .outString str => s.outString str
  | .clearScreen => s.clearScreen
  | .setTextAttr attr => s.setTextAttr attr

/-- What the call means. -/
def Terminal.call (t : Terminal w h) : TtyCall → Terminal w h
  | .outChar chr => t.put chr
  | .outString str => t.putString str
  | .clearScreen => t.clear
  | .setTextAttr attr => t.setAttr attr

/-- **One call.** -/
theorem Refines.call (hr : Refines s t) (hw : 2 ∣ w) (c : TtyCall) : Refines (s.call c) (t.call c) := by
  cases c with
  | outChar chr => exact hr.outChar hw chr
  | outString str => exact hr.outString hw str
  | clearScreen => exact hr.clearScreen hw
  | setTextAttr attr => exact ⟨hr.width, hr.height, rfl, hr.cursor, hr.cells⟩

theorem Refines.calls (hr : Refines s t) (hw : 2 ∣ w) (cs : List TtyCall) :
    Refines (cs.foldl Tty.call s) (cs.foldl Terminal.call t) := by
  induction cs generalizing s t with
  | nil => exact hr
  | cons c cs ih => exact ih (hr.call hw c)

/-- The screen as a terminal. -/
def Tty.terminal (s : Tty) (hc : s.cursor < s.ttyWidth * s.ttyHeight) :
    Terminal s.ttyWidth s.ttyHeight where
  cells r c := s.cell (r * s.ttyWidth + c)
  row := ⟨s.cursor / s.ttyWidth, Nat.div_lt_of_lt_mul hc⟩
  col := ⟨s.cursor % s.ttyWidth,
    Nat.mod_lt _ (Nat.pos_of_mul_pos_right (Nat.zero_lt_of_lt hc))⟩
  attr := s.textAttr

theorem refines_terminal (hc : s.cursor < s.ttyWidth * s.ttyHeight) : Refines s (s.terminal hc) := by
  refine ⟨rfl, rfl, rfl, ?_, fun _ _ => rfl⟩
  show s.cursor = s.cursor / s.ttyWidth * s.ttyWidth + s.cursor % s.ttyWidth
  rw [Nat.mul_comm]
  exact (Nat.div_add_mod _ _).symm

/-- **The console refines a scrolling terminal**: after every sequence of calls the cursor is on the
screen, and cursor and cells are those of the terminal. -/
theorem console_refines (s : Tty) (hw : 2 ∣ s.ttyWidth) (hc : s.cursor < s.ttyWidth * s.ttyHeight)
    (cs : List TtyCall) :
    (cs.foldl Tty.call s).cursor < s.ttyWidth * s.ttyHeight ∧
      Refines (cs.foldl Tty.call s) (cs.foldl Terminal.call (s.terminal hc)) := by
  have h := (refines_terminal hc).calls hw cs
  refine ⟨?_, h⟩
  have := h.cursor_lt
  rwa [h.width, h.height] at this

/-- A screen of two rows of two cells that scrolls. -/
theorem console_refines_scroll :
    let s : Tty := ⟨2, 2, 3, 7, fun i => UInt8.ofNat i, fun _ => 0⟩
    let s' := [TtyCall.outChar 65, .outString [66, 10, 0, 67]].foldl Tty.call s
    s'.cursor < 2 * 2 ∧ s'.cursor = 2 ∧ s'.cell 0 = ⟨66, 7⟩ ∧ s'.cell 1 = ⟨32, 7⟩ := by
  intro s s'
  exact ⟨(console_refines s (by decide) (by decide) _).1, by decide +kernel, by decide +kernel,
    by decide +kernel⟩

end C4os
