import C4os.Boot.Paging

/-!
# The 32-bit code of the boot loader (`boot.asm`, `stdio.inc`)

* `clsScr`, `putch`, `puts`: the screen of `stdio.inc`, through the tables of the boot loader.
* `OnlyText`: the screen and its cursor change only; `clsScr_spec`, `puts_spec`.
* `start32`: the stores behind the jump to 32-bit code.
* **`translate_start32`**: where every address goes behind it.
-/

namespace C4os

open Machine Word

/-! ## Accesses through the tables -/

/-- A load of a byte at a linear address. -/
def loadByte (cr3 v : Nat) (m : Bytes) : Option UInt8 := (translate m cr3 v).map m

/-- A store of a byte at a linear address. -/
def movByte (cr3 v : Nat) (b : UInt8) (m : Bytes) : Option Bytes :=
  (translate m cr3 v).map fun p => Function.update m p b

/-- A store of a word in one page. -/
def movWord (cr3 v x : Nat) (m : Bytes) : Option Bytes :=
  (translate m cr3 v).map fun p => store16 p x m

/-- A store of a double word in one page. -/
def movDword (cr3 v x : Nat) (m : Bytes) : Option Bytes :=
  (translate m cr3 v).map fun p => store32 p x m

variable {m m' : Bytes} {b ch : UInt8} {v x y i last edi ecx ax : Nat} {cs : List UInt8}

theorem TablesAt.translate_low (h : TablesAt m last) (hv : v < 0x100000) :
    C4os.translate m 0x1000 v = some v := by
  rw [h.translate (by omega)]
  exact if_pos hv

theorem TablesAt.loadByte (h : TablesAt m last) (hv : v < 0x100000) :
    C4os.loadByte 0x1000 v m = some (m v) := by
  unfold C4os.loadByte
  rw [h.translate_low hv]
  rfl

theorem TablesAt.movByte (h : TablesAt m last) (hv : v < 0x100000) :
    C4os.movByte 0x1000 v b m = some (Function.update m v b) := by
  unfold C4os.movByte
  rw [h.translate_low hv]
  rfl

theorem TablesAt.movWord (h : TablesAt m last) (hv : v < 0x100000) :
    C4os.movWord 0x1000 v x m = some (store16 v x m) := by
  unfold C4os.movWord
  rw [h.translate_low hv]
  rfl

/-! ## The screen (`stdio.inc`) -/

/-- The video memory in text mode. -/
def VIDMEM : Nat := 0xB8000

/-- The columns of the screen. -/
def COLS : Nat := 80

/-- The rows of the screen. -/
def LINES : Nat := 25

/-- White on light blue. -/
def CHAR_ATTRIB : Nat := 63

/-- Where the assembler puts `_CurX` and `_CurY`: behind the boot sector, before the memory map. -/
structure Stdio where
  curX : Nat
  curX_ge : 0x7E00 ≤ curX
  curX_lt : curX + 1 < 0x9000

/-- `_CurY` is the byte behind `_CurX`. -/
def Stdio.curY (c : Stdio) : Nat := c.curX + 1

variable {c : Stdio}

/-- `rep stosw` of `ClsScr`, with `EDI` and `ECX`. -/
def stoswScreen (ax : Nat) : Nat → Nat → Bytes → Option Bytes
  | _, 0, m => some m
  | edi, ecx + 1, m => (movWord 0x1000 edi ax m).bind (stoswScreen ax (add32 edi 2) ecx)

/-- `ClsScr`. `MovCursor` writes to ports only; the upper half of `ECX` is `0` since
`prepare_page_tables`. -/
def clsScr (c : Stdio) (m : Bytes) : Option Bytes :=
  (stoswScreen (32 + 256 * CHAR_ATTRIB) VIDMEM 2000 m).bind fun m =>
  (movByte 0x1000 c.curX 0 m).bind (movByte 0x1000 c.curY 0)

/-- `inc byte [v]`. -/
def incByte (v : Nat) (m : Bytes) : Option Bytes :=
  (loadByte 0x1000 v m).bind fun b => movByte 0x1000 v (b + 1) m

/-- `Putch`. -/
def putch (c : Stdio) (bl : UInt8) (m : Bytes) : Option Bytes :=
  (loadByte 0x1000 c.curY m).bind fun y =>
  (loadByte 0x1000 c.curX m).bind fun x =>
  if bl = 10 then (movByte 0x1000 c.curX 0 m).bind (incByte c.curY)
  else (movWord 0x1000 (VIDMEM + (x.toNat * 2 + y.toNat * (COLS * 2)))
    (bl.toNat + 256 * CHAR_ATTRIB) m).bind (incByte c.curX)

/-- `Puts`, of a text in front of its `NUL`. -/
def puts (c : Stdio) : List UInt8 → Bytes → Option Bytes
  | [], m => some m
  | bl :: text, m => (putch c bl m).bind (puts c text)

/-- The bytes that the text on the screen stores to: the screen and the cursor. -/
def TextStores (c : Stdio) (i : Nat) : Prop :=
  VIDMEM ≤ i ∧ i < VIDMEM + COLS * LINES * 2 ∨ i = c.curX ∨ i = c.curY

/-- The screen and its cursor change only. -/
def OnlyText (c : Stdio) (m m' : Bytes) : Prop := ∀ i, ¬ TextStores c i → m' i = m i

theorem OnlyText.trans {m'' : Bytes} (h : OnlyText c m m') (h' : OnlyText c m' m'') :
    OnlyText c m m'' := fun i hi => (h' i hi).trans (h i hi)

theorem OnlyText.tables (h : OnlyText c m m') (ht : TablesAt m last) : TablesAt m' last := by
  apply ht.congr
  intro i _ hi
  apply h
  have := c.curX_ge
  unfold TextStores VIDMEM Stdio.curY
  omega

theorem onlyText_store16 (hlo : VIDMEM ≤ v) (hhi : v + 2 ≤ VIDMEM + COLS * LINES * 2) :
    OnlyText c m (store16 v x m) := by
  intro i hi
  unfold TextStores at hi
  exact if_neg (by omega)

theorem onlyText_update (hv : v = c.curX ∨ v = c.curY) :
    OnlyText c m (Function.update m v b) := by
  intro i hi
  apply Function.update_of_ne
  rintro rfl
  exact hi (Or.inr hv)

theorem store16_cursor (hlo : VIDMEM ≤ v) (hi : i = c.curX ∨ i = c.curY) :
    store16 v x m i = m i := by
  have := c.curX_lt
  unfold VIDMEM at hlo
  unfold Stdio.curY at hi
  exact if_neg (by omega)

theorem curX_low (c : Stdio) : c.curX < 0x100000 := by
  have := c.curX_lt
  omega

theorem curY_low (c : Stdio) : c.curY < 0x100000 := by
  have := c.curX_lt
  unfold Stdio.curY
  omega

theorem curY_ne (c : Stdio) : c.curY ≠ c.curX := Nat.succ_ne_self _

/-- The cursor is at `(x, y)`. -/
def CursorAt (c : Stdio) (m : Bytes) (x y : Nat) : Prop :=
  (m c.curX).toNat = x ∧ (m c.curY).toNat = y

theorem stoswScreen_spec (h : TablesAt m last) (hlo : VIDMEM ≤ edi)
    (hhi : edi + 2 * ecx ≤ VIDMEM + COLS * LINES * 2) :
    ∃ m', stoswScreen ax edi ecx m = some m' ∧ OnlyText c m m' := by
  induction ecx generalizing edi m with
  | zero => exact ⟨m, rfl, fun _ _ => rfl⟩
  | succ ecx ih =>
    have hend : VIDMEM + COLS * LINES * 2 < 0x100000 := by decide
    have hstore : OnlyText c m (store16 edi ax m) := onlyText_store16 hlo (by omega)
    obtain ⟨m', hm', htext⟩ := ih (hstore.tables h) (show VIDMEM ≤ edi + 2 by omega) (by omega)
    refine ⟨m', ?_, hstore.trans htext⟩
    rw [stoswScreen, h.movWord (by omega), add32_eq (by omega)]
    exact hm'

/-- **`ClsScr`** puts the cursor into the first cell. -/
theorem clsScr_spec (c : Stdio) (h : TablesAt m last) :
    ∃ m', clsScr c m = some m' ∧ OnlyText c m m' ∧ CursorAt c m' 0 0 := by
  obtain ⟨m₁, hclear, htext⟩ : ∃ m₁,
      stoswScreen (32 + 256 * CHAR_ATTRIB) VIDMEM 2000 m = some m₁ ∧ OnlyText c m m₁ :=
    stoswScreen_spec h (Nat.le_refl VIDMEM) (by decide)
  have h₁ := htext.tables h
  have hx : OnlyText c m₁ (Function.update m₁ c.curX 0) := onlyText_update (Or.inl rfl)
  refine ⟨Function.update (Function.update m₁ c.curX 0) c.curY 0, ?_,
    htext.trans (hx.trans (onlyText_update (Or.inr rfl))), ?_, ?_⟩
  · unfold clsScr
    rw [hclear, Option.bind_some, h₁.movByte (curX_low c), Option.bind_some,
      (hx.tables h₁).movByte (curY_low c)]
  · rw [Function.update_of_ne (curY_ne c).symm, Function.update_self]
    rfl
  · rw [Function.update_self]
    rfl

theorem TablesAt.incByte (h : TablesAt m last) (hv : v < 0x100000) :
    C4os.incByte v m = some (Function.update m v (m v + 1)) := by
  unfold C4os.incByte
  rw [h.loadByte hv, Option.bind_some, h.movByte hv]

theorem putch_spec (ch : UInt8) (h : TablesAt m last) (hc : CursorAt c m x y) (hx : x < COLS)
    (hy : y < LINES) : ∃ m', putch c ch m = some m' ∧ OnlyText c m m' ∧
      if ch = 10 then CursorAt c m' 0 (y + 1) else CursorAt c m' (x + 1) y := by
  obtain ⟨rfl, rfl⟩ := hc
  have hcols : COLS = 80 := rfl
  have hlines : LINES = 25 := rfl
  unfold putch
  rw [h.loadByte (curY_low c), Option.bind_some, h.loadByte (curX_low c), Option.bind_some]
  split_ifs with hch
  · have htext : OnlyText c m (Function.update m c.curX 0) := onlyText_update (Or.inl rfl)
    refine ⟨Function.update (Function.update m c.curX 0) c.curY
      (Function.update m c.curX 0 c.curY + 1), ?_, htext.trans (onlyText_update (Or.inr rfl)), ?_, ?_⟩
    · rw [h.movByte (curX_low c), Option.bind_some, (htext.tables h).incByte (curY_low c)]
    · rw [Function.update_of_ne (curY_ne c).symm, Function.update_self]
      rfl
    · rw [Function.update_self, Function.update_of_ne (curY_ne c), UInt8.toNat_add]
      exact Nat.mod_eq_of_lt (by rw [UInt8.toNat_one]; omega)
  · obtain ⟨edi, hedi⟩ : ∃ edi, edi =
        VIDMEM + ((m c.curX).toNat * 2 + (m c.curY).toNat * (COLS * 2)) := ⟨_, rfl⟩
    have hend : VIDMEM + COLS * LINES * 2 < 0x100000 := by decide
    have hfits : edi + 2 ≤ VIDMEM + COLS * LINES * 2 := by
      rw [hcols] at hx
      rw [hlines] at hy
      rw [hedi, hcols, hlines]
      omega
    rw [← hedi]
    obtain ⟨m₁, hm₁⟩ : ∃ m₁, m₁ = store16 edi (ch.toNat + 256 * CHAR_ATTRIB) m := ⟨_, rfl⟩
    have htext : OnlyText c m m₁ := hm₁ ▸ onlyText_store16 (by omega) hfits
    refine ⟨Function.update m₁ c.curX (m₁ c.curX + 1), ?_,
      htext.trans (onlyText_update (Or.inl rfl)), ?_, ?_⟩
    · rw [h.movWord (by omega), Option.bind_some, ← hm₁, (htext.tables h).incByte (curX_low c)]
    · rw [Function.update_self, hm₁, store16_cursor (by omega) (Or.inl rfl), UInt8.toNat_add]
      exact Nat.mod_eq_of_lt (by rw [UInt8.toNat_one]; omega)
    · rw [Function.update_of_ne (curY_ne c), hm₁, store16_cursor (by omega) (Or.inr rfl)]

/-- **`Puts`** of a text that fits on the screen. -/
theorem puts_spec (h : TablesAt m last) (hc : CursorAt c m x y)
    (hx : x + cs.length ≤ COLS) (hy : y + cs.count 10 < LINES) :
    ∃ m', puts c cs m = some m' ∧ OnlyText c m m' := by
  induction cs generalizing x y m with
  | nil => exact ⟨m, rfl, fun _ _ => rfl⟩
  | cons ch cs ih =>
    rw [List.length_cons] at hx
    rw [List.count_cons] at hy
    obtain ⟨m₁, hput, htext, hcur⟩ := putch_spec ch h hc (by omega) (by omega)
    have hnext : ∃ m', puts c cs m₁ = some m' ∧ OnlyText c m₁ m' := by
      by_cases hch : ch = 10
      · rw [if_pos hch] at hcur
        rw [if_pos (beq_iff_eq.mpr hch)] at hy
        exact ih (htext.tables h) hcur (by omega) (by omega)
      · rw [if_neg hch] at hcur
        exact ih (htext.tables h) hcur (by omega) (by omega)
    obtain ⟨m', hm', htext'⟩ := hnext
    refine ⟨m', ?_, htext.trans htext'⟩
    rw [puts, hput]
    exact hm'

/-! ## 32-bit code -/

/-- `msg`. -/
def msg : List UInt8 :=
  [10, 10, 10] ++ List.replicate 21 32 ++
    [60, 79, 83, 32, 68, 101, 118, 101, 108, 111, 112, 109, 101, 110, 116, 32, 83, 101, 114, 105,
      101, 115, 32, 84, 117, 116, 111, 114, 105, 97, 108, 62]

/-- The stores of `start32`: the text, `K`, the last page, and `O` through it. What the calls push
below `ESP` is left out: nothing reads it again. -/
def start32 (c : Stdio) (m : Bytes) : Option Bytes :=
  (clsScr c m).bind fun m =>
  (puts c msg m).bind fun m =>
  (movByte 0x1000 (0xB8000 + (25 * 80 - 1) * 2) 75 m).bind fun m =>
  (movDword 0x1000 0x3FFC (0xB8000 + 0b11) m).bind fun m =>
  movByte 0x1000 (0xFFFFF000 + (25 * 80 - 2) * 2) 79 m

/-- The bytes that `start32` stores to. -/
def Start32Stores (c : Stdio) (i : Nat) : Prop := TextStores c i ∨ 0x3FFC ≤ i ∧ i < 0x4000

theorem startText_spec (c : Stdio) (h : TablesAt m last) :
    ∃ m', (clsScr c m).bind (puts c msg) = some m' ∧ OnlyText c m m' := by
  obtain ⟨m₁, hclear, htext, hcur⟩ := clsScr_spec c h
  obtain ⟨m', hputs, htext'⟩ : ∃ m', puts c msg m₁ = some m' ∧ OnlyText c m₁ m' :=
    puts_spec (htext.tables h) hcur (by decide) (by decide)
  refine ⟨m', ?_, htext.trans htext'⟩
  rw [hclear, Option.bind_some, hputs]

/-- **The stores of `start32`** arrive where the tables say. -/
theorem start32_spec (c : Stdio) (m : Bytes) : ∃ m', start32 c (preparePageTables m) = some m' ∧
    TablesAt m' 0xB8003 ∧ m' 0xB8F9C = 79 ∧ m' 0xB8F9E = 75 ∧
    ∀ i, ¬ Start32Stores c i → m' i = preparePageTables m i := by
  obtain ⟨m₀, htext, hother⟩ := startText_spec c (tablesAt_preparePageTables m)
  obtain ⟨mc, hclear, hputs⟩ := Option.bind_eq_some_iff.mp htext
  have h0 : TablesAt m₀ 0x410003 := hother.tables (tablesAt_preparePageTables m)
  -- `K` goes through the first table
  have hk : movByte 0x1000 (0xB8000 + (25 * 80 - 1) * 2) 75 m₀ =
      some (Function.update m₀ 0xB8F9E 75) := by
    unfold movByte
    rw [h0.translate (by decide)]
    rfl
  obtain ⟨m₁, hm₁⟩ : ∃ m₁, m₁ = Function.update m₀ 0xB8F9E 75 := ⟨_, rfl⟩
  have h1 : TablesAt m₁ 0x410003 := h0.congr fun i _ hi => by
    rw [hm₁, Function.update_of_ne (by omega)]
  have hlast : movDword 0x1000 0x3FFC (0xB8000 + 0b11) m₁ = some (store32 0x3FFC 0xB8003 m₁) := by
    unfold movDword
    rw [h1.translate (by decide)]
    rfl
  obtain ⟨m₂, hm₂⟩ : ∃ m₂, m₂ = store32 0x3FFC 0xB8003 m₁ := ⟨_, rfl⟩
  have h2 : TablesAt m₂ 0xB8003 := by
    intro p i hp hi
    rw [hm₂, load32_store32 (by decide) (by omega)]
    by_cases hpi : p = 0x3000 ∧ i = 1023
    · rw [if_pos hpi, if_pos (by omega)]
      rfl
    · rw [if_neg hpi, if_neg (by omega), h1 p i hp hi, if_neg hpi]
  -- `O` goes through the page that was mapped last
  have ho : movByte 0x1000 (0xFFFFF000 + (25 * 80 - 2) * 2) 79 m₂ =
      some (Function.update m₂ 0xB8F9C 79) := by
    unfold movByte
    rw [h2.translate (by decide), show bootAddress 0xB8003 (0xFFFFF000 + (25 * 80 - 2) * 2) =
      some 0xB8F9C by decide +kernel]
    rfl
  refine ⟨Function.update m₂ 0xB8F9C 79, ?_, ?_, ?_, ?_, ?_⟩
  · unfold start32
    rw [hclear, Option.bind_some, hputs, Option.bind_some, hk, Option.bind_some, ← hm₁, hlast,
      Option.bind_some, ← hm₂, ho]
  · exact h2.congr fun i _ hi => Function.update_of_ne (by omega) _ _
  · exact Function.update_self _ _ _
  · rw [Function.update_of_ne (by decide), hm₂]
    unfold store32
    rw [if_neg (by decide), hm₁, Function.update_self]
  · intro i hi
    unfold Start32Stores at hi
    rw [← hother i fun h => hi (Or.inl h)]
    unfold TextStores VIDMEM COLS LINES at hi
    rw [Function.update_of_ne (by omega), hm₂]
    unfold store32
    rw [if_neg (by omega), hm₁, Function.update_of_ne (by omega)]

/-- The bytes below `ESP` that the calls of `start32` push. -/
def Pushed (esp i : Nat) : Prop := esp - 76 ≤ i ∧ i < esp

/-- **Address translation behind the boot loader**, whatever memory held before: each of the
`2 ^ 32` addresses goes where `bootAddress` says, and the two letters stand side by side on the
screen. Nothing is said of the stack. -/
theorem translate_start32 (c : Stdio) (esp : Nat) (m : Bytes) :
    ∃ m', start32 c (preparePageTables m) = some m' ∧
      (∀ v < 2 ^ 32, translate m' 0x1000 v = bootAddress 0xB8003 v) ∧
      m' 0xB8F9C = 79 ∧ m' 0xB8F9E = 75 ∧
      ∀ i, ¬ Start32Stores c i → ¬ Pushed esp i → i < 0x1000 ∨ 0x4000 ≤ i → m' i = m i := by
  obtain ⟨m', hrun, htab, ho, hk, hrest⟩ := start32_spec c m
  refine ⟨m', hrun, fun v hv => htab.translate hv, ho, hk, fun i hs _ hi => ?_⟩
  rw [hrest i hs, preparePageTables_of_not_mem hi]

end C4os
