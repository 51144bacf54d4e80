import C4os.Drivers.InString
import C4os.Drivers.Keyboard
import C4os.ListFs.Programs

/-!
# The command line (`kernel.c`)

* `results`: what the calls of `in_scancode` return while the keyboard interrupts them anywhere;
  `charsWait_results`: the characters are those of the scancodes that are taken out.
* `Shell`, `kernelLoop`: the loop of `kernel_main` with `cmd_read_sect`, over the characters.
* `session`: the commands that a text stands for, line by line.
* `Shell.inString_eq`, `Shell.dispatch_line`, `kernelLoop_session`: the loop makes them.
* `session_append`: more characters make more commands.
* **`typed_session`**: whatever the times of the keys, the commands are those of the text typed.
-/

namespace C4os

open Transition KeyState

/-! ## The characters of a run -/

/-- The result of the call of `in_scancode` that ends with the access. -/
def returned (s : KeyState) : KeyAct → Option UInt8
  | .interrupt _ => none
  | .reader _ =>
    match s.pc with
    | .empty _ => some 0
    | .incWrite result _ => some result
    | _ => none

/-- The results of the calls of `in_scancode`, one after the other. -/
def results : List KeyAct → KeyState → List UInt8
  | [], _ => []
  | a :: as, s => (returned s a).toList ++ results as (a.apply s)

/-- The scancodes of the keys that are pressed and released. -/
def keyCodes : List KeyAct → List UInt8
  | [] => []
  | .interrupt keyCode :: as => keyCode :: keyCodes as
  | .reader _ :: as => keyCodes as

variable {s s' : KeyState} {as : List KeyAct} {behind : Bool → Nat → UInt8}

theorem taken_apply (s : KeyState) (a : KeyAct) : ∃ bs, (a.apply s).taken = s.taken ++ bs ∧
    (returned s a).toList.filter (· ≠ 0) = bs.filter (· ≠ 0) := by
  cases a with
  | interrupt keyCode => exact ⟨[], (List.append_nil _).symm, rfl⟩
  | reader headFirst =>
    obtain ⟨buffer, head, tail, pc, stored, taken⟩ := s
    cases pc with
    | incWrite result head => exact ⟨[result], rfl, rfl⟩
    | empty n => exact ⟨[], (List.append_nil _).symm, rfl⟩
    | idle =>
      refine ⟨[], ?_, rfl⟩
      cases headFirst <;> exact (List.append_nil _).symm
    | testTail | testHead | wrap | wrapWrite | load | loadAt | inc =>
      exact ⟨[], (List.append_nil _).symm, rfl⟩

theorem results_filter (hrun : Run KeyStep s as s') : ∃ bs, s'.taken = s.taken ++ bs ∧
    (results as s).filter (· ≠ 0) = bs.filter (· ≠ 0) := by
  induction hrun with
  | nil s => exact ⟨[], (List.append_nil _).symm, rfl⟩
  | @cons s a s₁ as s' head tail ih =>
    obtain ⟨rfl, -⟩ := head
    obtain ⟨bs, hbs, hfilter⟩ := taken_apply s a
    obtain ⟨bs', hbs', hfilter'⟩ := ih
    refine ⟨bs ++ bs', ?_, ?_⟩
    · rw [hbs', hbs, List.append_assoc]
    · rw [results, List.filter_append, List.filter_append, hfilter, hfilter']

theorem stored_keyCodes (hrun : Run KeyStep s as s') : s'.stored = s.stored ++ keyCodes as := by
  induction hrun with
  | nil s => exact (List.append_nil _).symm
  | @cons s a s₁ as s' head tail ih =>
    obtain ⟨rfl, -⟩ := head
    rw [ih]
    cases a with
    | interrupt keyCode => exact List.append_assoc ..
    | reader headFirst =>
      have hstored : ((KeyAct.reader headFirst).apply s).stored = s.stored := by
        show (inScancode headFirst s).stored = s.stored
        unfold inScancode
        split <;> try rfl
        split <;> rfl
      rw [hstored]
      rfl

theorem charsWait_congr (bs : List UInt8) {t t' : CharState} (h : t.shift = t'.shift) :
    charsWait behind bs t = charsWait behind bs t' := by
  induction bs generalizing t t' with
  | nil => rfl
  | cons b bs ih =>
    have hstep : (t.step b).2 = (t'.step b).2 ∧ (t.step b).1.shift = (t'.step b).1.shift := by
      unfold CharState.step
      rw [h]
      exact ⟨rfl, rfl⟩
    rw [charsWait, charsWait, hstep.1, ih hstep.2]

theorem charsWait_zero (bs : List UInt8) (t : CharState) :
    charsWait behind (0 :: bs) t = charsWait behind bs t := by
  have hchr : (t.step 0).2.chr behind = 0 := by
    obtain ⟨shift, lookups⟩ := t
    cases shift <;> rfl
  rw [charsWait, hchr]
  refine charsWait_congr bs ?_
  obtain ⟨shift, lookups⟩ := t
  cases shift <;> rfl

theorem charsWait_filter (bs : List UInt8) (t : CharState) :
    charsWait behind (bs.filter (· ≠ 0)) t = charsWait behind bs t := by
  induction bs generalizing t with
  | nil => rfl
  | cons b bs ih =>
    by_cases hb : b = 0
    · subst hb
      rw [List.filter_cons_of_neg (by simp), charsWait_zero, ih]
    · rw [List.filter_cons_of_pos (by simpa using hb), charsWait, charsWait]
      simp only [ih]

theorem charsWait_mono {bs bs' : List UInt8} (h : bs <+: bs') (t : CharState) :
    charsWait behind bs t <+: charsWait behind bs' t := by
  induction bs generalizing bs' t with
  | nil => exact List.nil_prefix
  | cons b bs ih =>
    obtain ⟨r, rfl⟩ := h
    have hr : bs <+: bs ++ r := List.prefix_append ..
    rw [List.cons_append, charsWait, charsWait]
    split_ifs
    · exact ih hr _
    · exact (List.prefix_cons_inj _).mpr (ih hr _)

/-- **The characters are those of the keys**, whatever the reader does in between: of the ones that
were taken out, and these were typed first. -/
theorem charsWait_results {keyBuffer : Nat → UInt8} (t : CharState)
    (hrun : Run KeyStep (init keyBuffer) as s) :
    charsWait behind (results as (init keyBuffer)) t <+: charsWait behind (keyCodes as) t ∧
      (s.unread = 0 →
        charsWait behind (results as (init keyBuffer)) t = charsWait behind (keyCodes as) t) := by
  obtain ⟨bs, hbs, hfilter⟩ := results_filter hrun
  have htaken : s.taken = bs := hbs
  have hstored : s.stored = keyCodes as := stored_keyCodes hrun
  obtain ⟨k, hinv⟩ := hrun.invariant (I := fun s => ∃ k, KeyInv s k)
    (fun _ _ _ ⟨_, h⟩ hs => h.step hs) ⟨0, keyInv_init keyBuffer⟩
  have hbefore : bs <+: keyCodes as := by
    rw [← htaken, ← hstored]
    exact hinv.fifo.taken
  rw [← charsWait_filter (results as _), hfilter, charsWait_filter]
  refine ⟨charsWait_mono hbefore t, fun hunread => ?_⟩
  have hlen : bs.length = (keyCodes as).length := by
    unfold KeyState.unread at hunread
    rw [htaken, hstored] at hunread
    have := hbefore.length_le
    omega
  rw [hbefore.eq_of_length hlen]

/-! ## The loop of `kernel_main` -/

/-- What the loop does. -/
inductive Command where
  /-- `cmd_read_sect`, up to the question. -/
  | readSect
  /-- The rest of `cmd_read_sect`. -/
  | sector (sectornum : UInt32)
  | getTicks
  | showProcessList
  | showFiles
  | runNewProcess (fileName : List UInt8)
  /-- `int $0x30`. -/
  | syscallTest
  /-- `You typed: ` and the line. -/
  | youTyped (line : List UInt8)

/-- `"read"`, `"ticks"`, `"ps"`, `"ls"`, `"test"`. -/
def readName : List UInt8 := [114, 101, 97, 100]

/-- `ticks`. -/
def ticksName : List UInt8 := [116, 105, 99, 107, 115]

/-- `ps`. -/
def psName : List UInt8 := [112, 115]

/-- `ls`. -/
def lsName : List UInt8 := [108, 115]

/-- `test`. -/
def testName : List UInt8 := [116, 101, 115, 116]

/-- What the loop meets: the disk and its first file; memory behind the DMA buffer, the buffers on
the stack, memory behind them and the console when the characters `chars` are left; and whether the
sector of the command `n` is read. -/
structure Shell where
  disk : Disk
  firstFileSectorNumber : Nat
  rest : List UInt8 → List UInt8
  buffer : List UInt8 → Nat → UInt8
  stack : List UInt8 → List UInt8
  tty : List UInt8 → Tty
  sectorRead : Nat → Bool

/-- `in_string` into a buffer of `size` bytes: memory from the buffer on, and the characters that are
left. -/
def Shell.inString (E : Shell) (size : UInt32) (chars : List UInt8) :
    Option (List UInt8 × List UInt8) :=
  (C4os.inString (E.buffer chars) size (E.tty chars) chars).map fun r =>
    ((List.range size.toNat).map r.1.buffer ++ E.stack chars, r.2)

/-- `if (!strcmp(name, buffer)) .. else ..`. -/
def ifEqual (name mem : List UInt8) (c : Command) (other : Option Command) : Option Command :=
  (strcmp (name ++ [0]) mem).bind fun r => if r = 0 then some c else other

/-- The branches of the loop, for the memory from `buffer` on. -/
def Shell.dispatch (E : Shell) (fuel : Nat) (chars mem : List UInt8) : Option Command :=
  ifEqual readName mem .readSect <|
  ifEqual ticksName mem .getTicks <|
  ifEqual psName mem .showProcessList <|
  ifEqual lsName mem .showFiles <|
  (isThereExe E.disk (E.rest chars) mem fuel (uint32 E.firstFileSectorNumber)).bind fun there =>
    if there then (cString mem).map .runNewProcess
    else ifEqual testName mem .syscallTest <| (cString mem).map .youTyped

/-- `Press any key to continue...`, `k` times: a line goes to a buffer of one byte. -/
def Shell.pressKeys (E : Shell) : Nat → List UInt8 → Option (List UInt8)
  | 0, chars => some chars
  | k + 1, chars => (E.inString 1 chars).bind fun r => E.pressKeys k r.2

/-- `cmd_read_sect` from the question on: the sector that is read, and the characters that are left
when it returns. -/
def Shell.cmdReadSect (E : Shell) (n : Nat) (chars : List UInt8) :
    List Command × Option (List UInt8) :=
  match E.inString 4 chars with
  | none => ([], none)
  | some (mem, chars) =>
    match atoi mem with
    | none => ([], none)
    | some x =>
      ([.sector (UInt32.ofInt x)], if E.sectorRead n then E.pressKeys 4 chars else some chars)

/-- The call in a branch: what it does besides, and the characters that are left. -/
def Shell.call (E : Shell) (n : Nat) (chars : List UInt8) :
    Command → List Command × Option (List UInt8)
  | .readSect => E.cmdReadSect n chars
  | _ => ([], some chars)

/-- The loop of `kernel_main`, at most `rounds` times, from the command `n` on: what it does until it
waits for more characters. -/
def kernelLoop (E : Shell) (fuel : Nat) : Nat → Nat → List UInt8 → List Command
  | 0, _, _ => []
  | rounds + 1, n, chars =>
    match E.inString 256 chars with
    | none => []
    | some r =>
      match E.dispatch fuel r.2 r.1 with
      | none => []
      | some c => c :: ((E.call n r.2 c).1 ++
        match (E.call n r.2 c).2 with
        | none => []
        | some chars => kernelLoop E fuel rounds (n + 1) chars)

/-! ## The session -/

/-- The line that the characters start with, edited into `size` bytes, and the characters behind. -/
def nextLine (size : Nat) (chars : List UInt8) : Option (List UInt8 × List UInt8) :=
  if 10 ∈ chars then some (typedLine size chars, (chars.dropWhile (· ≠ 10)).tail) else none

/-- The characters behind `k` lines. -/
def skipLines : Nat → List UInt8 → Option (List UInt8)
  | 0, chars => some chars
  | k + 1, chars => (nextLine 1 chars).bind fun r => skipLines k r.2

/-- The command that a line stands for, when the names in `isProgram` are programs. -/
def commandOf (isProgram : List UInt8 → Bool) (line : List UInt8) : Command :=
  if line = readName then .readSect
  else if line = ticksName then .getTicks
  else if line = psName then .showProcessList
  else if line = lsName then .showFiles
  else if isProgram line then .runNewProcess line
  else if line = testName then .syscallTest
  else .youTyped line

/-- The dialogue of `read`: the number in the next line, and four lines to go on. -/
def readDialogue (sectorRead : Bool) (chars : List UInt8) : List Command × Option (List UInt8) :=
  match nextLine 4 chars with
  | none => ([], none)
  | some (number, chars) =>
    match atoi (number ++ [0]) with
    | none => ([], none)
    | some x => ([.sector (UInt32.ofInt x)], if sectorRead then skipLines 4 chars else some chars)

/-- The characters that a command takes. -/
def dialogue (sectorRead : Bool) (chars : List UInt8) : Command → List Command × Option (List UInt8)
  | .readSect => readDialogue sectorRead chars
  | _ => ([], some chars)

/-- The commands that the characters stand for. -/
def session (isProgram : List UInt8 → Bool) (sectorRead : Nat → Bool) :
    Nat → Nat → List UInt8 → List Command
  | 0, _, _ => []
  | rounds + 1, n, chars =>
    match nextLine 256 chars with
    | none => []
    | some r => commandOf isProgram r.1 :: ((dialogue (sectorRead n) r.2 (commandOf isProgram r.1)).1 ++
      match (dialogue (sectorRead n) r.2 (commandOf isProgram r.1)).2 with
      | none => []
      | some chars => session isProgram sectorRead rounds (n + 1) chars)

/-! ## The loop makes the commands -/

variable {chars line : List UInt8} {E : Shell}

theorem inStringLoop_none (bufferSize : UInt32) (t : Edit) (hn : 10 ∉ chars) :
    inStringLoop bufferSize chars t = none := by
  induction chars generalizing t with
  | nil => rfl
  | cons chr chars ih =>
    rw [List.mem_cons, not_or] at hn
    rw [inStringLoop]
    simp only [if_pos (Ne.symm hn.1)]
    exact ih _ hn.2

theorem map_range_line {kept : List UInt8} {f : Nat → UInt8} {n : Nat} (hlen : kept.length < n)
    (hcells : ∀ i < kept.length, kept[i]? = some (f i)) (hnul : f kept.length = 0) :
    ∃ tail, (List.range n).map f = kept ++ 0 :: tail := by
  obtain ⟨k, rfl⟩ := Nat.exists_eq_add_of_lt hlen
  refine ⟨(List.range k).map fun i => f (kept.length + (i + 1)), ?_⟩
  have hkept : (List.range kept.length).map f = kept := by
    apply List.ext_getElem?
    intro i
    rw [List.getElem?_map]
    by_cases hi : i < kept.length
    · rw [List.getElem?_range hi, hcells i hi]
      rfl
    · rw [List.getElem?_eq_none (by simpa using hi), List.getElem?_eq_none (by omega)]
      rfl
  rw [Nat.add_assoc, List.range_add, List.map_append, hkept, List.range_succ_eq_map]
  simp [hnul, Function.comp_def]

/-- **`in_string` gives the next line**, with its NUL. -/
theorem Shell.inString_eq (E : Shell) {size : UInt32} (hs : 1 ≤ size)
    (h0 : ∀ c ∈ chars, c ≠ 0) :
    (nextLine size.toNat chars = none → E.inString size chars = none) ∧
      ∀ line rest, nextLine size.toNat chars = some (line, rest) →
        (∃ tail, E.inString size chars = some (line ++ 0 :: tail, rest)) ∧
          (∀ b ∈ line, b ≠ 0) ∧ ∀ c ∈ rest, c ≠ 0 := by
  unfold nextLine
  by_cases hn : 10 ∈ chars
  · refine ⟨fun h => ?_, fun line rest h => ?_⟩
    · rw [if_pos hn] at h
      cases h
    · rw [if_pos hn, Option.some.injEq, Prod.mk.injEq] at h
      obtain ⟨rfl, rfl⟩ := h
      have hchars : ∀ chr ∈ chars.takeWhile (· ≠ 10), chr ≠ 0 ∧ chr ≠ 10 := fun chr hchr =>
        ⟨h0 chr ((List.takeWhile_prefix _).subset hchr), by simpa using List.mem_takeWhile_imp hchr⟩
      have hholds := (holds_start (E.buffer chars) (E.tty chars) hs).steps hchars
      obtain ⟨rest, hsplit, hloop⟩ := inStringLoop_eq size ⟨E.buffer chars, 0, E.tty chars, []⟩ hn
      have hnl : Holds (E.buffer chars) size (((chars.takeWhile (· ≠ 10)).foldl
          (fun (s : Edit) chr => s.step size chr)
          (⟨E.buffer chars, 0, E.tty chars, []⟩ : Edit)).step size 10)
          (typedLine size.toNat chars) :=
        ⟨hholds.position, hholds.fits, hholds.cells, hholds.written, hholds.rest⟩
      obtain ⟨-, -, hcells, hnul⟩ := hnl.store_zero
      have hrest : (chars.dropWhile (· ≠ 10)).tail = rest := by
        have happ := List.takeWhile_append_dropWhile (p := (· ≠ 10)) (l := chars)
        have hdrop : chars.dropWhile (· ≠ 10) = 10 :: rest :=
          List.append_cancel_left (happ.trans hsplit)
        rw [hdrop]
        rfl
      obtain ⟨tail, htail⟩ := map_range_line hnl.fits hcells hnul
      refine ⟨⟨tail ++ E.stack chars, ?_⟩, fun b hb => ?_, fun c hc => ?_⟩
      · unfold Shell.inString C4os.inString
        rw [hloop, Option.map_some, htail, hrest, List.append_assoc, List.cons_append]
      · obtain hb | hb := mem_edit_foldl hb
        · exact absurd hb List.not_mem_nil
        · exact (hchars b hb).1
      · exact h0 c ((List.dropWhile_suffix _).subset (List.mem_of_mem_tail hc))
  · refine ⟨fun _ => ?_, fun line rest h => ?_⟩
    · unfold Shell.inString C4os.inString
      rw [inStringLoop_none size _ hn]
      rfl
    · rw [if_neg hn] at h
      cases h

theorem findHeader_mono {disk : Disk} {rest fileName : List UInt8} {fuel fuel' first : Nat}
    {r : Option Nat} (hle : fuel ≤ fuel')
    (h : findHeader disk rest fileName fuel first = some r) :
    findHeader disk rest fileName fuel' first = some r := by
  induction fuel generalizing fuel' first with
  | zero => cases h
  | succ fuel ih =>
    obtain ⟨fuel', rfl⟩ := Nat.exists_eq_add_of_le' (Nat.lt_of_lt_of_le (Nat.succ_pos fuel) hle)
    rw [findHeader] at h ⊢
    obtain ⟨c, hc, h⟩ := Option.bind_eq_some_iff.mp h
    rw [hc, Option.bind_some]
    split_ifs at h ⊢
    · exact h
    · exact h
    · exact ih (by omega) h

theorem Shell.pressKeys_eq (E : Shell) (k : Nat) (h0 : ∀ c ∈ chars, c ≠ 0) :
    E.pressKeys k chars = skipLines k chars ∧
      ∀ rest, skipLines k chars = some rest → ∀ c ∈ rest, c ≠ 0 := by
  induction k generalizing chars with
  | zero =>
    refine ⟨rfl, fun rest h => ?_⟩
    obtain rfl := Option.some.inj h
    exact h0
  | succ k ih =>
    obtain ⟨hnone, hsome⟩ := E.inString_eq (show (1 : UInt32) ≤ 1 by decide) h0
    rw [Shell.pressKeys, skipLines]
    cases hline : nextLine (1 : UInt32).toNat chars with
    | none =>
      have hline' : nextLine 1 chars = none := hline
      rw [hnone hline, hline']
      exact ⟨rfl, nofun⟩
    | some r =>
      have hline' : nextLine 1 chars = some r := hline
      obtain ⟨⟨tail, htail⟩, -, hrest⟩ := hsome r.1 r.2 hline
      rw [htail, hline']
      exact ih hrest

theorem ifEqual_line {name tail : List UInt8} (hname : ∀ b ∈ name, b ≠ 0)
    (hline : ∀ b ∈ line, b ≠ 0) (c : Command) (other : Option Command) :
    ifEqual name (line ++ 0 :: tail) c other = if line = name then some c else other := by
  have hstr : cString (line ++ 0 :: tail) = some line := cString_name hline tail
  obtain ⟨r, hr⟩ : ∃ r, strcmp (name ++ 0 :: []) (line ++ 0 :: tail) = some r := strcmp_isSome hstr
  have hzero : strcmp (name ++ 0 :: []) (line ++ 0 :: tail) = some 0 ↔ _ :=
    strcmp_eq_zero_iff hname
  rw [hr, hstr, Option.some.injEq, Option.some.injEq] at hzero
  unfold ifEqual
  rw [hr, Option.bind_some]
  exact if_congr hzero rfl rfl

theorem skipSpace_line (line : List UInt8) :
    ∃ line', ∀ tail, skipSpace (line ++ 0 :: tail) = line' ++ 0 :: tail := by
  induction line with
  | nil => exact ⟨[], fun _ => rfl⟩
  | cons c line ih =>
    by_cases hc : isspace (charOf c) = true
    · obtain ⟨line', h⟩ := ih
      refine ⟨line', fun tail => ?_⟩
      rw [List.cons_append, skipSpace, if_pos hc, h]
    · refine ⟨c :: line, fun tail => ?_⟩
      rw [List.cons_append, skipSpace, if_neg hc]

theorem atoiLoop_line (line tail : List UInt8) (n : Int) :
    atoiLoop (line ++ 0 :: tail) n = atoiLoop (line ++ [0]) n := by
  induction line generalizing n with
  | nil => rfl
  | cons c line ih =>
    rw [List.cons_append, List.cons_append, atoiLoop, atoiLoop]
    simp only [ih]

theorem atoi_line (line tail : List UInt8) : atoi (line ++ 0 :: tail) = atoi (line ++ [0]) := by
  obtain ⟨line', h⟩ := skipSpace_line line
  unfold atoi
  rw [h tail, h []]
  cases line' with
  | nil => rfl
  | cons c line' =>
    show (do
      let n ← atoiLoop (if c = 45 ∨ c = 43 then line' ++ 0 :: tail else c :: line' ++ 0 :: tail) 0
      if c = 45 then some n else int32 (-n)) = _
    have hloop : atoiLoop (if c = 45 ∨ c = 43 then line' ++ 0 :: tail
        else c :: line' ++ 0 :: tail) 0 =
        atoiLoop (if c = 45 ∨ c = 43 then line' ++ [0] else c :: line' ++ [0]) 0 := by
      split_ifs
      · exact atoiLoop_line line' tail 0
      · exact atoiLoop_line (c :: line') tail 0
    rw [hloop]
    rfl

theorem isThereExe_mono {disk : Disk} {rest fileName : List UInt8} {fuel fuel' first : Nat}
    {there : Bool} (hle : fuel ≤ fuel') (h : isThereExe disk rest fileName fuel first = some there) :
    isThereExe disk rest fileName fuel' first = some there := by
  unfold isThereExe findFile at h ⊢
  obtain ⟨p, hp, rfl⟩ := Option.map_eq_some_iff.mp h
  obtain ⟨r, hr, hp⟩ := Option.bind_eq_some_iff.mp hp
  rw [findHeader_mono hle hr, Option.bind_some, hp]
  rfl

/-- **The branches make the command of the line.** -/
theorem Shell.dispatch_line {isProgram : List UInt8 → Bool} (hline : ∀ b ∈ line, b ≠ 0)
    (tail : List UInt8) (hexe : ∃ fuel, isThereExe E.disk (E.rest chars) (line ++ 0 :: tail) fuel
      (uint32 E.firstFileSectorNumber) = some (isProgram line)) :
    ∃ N, ∀ fuel ≥ N,
      E.dispatch fuel chars (line ++ 0 :: tail) = some (commandOf isProgram line) := by
  obtain ⟨N, hN⟩ := hexe
  refine ⟨N, fun fuel hfuel => ?_⟩
  have hstr : cString (line ++ 0 :: tail) = some line := cString_name hline tail
  unfold Shell.dispatch commandOf
  rw [ifEqual_line (by decide +kernel) hline, ifEqual_line (by decide +kernel) hline,
    ifEqual_line (by decide +kernel) hline, ifEqual_line (by decide +kernel) hline,
    ifEqual_line (by decide +kernel) hline, isThereExe_mono hfuel hN, hstr, Option.bind_some]
  split_ifs <;> rfl

theorem Shell.cmdReadSect_eq (E : Shell) (n : Nat) (h0 : ∀ c ∈ chars, c ≠ 0) :
    E.cmdReadSect n chars = readDialogue (E.sectorRead n) chars ∧
      ∀ rest, (readDialogue (E.sectorRead n) chars).2 = some rest → ∀ c ∈ rest, c ≠ 0 := by
  obtain ⟨hnone, hsome⟩ := E.inString_eq (show (1 : UInt32) ≤ 4 by decide) h0
  unfold Shell.cmdReadSect readDialogue
  cases hline : nextLine (4 : UInt32).toNat chars with
  | none =>
    have hline' : nextLine 4 chars = none := hline
    rw [hnone hline, hline']
    exact ⟨rfl, nofun⟩
  | some r =>
    have hline' : nextLine 4 chars = some r := hline
    obtain ⟨⟨tail, htail⟩, -, hrest⟩ := hsome r.1 r.2 hline
    rw [htail, hline']
    dsimp only
    rw [atoi_line]
    cases atoi (r.1 ++ [0]) with
    | none => exact ⟨rfl, nofun⟩
    | some x =>
      dsimp only
      by_cases hread : E.sectorRead n = true
      · rw [if_pos hread, if_pos hread]
        obtain ⟨hkeys, hskip⟩ := E.pressKeys_eq 4 hrest
        exact ⟨by rw [hkeys], hskip⟩
      · rw [if_neg hread, if_neg hread]
        refine ⟨rfl, fun rest h => ?_⟩
        obtain rfl := Option.some.inj h
        exact hrest

theorem Shell.call_eq (E : Shell) (n : Nat) (h0 : ∀ c ∈ chars, c ≠ 0) (c : Command) :
    E.call n chars c = dialogue (E.sectorRead n) chars c ∧
      ∀ rest, (dialogue (E.sectorRead n) chars c).2 = some rest → ∀ c ∈ rest, c ≠ 0 := by
  cases c with
  | readSect => exact E.cmdReadSect_eq n h0
  | sector | getTicks | showProcessList | showFiles | runNewProcess | syscallTest | youTyped =>
    refine ⟨rfl, fun rest h => ?_⟩
    obtain rfl := Option.some.inj h
    exact h0

/-- **The loop makes the session.** -/
theorem kernelLoop_session {isProgram : List UInt8 → Bool}
    (hexe : ∀ rest line tail, (∀ b ∈ line, b ≠ 0) → ∃ fuel, isThereExe E.disk rest
      (line ++ 0 :: tail) fuel (uint32 E.firstFileSectorNumber) = some (isProgram line))
    (rounds n : Nat) (h0 : ∀ c ∈ chars, c ≠ 0) :
    ∃ N, ∀ fuel ≥ N,
      kernelLoop E fuel rounds n chars = session isProgram E.sectorRead rounds n chars := by
  induction rounds generalizing n chars with
  | zero => exact ⟨0, fun _ _ => rfl⟩
  | succ rounds ih =>
    obtain ⟨hnone, hsome⟩ := E.inString_eq (show (1 : UInt32) ≤ 256 by decide) h0
    rw [session]
    cases hline : nextLine (256 : UInt32).toNat chars with
    | none =>
      have hline' : nextLine 256 chars = none := hline
      rw [hline']
      refine ⟨0, fun fuel _ => ?_⟩
      rw [kernelLoop, hnone hline]
    | some r =>
      have hline' : nextLine 256 chars = some r := hline
      obtain ⟨⟨tail, htail⟩, hnul, hrest⟩ := hsome r.1 r.2 hline
      obtain ⟨N, hN⟩ := E.dispatch_line hnul tail (hexe (E.rest r.2) r.1 tail hnul)
      obtain ⟨hcall, hleft⟩ := E.call_eq n hrest (commandOf isProgram r.1)
      rw [hline']
      cases hchars : (dialogue (E.sectorRead n) r.2 (commandOf isProgram r.1)).2 with
      | none =>
        refine ⟨N, fun fuel hfuel => ?_⟩
        rw [kernelLoop, htail]
        dsimp only
        rw [hN fuel hfuel]
        dsimp only
        rw [hcall, hchars]
      | some chars' =>
        obtain ⟨M, hM⟩ := ih (n + 1) (hleft chars' hchars)
        refine ⟨max N M, fun fuel hfuel => ?_⟩
        rw [kernelLoop, htail]
        dsimp only
        rw [hN fuel (by omega)]
        dsimp only
        rw [hcall, hchars]
        dsimp only
        rw [hM fuel (by omega)]

/-! ## Sessions that go on -/

theorem nextLine_append {size : Nat} {r : List UInt8 × List UInt8} (h : nextLine size chars = some r)
    (more : List UInt8) : nextLine size (chars ++ more) = some (r.1, r.2 ++ more) := by
  unfold nextLine at h ⊢
  have hn : 10 ∈ chars := by
    by_contra hn
    rw [if_neg hn] at h
    cases h
  rw [if_pos hn, Option.some.injEq] at h
  subst h
  have hdrop : chars.dropWhile (· ≠ 10) ≠ [] := by
    intro hnil
    have hall := List.dropWhile_eq_nil_iff.mp hnil 10 hn
    simp at hall
  have htake : (chars ++ more).takeWhile (· ≠ 10) = chars.takeWhile (· ≠ 10) := by
    have hlen := congrArg List.length
      (List.takeWhile_append_dropWhile (p := fun c : UInt8 => decide (c ≠ 10)) (l := chars))
    rw [List.length_append] at hlen
    have hpos := List.length_pos_of_ne_nil hdrop
    rw [List.takeWhile_append, if_neg (by omega)]
  have hrest : (chars ++ more).dropWhile (· ≠ 10) = chars.dropWhile (· ≠ 10) ++ more := by
    rw [List.dropWhile_append, if_neg (by simpa using hdrop)]
  rw [if_pos (List.mem_append_left _ hn), typedLine, htake, hrest, List.tail_append_of_ne_nil hdrop]
  rfl

theorem skipLines_append {k : Nat} {rest : List UInt8} (h : skipLines k chars = some rest)
    (more : List UInt8) : skipLines k (chars ++ more) = some (rest ++ more) := by
  induction k generalizing chars with
  | zero =>
    obtain rfl := Option.some.inj h
    rfl
  | succ k ih =>
    rw [skipLines] at h ⊢
    obtain ⟨r, hr, h⟩ := Option.bind_eq_some_iff.mp h
    rw [nextLine_append hr more, Option.bind_some]
    exact ih h

theorem readDialogue_append (sectorRead : Bool) (chars more : List UInt8) :
    (readDialogue sectorRead chars).1 <+: (readDialogue sectorRead (chars ++ more)).1 ∧
      ∀ rest, (readDialogue sectorRead chars).2 = some rest →
        readDialogue sectorRead (chars ++ more) =
          ((readDialogue sectorRead chars).1, some (rest ++ more)) := by
  unfold readDialogue
  cases hline : nextLine 4 chars with
  | none => exact ⟨List.nil_prefix, nofun⟩
  | some r =>
    rw [nextLine_append hline more]
    dsimp only
    cases atoi (r.1 ++ [0]) with
    | none => exact ⟨List.nil_prefix, nofun⟩
    | some x =>
      refine ⟨List.prefix_refl _, fun rest h => ?_⟩
      dsimp only at h ⊢
      by_cases hread : sectorRead = true
      · rw [if_pos hread] at h ⊢
        rw [skipLines_append h more]
      · rw [if_neg hread] at h ⊢
        obtain rfl := Option.some.inj h
        rfl

theorem dialogue_append (sectorRead : Bool) (chars more : List UInt8) (c : Command) :
    (dialogue sectorRead chars c).1 <+: (dialogue sectorRead (chars ++ more) c).1 ∧
      ∀ rest, (dialogue sectorRead chars c).2 = some rest →
        dialogue sectorRead (chars ++ more) c =
          ((dialogue sectorRead chars c).1, some (rest ++ more)) := by
  cases c with
  | readSect => exact readDialogue_append sectorRead chars more
  | sector | getTicks | showProcessList | showFiles | runNewProcess | syscallTest | youTyped =>
    refine ⟨List.prefix_refl _, fun rest h => ?_⟩
    obtain rfl := Option.some.inj h
    rfl

/-- **A session goes on**: more characters make more commands. -/
theorem session_append (isProgram : List UInt8 → Bool) (sectorRead : Nat → Bool) (rounds n : Nat)
    (chars more : List UInt8) :
    session isProgram sectorRead rounds n chars <+:
      session isProgram sectorRead rounds n (chars ++ more) := by
  induction rounds generalizing n chars with
  | zero => exact List.prefix_refl _
  | succ rounds ih =>
    rw [session, session]
    cases hline : nextLine 256 chars with
    | none => exact List.nil_prefix
    | some r =>
      rw [nextLine_append hline more]
      dsimp only
      refine (List.prefix_cons_inj _).mpr ?_
      obtain ⟨hfirst, hrest⟩ := dialogue_append (sectorRead n) r.2 more (commandOf isProgram r.1)
      cases hchars : (dialogue (sectorRead n) r.2 (commandOf isProgram r.1)).2 with
      | none =>
        rw [List.append_nil]
        exact hfirst.trans (List.prefix_append ..)
      | some chars' =>
        rw [hrest chars' hchars]
        exact (List.prefix_append_right_inj _).mpr (ih (n + 1) chars')

/-! ## What is typed -/

variable {o : Options} {image : Builder} {dirName : List UInt8} {l : Listing}

/-- **What is typed is what is done**: with the keys pressed at any times between the accesses of the
reader, the loop makes commands of the text typed, in its order, and all of them when the reader has
caught up. -/
theorem typed_session {keyBuffer : Nat → UInt8} (hsource : o.source = some (dirName, l))
    (hrun : makeListfs o = some image) (hbs : o.blockSize = 512)
    (hcount : o.blockCount.toNat ≤ COMMON_INDICATOR_32) (hl : l.NoneEmpty)
    (hn : ∀ h ∈ l.visible.heads, h.Named)
    (hlaunch : ∀ name, (∀ b ∈ name, b ≠ 0) → Launchable o (l.visible.entry? name))
    (hdisk : ∀ i < image.fsHeader.size, E.disk i = image.disk i)
    (hfirst : E.firstFileSectorNumber = image.fsHeader.firstFile)
    (hkeys : Run KeyStep (init keyBuffer) as s) (rounds : Nat) :
    ∃ N, ∀ fuel ≥ N,
      kernelLoop E fuel rounds 0 (charsWait behind (results as (init keyBuffer)) .init) <+:
        session (fun name => (l.program? name).isSome) E.sectorRead rounds 0
          (charsWait behind (keyCodes as) .init) ∧
      (s.unread = 0 →
        kernelLoop E fuel rounds 0 (charsWait behind (results as (init keyBuffer)) .init) =
          session (fun name => (l.program? name).isSome) E.sectorRead rounds 0
            (charsWait behind (keyCodes as) .init)) := by
  have hexe : ∀ rest line tail, (∀ b ∈ line, b ≠ 0) → ∃ fuel, isThereExe E.disk rest
      (line ++ 0 :: tail) fuel (uint32 E.firstFileSectorNumber) =
        some (l.program? line).isSome := by
    intro rest line tail hline
    obtain ⟨fuel, hexe, -⟩ := onlyPrograms_of_launchable hsource hrun hbs hcount hl hn hline
      (hlaunch line hline) E.disk rest tail hdisk
    rw [hfirst]
    exact ⟨fuel, hexe⟩
  obtain ⟨hbefore, hall⟩ : charsWait behind (results as (init keyBuffer)) .init <+:
      charsWait behind (keyCodes as) .init ∧ _ := charsWait_results .init hkeys
  have hne : ∀ chr ∈ charsWait behind (results as (init keyBuffer)) .init, chr ≠ 0 :=
    charsWait_ne_zero
  obtain ⟨N, hN⟩ := kernelLoop_session hexe rounds 0 hne
  refine ⟨N, fun fuel hfuel => ⟨?_, fun hunread => ?_⟩⟩
  · obtain ⟨more, hmore⟩ := hbefore
    rw [hN fuel hfuel, ← hmore]
    exact session_append _ _ rounds 0 _ more
  · rw [hN fuel hfuel, hall hunread]

/-- A program `a`, which loops. -/
def programListing : Listing := .leaf [97] ⟨0, 0, 0⟩ (.file [0xEB, 0xFE]) .nil

/-- The options of an image with the small program, in blocks of 512 bytes. -/
def programOptions : Options :=
  ⟨512, 128, some (List.replicate 512 0), some ([115], programListing), 0, zeros⟩

/-- The keys `a` and Enter; the second one is pressed while the first one is read. -/
def programKeys : List KeyAct :=
  .interrupt 30 :: List.replicate 4 (.reader true) ++ .interrupt 28 :: List.replicate 10 (.reader true)

/-- The disk of the image, and a console with nothing in memory. -/
def programShell (image : Builder) : Shell :=
  ⟨image.disk, image.fsHeader.firstFile, fun _ => [], fun _ _ => 0, fun _ => [],
    fun _ => ⟨80, 25, 0, 7, fun _ => 0, fun _ => 0⟩, fun _ => true⟩

theorem makeListfs_program : ∃ image, makeListfs programOptions = some image := by
  have hok : (makeListfs programOptions).isSome = true := by decide +kernel
  exact Option.isSome_iff_exists.mp hok

theorem named_program : ∀ h ∈ programListing.visible.heads, h.Named := by
  intro h hh
  obtain rfl := List.mem_singleton.mp hh
  exact ⟨by decide, by decide +kernel⟩

theorem launchable_program (name : List UInt8) :
    Launchable programOptions (programListing.visible.entry? name) := by
  show Launchable programOptions (if [97] = name then some (.leaf (.file [0xEB, 0xFE])) else none)
  split_ifs
  · show [(0xEB : UInt8), 0xFE].length < 63 * 512
    decide
  · exact trivial

theorem typed_session_program : ∃ image, makeListfs programOptions = some image ∧
    ∃ s, Run KeyStep (init fun _ => 0) programKeys s ∧ ∃ N, ∀ fuel ≥ N,
      kernelLoop (programShell image) fuel 2 0
          (charsWait (fun _ _ => 0) (results programKeys (init fun _ => 0)) .init) =
        [.runNewProcess [97]] := by
  obtain ⟨image, hrun⟩ := makeListfs_program
  have hkeys : Run KeyStep (init fun _ => 0) programKeys
      (programKeys.foldl (fun s a => a.apply s) (init fun _ => 0)) := by
    repeat refine .cons ⟨rfl, by decide⟩ ?_
    exact .nil _
  refine ⟨image, hrun, _, hkeys, ?_⟩
  have hdisk : ∀ i < image.fsHeader.size, (programShell image).disk i = image.disk i :=
    fun _ _ => rfl
  obtain ⟨N, hN⟩ : ∃ N, ∀ fuel ≥ N, kernelLoop (programShell image) fuel 2 0
      (charsWait (fun _ _ => 0) (results programKeys (init fun _ => 0)) .init) <+: _ ∧ _ :=
    typed_session rfl hrun rfl (by decide) ⟨nofun, trivial⟩ named_program
      (fun name _ => launchable_program name) hdisk rfl hkeys 2
  exact ⟨N, fun fuel hfuel => (hN fuel hfuel).2 rfl⟩

end C4os
