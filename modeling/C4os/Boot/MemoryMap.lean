import C4os.Boot.Paging
import C4os.Lib.Blocks
import C4os.Lib.LittleEndian
import C4os.Memory.MemoryMap

/-!
# The memory map from the BIOS to the kernel (`boot.asm`, `memory_manager.c`, `kernel.c`)

* `Answer`, `e820Loop`, `getMemoryMap`: `get_memory_map` of the boot loader, for any answers of the
  BIOS.
* `entryAt`, `memoryMapAt`: the loop of `init_memory_manager` over the bytes of the map.
* `displayMemoryMap`: the lines that the kernel prints.
* `getMemoryMap_entries`: what stands in memory behind the boot loader.
* **`memoryMapAt_getMemoryMap`**: the kernel reads what the BIOS answered.
* **`bios_memory_sound`**: the allocator hands out no page outside of the memory that the BIOS
  reported.
-/

namespace C4os

open Blocks LittleEndian

/-! ## The boot loader -/

/-- An answer of the BIOS to `int 0x15`: the bytes at `ES:DI`, and whether `EBX` is not zero. -/
structure Answer where
  bytes : List UInt8
  more : Bool

/-- The loop of `get_memory_map`, with `DI`: whether it ends with the carry flag. Without another
answer the BIOS does not return. -/
def e820Loop : List (Option Answer) → Nat → Bytes → Option (Bool × Nat × Bytes)
  | [], _, _ => none
  | none :: _, di, m => some (true, di, store32 (add16 di 20) 1 m)
  | some answer :: answers, di, m =>
    let m := overwrite (store32 (add16 di 20) 1 m) di answer.bytes
    if answer.more then e820Loop answers (add16 di 24) m else some (false, add16 di 24, m)

/-- `get_memory_map`: whether it prints its message and halts until an interrupt, and memory. -/
def getMemoryMap (answers : List (Option Answer)) (m : Bytes) : Option (Bool × Bytes) :=
  (e820Loop answers 0x9000 m).map fun r =>
    (r.1 || decide (r.2.1 ≤ 0x9000), repStosw 0 r.2.1 (24 / 2) r.2.2)

/-! ## The kernel -/

/-- The `n` bytes at `a`. -/
def bytesFrom (m : Bytes) (a n : Nat) : List UInt8 := (List.range n).map fun i => m (a + i)

/-- The `MemoryMapEntry` at `a`. -/
def entryAt (m : Bytes) (a : Nat) : MemoryMapEntry where
  base := decode (bytesFrom m a 8)
  length := decode (bytesFrom m (a + 8) 8)
  type := decode (bytesFrom m (a + 16) 4)

/-- The loop of `init_memory_manager` over the entries from `a` on, at most `n` of them. -/
def memoryMapAt (m : Bytes) (fuel : Nat) : Nat → Nat → Nat × Machine → Option (Nat × Machine)
  | 0, _, _ => none
  | n + 1, a, (memorySize, s) =>
    let entry := entryAt m a
    if entry.type = 0 then some (memorySize, s)
    else if entry.type = 1 ∧ entry.base ≥ 0x100000 then
      (s.freePhysPages fuel (entry.base % 2 ^ 32) ((entry.length >>> 12) % 2 ^ 32)).bind fun s =>
        memoryMapAt m fuel n (a + 24) ((memorySize + entry.length) % 2 ^ 32, s)
    else memoryMapAt m fuel n (a + 24) (memorySize, s)

/-- A line of `display_memory_map`. -/
structure RegionLine where
  regionNumber : Nat
  start : Nat
  length : Nat
  type : Nat
  typeName : String
deriving DecidableEq

/-- `memory_types`. -/
def memoryTypes : List String := ["Available", "Reserved", "ACPI Reclaim", "ACPI NVS Memory"]

/-- The line for an entry. There is none if `memory_types` has no such name: the index is that of an
`unsigned long`. -/
def regionLine (regionNumber : Nat) (entry : MemoryMapEntry) : Option RegionLine :=
  memoryTypes[(entry.type + (2 ^ 32 - 1)) % 2 ^ 32]?.map fun name =>
    ⟨regionNumber, entry.base % 2 ^ 32, entry.length % 2 ^ 32, entry.type, name⟩

/-- `display_memory_map`, from the entry at `a` on, at most `n` of them. -/
def displayMemoryMap (m : Bytes) : Nat → Nat → Nat → Option (List RegionLine)
  | 0, _, _ => none
  | n + 1, a, regionNumber =>
    let entry := entryAt m a
    if entry.length = 0 then some []
    else (regionLine regionNumber entry).bind fun line =>
      (displayMemoryMap m n (a + 24) (regionNumber + 1)).map (line :: ·)

/-! ## The bytes of the map -/

/-- The answers up to the last one: the one that ends the list, or the one before the carry flag. -/
def replies : List (Option Answer) → Option (List (List UInt8))
  | [] => none
  | none :: _ => some []
  | some answer :: answers =>
    if answer.more then (replies answers).map (answer.bytes :: ·) else some [answer.bytes]

/-- The list of the BIOS ends with the carry flag. -/
def endsWithCarry : List (Option Answer) → Bool
  | [] => false
  | none :: _ => true
  | some answer :: answers => answer.more && endsWithCarry answers

/-- The entry in an answer. -/
def answerEntry (l : List UInt8) : MemoryMapEntry :=
  ⟨decode (l.take 8), decode ((l.drop 8).take 8), decode ((l.drop 16).take 4)⟩

/-- The answers stand behind one another, and zeros behind them. -/
def MapAt (m : Bytes) : Nat → List (List UInt8) → Prop
  | a, [] => ∀ i < 24, m (a + i) = 0
  | a, l :: ls => Stands m a l ∧ MapAt m (a + 24) ls

variable {m m' : Bytes} {a di k n fuel : Nat} {l : List UInt8} {ls : List (List UInt8)}
  {answers : List (Option Answer)}

theorem MapAt.congr (h : MapAt m a ls) (hlen : ∀ l ∈ ls, l.length ≤ 24)
    (hm : ∀ i, a ≤ i → i < a + 24 * (ls.length + 1) → m' i = m i) : MapAt m' a ls := by
  induction ls generalizing a with
  | nil =>
    intro i hi
    rw [hm _ (by omega) (by simp; omega)]
    exact h i hi
  | cons l ls ih =>
    have hl := hlen l List.mem_cons_self
    rw [List.length_cons] at hm
    refine ⟨h.1.congr fun i hi => hm _ (by omega) (by omega), ?_⟩
    apply ih h.2 fun x hx => hlen x (List.mem_cons_of_mem l hx)
    exact fun i hlo hhi => hm i (by omega) (by omega)

theorem store32_of_not_mem {x i : Nat} (h : i < a ∨ a + 4 ≤ i) : store32 a x m i = m i :=
  if_neg (by omega)

/-- **The loop of `get_memory_map`** stores the answers one behind the other, and changes nothing
else but the entry behind them. -/
theorem e820Loop_spec (h : replies answers = some ls) (hlen : ∀ l ∈ ls, l.length ≤ 24)
    (hroom : di + 24 * (ls.length + 1) < 2 ^ 16) :
    ∃ m', e820Loop answers di m = some (endsWithCarry answers, di + 24 * ls.length, m') ∧
      (∀ m'', (∀ i, di ≤ i → i < di + 24 * ls.length → m'' i = m' i) →
        (∀ i < 24, m'' (di + 24 * ls.length + i) = 0) → MapAt m'' di ls) ∧
      ∀ i, i < di ∨ di + 24 * (ls.length + 1) ≤ i → m' i = m i := by
  induction answers generalizing di m ls with
  | nil => cases h
  | cons answer answers ih =>
    cases answer with
    | none =>
      obtain rfl := Option.some.inj h
      rw [List.length_nil] at hroom ⊢
      have h20 : add16 di 20 = di + 20 := add16_eq (by omega)
      refine ⟨store32 (di + 20) 1 m, ?_, fun m'' _ hz => hz, fun i hi => ?_⟩
      · rw [e820Loop, h20]
        rfl
      · exact store32_of_not_mem (by omega)
    | some answer =>
      rw [replies] at h
      have hstands := stands_overwrite (store32 (add16 di 20) 1 m) di answer.bytes
      -- the answer is stored in its entry
      have hstep : answer.bytes.length ≤ 24 → di + 48 < 2 ^ 16 → ∀ i, i < di ∨ di + 24 ≤ i →
          overwrite (store32 (add16 di 20) 1 m) di answer.bytes i = m i := by
        intro hl hbound i hi
        rw [add16_eq (by omega)]
        rcases hi with hi | hi
        · rw [overwrite_of_lt hi]
          exact store32_of_not_mem (by omega)
        · rw [overwrite_of_le (by omega)]
          exact store32_of_not_mem (by omega)
      have hrun₁ : e820Loop (some answer :: answers) di m =
          if answer.more then
            e820Loop answers (add16 di 24) (overwrite (store32 (add16 di 20) 1 m) di answer.bytes)
          else
            some (false, add16 di 24, overwrite (store32 (add16 di 20) 1 m) di answer.bytes) := rfl
      generalize overwrite (store32 (add16 di 20) 1 m) di answer.bytes = m₁ at hstands hstep hrun₁
      split_ifs at h with hmore
      · obtain ⟨more, hans, rfl⟩ := Option.map_eq_some_iff.mp h
        have hl := hlen _ List.mem_cons_self
        rw [List.length_cons] at hroom ⊢
        obtain ⟨m', hrun, hmap, hother⟩ := @ih m₁ (di + 24) more hans
          (fun x hx => hlen x (List.mem_cons_of_mem _ hx)) (by omega)
        refine ⟨m', ?_, fun m'' hsame hz => ⟨?_, ?_⟩, fun i hi => ?_⟩
        · rw [hrun₁, if_pos hmore, add16_eq (show di + 24 < 2 ^ 16 by omega), hrun,
            endsWithCarry, hmore, Bool.true_and]
          congr 3
          omega
        · refine hstands.congr fun i hi => ?_
          rw [hsame _ (by omega) (by omega), hother _ (by omega)]
        · apply hmap m'' fun i hlo hhi => hsame i (by omega) (by omega)
          intro i hi
          rw [← hz i hi]
          congr 1
          omega
        · rw [hother i (by omega)]
          exact hstep hl (by omega) i (by omega)
      · obtain rfl := Option.some.inj h
        have hl := hlen _ List.mem_cons_self
        rw [List.length_singleton] at hroom ⊢
        refine ⟨m₁, ?_, fun m'' hsame hz => ⟨?_, hz⟩, fun i hi => ?_⟩
        · rw [hrun₁, if_neg hmore, add16_eq (show di + 24 < 2 ^ 16 by omega), endsWithCarry,
            Bool.eq_false_iff.mpr hmore]
          rfl
        · exact hstands.congr fun i hi => hsame _ (by omega) (by omega)
        · exact hstep hl (by omega) i (by omega)

/-- **What `get_memory_map` leaves**: the answers of the BIOS and a terminator; its message means
that the list ended with the carry flag. -/
theorem getMemoryMap_entries (m : Bytes) (h : replies answers = some ls)
    (hlen : ∀ l ∈ ls, l.length ≤ 24) (hroom : 0x9000 + 24 * (ls.length + 1) < 2 ^ 16) :
    ∃ m', getMemoryMap answers m = some (endsWithCarry answers, m') ∧ MapAt m' 0x9000 ls ∧
      ∀ i, i < 0x9000 ∨ 0x9000 + 24 * (ls.length + 1) ≤ i → m' i = m i := by
  obtain ⟨m₁, hrun, hmap, hother⟩ := e820Loop_spec (m := m) h hlen hroom
  have hend : ∀ i, repStosw 0 (0x9000 + 24 * ls.length) (24 / 2) m₁ i =
      if 0x9000 + 24 * ls.length ≤ i ∧ i < 0x9000 + 24 * ls.length + 24 then 0 else m₁ i :=
    fun i => repStosw_apply (by omega)
  refine ⟨repStosw 0 (0x9000 + 24 * ls.length) (24 / 2) m₁, ?_, ?_, fun i hi => ?_⟩
  · unfold getMemoryMap
    rw [hrun, Option.map_some]
    dsimp only
    congr 2
    -- a list that does not end with the carry flag has an entry
    cases hc : endsWithCarry answers with
    | true => rfl
    | false =>
      have hne : ls ≠ [] := by
        rintro rfl
        cases answers with
        | nil => cases h
        | cons answer answers =>
          cases answer with
          | none => cases hc
          | some answer =>
            rw [replies] at h
            split_ifs at h
            · obtain ⟨_, _, hnil⟩ := Option.map_eq_some_iff.mp h
              cases hnil
            · cases h
      have hpos := List.length_pos_iff.mpr hne
      rw [Bool.false_or]
      exact decide_eq_false (by omega)
  · apply hmap
    · intro i _ hi
      rw [hend, if_neg (by omega)]
    · intro i hi
      rw [hend, if_pos (by omega)]
  · rw [hend, if_neg (by omega), hother i hi]

/-! ## Reading the map -/

theorem bytesFrom_stands (h : Stands m a l) (hk : k + n ≤ l.length) :
    bytesFrom m (a + k) n = (l.drop k).take n := by
  have hlen : ((l.drop k).take n).length = n := by
    rw [List.length_take, List.length_drop]
    omega
  apply List.ext_getElem
  · rw [hlen, bytesFrom, List.length_map, List.length_range]
  · intro i hi _
    rw [bytesFrom, List.length_map, List.length_range] at hi
    have hget : (l.drop k)[i]? = some ((l.drop k).take n)[i] := by
      rw [List.getElem_take]
      exact List.getElem?_eq_getElem _
    rw [List.getElem?_drop] at hget
    simp only [bytesFrom, List.getElem_map, List.getElem_range]
    rw [Nat.add_assoc]
    exact h _ _ hget

theorem entryAt_stands (h : Stands m a l) (hl : 20 ≤ l.length) : entryAt m a = answerEntry l := by
  have h0 : bytesFrom m a 8 = l.take 8 := bytesFrom_stands (k := 0) h (by omega)
  unfold entryAt answerEntry
  rw [h0, bytesFrom_stands h (by omega), bytesFrom_stands h (by omega)]

theorem entryAt_zero (h : ∀ i < 24, m (a + i) = 0) : entryAt m a = ⟨0, 0, 0⟩ := by
  have hread : ∀ k n, k + n ≤ 24 → bytesFrom m (a + k) n = List.replicate n 0 := by
    intro k n hk
    apply List.eq_replicate_iff.mpr
    constructor
    · rw [bytesFrom, List.length_map, List.length_range]
    · intro b hb
      obtain ⟨i, hi, rfl⟩ := List.mem_map.mp hb
      have hlt := List.mem_range.mp hi
      rw [Nat.add_assoc]
      exact h _ (by omega)
  have h0 : bytesFrom m a 8 = List.replicate 8 0 := hread 0 8 (by omega)
  unfold entryAt
  rw [h0, hread 8 8 (by omega), hread 16 4 (by omega)]
  rfl

/-- **The loop of `init_memory_manager`** over the bytes is the loop over the answers. -/
theorem memoryMapAt_mapAt (h : MapAt m a ls) (hlen : ∀ l ∈ ls, 20 ≤ l.length) (hn : ls.length < n)
    (r : Nat × Machine) : memoryMapAt m fuel n a r =
      memoryMapLoop fuel (ls.map answerEntry ++ [⟨0, 0, 0⟩]) r := by
  induction ls generalizing a n r with
  | nil =>
    cases n with
    | zero => exact absurd hn (Nat.not_lt_zero _)
    | succ n =>
      rw [memoryMapAt, entryAt_zero h]
      rfl
  | cons l ls ih =>
    cases n with
    | zero => exact absurd hn (Nat.not_lt_zero _)
    | succ n =>
      have hrest : ∀ r, memoryMapAt m fuel n (a + 24) r = _ := fun r =>
        ih h.2 (fun x hx => hlen x (List.mem_cons_of_mem l hx)) (Nat.lt_of_succ_lt_succ hn) r
      obtain ⟨memorySize, s⟩ := r
      rw [memoryMapAt, entryAt_stands h.1 (hlen l List.mem_cons_self), List.map_cons,
        List.cons_append, memoryMapLoop]
      simp only [hrest]

/-- What `display_memory_map` prints for entries: a line for each one before the first that is
empty. -/
def regionLines : Nat → List MemoryMapEntry → Option (List RegionLine)
  | _, [] => some []
  | regionNumber, entry :: entries =>
    if entry.length = 0 then some []
    else (regionLine regionNumber entry).bind fun line =>
      (regionLines (regionNumber + 1) entries).map (line :: ·)

theorem displayMemoryMap_mapAt (h : MapAt m a ls) (hlen : ∀ l ∈ ls, 20 ≤ l.length)
    (hn : ls.length < n) (regionNumber : Nat) :
    displayMemoryMap m n a regionNumber = regionLines regionNumber (ls.map answerEntry) := by
  induction ls generalizing a n regionNumber with
  | nil =>
    cases n with
    | zero => exact absurd hn (Nat.not_lt_zero _)
    | succ n =>
      rw [displayMemoryMap, entryAt_zero h]
      rfl
  | cons l ls ih =>
    cases n with
    | zero => exact absurd hn (Nat.not_lt_zero _)
    | succ n =>
      rw [displayMemoryMap, entryAt_stands h.1 (hlen l List.mem_cons_self), List.map_cons,
        regionLines, ih h.2 (fun x hx => hlen x (List.mem_cons_of_mem l hx))
          (Nat.lt_of_succ_lt_succ hn)]

/-- **The kernel reads what the BIOS answered**: the loop of `init_memory_manager` runs over the
answers in their order, also where the list ends with the carry flag or an answer has 20 bytes, and
`display_memory_map` prints them. -/
theorem memoryMapAt_getMemoryMap (m : Bytes) (fuel : Nat) (h : replies answers = some ls)
    (hlen : ∀ l ∈ ls, 20 ≤ l.length ∧ l.length ≤ 24)
    (hroom : 0x9000 + 24 * (ls.length + 1) < 2 ^ 16) :
    ∃ m', getMemoryMap answers m = some (endsWithCarry answers, m') ∧
      (∀ n > ls.length, ∀ r, memoryMapAt m' fuel n 0x9000 r =
        memoryMapLoop fuel (ls.map answerEntry ++ [⟨0, 0, 0⟩]) r) ∧
      (∀ n > ls.length, displayMemoryMap m' n 0x9000 1 = regionLines 1 (ls.map answerEntry)) ∧
      ∀ i, i < 0x9000 ∨ 0x9000 + 24 * (ls.length + 1) ≤ i → m' i = m i := by
  obtain ⟨m', hrun, hmap, hother⟩ :=
    getMemoryMap_entries m h (fun l hl => (hlen l hl).2) hroom
  refine ⟨m', hrun, fun n hn r => ?_, fun n hn => ?_, hother⟩
  · exact memoryMapAt_mapAt hmap (fun l hl => (hlen l hl).1) hn r
  · exact displayMemoryMap_mapAt hmap (fun l hl => (hlen l hl).1) hn 1

/-- Two answers: usable memory from the first megabyte on, in 20 bytes, and a reserved region. -/
def twoAnswers : List (Option Answer) :=
  [some ⟨encode 8 0x100000 ++ encode 8 0x4000 ++ encode 4 1, true⟩,
    some ⟨encode 8 0xFFFC0000 ++ encode 8 0x40000 ++ encode 4 2 ++ encode 4 1, false⟩]

theorem memoryMapAt_getMemoryMap_two : ∃ m',
    getMemoryMap twoAnswers (fun _ => 0) = some (false, m') ∧
    displayMemoryMap m' 3 0x9000 1 = some [⟨1, 0x100000, 0x4000, 1, "Available"⟩,
      ⟨2, 0xFFFC0000, 0x40000, 2, "Reserved"⟩] := by
  obtain ⟨m', hrun, -, hdisplay, -⟩ := memoryMapAt_getMemoryMap
    (fun _ => 0) 1 (rfl : replies twoAnswers = _) (by decide) (by decide)
  refine ⟨m', hrun, (hdisplay 3 (by decide)).trans ?_⟩
  decide +kernel

/-! ## What is handed out -/

theorem usable_terminated (entries : List MemoryMapEntry) :
    usable (entries ++ [⟨0, 0, 0⟩]) = usable entries := by
  unfold usable
  congr 1
  induction entries with
  | nil => rfl
  | cons e entries ih =>
    rw [List.cons_append, List.takeWhile_cons, List.takeWhile_cons, ih]

theorem inUsable_terminated (entries : List MemoryMapEntry) :
    InUsable (entries ++ [⟨0, 0, 0⟩]) = InUsable entries := by
  unfold InUsable
  rw [usable_terminated]

theorem handsOver_terminated {entries : List MemoryMapEntry} {e : MemoryMapEntry}
    (h : HandsOver entries e) : HandsOver (entries ++ [⟨0, 0, 0⟩]) e := by
  unfold HandsOver
  rw [inUsable_terminated]
  exact h

/-- **From the BIOS to the allocator**: whatever the BIOS answers, as long as the pages of each
usable region, cut to 32 bits, are usable memory, no page is ever handed out that lies in none of
the usable regions. Where every call of the kernel's loop is safe, the loop returns. -/
theorem bios_memory_sound {s : Machine} (m : Bytes) (hs : s.Empty)
    (h : replies answers = some ls) (hlen : ∀ l ∈ ls, 20 ≤ l.length ∧ l.length ≤ 24)
    (hroom : 0x9000 + 24 * (ls.length + 1) < 2 ^ 16)
    (hok : ∀ e ∈ usable (ls.map answerEntry), HandsOver (ls.map answerEntry) e) :
    ∃ m', getMemoryMap answers m = some (endsWithCarry answers, m') ∧
      (LoopOk (ls.map answerEntry ++ [⟨0, 0, 0⟩]) s → ∀ n > ls.length, ∃ rounds,
        ∀ fuel ≥ rounds, ∃ r, memoryMapAt m' fuel n 0x9000 (0x100000, s) = some r) ∧
      ∀ n > ls.length, ∀ fuel memorySize s',
        memoryMapAt m' fuel n 0x9000 (0x100000, s) = some (memorySize, s') →
        ∀ ops σ, UseRun s' ops σ → ∀ r ∈ σ.out,
          ∀ x ∈ Pages.pages 4096 (Machine.frameOf r.base) r.count,
            InUsable (ls.map answerEntry) x := by
  obtain ⟨m', hrun, hmap, -⟩ :=
    getMemoryMap_entries m h (fun l hl => (hlen l hl).2) hroom
  have hok' : ∀ e ∈ usable (ls.map answerEntry ++ [⟨0, 0, 0⟩]),
      HandsOver (ls.map answerEntry ++ [⟨0, 0, 0⟩]) e := by
    intro e he
    rw [usable_terminated] at he
    exact handsOver_terminated (hok e he)
  have hread : ∀ fuel, ∀ n > ls.length, memoryMapAt m' fuel n 0x9000 (0x100000, s) = _ :=
    fun _ n hn => memoryMapAt_mapAt hmap (fun l hl => (hlen l hl).1) hn _
  refine ⟨m', hrun, fun hl n hn => ?_, fun n hn fuel memorySize s' hloop ops σ hops r hr x hx => ?_⟩
  · obtain ⟨rounds, hrounds⟩ := loop_returns hs hok' hl
    refine ⟨rounds, fun fuel hf => ?_⟩
    rw [hread fuel n hn]
    exact hrounds fuel hf
  · rw [hread fuel n hn] at hloop
    have hin := (((loop_sound hs hok' hloop).1 ops σ hops).2 r hr).2.2.pages x hx
    rwa [inUsable_terminated] at hin

theorem bios_memory_sound_two : ∃ m' s' p t,
    getMemoryMap twoAnswers (fun _ => 0) = some (false, m') ∧
    (∃ rounds, ∀ fuel ≥ rounds,
      ∃ r, memoryMapAt m' fuel 3 0x9000 (0x100000, emptyMachine) = some r) ∧
    memoryMapAt m' 1 3 0x9000 (0x100000, emptyMachine) = some (0x104000, s') ∧
    s'.allocPhysPages 1 1 = some (p, t) ∧ p = 0x103000 ∧
    InUsable [⟨0x100000, 0x4000, 1⟩, ⟨0xFFFC0000, 0x40000, 2⟩] p := by
  have h : (memoryMapLoop 1 [⟨0x100000, 0x4000, 1⟩, ⟨0xFFFC0000, 0x40000, 2⟩, ⟨0, 0, 0⟩]
      (0x100000, emptyMachine)).map (fun r => (r.1, (r.2.allocPhysPages 1 1).map Prod.fst)) =
      some (0x104000, some 0x103000) := by
    decide +kernel
  obtain ⟨⟨n, s'⟩, hloop, h⟩ := Option.map_eq_some_iff.mp h
  obtain ⟨rfl, h⟩ := Prod.mk.inj h
  obtain ⟨⟨p, t⟩, halloc, rfl⟩ := Option.map_eq_some_iff.mp h
  have hentries : [encode 8 0x100000 ++ encode 8 0x4000 ++ encode 4 1,
      encode 8 0xFFFC0000 ++ encode 8 0x40000 ++ encode 4 2 ++ encode 4 1].map answerEntry =
      [⟨0x100000, 0x4000, 1⟩, ⟨0xFFFC0000, 0x40000, 2⟩] := by decide +kernel
  have hlen : ∀ l ∈ [encode 8 0x100000 ++ encode 8 0x4000 ++ encode 4 1,
      encode 8 0xFFFC0000 ++ encode 8 0x40000 ++ encode 4 2 ++ encode 4 1],
      20 ≤ l.length ∧ l.length ≤ 24 := by decide +kernel
  have hok : ∀ e ∈ usable [⟨0x100000, 0x4000, 1⟩, ⟨0xFFFC0000, 0x40000, 2⟩],
      HandsOver [⟨0x100000, 0x4000, 1⟩, ⟨0xFFFC0000, 0x40000, 2⟩] e := by
    intro e he
    have hu : usable [⟨0x100000, 0x4000, 1⟩, ⟨0xFFFC0000, 0x40000, 2⟩] =
      [⟨0x100000, 0x4000, 1⟩] := by decide
    rw [hu, List.mem_singleton] at he
    rw [he]
    exact ⟨by decide +kernel, by decide +kernel, by decide +kernel⟩
  have hl : LoopOk [⟨0x100000, 0x4000, 1⟩, ⟨0xFFFC0000, 0x40000, 2⟩, ⟨0, 0, 0⟩] emptyMachine := by
    have hu : usable [⟨0x100000, 0x4000, 1⟩, ⟨0xFFFC0000, 0x40000, 2⟩, ⟨0, 0, 0⟩] =
      [⟨0x100000, 0x4000, 1⟩] := by decide
    refine ⟨⟨⟨0, 0, 0⟩, by decide, rfl⟩, ?_, ?_, ?_⟩
    · rw [hu]
      decide
    · rw [hu]
      decide
    · rw [hu]
      exact ⟨fun e => absurd rfl e, fun _ _ _ => trivial⟩
  obtain ⟨m', hrun, hreturns, hsound⟩ := bios_memory_sound (s := emptyMachine) (fun _ => 0) ⟨rfl, rfl, rfl⟩
    (rfl : replies twoAnswers = _) hlen (by decide) (by rw [hentries]; exact hok)
  obtain ⟨m'', hrun', hmap, -⟩ := getMemoryMap_entries (fun _ => 0)
    (rfl : replies twoAnswers = _) (fun l hl => (hlen l hl).2) (by decide)
  obtain rfl : m' = m'' := congrArg Prod.snd (Option.some.inj (hrun.symm.trans hrun'))
  have hread : memoryMapAt m' 1 3 0x9000 (0x100000, emptyMachine) = some (0x104000, s') := by
    rw [memoryMapAt_mapAt hmap (fun l hl => (hlen l hl).1) (by decide), hentries]
    exact hloop
  have hops : UseRun s' [.alloc 1] ⟨t, [], [⟨0x103000, 1⟩]⟩ :=
    .cons ⟨⟨by decide, 1, _, t, halloc, rfl⟩, fun _ => PhysOp.noConfusion⟩ (.nil _)
  have hframe : Machine.frameOf 0x103000 = 0x103000 := by decide +kernel
  have hin := hsound 3 (by decide) 1 0x104000 s' hread _ _ hops ⟨0x103000, 1⟩ (by simp) 0x103000
    (by rw [hframe]; exact Pages.base_mem_pages (by decide))
  rw [hentries] at hin
  rw [hentries] at hreturns
  exact ⟨m', s', _, t, hrun, hreturns hl 3 (by decide), hread, halloc, rfl, hin⟩

end C4os
