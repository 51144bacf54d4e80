import C4os.ListFs.Kernel

/-!
# `find_file` of the boot loader (`boot.asm`)

* `repneScasb`, `repeCmpsb`: the string instructions, with the direction flag clear.
* `bootFindFile`: the search, with the sector number in `DX:AX`.
* `Chain disk rest secs`: file headers linked from the first to the last.
* **`boot_kernel_find`**: on a chain both searches stop at the first header with the name.
-/

namespace C4os

open LittleEndian

/-! ## The search -/

/-- `repne scasb`: the value of `CX` behind it. -/
def repneScasb (al : UInt8) : Nat → List UInt8 → Nat
  | 0, _ => 0
  | cx + 1, b :: mem => if b = al then cx else repneScasb al cx mem
  | cx + 1, [] => cx + 1

/-- `repe cmpsb`: the zero flag behind it; it is `zf` before. -/
def repeCmpsb : Bool → Nat → List UInt8 → List UInt8 → Bool
  | zf, 0, _, _ => zf
  | _, cx + 1, a :: si, b :: di => if a = b then repeCmpsb true cx si di else false
  | zf, _, _, _ => zf

/-- `neg cx`. -/
def neg16 (x : Nat) : Nat := (2 ^ 16 - x) % 2 ^ 16

/-- `dec cx`. -/
def dec16 (x : Nat) : Nat := (x + (2 ^ 16 - 1)) % 2 ^ 16

/-- `word[f_info + off]`. -/
def field16 (off : Nat) (mem : List UInt8) : Nat := decode ((mem.drop off).take 2)

/-- The comparison of the name at `f_info` with the name at `DS:SI`. -/
def sameName (si fInfo : List UInt8) : Bool :=
  let cx := dec16 (neg16 (repneScasb 0 0xFFFF fInfo))
  repeCmpsb (cx = 0) cx si fInfo

/-- `find_file`: the sector of the header that is left at `f_info`, or `NOT FOUND`. -/
def bootFindFile (disk : Disk) (rest si : List UInt8) : Nat → Nat → Nat → Option (Option Nat)
  | 0, _, _ => none
  | fuel + 1, dx, ax =>
    if ax = 0xFFFF ∧ dx = 0xFFFF then some none
    else
      let fInfo := bufferAt disk rest (dx * 2 ^ 16 + ax)
      if sameName si fInfo then some (some (dx * 2 ^ 16 + ax))
      else bootFindFile disk rest si fuel (field16 258 fInfo) (field16 256 fInfo)

/-! ## Names -/

variable {disk : Disk} {rest restBoot name tail mem : List UInt8} {s cx n : Nat}

theorem cString_append {m : List UInt8} (h : cString mem = some m) :
    ∃ t, mem = m ++ 0 :: t ∧ ∀ b ∈ m, b ≠ 0 := by
  induction mem generalizing m with
  | nil => cases h
  | cons b mem ih =>
    rw [cString] at h
    split_ifs at h with hb
    · obtain rfl := Option.some.inj h
      exact ⟨mem, by rw [hb]; rfl, by simp⟩
    · obtain ⟨m', hm, rfl⟩ := Option.map_eq_some_iff.mp h
      obtain ⟨t, rfl, hne⟩ := ih hm
      exact ⟨t, rfl, fun c hc => (List.mem_cons.mp hc).elim (fun e => e ▸ hb) (hne c)⟩

theorem repneScasb_append (hn : ∀ b ∈ name, b ≠ 0) (hcx : name.length < cx) :
    repneScasb 0 cx (name ++ 0 :: tail) = cx - (name.length + 1) := by
  induction name generalizing cx with
  | nil =>
    obtain ⟨cx, rfl⟩ := Nat.exists_eq_succ_of_ne_zero (Nat.ne_of_gt hcx)
    exact if_pos rfl
  | cons b name ih =>
    obtain ⟨cx, rfl⟩ := Nat.exists_eq_succ_of_ne_zero (Nat.ne_of_gt (Nat.zero_lt_of_lt hcx))
    rw [List.cons_append, repneScasb, if_neg (hn b List.mem_cons_self),
      ih (fun c hc => hn c (List.mem_cons_of_mem b hc)) (Nat.lt_of_succ_lt_succ hcx)]
    rw [List.length_cons]
    omega

theorem dec16_neg16 (hn : n < 0xFFFF) : dec16 (neg16 (0xFFFF - (n + 1))) = n + 1 := by
  unfold dec16 neg16
  omega

theorem repeCmpsb_iff {m t : List UInt8} {zf : Bool} (hm : ∀ b ∈ m, b ≠ 0)
    (hn : ∀ b ∈ name, b ≠ 0) :
    repeCmpsb zf (m.length + 1) (name ++ 0 :: tail) (m ++ 0 :: t) = true ↔ m = name := by
  induction m generalizing name zf with
  | nil =>
    cases name with
    | nil => simp [repeCmpsb]
    | cons a name =>
      rw [List.cons_append, List.nil_append, List.length_nil, repeCmpsb,
        if_neg (hn a List.mem_cons_self)]
      simp
  | cons b m ih =>
    cases name with
    | nil =>
      rw [List.cons_append, List.nil_append, List.length_cons, repeCmpsb,
        if_neg fun h => hm b List.mem_cons_self h.symm]
      simp
    | cons a name =>
      rw [List.cons_append, List.cons_append, List.length_cons, repeCmpsb]
      by_cases hab : a = b
      · rw [if_pos hab, ih (fun c hc => hm c (List.mem_cons_of_mem b hc)) fun c hc =>
          hn c (List.mem_cons_of_mem a hc), hab]
        simp
      · rw [if_neg hab]
        simp [Ne.symm hab]

/-- **The boot loader compares whole strings.** -/
theorem sameName_iff {m : List UInt8} (hn : ∀ b ∈ name, b ≠ 0) (hm : cString mem = some m)
    (hlen : m.length < 0xFFFF) : sameName (name ++ 0 :: tail) mem = true ↔ m = name := by
  obtain ⟨t, rfl, hne⟩ := cString_append hm
  unfold sameName
  dsimp only
  rw [repneScasb_append hne hlen, dec16_neg16 hlen]
  exact repeCmpsb_iff hne hn

/-! ## Chains -/

/-- The name of the header in the sector `s`. -/
def headerName (disk : Disk) (s : Nat) : Option (List UInt8) := cString ((disk s).bytes.take 256)

/-- File headers with names of at most 255 bytes, each linked to the next one and the last one to
`-1`. Sector numbers have 32 bits, and `-1` is none. -/
inductive Chain (disk : Disk) : List Nat → Prop where
  | last {s : Nat} (name : 0 ∈ (disk s).bytes.take 256) (lt : s < COMMON_INDICATOR_32)
      (next : headerNext (disk s).bytes = COMMON_INDICATOR_64) : Chain disk [s]
  | cons {s s' : Nat} {secs : List Nat} (name : 0 ∈ (disk s).bytes.take 256)
      (lt : s < COMMON_INDICATOR_32) (next : headerNext (disk s).bytes = s')
      (tail : Chain disk (s' :: secs)) : Chain disk (s :: s' :: secs)

theorem cString_append_right {m : List UInt8} (h : cString mem = some m) (t : List UInt8) :
    cString (mem ++ t) = some m := by
  induction mem generalizing m with
  | nil => cases h
  | cons b mem ih =>
    rw [List.cons_append, cString]
    rw [cString] at h
    split_ifs at h ⊢ with hb
    · exact h
    · obtain ⟨m', hm, rfl⟩ := Option.map_eq_some_iff.mp h
      rw [ih hm]
      rfl

theorem headerName_spec (h : 0 ∈ (disk s).bytes.take 256) (rest : List UInt8) :
    ∃ m, headerName disk s = some m ∧ cString (bufferAt disk rest s) = some m ∧
      m.length < 256 := by
  obtain ⟨m, hm⟩ := cString_isSome_iff.mpr h
  refine ⟨m, hm, ?_, ?_⟩
  · have := cString_append_right hm ((disk s).bytes.drop 256 ++ rest)
    rwa [← List.append_assoc, List.take_append_drop] at this
  · obtain ⟨t, ht, -⟩ := cString_append hm
    have hlen : ((disk s).bytes.take 256).length ≤ 256 := List.length_take_le _ _
    rw [ht, List.length_append, List.length_cons] at hlen
    omega

theorem field64_bufferAt {off : Nat} (hoff : off + 8 ≤ 512) (rest : List UInt8) :
    field64 off (bufferAt disk rest s) = field64 off (disk s).bytes := by
  have hlen := (disk s).length_eq
  unfold field64 bufferAt
  rw [List.drop_append_of_le_length (by omega), List.take_append_of_le_length (by
    rw [List.length_drop]
    omega)]

theorem field16_lt (off : Nat) (mem : List UInt8) : field16 off mem < 2 ^ 16 := by
  refine Nat.lt_of_lt_of_le (decode_lt _) ?_
  exact Nat.pow_le_pow_right (by decide) (List.length_take_le 2 _)

theorem field16_next : field16 258 mem * 2 ^ 16 + field16 256 mem = uint32 (headerNext mem) := by
  have h8 := decode_take_add 4 4 (mem.drop 256)
  have h4 : decode ((mem.drop 256).take 4) =
      decode ((mem.drop 256).take 2) + 256 ^ 2 * decode ((mem.drop 258).take 2) := by
    rw [← show (mem.drop 256).drop 2 = mem.drop 258 from List.drop_drop]
    exact decode_take_add 2 2 (mem.drop 256)
  have hlt : decode ((mem.drop 256).take 4) < 256 ^ 4 := by
    refine Nat.lt_of_lt_of_le (decode_lt _) ?_
    exact Nat.pow_le_pow_right (by decide) (List.length_take_le 4 _)
  unfold uint32 headerNext field64 field16
  rw [h8]
  omega

theorem field16_eq : field16 258 mem = uint32 (headerNext mem) / 2 ^ 16 ∧
    field16 256 mem = uint32 (headerNext mem) % 2 ^ 16 := by
  have h : field16 258 mem * 2 ^ 16 + field16 256 mem = _ := field16_next
  have h1 := field16_lt 256 mem
  omega

/-! ## One header -/

section Step

variable {fuel : Nat} (hname : 0 ∈ (disk s).bytes.take 256) (hn : ∀ b ∈ name, b ≠ 0)

include hname hn

theorem bootFindFile_succ (hlt : s < COMMON_INDICATOR_32) :
    bootFindFile disk rest (name ++ 0 :: tail) (fuel + 1) (s / 2 ^ 16) (s % 2 ^ 16) =
      if headerName disk s = some name then some (some s)
      else bootFindFile disk rest (name ++ 0 :: tail) fuel
        (uint32 (headerNext (disk s).bytes) / 2 ^ 16)
        (uint32 (headerNext (disk s).bytes) % 2 ^ 16) := by
  obtain ⟨m, hm, hbuf, hlen⟩ := headerName_spec hname rest
  have hs : s / 2 ^ 16 * 2 ^ 16 + s % 2 ^ 16 = s := by omega
  have hend : ¬ (s % 2 ^ 16 = 0xFFFF ∧ s / 2 ^ 16 = 0xFFFF) := by
    unfold COMMON_INDICATOR_32 at hlt
    omega
  have hnext : headerNext (bufferAt disk rest s) = headerNext (disk s).bytes :=
    field64_bufferAt (by decide) rest
  rw [bootFindFile, if_neg hend]
  dsimp only
  rw [hs, field16_eq.1, field16_eq.2, hnext, hm]
  refine if_congr ?_ rfl rfl
  rw [sameName_iff hn hbuf (by omega), Option.some.injEq]

theorem findHeader_succ : findHeader disk rest (name ++ 0 :: tail) (fuel + 1) s =
      if headerName disk s = some name then some (some s)
      else if headerNext (disk s).bytes = COMMON_INDICATOR_64 then some none
      else findHeader disk rest (name ++ 0 :: tail) fuel (uint32 (headerNext (disk s).bytes)) := by
  obtain ⟨m, hm, hbuf, -⟩ := headerName_spec hname rest
  have hnext : headerNext (bufferAt disk rest s) = headerNext (disk s).bytes :=
    field64_bufferAt (by decide) rest
  obtain ⟨r, hr⟩ : ∃ r, strcmp (name ++ 0 :: tail) (bufferAt disk rest s) = some r :=
    strcmp_isSome hbuf
  have hiff : strcmp (name ++ 0 :: tail) (bufferAt disk rest s) = some 0 ↔ _ :=
    strcmp_eq_zero_iff hn
  rw [hr, hbuf, Option.some.injEq] at hiff
  rw [findHeader, hr, Option.bind_some, hnext, hm]
  exact if_congr hiff rfl rfl

end Step

/-! ## The whole chain -/

theorem Chain.find (rest restBoot tail tail' : List UInt8) {secs : List Nat} {fuel : Nat}
    (h : Chain disk secs) (hhead : secs.head? = some s) (hn : ∀ b ∈ name, b ≠ 0)
    (hfuel : secs.length < fuel) :
    bootFindFile disk restBoot (name ++ 0 :: tail) fuel (s / 2 ^ 16) (s % 2 ^ 16) =
        some (secs.find? fun x => headerName disk x = some name) ∧
      findHeader disk rest (name ++ 0 :: tail') fuel s =
        some (secs.find? fun x => headerName disk x = some name) := by
  induction h generalizing s fuel with
  | @last x hname hlt hnext =>
    obtain rfl := Option.some.inj hhead
    obtain ⟨fuel, rfl⟩ : ∃ n, fuel = n + 2 := ⟨fuel - 2, by
      simp only [List.length_singleton] at hfuel
      omega⟩
    rw [bootFindFile_succ hname hn hlt, findHeader_succ hname hn, hnext, if_pos rfl,
      List.find?_singleton]
    by_cases hx : headerName disk x = some name
    · simp [hx]
    · rw [if_neg hx, if_neg hx]
      simp [hx, bootFindFile, uint32, COMMON_INDICATOR_64]
  | @cons x x' secs hname hlt hnext htail ih =>
    obtain rfl := Option.some.inj hhead
    obtain ⟨fuel, rfl⟩ : ∃ n, fuel = n + 1 := ⟨fuel - 1, by omega⟩
    have hx' : x' < COMMON_INDICATOR_32 := by
      cases htail with
      | last _ lt _ => exact lt
      | cons _ lt _ _ => exact lt
    have hu : uint32 x' = x' := by
      unfold uint32
      unfold COMMON_INDICATOR_32 at hx'
      omega
    have hne : x' ≠ COMMON_INDICATOR_64 := by
      unfold COMMON_INDICATOR_32 at hx'
      unfold COMMON_INDICATOR_64
      omega
    rw [bootFindFile_succ hname hn hlt, findHeader_succ hname hn, hnext, if_neg hne, hu]
    by_cases hx : headerName disk x = some name
    · simp [hx]
    · rw [if_neg hx, if_neg hx, List.find?_cons_of_neg (by simpa using hx)]
      exact ih rfl (Nat.lt_of_succ_lt_succ hfuel)

/-- **Boot loader and kernel select the same file**: the first header of the chain with the name, or
none. -/
theorem boot_kernel_find {secs : List Nat} {fuel : Nat} {tail' : List UInt8}
    (h : Chain disk (s :: secs)) (hn : ∀ b ∈ name, b ≠ 0) (hfuel : secs.length + 1 < fuel) :
    bootFindFile disk restBoot (name ++ 0 :: tail) fuel (s / 2 ^ 16) (s % 2 ^ 16) =
        some ((s :: secs).find? fun x => headerName disk x = some name) ∧
      findHeader disk rest (name ++ 0 :: tail') fuel s =
        some ((s :: secs).find? fun x => headerName disk x = some name) ∧
      findFile disk rest (name ++ 0 :: tail') fuel s =
        ((s :: secs).find? fun x => headerName disk x = some name).elim (some COMMON_INDICATOR_32)
          fun x => getFileDataPointer disk rest (uint32 (headerData (disk x).bytes)) := by
  obtain ⟨hboot, hkernel⟩ := h.find rest restBoot tail tail' rfl hn hfuel
  refine ⟨hboot, hkernel, ?_⟩
  unfold findFile
  rw [hkernel, Option.bind_some]
  cases (s :: secs).find? fun x => headerName disk x = some name with
  | none => rfl
  | some x =>
    have hdata : headerData (bufferAt disk rest x) = headerData (disk x).bytes :=
      field64_bufferAt (by decide) rest
    show getFileDataPointer disk rest (uint32 (headerData (bufferAt disk rest x))) = _
    rw [hdata]
    rfl

/-- A header with a name and a link. -/
def headerSector (name : List UInt8) (next : Nat) : Sector :=
  .ofBytes ((name ++ List.replicate 256 0).take 256 ++ encode 8 next)

/-- The headers `a` in sector 1 and `b` in sector 2. -/
def twoHeaders : Disk := fun s =>
  if s = 1 then headerSector [97] 2 else headerSector [98] COMMON_INDICATOR_64

theorem boot_kernel_find_second :
    bootFindFile twoHeaders [] [98, 0] 3 0 1 = some (some 2) ∧
      findHeader twoHeaders [] [98, 0] 3 1 = some (some 2) := by
  have hchain : Chain twoHeaders [1, 2] :=
    .cons (by decide +kernel) (by decide) (by decide +kernel)
      (.last (by decide +kernel) (by decide) (by decide +kernel))
  have h : bootFindFile twoHeaders [] ([98] ++ 0 :: []) 3 (1 / 2 ^ 16) (1 % 2 ^ 16) = _ ∧
      findHeader twoHeaders [] ([98] ++ 0 :: []) 3 1 = _ ∧ findFile twoHeaders [] _ 3 1 = _ :=
    boot_kernel_find hchain (by simp) (by decide)
  have hfind : [1, 2].find? (fun x => headerName twoHeaders x = some [98]) = some 2 := by
    decide +kernel
  rw [hfind] at h
  exact ⟨h.1, h.2.1⟩

end C4os
