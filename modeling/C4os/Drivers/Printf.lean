import Mathlib.Data.Nat.Digits.Lemmas
import Mathlib.Data.UInt
import Mathlib.Logic.Function.Basic

/-!
# Formatted output (`tty.c`)

* `outString`, `intToStr`, `uint32ToStr`, `directive`, `printf`: over memory with addresses of 32
  bits. `num_buffer` and the screen are no part of it.
* `StringAt`: the string at an address; `Expands`: what a format stands for.
* `intToStr_spec`: the digits of a number; `outString_spec`: the loop ends at the first NUL.
* **`printf_consumes_iff`**: the formats that `printf` reads up to their NUL only.
-/

namespace C4os

variable {α : Type*} [Add α] [OfNat α 1]

/-- The characters that `out_string` gives to `out_char`; the loop runs on fuel. -/
def outStringChars (m : α → UInt8) : Nat → α → Option (List UInt8)
  | 0, _ => none
  | fuel + 1, str => if m str ≠ 0 then (outStringChars m fuel (str + 1)).map (m str :: ·) else some []

/-- `digits`. -/
def digitChars : List UInt8 := [48, 49, 50, 51, 52, 53, 54, 55, 56, 57, 65, 66, 67, 68, 69, 70]

/-- The loop of `int_to_str`: it writes below the index `i + 1`, and returns the index of the first
digit; `none` when the number does not fit. -/
def toStrLoop (base : Nat) : Nat → Nat → (Nat → UInt8) → Option (Nat × (Nat → UInt8))
  | 0, _, _ => none
  | i + 1, value, numBuffer =>
    let numBuffer := Function.update numBuffer i (digitChars.getD (value % base) 0)
    let value := value / base
    if value ≠ 0 then toStrLoop base i value numBuffer else some (i, numBuffer)

/-- `int_to_str`, whose `size_t` has 32 bits in the kernel. -/
def intToStr (value : UInt32) (base : Nat) (numBuffer : Nat → UInt8) :
    Option (Nat × (Nat → UInt8)) :=
  toStrLoop base 64 value.toNat (Function.update numBuffer 64 0)

/-- `uint32_to_str`. -/
def uint32ToStr (value : UInt32) (base : Nat) (numBuffer : Nat → UInt8) :
    Option (Nat × (Nat → UInt8)) :=
  toStrLoop base 64 value.toNat (Function.update numBuffer 64 0)

/-- The arguments that were taken, what went to `out_char`, and the addresses of the format that
were read. -/
structure PrintState where
  used : Nat
  out : List UInt8
  reads : List UInt32
  numBuffer : Nat → UInt8

namespace PrintState

/-- The characters `str` are printed. -/
def emit (str : List UInt8) (s : PrintState) : PrintState := { s with out := s.out ++ str }

/-- The byte of the format at `fmt` is read. -/
def read (fmt : UInt32) (s : PrintState) : PrintState := { s with reads := s.reads ++ [fmt] }

/-- `va_arg`. -/
def next (s : PrintState) : PrintState := { s with used := s.used + 1 }

/-- `out_string(int_to_str(arg, base))`. -/
def emitNumber (fuel : Nat) (r : Option (Nat × (Nat → UInt8))) (s : PrintState) :
    Option PrintState :=
  r.bind fun q =>
    (outStringChars q.2 fuel q.1).map fun str => { s.emit str with numBuffer := q.2 }

end PrintState

/-- The `switch` of `printf`, with the stack words `args` behind the format. -/
def directive (m : UInt32 → UInt8) (args : Nat → UInt32) (fuel : Nat) (chr : UInt8)
    (s : PrintState) : Option PrintState :=
  let arg := args s.used
  if chr = 37 then some (s.emit [37])
  else if chr = 99 then some (s.next.emit [arg.toUInt8])
  else if chr = 115 then (outStringChars m fuel arg).map fun str => s.next.emit str
  else if chr = 98 then s.next.emitNumber fuel (intToStr arg 2 s.numBuffer)
  else if chr = 111 then s.next.emitNumber fuel (intToStr arg 8 s.numBuffer)
  else if chr = 100 then s.next.emitNumber fuel (intToStr arg 10 s.numBuffer)
  else if chr = 117 then s.next.emitNumber fuel (uint32ToStr arg 10 s.numBuffer)
  else if chr = 120 then s.next.emitNumber fuel (intToStr arg 16 s.numBuffer)
  else some s

/-- The loop of `printf`. -/
def printfLoop (m : UInt32 → UInt8) (args : Nat → UInt32) (strFuel : Nat) :
    Nat → UInt32 → PrintState → Option PrintState
  | 0, _, _ => none
  | fuel + 1, fmt, s =>
    let s := s.read fmt
    if m fmt ≠ 0 then
      if m fmt = 37 then
        let fmt := fmt + 1
        (directive m args strFuel (m fmt) (s.read fmt)).bind (printfLoop m args strFuel fuel (fmt + 1))
      else printfLoop m args strFuel fuel (fmt + 1) (s.emit [m fmt])
    else some s

/-- `printf`. -/
def printf (m : UInt32 → UInt8) (args : Nat → UInt32) (numBuffer : Nat → UInt8) (fuel : Nat)
    (fmt : UInt32) : Option PrintState :=
  printfLoop m args fuel fuel fmt ⟨0, [], [], numBuffer⟩

/-! ## What a format stands for -/

/-- The string at `a`: the bytes up to the first NUL. -/
inductive StringAt (m : α → UInt8) : α → List UInt8 → Prop where
  | nil {a : α} : m a = 0 → StringAt m a []
  | cons {a : α} {str : List UInt8} : m a ≠ 0 → StringAt m (a + 1) str →
      StringAt m a (m a :: str)

/-- The base of a number directive. -/
def baseOf (chr : UInt8) : Option Nat :=
  if chr = 98 then some 2
  else if chr = 111 then some 8
  else if chr = 100 ∨ chr = 117 then some 10
  else if chr = 120 then some 16
  else none

/-- The digits of a number, `0` for zero. -/
def numeral (base value : Nat) : List UInt8 :=
  (if value = 0 then [0] else (Nat.digits base value).reverse).map (digitChars.getD · 0)

/-- What a directive with the argument `arg` stands for: a character, a string, or a number. -/
inductive Expansion (m : UInt32 → UInt8) : UInt8 → UInt32 → List UInt8 → Prop where
  | chr (arg : UInt32) : Expansion m 99 arg [arg.toUInt8]
  | str {arg : UInt32} {str : List UInt8} : StringAt m arg str → Expansion m 115 arg str
  | num {chr : UInt8} {base : Nat} (arg : UInt32) : baseOf chr = some base →
      Expansion m chr arg (numeral base arg.toNat)

/-- A directive that takes an argument. -/
def IsValue (chr : UInt8) : Prop := chr ∈ [99, 115, 98, 111, 100, 117, 120]

/-- From the argument `i` on, the format stands for the text `out` and takes the arguments before
`j`. -/
inductive Expands (m : UInt32 → UInt8) (args : Nat → UInt32) :
    List UInt8 → Nat → List UInt8 → Nat → Prop where
  | nil (i : Nat) : Expands m args [] i [] i
  | literal {c : UInt8} {fmt out : List UInt8} {i j : Nat} : c ≠ 37 → Expands m args fmt i out j →
      Expands m args (c :: fmt) i (c :: out) j
  | percent {fmt out : List UInt8} {i j : Nat} : Expands m args fmt i out j →
      Expands m args (37 :: 37 :: fmt) i (37 :: out) j
  | value {d : UInt8} {str fmt out : List UInt8} {i j : Nat} : Expansion m d (args i) str →
      Expands m args fmt (i + 1) out j → Expands m args (37 :: d :: fmt) i (str ++ out) j
  | unknown {d : UInt8} {fmt out : List UInt8} {i j : Nat} : d ≠ 37 → ¬ IsValue d →
      Expands m args fmt i out j → Expands m args (37 :: d :: fmt) i out j
  | incomplete (i : Nat) : Expands m args [37] i [] i

/-- The format does not end within a directive. -/
def Complete : List UInt8 → Bool
  | [] => true
  | [c] => c ≠ 37
  | c :: d :: fmt => if c = 37 then Complete fmt else Complete (d :: fmt)

/-! ## Strings -/

/-- **The loop ends at the first NUL.** -/
theorem outString_spec {m : α → UInt8} {a : α} {str : List UInt8} (h : StringAt m a str)
    {fuel : Nat} (hf : str.length < fuel) : outStringChars m fuel a = some str := by
  induction h generalizing fuel with
  | nil h0 =>
    obtain ⟨fuel, rfl⟩ := Nat.exists_eq_succ_of_ne_zero (Nat.ne_of_gt hf)
    rw [outStringChars, if_neg (not_not.mpr h0)]
  | cons h0 _ ih =>
    obtain ⟨fuel, rfl⟩ := Nat.exists_eq_succ_of_ne_zero (Nat.ne_of_gt (Nat.zero_lt_of_lt hf))
    rw [List.length_cons] at hf
    rw [outStringChars, if_pos h0, ih (Nat.lt_of_succ_lt_succ hf), Option.map_some]

theorem exists_stringAt {m : UInt32 → UInt8} {z : UInt32} (hz : m z = 0) (a : UInt32) :
    ∃ str, StringAt m a str ∧ str.length < 2 ^ 32 := by
  have hn : ∀ n, ∀ a : UInt32, (z - a).toNat = n → ∃ str, StringAt m a str ∧ str.length ≤ n := by
    intro n
    induction n with
    | zero =>
      intro a ha
      have hza : z = a := by
        apply UInt32.toNat_inj.mp
        have h1 := z.toNat_lt
        have h2 := a.toNat_lt
        rw [UInt32.toNat_sub] at ha
        omega
      exact ⟨[], .nil (hza ▸ hz), Nat.le_refl 0⟩
    | succ n ih =>
      intro a ha
      by_cases h0 : m a = 0
      · exact ⟨[], .nil h0, Nat.zero_le _⟩
      · have hstep : (z - (a + 1)).toNat = n := by
          have h1 := z.toNat_lt
          have h2 := a.toNat_lt
          rw [UInt32.toNat_sub] at ha
          rw [UInt32.toNat_sub, UInt32.toNat_add, UInt32.toNat_one]
          omega
        obtain ⟨str, hs, hl⟩ := ih (a + 1) hstep
        exact ⟨m a :: str, .cons h0 hs, by simpa using hl⟩
  obtain ⟨str, hs, hl⟩ := hn _ a rfl
  exact ⟨str, hs, Nat.lt_of_le_of_lt hl (UInt32.toNat_lt _)⟩

theorem stringAt_nil {m : α → UInt8} {a : α} : StringAt m a [] ↔ m a = 0 :=
  ⟨fun h => by cases h with | nil h0 => exact h0, .nil⟩

theorem stringAt_cons {m : α → UInt8} {a : α} {c : UInt8} {str : List UInt8} :
    StringAt m a (c :: str) ↔ m a = c ∧ c ≠ 0 ∧ StringAt m (a + 1) str := by
  constructor
  · intro h
    cases h with
    | cons h0 h => exact ⟨rfl, h0, h⟩
  · rintro ⟨rfl, h0, h⟩
    exact .cons h0 h

theorem StringAt.exists_zero {m : α → UInt8} {a : α} {str : List UInt8} (h : StringAt m a str) :
    ∃ z, m z = 0 := by
  induction h with
  | nil h0 => exact ⟨_, h0⟩
  | cons _ _ ih => exact ih

theorem StringAt.congr {m m' : Nat → UInt8} {a : Nat} {str : List UInt8} (h : StringAt m a str)
    (hm : ∀ k, a ≤ k → m' k = m k) : StringAt m' a str := by
  induction h with
  | nil h0 => exact .nil ((hm _ (Nat.le_refl _)).trans h0)
  | @cons a str h0 _ ih =>
    rw [← hm a (Nat.le_refl a)] at h0 ⊢
    exact .cons h0 (ih fun k hk => hm k (Nat.le_of_succ_le hk))

/-! ## Numbers -/

theorem digitChars_ne_zero {d : Nat} (hd : d < 16) : digitChars.getD d 0 ≠ 0 := by
  have h : ∀ d : Fin 16, digitChars.getD d 0 ≠ 0 := by decide
  exact h ⟨d, hd⟩

theorem numeral_eq {base value : Nat} (hb : 2 ≤ base) : numeral base value =
    (if value / base ≠ 0 then numeral base (value / base) else []) ++
      [digitChars.getD (value % base) 0] := by
  unfold numeral
  by_cases hv : value = 0
  · simp [hv]
  · rw [if_neg hv, Nat.digits_def' (by omega) (Nat.pos_of_ne_zero hv)]
    by_cases hq : value / base = 0
    · simp [hq]
    · simp [hq]

/-- **The digits of a number** end up in front of what is in the buffer from `i` on. -/
theorem toStrLoop_spec {base i value : Nat} {buf : Nat → UInt8} (hb : 2 ≤ base) (hb' : base ≤ 16)
    (hi : 0 < i) (hv : value < base ^ i) {str : List UInt8} (hs : StringAt buf i str) :
    ∃ p buf', toStrLoop base i value buf = some (p, buf') ∧
      StringAt buf' p (numeral base value ++ str) := by
  induction i generalizing value buf str with
  | zero => omega
  | succ i ih =>
    have hd : digitChars.getD (value % base) 0 ≠ 0 :=
      digitChars_ne_zero (Nat.lt_of_lt_of_le (Nat.mod_lt _ (by omega)) hb')
    have hs' : StringAt (Function.update buf i (digitChars.getD (value % base) 0)) i
        (digitChars.getD (value % base) 0 :: str) := by
      have hcons := StringAt.cons (m := Function.update buf i (digitChars.getD (value % base) 0))
        (a := i) (by rw [Function.update_self]; exact hd)
        (hs.congr fun k hk => Function.update_of_ne (by omega) _ _)
      rwa [Function.update_self] at hcons
    rw [toStrLoop, numeral_eq hb]
    by_cases hq : value / base = 0
    · rw [if_neg (not_not.mpr hq), if_neg (not_not.mpr hq)]
      exact ⟨i, _, rfl, hs'⟩
    · rw [if_pos hq, if_pos hq]
      have hlt : value / base < base ^ i := Nat.div_lt_of_lt_mul (by rwa [← Nat.pow_succ'])
      have hi' : 0 < i := by
        rcases Nat.eq_zero_or_pos i with rfl | hi'
        · exact absurd (Nat.lt_one_iff.mp hlt) hq
        · exact hi'
      obtain ⟨p, buf', he, hstr⟩ := ih hi' hlt hs'
      refine ⟨p, buf', he, ?_⟩
      simpa using hstr

/-- **`int_to_str`** leaves the digits of the number in its buffer, and returns where they start. -/
theorem intToStr_spec (value : UInt32) {base : Nat} (hb : 2 ≤ base) (hb' : base ≤ 16)
    (buf : Nat → UInt8) : ∃ p buf', intToStr value base buf = some (p, buf') ∧
      StringAt buf' p (numeral base value.toNat) := by
  have hv : value.toNat < base ^ 64 := by
    calc value.toNat < 2 ^ 64 := Nat.lt_trans value.toNat_lt (by decide)
      _ ≤ base ^ 64 := Nat.pow_le_pow_left hb 64
  have hs : StringAt (Function.update buf 64 0) 64 [] := .nil (Function.update_self _ _ _)
  obtain ⟨p, buf', he, hstr⟩ := toStrLoop_spec hb hb' (by decide) hv hs
  exact ⟨p, buf', he, by simpa using hstr⟩

/-! ## Directives -/

variable {m : UInt32 → UInt8} {args : Nat → UInt32}

/-- What a directive does when it stands for `str` and takes an argument. -/
def PrintState.Puts (s s' : PrintState) (str : List UInt8) : Prop :=
  s'.used = s.used + 1 ∧ s'.out = s.out ++ str ∧ s'.reads = s.reads

theorem length_numeral_le {base : Nat} (hb : 2 ≤ base) (value : UInt32) :
    (numeral base value.toNat).length ≤ 32 := by
  have hv : value.toNat < base ^ 32 :=
    Nat.lt_of_lt_of_le value.toNat_lt (Nat.pow_le_pow_left hb 32)
  unfold numeral
  rw [List.length_map]
  split_ifs
  · decide
  · rw [List.length_reverse]
    exact (Nat.digits_length_le_iff (by omega) _).mpr hv

theorem emitNumber_spec (value : UInt32) {base : Nat} (hb : 2 ≤ base) (hb' : base ≤ 16)
    (s : PrintState) : ∃ s', s.Puts s' (numeral base value.toNat) ∧ ∀ fuel ≥ 2 ^ 32,
      s.next.emitNumber fuel (intToStr value base s.numBuffer) = some s' := by
  obtain ⟨p, buf', he, hstr⟩ := intToStr_spec value hb hb' s.numBuffer
  refine ⟨{ s.next.emit (numeral base value.toNat) with numBuffer := buf' }, ⟨rfl, rfl, rfl⟩,
    fun fuel hf => ?_⟩
  have hlen : (numeral base value.toNat).length < fuel :=
    Nat.lt_of_le_of_lt (length_numeral_le hb value) (Nat.lt_of_lt_of_le (by decide) hf)
  unfold PrintState.emitNumber
  rw [he, Option.bind_some, outString_spec hstr hlen, Option.map_some]

/-- **A value directive** takes one argument and puts what it stands for. -/
theorem directive_value (args : Nat → UInt32) {z : UInt32} (hz : m z = 0) {d : UInt8} (hd : IsValue d) (s : PrintState) :
    ∃ s' str, Expansion m d (args s.used) str ∧ s.Puts s' str ∧
      ∀ fuel ≥ 2 ^ 32, directive m args fuel d s = some s' := by
  unfold IsValue at hd
  simp only [List.mem_cons, List.not_mem_nil, or_false] at hd
  rcases hd with rfl | rfl | rfl | rfl | rfl | rfl | rfl
  · exact ⟨s.next.emit [(args s.used).toUInt8], _, .chr _, ⟨rfl, rfl, rfl⟩, fun _ _ => rfl⟩
  · obtain ⟨str, hs, hl⟩ := exists_stringAt hz (args s.used)
    refine ⟨s.next.emit str, str, .str hs, ⟨rfl, rfl, rfl⟩, fun fuel hf => ?_⟩
    show (outStringChars m fuel (args s.used)).map _ = _
    rw [outString_spec hs (Nat.lt_of_lt_of_le hl hf), Option.map_some]
  · obtain ⟨s', hp, hf⟩ := emitNumber_spec (args s.used) (by decide : 2 ≤ 2) (by decide) s
    exact ⟨s', _, .num _ rfl, hp, hf⟩
  · obtain ⟨s', hp, hf⟩ := emitNumber_spec (args s.used) (by decide : 2 ≤ 8) (by decide) s
    exact ⟨s', _, .num _ rfl, hp, hf⟩
  · obtain ⟨s', hp, hf⟩ := emitNumber_spec (args s.used) (by decide : 2 ≤ 10) (by decide) s
    exact ⟨s', _, .num _ rfl, hp, hf⟩
  · obtain ⟨s', hp, hf⟩ := emitNumber_spec (args s.used) (by decide : 2 ≤ 10) (by decide) s
    exact ⟨s', _, .num _ rfl, hp, hf⟩
  · obtain ⟨s', hp, hf⟩ := emitNumber_spec (args s.used) (by decide : 2 ≤ 16) (by decide) s
    exact ⟨s', _, .num _ rfl, hp, hf⟩

theorem directive_unknown {d : UInt8} (h37 : d ≠ 37) (hd : ¬ IsValue d) (fuel : Nat)
    (s : PrintState) : directive m args fuel d s = some s := by
  unfold IsValue at hd
  simp only [List.mem_cons, List.not_mem_nil, or_false, not_or] at hd
  obtain ⟨h1, h2, h3, h4, h5, h6, h7⟩ := hd
  unfold directive
  simp only [if_neg h37, if_neg h1, if_neg h2, if_neg h3, if_neg h4, if_neg h5, if_neg h6,
    if_neg h7]

/-! ## The loop -/

/-- The format reads from `a` to `a + len`, the NUL included. -/
def Within (a : UInt32) (len : Nat) (reads : List UInt32) : Prop :=
  ∀ x ∈ reads, a.toNat ≤ x.toNat ∧ x.toNat ≤ a.toNat + len

/-- From `s` on, the loop at the format `fmt` ends in `s'`. -/
structure Prints (m : UInt32 → UInt8) (args : Nat → UInt32) (a : UInt32) (fmt : List UInt8)
    (s s' : PrintState) : Prop where
  returns : ∀ strFuel ≥ 2 ^ 32, ∀ fuel > fmt.length, printfLoop m args strFuel fuel a s = some s'
  expands : ∃ out, s'.out = s.out ++ out ∧ Expands m args fmt s.used out s'.used
  reads : ∃ rs, s'.reads = s.reads ++ rs ∧ Within a fmt.length rs

variable {a : UInt32} {fmt : List UInt8} {strFuel fuel : Nat} {s s' : PrintState}

theorem printfLoop_end (h : m a = 0) :
    printfLoop m args strFuel (fuel + 1) a s = some (s.read a) := by
  rw [printfLoop, if_neg (not_not.mpr h)]

theorem printfLoop_literal (h : m a ≠ 0) (h37 : m a ≠ 37) :
    printfLoop m args strFuel (fuel + 1) a s =
      printfLoop m args strFuel fuel (a + 1) ((s.read a).emit [m a]) := by
  rw [printfLoop, if_pos h, if_neg h37]

theorem printfLoop_directive (h37 : m a = 37) :
    printfLoop m args strFuel (fuel + 1) a s =
      (directive m args strFuel (m (a + 1)) ((s.read a).read (a + 1))).bind
        (printfLoop m args strFuel fuel (a + 1 + 1)) := by
  rw [printfLoop, if_pos (by rw [h37]; decide), if_pos h37]

theorem toNat_succ {n : Nat} (h : a.toNat + (n + 1) < 2 ^ 32) : (a + 1).toNat = a.toNat + 1 := by
  rw [UInt32.toNat_add, UInt32.toNat_one, Nat.mod_eq_of_lt (by omega)]

theorem Within.cons {n : Nat} {rs : List UInt32} (h : Within (a + 1) n rs)
    (hlen : a.toNat + (n + 1) < 2 ^ 32) : Within a (n + 1) (a :: rs) := by
  intro x hx
  rcases List.mem_cons.mp hx with rfl | hx
  · omega
  · have := h x hx
    rw [toNat_succ hlen] at this
    omega

theorem Prints.literal {c : UInt8} (hc : m a = c) (h0 : c ≠ 0) (h37 : c ≠ 37)
    (hlen : a.toNat + (c :: fmt).length < 2 ^ 32)
    (h : Prints m args (a + 1) fmt ((s.read a).emit [c]) s') : Prints m args a (c :: fmt) s s' := by
  obtain ⟨hret, ⟨out, hout, hexp⟩, rs, hrs, hwithin⟩ := h
  subst hc
  rw [List.length_cons] at hlen
  refine ⟨fun strFuel hs fuel hf => ?_, ⟨m a :: out, ?_, .literal h37 hexp⟩, a :: rs, ?_, ?_⟩
  · obtain ⟨fuel, rfl⟩ := Nat.exists_eq_succ_of_ne_zero (Nat.ne_of_gt (Nat.zero_lt_of_lt hf))
    rw [printfLoop_literal h0 h37]
    exact hret strFuel hs fuel (Nat.lt_of_succ_lt_succ hf)
  · rw [hout]
    simp [PrintState.emit, PrintState.read]
  · rw [hrs]
    simp [PrintState.emit, PrintState.read]
  · rw [List.length_cons]
    exact hwithin.cons hlen

theorem Prints.directive {d : UInt8} {s₁ : PrintState} {str : List UInt8} (ha : m a = 37)
    (hd : m (a + 1) = d) (hlen : a.toNat + (37 :: d :: fmt).length < 2 ^ 32)
    (hdir : ∀ strFuel ≥ 2 ^ 32, C4os.directive m args strFuel d ((s.read a).read (a + 1)) = some s₁)
    (hout : s₁.out = s.out ++ str) (hreads : s₁.reads = ((s.read a).read (a + 1)).reads)
    (hexp : ∀ out j, Expands m args fmt s₁.used out j →
      Expands m args (37 :: d :: fmt) s.used (str ++ out) j)
    (h : Prints m args (a + 1 + 1) fmt s₁ s') : Prints m args a (37 :: d :: fmt) s s' := by
  obtain ⟨hret, ⟨out, hout', hexp'⟩, rs, hrs, hwithin⟩ := h
  rw [List.length_cons, List.length_cons] at hlen
  refine ⟨fun strFuel hs fuel hf => ?_, ⟨str ++ out, ?_, hexp _ _ hexp'⟩, a :: (a + 1) :: rs, ?_, ?_⟩
  · obtain ⟨fuel, rfl⟩ := Nat.exists_eq_succ_of_ne_zero (Nat.ne_of_gt (Nat.zero_lt_of_lt hf))
    rw [printfLoop_directive ha, hd, hdir strFuel hs, Option.bind_some]
    refine hret strFuel hs fuel ?_
    rw [List.length_cons, List.length_cons] at hf
    omega
  · rw [hout', hout, List.append_assoc]
  · rw [hrs, hreads]
    simp [PrintState.read]
  · rw [List.length_cons, List.length_cons]
    refine Within.cons (hwithin.cons ?_) hlen
    rw [toNat_succ hlen]
    omega

theorem Prints.nil (h : m a = 0) : Prints m args a [] s (s.read a) := by
  refine ⟨fun strFuel _ fuel hf => ?_, ⟨[], ?_, .nil _⟩, [a], rfl, ?_⟩
  · obtain ⟨fuel, rfl⟩ := Nat.exists_eq_succ_of_ne_zero (Nat.ne_of_gt hf)
    exact printfLoop_end h
  · simp [PrintState.read]
  · intro x hx
    rw [List.mem_singleton.mp hx]
    simp

/-- **A complete format** is read up to its NUL, and expanded. -/
theorem prints_of_complete (args : Nat → UInt32) {z : UInt32} (hz : m z = 0) (h : StringAt m a fmt)
    (hlen : a.toNat + fmt.length < 2 ^ 32) (hc : Complete fmt = true) (s : PrintState) :
    ∃ s', Prints m args a fmt s s' := by
  induction fmt using Complete.induct generalizing a s with
  | case1 => exact ⟨_, .nil (stringAt_nil.mp h)⟩
  | case2 c =>
    obtain ⟨ha, h0, h⟩ := stringAt_cons.mp h
    exact ⟨_, .literal ha h0 (by simpa [Complete] using hc) hlen (.nil (stringAt_nil.mp h))⟩
  | case3 d fmt ih =>
    obtain ⟨ha, -, h⟩ := stringAt_cons.mp h
    obtain ⟨hd, -, h⟩ := stringAt_cons.mp h
    have hlen' : (a + 1 + 1).toNat + fmt.length < 2 ^ 32 := by
      rw [List.length_cons, List.length_cons] at hlen
      have h1 := toNat_succ hlen
      rw [toNat_succ (n := fmt.length) (by omega)]
      omega
    have hrest := fun s => ih h hlen' hc s
    by_cases h37 : d = 37
    · subst h37
      obtain ⟨s', hp⟩ := hrest (((s.read a).read (a + 1)).emit [37])
      have hput : (((s.read a).read (a + 1)).emit [37]).out = s.out ++ [37] := rfl
      exact ⟨s', .directive ha hd hlen (fun _ _ => rfl) hput rfl (fun _ _ he => .percent he) hp⟩
    by_cases hv : IsValue d
    · obtain ⟨s₁, str, hx, ⟨hused, hout, hreads⟩, hdir⟩ :=
        directive_value args hz hv ((s.read a).read (a + 1))
      obtain ⟨s', hp⟩ := hrest s₁
      refine ⟨s', .directive ha hd hlen hdir hout hreads (fun out j he => ?_) hp⟩
      rw [hused] at he
      exact .value hx he
    · obtain ⟨s', hp⟩ := hrest ((s.read a).read (a + 1))
      have hput : ((s.read a).read (a + 1)).out = s.out ++ [] := (List.append_nil _).symm
      exact ⟨s', .directive ha hd hlen (fun strFuel _ => directive_unknown h37 hv strFuel _) hput
        rfl (fun _ _ he => .unknown h37 hv he) hp⟩
  | case4 c d fmt hc37 ih =>
    obtain ⟨ha, h0, h⟩ := stringAt_cons.mp h
    have hlen' : (a + 1).toNat + (d :: fmt).length < 2 ^ 32 := by
      rw [List.length_cons] at hlen
      rw [toNat_succ hlen]
      omega
    rw [Complete, if_neg hc37] at hc
    obtain ⟨s', hp⟩ := ih h hlen' hc ((s.read a).emit [c])
    exact ⟨s', .literal ha h0 hc37 hlen hp⟩

/-! ## Incomplete formats -/

theorem emitNumber_reads {r : Option (Nat × (Nat → UInt8))} (h : s.next.emitNumber fuel r = some s') :
    s'.reads = s.reads := by
  unfold PrintState.emitNumber at h
  obtain ⟨q, -, hq⟩ := Option.bind_eq_some_iff.mp h
  obtain ⟨str, -, rfl⟩ := Option.map_eq_some_iff.mp hq
  rfl

theorem directive_reads {d : UInt8} (h : directive m args strFuel d s = some s') :
    s'.reads = s.reads := by
  unfold directive at h
  dsimp only at h
  split_ifs at h
  · exact Option.some.inj h ▸ rfl
  · exact Option.some.inj h ▸ rfl
  · obtain ⟨str, -, rfl⟩ := Option.map_eq_some_iff.mp h
    rfl
  · exact emitNumber_reads h
  · exact emitNumber_reads h
  · exact emitNumber_reads h
  · exact emitNumber_reads h
  · exact emitNumber_reads h
  · exact Option.some.inj h ▸ rfl

theorem printfLoop_reads (h : printfLoop m args strFuel fuel a s = some s') :
    a ∈ s'.reads ∧ s.reads ⊆ s'.reads := by
  induction fuel generalizing a s with
  | zero => cases h
  | succ fuel ih =>
    by_cases h0 : m a = 0
    · rw [printfLoop_end h0] at h
      obtain rfl := Option.some.inj h
      exact ⟨by simp [PrintState.read], by simp [PrintState.read]⟩
    by_cases h37 : m a = 37
    · rw [printfLoop_directive h37] at h
      obtain ⟨s₁, hd, hr⟩ := Option.bind_eq_some_iff.mp h
      have hsub := (ih hr).2
      rw [directive_reads hd] at hsub
      exact ⟨hsub (by simp [PrintState.read]), fun x hx => hsub (by simp [PrintState.read, hx])⟩
    · rw [printfLoop_literal h0 h37] at h
      have hsub := (ih h).2
      exact ⟨hsub (by simp [PrintState.read, PrintState.emit]),
        fun x hx => hsub (by simp [PrintState.read, PrintState.emit, hx])⟩

theorem add_ofNat_succ (a : UInt32) (n : Nat) :
    a + 1 + UInt32.ofNat n = a + UInt32.ofNat (n + 1) := by
  apply UInt32.toNat_inj.mp
  simp only [UInt32.toNat_add, UInt32.toNat_one, UInt32.toNat_ofNat']
  omega

/-- **An incomplete format** is read behind its NUL. -/
theorem reads_of_incomplete (h : StringAt m a fmt) (hc : Complete fmt = false)
    (hr : printfLoop m args strFuel fuel a s = some s') :
    a + UInt32.ofNat (fmt.length + 1) ∈ s'.reads := by
  induction fmt using Complete.induct generalizing a s fuel with
  | case1 => simp [Complete] at hc
  | case2 c =>
    obtain ⟨ha, -, h⟩ := stringAt_cons.mp h
    have h37 : c = 37 := by simpa [Complete] using hc
    cases fuel with
    | zero => cases hr
    | succ fuel =>
      rw [printfLoop_directive (ha.trans h37)] at hr
      obtain ⟨s₁, -, hr⟩ := Option.bind_eq_some_iff.mp hr
      -- the pointer has stepped over the NUL
      have hmem := (printfLoop_reads hr).1
      rw [show a + UInt32.ofNat ([c].length + 1) = a + 1 + 1 from (add_ofNat_succ a 1).symm]
      exact hmem
  | case3 d fmt ih =>
    obtain ⟨ha, -, h⟩ := stringAt_cons.mp h
    obtain ⟨hd, -, h⟩ := stringAt_cons.mp h
    cases fuel with
    | zero => cases hr
    | succ fuel =>
      rw [printfLoop_directive ha] at hr
      obtain ⟨s₁, -, hr⟩ := Option.bind_eq_some_iff.mp hr
      have hmem := ih h hc hr
      rwa [add_ofNat_succ, add_ofNat_succ] at hmem
  | case4 c d fmt hc37 ih =>
    obtain ⟨ha, h0, h⟩ := stringAt_cons.mp h
    rw [Complete, if_neg hc37] at hc
    cases fuel with
    | zero => cases hr
    | succ fuel =>
      rw [printfLoop_literal (by rw [ha]; exact h0) (by rw [ha]; exact hc37)] at hr
      have hmem := ih h hc hr
      rwa [add_ofNat_succ] at hmem

/-! ## The whole function -/

/-- `printf` returns, reads its format up to the NUL only, takes one argument for each value
directive in order, and puts what the format stands for. -/
def Consumes (m : UInt32 → UInt8) (args : Nat → UInt32) (numBuffer : Nat → UInt8) (a : UInt32)
    (fmt : List UInt8) : Prop :=
  ∃ s, (∃ n, ∀ fuel ≥ n, printf m args numBuffer fuel a = some s) ∧ Within a fmt.length s.reads ∧
    Expands m args fmt 0 s.out s.used

theorem not_consumes_of_incomplete (numBuffer : Nat → UInt8) (h : StringAt m a fmt) (ha : a ≠ 0)
    (hlen : a.toNat + fmt.length < 2 ^ 32) (hc : Complete fmt = false) :
    ¬ Consumes m args numBuffer a fmt := by
  rintro ⟨s, ⟨n, hs⟩, hw, -⟩
  have hin := hw _ (reads_of_incomplete h hc (hs n (Nat.le_refl n)))
  have h0 : a.toNat ≠ 0 := fun e => ha (UInt32.toNat_inj.mp e)
  rw [UInt32.toNat_add, UInt32.toNat_ofNat'] at hin
  omega

/-- **`printf` consumes its format exactly** if and only if the format does not end within a
directive, that is in a `%` which starts one. -/
theorem printf_consumes_iff (args : Nat → UInt32) (numBuffer : Nat → UInt8)
    (h : StringAt m a fmt) (ha : a ≠ 0) (hlen : a.toNat + fmt.length < 2 ^ 32) :
    Consumes m args numBuffer a fmt ↔ Complete fmt = true := by
  constructor
  · intro hcons
    by_contra hc
    exact not_consumes_of_incomplete numBuffer h ha hlen (Bool.eq_false_iff.mpr hc) hcons
  · intro hc
    obtain ⟨z, hz⟩ := h.exists_zero
    obtain ⟨s, hret, ⟨out, hout, hexp⟩, rs, hrs, hw⟩ :=
      prints_of_complete args hz h hlen hc ⟨0, [], [], numBuffer⟩
    refine ⟨s, ⟨2 ^ 32, fun fuel hf => hret fuel hf fuel (by omega)⟩, ?_, ?_⟩
    · rw [hrs]
      exact hw
    · rw [hout]
      exact hexp

/-- The format `a%u` at the address 1, with a NUL behind it and everywhere else. -/
theorem printf_consumes_iff_number :
    Consumes (fun x => [97, 37, 117].getD (x.toNat - 1) 0) (fun _ => 5) (fun _ => 0) 1
      [97, 37, 117] := by
  refine (printf_consumes_iff _ _ ?_ (by decide) (by decide)).mpr rfl
  exact stringAt_cons.mpr ⟨rfl, by decide, stringAt_cons.mpr ⟨rfl, by decide,
    stringAt_cons.mpr ⟨rfl, by decide, .nil rfl⟩⟩⟩

/-- The format `%` is read behind its NUL, and printing goes on there. -/
theorem percent_at_end :
    let m : UInt32 → UInt8 := fun x => [37, 0, 104, 105].getD (x.toNat - 1) 0
    StringAt m 1 [37] ∧ ¬ Consumes m (fun _ => 0) (fun _ => 0) 1 [37] ∧
      (printf m (fun _ => 0) (fun _ => 0) 9 1).map PrintState.out = some [104, 105] := by
  intro m
  have hstr : StringAt m 1 [37] := stringAt_cons.mpr ⟨rfl, by decide, .nil rfl⟩
  exact ⟨hstr, not_consumes_of_incomplete _ hstr (by decide) (by decide) rfl, by decide⟩

end C4os
