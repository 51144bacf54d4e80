import Mathlib.Data.List.Induction
import Mathlib.Data.UInt

/-!
# Characters from scancodes (`tty.c`, `scancodes.h`)

* `inChar`, `inChars`: the loop of `in_char`, and successive calls; each table access is recorded.
* `charsWait`: the characters that successive calls with `wait` set return, none of them NUL.
* `held`: a key is pressed and not yet released; `Stale`: the Shift key that was touched last is
  released while the other one is held.
* `shift_eq_iff`: the one flag stands for both keys unless the keys are stale.
* **`inChars_follows_iff`**: the runs in which the tables follow the keys and are not overrun.
-/

namespace C4os

/-- The characters of the keys without Shift (`scancodes.h`). -/
def scancodes : List UInt8 :=
  [0, 0, 49, 50, 51, 52, 53, 54, 55, 56, 57, 48, 45, 61, 8, 9,
   113, 119, 101, 114, 116, 121, 117, 105, 111, 112, 91, 93, 10, 0,
   97, 115, 100, 102, 103, 104, 106, 107, 108, 59, 39, 96, 0,
   92, 122, 120, 99, 118, 98, 110, 109, 44, 46, 47, 0, 42, 0, 32, 0,
   0, 0, 0, 0, 0, 0, 0, 0, 0, 0, 0, 0, 0, 0, 0, 45, 0, 0, 0, 43, 0, 0, 0, 0, 0, 0,
   0, 0, 0, 0, 0, 0, 0, 0, 0, 0, 0, 0, 0, 0, 0, 0, 0, 0, 0, 0, 0, 0, 0, 0]

/-- The characters of the keys with Shift. -/
def scancodesShifted : List UInt8 :=
  [0, 0, 33, 64, 35, 36, 37, 94, 38, 42, 40, 41, 95, 43, 8, 9,
   81, 87, 69, 82, 84, 89, 85, 73, 79, 80, 123, 125, 10, 0,
   65, 83, 68, 70, 71, 72, 74, 75, 76, 58, 34, 126, 0,
   124, 90, 88, 67, 86, 66, 78, 77, 60, 62, 63, 0, 42, 0, 32, 0,
   0, 0, 0, 0, 0, 0, 0, 0, 0, 0, 0, 0, 0, 0, 0, 45, 0, 0, 0, 43, 0, 0, 0, 0, 0, 0,
   0, 0, 0, 0, 0, 0, 0, 0, 0, 0, 0, 0, 0, 0, 0, 0, 0, 0, 0, 0, 0, 0, 0, 0]

/-- An access to a table: the scancode, the table and the index. -/
structure Lookup where
  scancode : UInt8
  shifted : Bool
  index : Nat
  deriving DecidableEq

/-- The entry that is read. Behind a table there is other memory. -/
def Lookup.chr (behind : Bool → Nat → UInt8) (q : Lookup) : UInt8 :=
  if q.shifted then scancodesShifted.getD q.index (behind true q.index)
  else scancodes.getD q.index (behind false q.index)

/-- The static `shift` of `in_char`, and the accesses so far. -/
structure CharState where
  shift : Bool
  lookups : List Lookup

/-- `shift` after a scancode. -/
def shiftNext (chr : UInt8) (shift : Bool) : Bool :=
  if chr = 0x2A ∨ chr = 0x36 then true
  else if chr = 0x2A + 0x80 ∨ chr = 0x36 + 0x80 then false
  else shift

/-- The body of the loop of `in_char`, for the scancode that `in_scancode` returned. -/
def CharState.step (chr : UInt8) (s : CharState) : CharState × Lookup :=
  let shift := shiftNext chr s.shift
  let q : Lookup := ⟨chr, shift, (if chr &&& 0x80 ≠ 0 then 0 else chr).toNat⟩
  (⟨shift, s.lookups ++ [q]⟩, q)

/-- `in_char`, over the results of the calls of `in_scancode`: the character, unless it waits for
more, and the results that are left. -/
def inChar (behind : Bool → Nat → UInt8) (wait : Bool) :
    List UInt8 → CharState → Option UInt8 × List UInt8 × CharState
  | [], s => (none, [], s)
  | b :: bs, s =>
    let r := s.step b
    let chr := r.2.chr behind
    if wait && chr == 0 then inChar behind wait bs r.1 else (some chr, bs, r.1)

/-- Successive calls of `in_char`. -/
def inChars (behind : Bool → Nat → UInt8) : List Bool → List UInt8 → CharState → CharState
  | [], _, s => s
  | wait :: waits, bs, s =>
    let r := inChar behind wait bs s
    inChars behind waits r.2.1 r.2.2

/-! ## What the calls read -/

/-- The accesses for a run of scancodes. -/
def decodeAll (bs : List UInt8) (s : CharState) : CharState := bs.foldl (fun s b => (s.step b).1) s

variable {behind : Bool → Nat → UInt8}

theorem inChar_decode (behind : Bool → Nat → UInt8) (wait : Bool) (bs : List UInt8) (s : CharState) :
    ∃ bs₁, bs = bs₁ ++ (inChar behind wait bs s).2.1 ∧
      (inChar behind wait bs s).2.2 = decodeAll bs₁ s := by
  induction bs generalizing s with
  | nil => exact ⟨[], rfl, rfl⟩
  | cons b bs ih =>
    rw [inChar]
    split_ifs
    · obtain ⟨bs₁, he, hd⟩ := ih (s.step b).1
      exact ⟨b :: bs₁, by rw [List.cons_append, ← he], hd⟩
    · exact ⟨[b], rfl, rfl⟩

theorem inChars_decode (behind : Bool → Nat → UInt8) (waits : List Bool) (bs : List UInt8) (s : CharState) :
    ∃ bs₁, bs₁ <+: bs ∧ inChars behind waits bs s = decodeAll bs₁ s := by
  induction waits generalizing bs s with
  | nil => exact ⟨[], List.nil_prefix, rfl⟩
  | cons wait waits ih =>
    obtain ⟨bs₁, he, hd⟩ := inChar_decode behind wait bs s
    obtain ⟨bs₂, hp, hd₂⟩ := ih (inChar behind wait bs s).2.1 (inChar behind wait bs s).2.2
    refine ⟨bs₁ ++ bs₂, ?_, ?_⟩
    · rw [he]
      exact (List.prefix_append_right_inj bs₁).mpr hp
    · rw [inChars, hd₂, hd, decodeAll, decodeAll, decodeAll, List.foldl_append]

/-- The characters that successive calls which wait return. -/
def charsWait (behind : Bool → Nat → UInt8) : List UInt8 → CharState → List UInt8
  | [], _ => []
  | b :: bs, s =>
    let r := s.step b
    let chr := r.2.chr behind
    if chr == 0 then charsWait behind bs r.1 else chr :: charsWait behind bs r.1

/-- The first character is the result of a call, the others are those of the calls behind it. -/
theorem charsWait_eq (bs : List UInt8) (s : CharState) :
    charsWait behind bs s = match inChar behind true bs s with
      | (none, _) => []
      | (some chr, bs', s') => chr :: charsWait behind bs' s' := by
  induction bs generalizing s with
  | nil => rfl
  | cons b bs ih =>
    rw [charsWait, inChar]
    by_cases h0 : ((s.step b).2.chr behind == 0) = true
    · rw [if_pos h0, if_pos (by simpa using h0)]
      exact ih _
    · rw [if_neg h0, if_neg (by simpa using h0)]

theorem charsWait_ne_zero {bs : List UInt8} {s : CharState} :
    ∀ chr ∈ charsWait behind bs s, chr ≠ 0 := by
  induction bs generalizing s with
  | nil => simp [charsWait]
  | cons b bs ih =>
    intro chr hchr
    rw [charsWait] at hchr
    split_ifs at hchr with h0
    · exact ih chr hchr
    · rcases List.mem_cons.mp hchr with rfl | hchr
      · simpa using h0
      · exact ih chr hchr

/-! ## The keys -/

/-- The key with the make code `key` is pressed and not yet released. -/
def held (key : UInt8) (bs : List UInt8) : Bool :=
  bs.foldl (fun d b => if b = key then true else if b = key + 0x80 then false else d) false

/-- Some Shift key is held. -/
def shiftHeld (bs : List UInt8) : Bool := held 0x2A bs || held 0x36 bs

/-- The code of a press or a release of a Shift key. -/
def isShift (b : UInt8) : Bool := b = 0x2A || b = 0x36 || b = 0x2A + 0x80 || b = 0x36 + 0x80

/-- The Shift key that was touched last is released, and the other one is held. -/
def Stale (bs : List UInt8) : Prop :=
  bs.reverse.find? isShift = some (0x2A + 0x80) ∧ held 0x36 bs = true ∨
    bs.reverse.find? isShift = some (0x36 + 0x80) ∧ held 0x2A bs = true

/-- A key is pressed; 0 stands for no scancode. -/
def IsMake (b : UInt8) : Prop := b ≠ 0 ∧ b < 0x80

instance (b : UInt8) : Decidable (IsMake b) := inferInstanceAs (Decidable (_ ∧ _))

/-- The state before the first call. -/
def CharState.init : CharState := ⟨false, []⟩

theorem held_concat (key b : UInt8) (bs : List UInt8) :
    held key (bs ++ [b]) =
      if b = key then true else if b = key + 0x80 then false else held key bs := by
  simp [held]

theorem decode_concat (bs : List UInt8) (b : UInt8) (s : CharState) :
    decodeAll (bs ++ [b]) s = ((decodeAll bs s).step b).1 := by
  simp [decodeAll]

theorem find?_concat (bs : List UInt8) (b : UInt8) :
    (bs ++ [b]).reverse.find? isShift =
      if isShift b then some b else bs.reverse.find? isShift := by
  rw [List.reverse_append, List.reverse_singleton, List.singleton_append, List.find?_cons]
  cases isShift b <;> rfl

/-- What the last Shift event leaves behind. -/
def ShiftInv (bs : List UInt8) (shift : Bool) : Prop :=
  (bs.reverse.find? isShift = none ∧ shift = false ∧ held 0x2A bs = false ∧ held 0x36 bs = false) ∨
  (bs.reverse.find? isShift = some 0x2A ∧ shift = true ∧ held 0x2A bs = true) ∨
  (bs.reverse.find? isShift = some 0x36 ∧ shift = true ∧ held 0x36 bs = true) ∨
  (bs.reverse.find? isShift = some (0x2A + 0x80) ∧ shift = false ∧ held 0x2A bs = false) ∨
  (bs.reverse.find? isShift = some (0x36 + 0x80) ∧ shift = false ∧ held 0x36 bs = false)

theorem shiftInv_decode (bs : List UInt8) : ShiftInv bs (decodeAll bs .init).shift := by
  induction bs using List.reverseRecOn with
  | nil => exact Or.inl ⟨rfl, rfl, rfl, rfl⟩
  | append_singleton bs b ih =>
    rw [decode_concat]
    show ShiftInv (bs ++ [b]) (shiftNext b _)
    unfold ShiftInv at *
    rw [find?_concat, held_concat, held_concat]
    by_cases h1 : b = 0x2A
    · subst h1
      exact Or.inr (Or.inl ⟨rfl, rfl, rfl⟩)
    by_cases h2 : b = 0x36
    · subst h2
      exact Or.inr (Or.inr (Or.inl ⟨rfl, rfl, rfl⟩))
    by_cases h3 : b = 0x2A + 0x80
    · subst h3
      exact Or.inr (Or.inr (Or.inr (Or.inl ⟨rfl, rfl, rfl⟩)))
    by_cases h4 : b = 0x36 + 0x80
    · subst h4
      exact Or.inr (Or.inr (Or.inr (Or.inr ⟨rfl, rfl, rfl⟩)))
    -- any other scancode leaves the flag and both keys as they were
    have hs : isShift b = false := by
      simp only [isShift, h1, h2, h3, h4, decide_false, Bool.or_self]
    have hflag : shiftNext b (decodeAll bs .init).shift = (decodeAll bs .init).shift := by
      unfold shiftNext
      rw [if_neg (not_or.mpr ⟨h1, h2⟩), if_neg (not_or.mpr ⟨h3, h4⟩)]
    rw [hs, hflag, if_neg h1, if_neg h3, if_neg h2, if_neg h4]
    exact ih

/-- **One flag stands for both keys** unless they are stale. -/
theorem shift_eq_iff (bs : List UInt8) :
    (decodeAll bs .init).shift = shiftHeld bs ↔ ¬ Stale bs := by
  unfold Stale shiftHeld
  rcases shiftInv_decode bs with ⟨hl, hs, ha, hb⟩ | ⟨hl, hs, ha⟩ | ⟨hl, hs, hb⟩ | ⟨hl, hs, ha⟩ |
    ⟨hl, hs, hb⟩
  · simp [hl, hs, ha, hb]
  · simp [hl, hs, ha]
  · simp [hl, hs, hb]
  · simp [hl, hs, ha]
  · simp [hl, hs, hb]

/-! ## The table accesses -/

/-- The access `q`, made after those of `qs`, is right: a key that is pressed is looked up in the
table that the held keys ask for, and the index is within the table. -/
def LookupOk (qs : List Lookup) (q : Lookup) : Prop :=
  (IsMake q.scancode → q.shifted = shiftHeld ((qs ++ [q]).map Lookup.scancode)) ∧
    q.index < (if q.shifted then scancodesShifted else scancodes).length

/-- Every access of a run is right. -/
def Follows (qs : List Lookup) : Prop := ∀ qs₁ q qs₂, qs = qs₁ ++ q :: qs₂ → LookupOk qs₁ q

/-- A scancode that is pressed while the Shift keys are not stale, and is below 109, or no key that
is pressed. -/
def PlainAt (bs : List UInt8) (b : UInt8) : Prop := IsMake b → ¬ Stale (bs ++ [b]) ∧ b < 109

/-- No key is pressed while the Shift keys are stale, or with a scancode from 109 on. -/
def Plain (bs : List UInt8) : Prop := ∀ bs₁ b bs₂, bs = bs₁ ++ b :: bs₂ → PlainAt bs₁ b

theorem forall_split_concat {α : Type*} {P : List α → α → Prop} {l : List α} {y : α} :
    (∀ l₁ x l₂, l ++ [y] = l₁ ++ x :: l₂ → P l₁ x) ↔
      (∀ l₁ x l₂, l = l₁ ++ x :: l₂ → P l₁ x) ∧ P l y := by
  constructor
  · intro h
    refine ⟨fun l₁ x l₂ he => h l₁ x (l₂ ++ [y]) (by simp [he]), h l y [] rfl⟩
  · rintro ⟨h, hy⟩ l₁ x l₂ he
    rcases List.eq_nil_or_concat l₂ with rfl | ⟨l₂, z, rfl⟩
    · obtain ⟨rfl, hx⟩ := List.append_inj' he rfl
      rw [← List.head_eq_of_cons_eq hx]
      exact hy
    · rw [List.concat_eq_append, ← List.cons_append, ← List.append_assoc] at he
      obtain ⟨rfl, -⟩ := List.append_inj' he rfl
      exact h l₁ x l₂ rfl

theorem scancode_decode (bs : List UInt8) :
    (decodeAll bs .init).lookups.map Lookup.scancode = bs := by
  induction bs using List.reverseRecOn with
  | nil => rfl
  | append_singleton bs b ih =>
    rw [decode_concat]
    show ((decodeAll bs .init).lookups ++ [_]).map Lookup.scancode = _
    rw [List.map_append, ih]
    rfl

theorem and_0x80_eq_zero (b : UInt8) : b &&& 0x80 = 0 ↔ b < 0x80 := by
  obtain ⟨⟨n⟩⟩ := b
  revert n
  decide +kernel

theorem tables_length (shift : Bool) :
    (if shift then scancodesShifted else scancodes).length = 109 := by
  cases shift <;> rfl

/-- **One access.** -/
theorem lookupOk_iff (bs : List UInt8) (b : UInt8) :
    LookupOk (decodeAll bs .init).lookups ((decodeAll bs .init).step b).2 ↔ PlainAt bs b := by
  have hshift := shift_eq_iff (bs ++ [b])
  rw [decode_concat] at hshift
  unfold LookupOk PlainAt
  rw [tables_length, List.map_append, scancode_decode]
  show (IsMake b → shiftNext b _ = shiftHeld (bs ++ [b])) ∧
    (if b &&& 0x80 ≠ 0 then 0 else b).toNat < 109 ↔ _
  rw [show shiftNext b _ = shiftHeld (bs ++ [b]) ↔ _ from hshift]
  have hindex : (if b &&& 0x80 ≠ 0 then 0 else b).toNat < 109 ↔ (IsMake b → b < 109) := by
    unfold IsMake
    by_cases hb : b < 0x80
    · rw [if_neg (not_not.mpr ((and_0x80_eq_zero b).mpr hb))]
      by_cases h0 : b = 0
      · subst h0
        decide
      · exact ⟨fun h _ => h, fun h => h ⟨h0, hb⟩⟩
    · rw [if_pos fun e => hb ((and_0x80_eq_zero b).mp e)]
      simp [hb]
  rw [hindex]
  tauto

theorem follows_decode_iff (bs : List UInt8) : Follows (decodeAll bs .init).lookups ↔ Plain bs := by
  induction bs using List.reverseRecOn with
  | nil => simp [Follows, Plain, decodeAll, CharState.init]
  | append_singleton bs b ih =>
    rw [decode_concat]
    refine (forall_split_concat (P := LookupOk)).trans ?_
    refine Iff.trans ?_ (forall_split_concat (P := PlainAt)).symm
    exact and_congr ih (lookupOk_iff bs b)

/-- **Shift decoding follows the keys, within the tables**, in a run of calls of `in_char` if and
only if no key is pressed while the Shift key touched last is released and the other one is held,
or with a scancode from 109 on. -/
theorem inChars_follows_iff (behind : Bool → Nat → UInt8) (waits : List Bool) (bs : List UInt8) :
    (inChars behind waits bs .init).lookups.map Lookup.scancode <+: bs ∧
      (Follows (inChars behind waits bs .init).lookups ↔
        Plain ((inChars behind waits bs .init).lookups.map Lookup.scancode)) := by
  obtain ⟨bs₁, hp, he⟩ := inChars_decode behind waits bs .init
  rw [he, scancode_decode]
  exact ⟨hp, follows_decode_iff bs₁⟩

/-- The right Shift key is pressed and released while the left one is held, then the key `a` is
pressed; and a key has the scancode 109. -/
theorem stale_shift :
    ¬ Follows (inChars (fun _ _ => 0) [false, false, false, false] [0x2A, 0x36, 0xB6, 0x1E]
      .init).lookups ∧
      ¬ Follows (inChars (fun _ _ => 0) [false] [109] .init).lookups := by
  constructor
  · intro h
    have := (h [⟨0x2A, true, 0x2A⟩, ⟨0x36, true, 0x36⟩, ⟨0xB6, false, 0⟩] ⟨0x1E, false, 0x1E⟩ []
      rfl).1 (by decide)
    exact absurd this (by decide)
  · intro h
    have := (h [] ⟨109, false, 109⟩ [] rfl).2
    exact absurd this (by decide)

end C4os
