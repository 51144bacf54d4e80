import Mathlib.Data.UInt
import C4os.Lib.LittleEndian

/-!
# A stack of double words in memory

Memory has 32-bit addresses, which wrap around; `off a b` is the distance from `a` up to `b`.

* `word`, `setWord`, `loadWords`, `storeWords`: little-endian double words.
* **`loadWords_storeWords`**, **`storeWords_loadWords`**: what is stored is loaded, and words that
  are stored back restore their bytes.
* `push`, `pushes`; **`pushes_eq`**: pushing words stores them in reverse below the stack pointer.
-/

namespace Stack

open LittleEndian

/-- Memory, byte by byte. -/
abbrev Ram := UInt32 → UInt8

/-- The distance from `a` up to `b`. -/
def off (a b : UInt32) : Nat := (b - a).toNat

variable {a b : UInt32} {m m' : Ram}

theorem off_eq (a b : UInt32) : off a b = (b.toNat + (2 ^ 32 - a.toNat)) % 2 ^ 32 := by
  rw [off, UInt32.toNat_sub, Nat.add_comm]

theorem off_lt (a b : UInt32) : off a b < 2 ^ 32 := (b - a).toNat_lt

@[simp] theorem off_self (a : UInt32) : off a a = 0 := by
  rw [off, UInt32.sub_self]
  rfl

theorem off_add_self {n : Nat} (hn : n < 2 ^ 32) : off a (a + UInt32.ofNat n) = n := by
  have ha := a.toNat_lt
  rw [off_eq, UInt32.toNat_add, UInt32.toNat_ofNat']
  omega

theorem off_add (n : Nat) (hn : n < 2 ^ 32) : off (a + UInt32.ofNat n) b =
    if n ≤ off a b then off a b - n else off a b + (2 ^ 32 - n) := by
  have ha := a.toNat_lt
  have hb := b.toNat_lt
  rw [off_eq, off_eq, UInt32.toNat_add, UInt32.toNat_ofNat']
  split_ifs <;> omega

theorem add_off (a b : UInt32) : a + UInt32.ofNat (off a b) = b := by
  rw [off, UInt32.ofNat_toNat, UInt32.add_comm, UInt32.sub_add_cancel]

theorem off_add_left (p x y : UInt32) : off (p + x) (p + y) = off x y := by
  unfold off
  congr 1
  grind

theorem off_of_le (h : a ≤ b) : off a b = b.toNat - a.toNat := UInt32.toNat_sub_of_le b a h

/-! ## Double words -/

/-- The bytes of the double word at `a`. -/
def wordBytes (m : Ram) (a : UInt32) : List UInt8 := [m a, m (a + 1), m (a + 2), m (a + 3)]

/-- The double word at `a`. -/
def word (m : Ram) (a : UInt32) : UInt32 := UInt32.ofNat (decode (wordBytes m a))

/-- The store of a double word. -/
def setWord (m : Ram) (a w : UInt32) : Ram :=
  fun b => (encode 4 w.toNat)[off a b]?.getD (m b)

theorem encode_word (m : Ram) (a : UInt32) : encode 4 (word m a).toNat = wordBytes m a := by
  have hlt : decode (wordBytes m a) < UInt32.size := by
    have := decode_lt (wordBytes m a)
    simpa [wordBytes] using this
  rw [word, UInt32.toNat_ofNat_of_lt' hlt]
  exact encode_decode (wordBytes m a)

theorem wordBytes_getElem? (hb : off a b < 4) : (wordBytes m a)[off a b]? = some (m b) := by
  have hab := add_off a b
  generalize off a b = i at hb hab
  subst hab
  have hi : i = 0 ∨ i = 1 ∨ i = 2 ∨ i = 3 := by omega
  rcases hi with rfl | rfl | rfl | rfl
  · simp [wordBytes]
  · rfl
  · rfl
  · rfl

theorem setWord_of_le (hb : 4 ≤ off a b) (w : UInt32) : setWord m a w b = m b := by
  rw [setWord, List.getElem?_eq_none (by rwa [length_encode])]
  rfl

theorem word_congr (h : ∀ b, off a b < 4 → m b = m' b) : word m a = word m' a := by
  have h0 := h a (by rw [off_self]; decide)
  have hoff : ∀ n < 4, off a (a + UInt32.ofNat n) < 4 := by
    intro n hn
    rwa [off_add_self (by omega)]
  have h1 : m (a + 1) = m' (a + 1) := h _ (hoff 1 (by decide))
  have h2 : m (a + 2) = m' (a + 2) := h _ (hoff 2 (by decide))
  have h3 : m (a + 3) = m' (a + 3) := h _ (hoff 3 (by decide))
  rw [word, word, wordBytes, wordBytes, h0, h1, h2, h3]

@[simp] theorem word_setWord (m : Ram) (a w : UInt32) : word (setWord m a w) a = w := by
  have hlen : (encode 4 w.toNat).length = 4 := length_encode 4 w.toNat
  have hbytes : wordBytes (setWord m a w) a = encode 4 w.toNat := by
    apply List.ext_getElem?
    intro i
    by_cases hi : i < 4
    · have hoff : off a (a + UInt32.ofNat i) = i := off_add_self (by omega)
      have hget : (wordBytes (setWord m a w) a)[off a (a + UInt32.ofNat i)]? =
          some (setWord m a w (a + UInt32.ofNat i)) := wordBytes_getElem? (by omega)
      rw [hoff] at hget
      rw [hget, setWord, hoff, List.getElem?_eq_getElem (by omega)]
      rfl
    · rw [List.getElem?_eq_none (by simpa [wordBytes] using hi),
        List.getElem?_eq_none (by omega)]
  have hw : w.toNat < 256 ^ 4 := w.toNat_lt
  rw [word, hbytes, decode_encode hw, UInt32.ofNat_toNat]

theorem word_setWord_of_ne (hab : 4 ≤ off a b) (hba : 4 ≤ off b a) (w : UInt32) :
    word (setWord m a w) b = word m b := by
  apply word_congr
  intro c hc
  apply setWord_of_le
  have ha := a.toNat_lt
  have hb := b.toNat_lt
  rw [off_eq] at hab hba hc ⊢
  omega

/-! ## Blocks of words -/

/-- The `n` double words from `a` up. -/
def loadWords (m : Ram) : UInt32 → Nat → List UInt32
  | _, 0 => []
  | a, n + 1 => word m a :: loadWords m (a + 4) n

/-- The store of double words from `a` up. -/
def storeWords (m : Ram) : UInt32 → List UInt32 → Ram
  | _, [] => m
  | a, w :: ws => setWord (storeWords m (a + 4) ws) a w

theorem off_four : off (a + 4) b =
    if 4 ≤ off a b then off a b - 4 else off a b + (2 ^ 32 - 4) :=
  off_add (a := a) (b := b) 4 (by decide)

@[simp] theorem length_loadWords (n : Nat) : (loadWords m a n).length = n := by
  induction n generalizing a with
  | zero => rfl
  | succ n ih => rw [loadWords, List.length_cons, ih]

theorem loadWords_congr {n : Nat} (hn : 4 * n ≤ 2 ^ 32) (h : ∀ b, off a b < 4 * n → m b = m' b) :
    loadWords m a n = loadWords m' a n := by
  induction n generalizing a with
  | zero => rfl
  | succ n ih =>
    have hw : word m a = word m' a := by
      apply word_congr
      intro b hb
      exact h b (by omega)
    have hrest : loadWords m (a + 4) n = loadWords m' (a + 4) n := by
      apply ih (by omega)
      intro b hb
      apply h
      have := off_lt a b
      rw [off_four] at hb
      split_ifs at hb <;> omega
    rw [loadWords, loadWords, hw, hrest]

theorem storeWords_of_le {ws : List UInt32} (hb : 4 * ws.length ≤ off a b) :
    storeWords m a ws b = m b := by
  induction ws generalizing a with
  | nil => rfl
  | cons w ws ih =>
    rw [List.length_cons] at hb
    rw [storeWords, setWord_of_le (by omega), ih]
    rw [off_four, if_pos (by omega)]
    omega

/-- **What was stored is loaded.** -/
theorem loadWords_storeWords {ws : List UInt32} (hn : 4 * ws.length ≤ 2 ^ 32) :
    loadWords (storeWords m a ws) a ws.length = ws := by
  induction ws generalizing a with
  | nil => rfl
  | cons w ws ih =>
    rw [List.length_cons] at hn
    have hrest : loadWords (setWord (storeWords m (a + 4) ws) a w) (a + 4) ws.length =
        loadWords (storeWords m (a + 4) ws) (a + 4) ws.length := by
      apply loadWords_congr (by omega)
      intro b hb
      apply setWord_of_le
      rw [off_four] at hb
      split_ifs at hb <;> omega
    rw [List.length_cons, storeWords, loadWords, hrest, word_setWord, ih (by omega)]

/-- **Words that are stored back restore their bytes.** -/
theorem storeWords_loadWords (m m' : Ram) (a b : UInt32) {n : Nat} (hn : 4 * n ≤ 2 ^ 32) :
    storeWords m' a (loadWords m a n) b = if off a b < 4 * n then m b else m' b := by
  induction n generalizing a with
  | zero => rfl
  | succ n ih =>
    have := off_lt a b
    rw [loadWords, storeWords, setWord]
    by_cases hb : off a b < 4
    · rw [encode_word, wordBytes_getElem? hb, if_pos (by omega)]
      rfl
    · have hoff : off (a + 4) b = off a b - 4 := by
        rw [off_four, if_pos (by omega)]
      rw [List.getElem?_eq_none (by rw [length_encode]; omega), Option.getD_none,
        ih _ (by omega), hoff]
      by_cases hn' : off a b < 4 * (n + 1)
      · rw [if_pos hn', if_pos (by omega)]
      · rw [if_neg hn', if_neg (by omega)]

theorem ofNat_succ_mul (n : Nat) : 4 * UInt32.ofNat (n + 1) = 4 + 4 * UInt32.ofNat n := by
  rw [UInt32.ofNat_add, UInt32.mul_add, UInt32.add_comm]
  rfl

theorem loadWords_add (n k : Nat) :
    loadWords m a (n + k) = loadWords m a n ++ loadWords m (a + 4 * UInt32.ofNat n) k := by
  induction n generalizing a with
  | zero =>
    rw [Nat.zero_add, loadWords, List.nil_append]
    congr 1
    simp
  | succ n ih =>
    rw [Nat.succ_add, loadWords, loadWords, ih, List.cons_append, ofNat_succ_mul,
      UInt32.add_assoc]

theorem storeWords_append (us ws : List UInt32) : storeWords m a (us ++ ws) =
    storeWords (storeWords m (a + 4 * UInt32.ofNat us.length) ws) a us := by
  induction us generalizing a with
  | nil =>
    rw [List.nil_append, storeWords]
    congr 1
    simp
  | cons u us ih =>
    rw [List.cons_append, storeWords, storeWords, ih, List.length_cons, ofNat_succ_mul,
      UInt32.add_assoc]

end Stack

/-- The stack pointer and the memory it points into. -/
structure Stack where
  esp : UInt32
  mem : Stack.Ram

namespace Stack

/-- `push`. -/
def push (w : UInt32) (s : Stack) : Stack := ⟨s.esp - 4, setWord s.mem (s.esp - 4) w⟩

/-- `push` of each word in turn. -/
def pushes : List UInt32 → Stack → Stack
  | [], s => s
  | w :: ws, s => pushes ws (s.push w)

theorem pushes_append (us ws : List UInt32) (s : Stack) :
    pushes (us ++ ws) s = pushes ws (pushes us s) := by
  induction us generalizing s with
  | nil => rfl
  | cons u us ih => exact ih (s.push u)

/-- **Pushed words lie in reverse below the stack pointer.** -/
theorem pushes_eq (ws : List UInt32) (s : Stack) : pushes ws s =
    ⟨s.esp - 4 * UInt32.ofNat ws.length,
      storeWords s.mem (s.esp - 4 * UInt32.ofNat ws.length) ws.reverse⟩ := by
  induction ws generalizing s with
  | nil => simp [pushes, storeWords]
  | cons w ws ih =>
    have hesp : s.esp - 4 - 4 * UInt32.ofNat ws.length =
        s.esp - 4 * UInt32.ofNat (ws.length + 1) := by
      rw [ofNat_succ_mul]
      grind
    have hback : s.esp - 4 * UInt32.ofNat (ws.length + 1) + 4 * UInt32.ofNat ws.length =
        s.esp - 4 := by
      rw [← hesp]
      exact UInt32.sub_add_cancel _ _
    rw [pushes, ih, push, hesp, List.length_cons, List.reverse_cons, storeWords_append,
      List.length_reverse, hback]
    rfl

/-! ## The stack from an address up -/

/-- The memories agree from `n` up. -/
def SameFrom (n : Nat) (m m' : Ram) : Prop := ∀ a : UInt32, n ≤ a.toNat → m a = m' a

theorem SameFrom.refl (n : Nat) (m : Ram) : SameFrom n m m := fun _ _ => rfl

theorem SameFrom.trans {n : Nat} {m m' m'' : Ram} (h : SameFrom n m m') (h' : SameFrom n m' m'') :
    SameFrom n m m'' := by
  intro a ha
  rw [h a ha, h' a ha]

theorem SameFrom.mono {n n' : Nat} {m m' : Ram} (h : SameFrom n m m') (hn : n ≤ n') :
    SameFrom n' m m' := fun a ha => h a (Nat.le_trans hn ha)

theorem SameFrom.word {n : Nat} {m m' : Ram} {a : UInt32} (h : SameFrom n m m') (hn : n ≤ a.toNat)
    (ha : a.toNat + 4 ≤ 2 ^ 32) : word m a = word m' a := by
  apply word_congr
  intro b hb
  apply h
  have := b.toNat_lt
  rw [off_eq] at hb
  omega

theorem sameFrom_storeWords (m : Ram) (a : UInt32) (ws : List UInt32) :
    SameFrom (a.toNat + 4 * ws.length) (storeWords m a ws) m := by
  intro b hb
  apply storeWords_of_le
  have := b.toNat_lt
  rw [off_of_le (UInt32.le_iff_toNat_le.mpr (by omega))]
  omega

end Stack
