import Mathlib.Algebra.Group.Int.Defs
import Mathlib.Algebra.Group.Nat.Defs
import Mathlib.Data.List.Basic
import Mathlib.Data.List.TakeWhile
import Mathlib.Data.Int.Init

/-! C strings as lists of characters: the classification functions of the C locale, the string
comparisons, and the conversions between numbers and decimal text.  A string stands for the bytes
before its terminating NUL. -/

namespace CText

/-- The bytes of a C string before its NUL. -/
abbrev Str := List Char

/-- The text of a string literal. -/
def str (s : String) : Str := s.toList

/-- `isspace` of the C locale: blank, tab, newline, vertical tab, form feed, return. -/
def isSpace (c : Char) : Bool := c == ' ' || (9 ≤ c.toNat && c.toNat ≤ 13)

/-- The bytes at which `strpbrk (s, " \t\r\n")` stops. -/
def isBlank (c : Char) : Bool := c == ' ' || c == '\t' || c == '\r' || c == '\n'

theorem isSpace_of_isBlank {c : Char} (h : isBlank c = true) : isSpace c = true := by
  simp only [isBlank, Bool.or_eq_true, beq_iff_eq] at h
  obtain ((rfl | rfl) | rfl) | rfl := h <;> decide

theorem isSpace_of_isDigit {c : Char} (h : c.isDigit = true) : isSpace c = false := by
  simp only [Char.isDigit, Bool.and_eq_true, decide_eq_true_eq] at h
  have hLow : 48 ≤ c.toNat := h.1
  have hNe : c ≠ ' ' := by
    rintro rfl
    exact absurd hLow (by decide)
  simp only [isSpace, Bool.or_eq_false_iff, beq_eq_false_iff_ne, Bool.and_eq_false_iff,
    decide_eq_false_iff_not]
  exact ⟨hNe, .inr (by omega)⟩

theorem ne_quote_of_isDigit {c : Char} (h : c.isDigit = true) : c ≠ '"' := by
  rintro rfl
  exact absurd h (by decide)

/-- `strlower`. -/
def strlower (s : Str) : Str := s.map Char.toLower

/-- `strcasecmp (a, b) == 0`. -/
def sameText (a b : Str) : Bool := strlower a == strlower b

/-- `strncasecmp (a, b, n) == 0`. -/
def samePrefix (n : Nat) (a b : Str) : Bool := strlower (a.take n) == strlower (b.take n)

@[simp] theorem sameText_iff {a b : Str} : sameText a b = true ↔ strlower a = strlower b := by
  simp [sameText]

@[simp] theorem strlower_nil : strlower [] = [] := rfl

@[simp] theorem strlower_append (a b : Str) : strlower (a ++ b) = strlower a ++ strlower b :=
  List.map_append

@[simp] theorem strlower_length (a : Str) : (strlower a).length = a.length := List.length_map ..

/-- The text before the first byte with `p` and the text after it: `strchr` and `strpbrk` followed
by the write of a NUL.  There is no second part when no byte satisfies `p`. -/
def cutAt (p : Char → Bool) : Str → Str × Option Str
  | [] => ([], none)
  | c :: cs =>
    if p c then ([], some cs)
    else
      let (word, rest) := cutAt p cs
      (c :: word, rest)

theorem cutAt_of_none {p : Char → Bool} {s : Str} (h : ∀ c ∈ s, p c = false) :
    cutAt p s = (s, none) := by
  induction s with
  | nil => rfl
  | cons c cs ih =>
    have hc := h c (by simp)
    have hcs := ih fun d hd => h d (by simp [hd])
    simp [cutAt, hc, hcs]

theorem cutAt_append {p : Char → Bool} {s t : Str} {c : Char} (h : ∀ d ∈ s, p d = false)
    (hc : p c = true) : cutAt p (s ++ c :: t) = (s, some t) := by
  induction s with
  | nil => simp [cutAt, hc]
  | cons d ds ih =>
    have hd := h d (by simp)
    have hds := ih fun e he => h e (by simp [he])
    simp [cutAt, hd, hds]

/-- A cut gives back the text: either nothing satisfies `p`, or the byte dropped does. -/
theorem cutAt_spec (p : Char → Bool) (s : Str) :
    (∀ c ∈ (cutAt p s).1, p c = false) ∧
      (((cutAt p s).2 = none ∧ (cutAt p s).1 = s) ∨
        ∃ c rest, p c = true ∧ (cutAt p s).2 = some rest ∧ s = (cutAt p s).1 ++ c :: rest) := by
  induction s with
  | nil => exact ⟨by simp [cutAt], .inl ⟨rfl, rfl⟩⟩
  | cons d ds ih =>
    by_cases hd : p d = true
    · exact ⟨by simp [cutAt, hd], .inr ⟨d, ds, hd, by simp [cutAt, hd], by simp [cutAt, hd]⟩⟩
    · have hd' : p d = false := by simpa using hd
      obtain ⟨hWord, hRest⟩ := ih
      refine ⟨?_, ?_⟩
      · intro c hc
        simp only [cutAt, hd', Bool.false_eq_true, if_false, List.mem_cons] at hc
        rcases hc with rfl | hc
        · exact hd'
        · exact hWord c hc
      · rcases hRest with ⟨hNone, hAll⟩ | ⟨c, rest, hc, hSome, hEq⟩
        · exact .inl ⟨by simp [cutAt, hd', hNone], by simp [cutAt, hd', hAll]⟩
        · refine .inr ⟨c, rest, hc, by simp [cutAt, hd', hSome], ?_⟩
          simp only [cutAt, hd', Bool.false_eq_true, if_false, List.cons_append]
          rw [← hEq]

theorem cutAt_rest_length (p : Char → Bool) (s : Str) {rest : Str} (h : (cutAt p s).2 = some rest) :
    rest.length < s.length := by
  rcases (cutAt_spec p s).2 with ⟨hNone, -⟩ | ⟨c, r, -, hSome, hEq⟩
  · rw [hNone] at h; cases h
  · rw [hSome] at h
    cases h
    rw [hEq]
    simp
    omega

/-- `while (ISSPACE (*s)) s++`. -/
def skipSpace (s : Str) : Str := s.dropWhile isSpace

theorem skipSpace_length_le (s : Str) : (skipSpace s).length ≤ s.length :=
  (List.dropWhile_sublist _).length_le

theorem skipSpace_cons_of_not {c : Char} {s : Str} (h : isSpace c = false) :
    skipSpace (c :: s) = c :: s := by
  simp [skipSpace, h]

theorem skipSpace_blank (s : Str) : skipSpace (' ' :: s) = skipSpace s := by
  simp [skipSpace, isSpace]

/-! ### Numbers -/

/-- `%u`. -/
def showNat (n : Nat) : Str := Nat.toDigits 10 n

/-- `%d`. -/
def showInt : Int → Str
  | .ofNat n => showNat n
  | .negSucc n => '-' :: showNat (n + 1)

/-- The value of a run of digits. -/
def digitsValue (s : Str) : Nat := Nat.ofDigitChars 10 s 0

/-- The sign and the digits that a conversion reads, and the text after them; `none` when there is
no digit to read. -/
def scanNumber (s : Str) : Option (Bool × Nat × Str) :=
  let t := skipSpace s
  let (negative, body) :=
    match t with
    | '-' :: u => (true, u)
    | '+' :: u => (false, u)
    | u => (false, u)
  let digits := body.takeWhile Char.isDigit
  if digits = [] then none
  else some (negative, digitsValue digits, body.dropWhile Char.isDigit)

/-- `strtol (s, &end, 10)` with a 64-bit long: the value and the text at `end`. -/
def strtol (s : Str) : Int × Str :=
  match scanNumber s with
  | none => (0, s)
  | some (negative, value, rest) =>
    (if negative then max (-(2 ^ 63)) (-(value : Int)) else min (2 ^ 63 - 1) (value : Int), rest)

/-- `strtoul (s, &end, 10)` with a 64-bit long: the value and the text at `end`.  A value that does
not fit is the greatest one, and a sign negates the value in the unsigned type. -/
def strtoul (s : Str) : Nat × Str :=
  match scanNumber s with
  | none => (0, s)
  | some (negative, value, rest) =>
    if 2 ^ 64 ≤ value then (2 ^ 64 - 1, rest)
    else if negative then ((2 ^ 64 - value) % 2 ^ 64, rest)
    else (value, rest)

/-- The conversion of a wider value to `int`. -/
def toInt32 (i : Int) : Int := i.bmod (2 ^ 32)

/-- `atoi (s)`. -/
def atoi (s : Str) : Int := toInt32 (strtol s).1

theorem toInt32_eq {i : Int} (hLow : -(2 ^ 31) ≤ i) (hHigh : i < 2 ^ 31) : toInt32 i = i := by
  unfold toInt32
  apply Int.bmod_eq_of_le <;> omega

theorem toInt32_bounds (i : Int) : -(2 ^ 31) ≤ toInt32 i ∧ toInt32 i < 2 ^ 31 := by
  have hLow := Int.le_bmod (x := i) (m := 2 ^ 32) (by decide)
  have hHigh := Int.bmod_lt (x := i) (m := 2 ^ 32) (by decide)
  unfold toInt32
  omega

theorem toInt32_add (i j : Int) : toInt32 (toInt32 i + j) = toInt32 (i + j) := by
  unfold toInt32
  rw [Int.bmod_add_bmod]

theorem isDigit_of_mem_showNat {n : Nat} {c : Char} (h : c ∈ showNat n) : c.isDigit = true :=
  Nat.isDigit_of_mem_toDigits (by decide) (by decide) h

theorem showNat_ne_nil (n : Nat) : showNat n ≠ [] := Nat.toDigits_ne_nil

theorem digitsValue_showNat (n : Nat) : digitsValue (showNat n) = n := by
  simp [digitsValue, showNat]

theorem showNat_length_le {n k : Nat} (h : n < 10 ^ k) (hk : 0 < k) : (showNat n).length ≤ k :=
  (Nat.length_toDigits_le_iff (by decide) hk).2 h

theorem digitsValue_lt {s : Str} (h : ∀ c ∈ s, c.isDigit = true) :
    digitsValue s < 10 ^ s.length := by
  unfold digitsValue
  induction s with
  | nil => simp
  | cons c cs ih =>
    rw [List.forall_mem_cons] at h
    have hRest := ih h.2
    have hDigit : c.toNat - 48 ≤ 9 := by
      have hc := h.1
      simp only [Char.isDigit, Bool.and_eq_true, decide_eq_true_eq] at hc
      have hHigh : c.toNat ≤ 57 := hc.2
      omega
    rw [Nat.ofDigitChars_cons, Nat.ofDigitChars_eq_ofDigitChars_zero, List.length_cons, Nat.pow_succ]
    have hZero : '0'.toNat = 48 := rfl
    rw [hZero, Nat.mul_zero, Nat.zero_add]
    have := Nat.mul_le_mul_left (10 ^ cs.length) hDigit
    omega

theorem showNat_length_mono {m n : Nat} (h : m ≤ n) : (showNat m).length ≤ (showNat n).length := by
  have hPos : 0 < (showNat n).length := List.length_pos_iff.2 (showNat_ne_nil n)
  have hn := (Nat.length_toDigits_le_iff (b := 10) (n := n) (by decide) hPos).1 (Nat.le_refl _)
  exact showNat_length_le (Nat.lt_of_le_of_lt h hn) hPos

/-- A conversion of text that starts with digits reads exactly those. -/
theorem scanNumber_digits {s rest : Str} (hs : s ≠ []) (hDigits : ∀ c ∈ s, c.isDigit = true)
    (h : ∀ c ∈ rest.head?, c.isDigit = false) :
    scanNumber (s ++ rest) = some (false, digitsValue s, rest) := by
  obtain ⟨d, ds, hText⟩ := List.exists_cons_of_ne_nil hs
  have hd : d.isDigit = true := hDigits d (by simp [hText])
  have hSkip : skipSpace (s ++ rest) = s ++ rest := by
    rw [hText]
    exact skipSpace_cons_of_not (isSpace_of_isDigit hd)
  have hTake : (s ++ rest).takeWhile Char.isDigit = s := by
    rw [List.takeWhile_append_of_pos hDigits]
    cases rest with
    | nil => simp
    | cons c cs => simp [h c (by simp)]
  have hDrop : (s ++ rest).dropWhile Char.isDigit = rest := by
    rw [List.dropWhile_append_of_pos hDigits]
    cases rest with
    | nil => simp
    | cons c cs => simp [h c (by simp)]
  have hMinus : d ≠ '-' := by rintro rfl; exact absurd hd (by decide)
  have hPlus : d ≠ '+' := by rintro rfl; exact absurd hd (by decide)
  have hSign : (match s ++ rest with
      | '-' :: u => (true, u)
      | '+' :: u => (false, u)
      | u => (false, u)) = (false, s ++ rest) := by
    rw [hText, List.cons_append]
    split
    · rename_i u hu
      exact absurd (List.cons.inj hu).1 hMinus
    · rename_i u hu
      exact absurd (List.cons.inj hu).1 hPlus
    · rfl
  simp only [scanNumber, hSkip, hSign, hTake, hDrop, hs, if_false]

/-- A conversion of text that starts with a decimal number reads exactly that number. -/
theorem scanNumber_showNat (n : Nat) {rest : Str} (h : ∀ c ∈ rest.head?, c.isDigit = false) :
    scanNumber (showNat n ++ rest) = some (false, n, rest) := by
  rw [scanNumber_digits (showNat_ne_nil n) (fun c hc => isDigit_of_mem_showNat hc) h,
    digitsValue_showNat]

theorem strtol_showNat {n : Nat} (hn : n < 2 ^ 63) : strtol (showNat n) = ((n : Int), []) := by
  have h : scanNumber (showNat n ++ []) = some (false, n, []) := scanNumber_showNat n (by simp)
  rw [List.append_nil] at h
  simp only [strtol, h, Bool.false_eq_true, if_false, Prod.mk.injEq, and_true]
  omega

theorem strtoul_showNat {n : Nat} (hn : n < 2 ^ 64) : strtoul (showNat n) = (n, []) := by
  have h : scanNumber (showNat n ++ []) = some (false, n, []) := scanNumber_showNat n (by simp)
  rw [List.append_nil] at h
  simp only [strtoul, h, Bool.false_eq_true, if_false, Prod.mk.injEq, and_true]
  rw [if_neg (by omega)]

theorem atoi_showNat {n : Nat} (hn : n < 2 ^ 31) : atoi (showNat n) = n := by
  rw [atoi, strtol_showNat (by omega)]
  exact toInt32_eq (by omega) (by omega)

/-- A conversion of a minus and digits. -/
theorem scanNumber_minus_digits {s : Str} (hs : s ≠ []) (hDigits : ∀ c ∈ s, c.isDigit = true) :
    scanNumber ('-' :: s) = some (true, digitsValue s, []) := by
  have hTake : s.takeWhile Char.isDigit = s := List.takeWhile_eq_self_iff.2 hDigits
  have hDrop : s.dropWhile Char.isDigit = [] := List.dropWhile_eq_nil_iff.2 hDigits
  simp only [scanNumber, skipSpace_cons_of_not (show isSpace '-' = false by decide), hTake, hDrop,
    hs, if_false]

/-- A conversion of a negative number in decimal. -/
theorem scanNumber_minus (n : Nat) : scanNumber ('-' :: showNat n) = some (true, n, []) := by
  rw [scanNumber_minus_digits (showNat_ne_nil n) fun c hc => isDigit_of_mem_showNat hc,
    digitsValue_showNat]

theorem strtol_showInt {i : Int} (hLow : -(2 ^ 63) ≤ i) (hHigh : i < 2 ^ 63) :
    strtol (showInt i) = (i, []) := by
  cases i with
  | ofNat n =>
    have hn : (n : Int) < 2 ^ 63 := hHigh
    exact strtol_showNat (by omega)
  | negSucc n =>
    simp only [showInt, strtol, scanNumber_minus, if_true, Prod.mk.injEq, and_true]
    omega

/-- What `%d` prints is read back. -/
theorem strtol_showInt32 (i : Int) : strtol (showInt (toInt32 i)) = (toInt32 i, []) := by
  have hBounds := toInt32_bounds i
  exact strtol_showInt (by omega) (by omega)

theorem toInt32_toInt32 (i : Int) : toInt32 (toInt32 i) = toInt32 i := by
  simpa using toInt32_add i 0

theorem atoi_showNat_mod (i : Int) : atoi (showNat (i % 4294967296).toNat) = toInt32 i := by
  have hLow : 0 ≤ i % 4294967296 := Int.emod_nonneg i (by decide)
  have hHigh : i % 4294967296 < 4294967296 := Int.emod_lt_of_pos i (by decide)
  rw [atoi, strtol_showNat (by omega), Int.toNat_of_nonneg hLow]
  exact Int.emod_bmod i (2 ^ 32)

theorem atoi_showInt32 (i : Int) : atoi (showInt (toInt32 i)) = toInt32 i := by
  rw [atoi, strtol_showInt32, toInt32_toInt32]

theorem atoi_digits {s : Str} (hs : s ≠ []) (hDigits : ∀ c ∈ s, c.isDigit = true)
    (hSmall : digitsValue s < 2 ^ 31) : atoi s = digitsValue s := by
  have h : scanNumber (s ++ []) = some (false, digitsValue s, []) :=
    scanNumber_digits hs hDigits (by simp)
  rw [List.append_nil] at h
  simp only [atoi, strtol, h, Bool.false_eq_true, if_false]
  have hMin : min (2 ^ 63 - 1) (digitsValue s : Int) = digitsValue s := by omega
  rw [hMin]
  exact toInt32_eq (by omega) (by omega)

theorem atoi_minus_digits {s : Str} (hs : s ≠ []) (hDigits : ∀ c ∈ s, c.isDigit = true)
    (hSmall : digitsValue s ≤ 2 ^ 31) : atoi ('-' :: s) = -(digitsValue s : Int) := by
  simp only [atoi, strtol, scanNumber_minus_digits hs hDigits, if_true]
  have hMax : max (-(2 ^ 63)) (-(digitsValue s : Int)) = -(digitsValue s : Int) := by omega
  rw [hMax]
  exact toInt32_eq (by omega) (by omega)

theorem showInt_length_le {i : Int} {m : Nat} (hm : 0 < m) (hLow : -10 ^ (m - 1) < i)
    (hHigh : i < 10 ^ m) : (showInt i).length ≤ m := by
  cases i with
  | ofNat n =>
    have hn : (n : Int) < 10 ^ m := hHigh
    exact showNat_length_le (by exact_mod_cast hn) hm
  | negSucc n =>
    have hn : n + 1 < 10 ^ (m - 1) := by
      have : ((n + 1 : Nat) : Int) < 10 ^ (m - 1) := by omega
      exact_mod_cast this
    have hOne : 0 < m - 1 := by
      rcases Nat.eq_zero_or_pos (m - 1) with hZero | hPos
      · rw [hZero] at hn
        omega
      · exact hPos
    have := showNat_length_le hn hOne
    simp only [showInt, List.length_cons]
    omega

theorem showNat_ten_pow (n : Nat) : showNat (10 ^ n) = '1' :: List.replicate n '0' := by
  induction n with
  | zero => rfl
  | succ n ih =>
    have hPos : 0 < 10 ^ n := Nat.pow_pos (by decide)
    have hStep := Nat.toDigits_append_toDigits (b := 10) (n := 10 ^ n) (d := 0) (by decide) hPos
      (by decide)
    rw [Nat.add_zero, ← Nat.pow_succ'] at hStep
    have hLast : showNat (10 ^ (n + 1)) = showNat (10 ^ n) ++ ['0'] := hStep.symm
    rw [hLast, ih, List.replicate_succ', List.cons_append]

/-- The decimal text of a power of ten without its last digit is that of the power before. -/
theorem take_showNat_ten_pow {n : Nat} : (showNat (10 ^ (n + 1))).take (n + 1) = showNat (10 ^ n) := by
  rw [showNat_ten_pow, showNat_ten_pow, List.take_succ_cons, List.take_replicate,
    Nat.min_eq_left (Nat.le_succ n)]

end CText
