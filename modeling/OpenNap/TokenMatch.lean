import OpenNap.Lib.Loop
import OpenNap.Lib.Memory
import OpenNap.Search

/-! `match` of `search.c` on the bytes of the file name.  A token is looked for by its first letter in
either case, and the rest is compared at each place where that letter stands. -/

namespace OpenNap

open CText Memory

/-! ### The code -/

/-- `strncasecmp (s + i, t + j, n) == 0`, byte by byte. -/
def strncasecmp (s t : Bytes) : Nat → Nat → Nat → Checked Bool
  | _, _, 0 => .ok true
  | i, j, n + 1 => do
    let c ← load s i
    let d ← load t j
    if c.toLower ≠ d.toLower then .ok false
    else if c = nul then .ok true
    else strncasecmp s t (i + 1) (j + 1) n

/-- An `int` as a `size_t`. -/
def toSize (i : Int) : Nat := (i % 2 ^ 64).toNat

/-- The first letter of a token in both cases and the `int` length of the token.  What `strpbrk` looks
for ends at a NUL. -/
def needle (a : Bytes) : Checked (Str × Int) := do
  let x ← load a 0
  let token ← text a 0
  return ([x.toLower, x.toUpper].takeWhile (· ≠ nul), toInt32 token.length)

/-- The body of the `while (*b)` loop: the next `b`, or how the loop is left, with `none` for the
`return 0` inside it. -/
def matchBody (file a : Bytes) (c : Str) (l : Int) (b : Nat) : Checked (Nat ⊕ Option Nat) := do
  if (← load file b) = nul then return .inr (some b)
  match ← search (· ∈ c) file b with
  | none => return .inr none
  | some b =>
    -- already compared the first char
    if ← strncasecmp file a (b + 1) 1 (toSize (l - 1)) then return .inr (some b)
    else return .inl (b + 1)

/-- One pass of the loop; a fault ends it. -/
def matchPass (file a : Bytes) (c : Str) (l : Int) (b : Nat) : Nat ⊕ Checked (Option Nat) :=
  match matchBody file a c l b with
  | .ok (.inl b) => .inl b
  | .ok (.inr left) => .inr (.ok left)
  | .error e => .inr (.error e)

/-- What comes behind the loop: the end of the string was hit before matching, or the token is there. -/
def matchEnd (file : Bytes) : Option Nat → Checked Bool
  | none => .ok false
  | some b => (fun x => x ≠ nul) <$> load file b

/-- The search for one token, with so much fuel for its loop. -/
def matchToken (fuel : Nat) (file a : Bytes) : Option (Checked Bool) :=
  match needle a with
  | .error e => some (.error e)
  | .ok (c, l) => (Loop.run (matchPass file a c l) fuel 0).map (· >>= matchEnd file)

/-- `match`, with so much fuel for each token. -/
def matchScan (fuel : Nat) (file : Bytes) : List Bytes → Option (Checked Bool)
  | [] => some (.ok true)
  | a :: tokens =>
    match matchToken fuel file a with
    | some (.ok true) => matchScan fuel file tokens
    | left => left

/-- A string with its end. -/
def cstr (s : Str) : Bytes := s ++ [nul]

theorem holds_cstr {s : Str} (h : nul ∉ s) : Holds (cstr s) 0 s := holds_self h

/-! ### The comparison -/

theorem toNat_toLower (c : Char) :
    c.toLower.toNat = if 65 ≤ c.toNat ∧ c.toNat ≤ 90 then c.toNat + 32 else c.toNat := by
  by_cases hUpper : c.val ≥ 'A'.val ∧ c.val ≤ 'Z'.val
  · have hLow : 65 ≤ c.toNat := hUpper.1
    have hHigh : c.toNat ≤ 90 := hUpper.2
    have hVal : c.toLower.toNat = (c.toNat + 32) % 4294967296 :=
      congrArg (fun d : Char => d.toNat) (dif_pos hUpper)
    rw [if_pos ⟨hLow, hHigh⟩, hVal, Nat.mod_eq_of_lt (by omega)]
  · have hNot : ¬ (65 ≤ c.toNat ∧ c.toNat ≤ 90) := hUpper
    rw [if_neg hNot]
    exact congrArg Char.toNat (dif_neg hUpper)

theorem toNat_toUpper (c : Char) :
    c.toUpper.toNat = if 97 ≤ c.toNat ∧ c.toNat ≤ 122 then c.toNat - 32 else c.toNat := by
  by_cases hLower : 'a'.val ≤ c.val ∧ c.val ≤ 'z'.val
  · have hLow : 97 ≤ c.toNat := hLower.1
    have hHigh : c.toNat ≤ 122 := hLower.2
    have hVal : c.toUpper.val = c.val + ('A'.val - 'a'.val) := by
      unfold Char.toUpper
      rw [dif_pos hLower]
    have hSum : c.toUpper.toNat = (c.toNat + ('A'.val - 'a'.val).toNat) % 2 ^ 32 :=
      (congrArg UInt32.toNat hVal).trans (UInt32.toNat_add ..)
    have hShift : ('A'.val - 'a'.val).toNat = 2 ^ 32 - 32 := by decide
    rw [if_pos ⟨hLow, hHigh⟩, hSum, hShift]
    omega
  · have hNot : ¬ (97 ≤ c.toNat ∧ c.toNat ≤ 122) := hLower
    rw [if_neg hNot]
    exact congrArg Char.toNat (dif_neg hLower)

/-- The letters that `match` looks for are those that are the same in small. -/
theorem either_case_iff {c a : Char} : c = a.toLower ∨ c = a.toUpper ↔ c.toLower = a.toLower := by
  simp only [← Char.toNat_inj, toNat_toLower, toNat_toUpper]
  grind

theorem toLower_eq_nul {c : Char} : c.toLower = nul ↔ c = nul := by
  have hBoth : c = nul.toLower ∨ c = nul.toUpper ↔ c.toLower = nul.toLower := either_case_iff
  have hLower : nul.toLower = nul := by decide
  have hUpper : nul.toUpper = nul := by decide
  rw [hLower, hUpper, or_self] at hBoth
  exact hBoth.symm

/-- `strncasecmp` stays inside both strings, and tells whether their first `n` letters are the same. -/
theorem strncasecmp_eq {s t : Bytes} {x y : Str} {i j : Nat} (n : Nat) (hx : Holds s i x)
    (hy : Holds t j y) : strncasecmp s t i j n =
      .ok (decide ((strlower x).take n = (strlower y).take n)) := by
  induction n generalizing x y i j with
  | zero => simp [strncasecmp]
  | succ n ih =>
    rw [strncasecmp, hx.head, hy.head]
    cases x with
    | nil =>
      cases y with
      | nil => simp
      | cons d y =>
        have hd : d ≠ nul := fun h => hy.plain (by simp [h])
        have hOther : nul.toLower ≠ d.toLower := by
          intro h
          exact hd (toLower_eq_nul.1 (h.symm.trans (by decide)))
        simp [hOther, strlower]
    | cons c x =>
      have hc : c ≠ nul := fun h => hx.plain (by simp [h])
      cases y with
      | nil =>
        have hOther : c.toLower ≠ nul.toLower := by
          intro h
          exact hc (toLower_eq_nul.1 (h.trans (by decide)))
        simp [hOther, strlower]
      | cons d y =>
        have hRest := ih (hx.drop (show c :: x = [c] ++ x from rfl))
          (hy.drop (show d :: y = [d] ++ y from rfl))
        by_cases hSame : c.toLower = d.toLower
        · simp only [List.head?_cons, Option.getD_some, ok_bind, hSame, ne_eq, not_true_eq_false,
            if_false, hc]
          rw [show i + 1 = i + [c].length from rfl, show j + 1 = j + [d].length from rfl, hRest]
          refine congrArg Except.ok (decide_eq_decide.2 ?_)
          simp [strlower, hSame]
        · simp [strlower, hSame]

/-! ### One token -/

/-- Some letter of `c` stands in the text, and the first `n` letters behind it are those of `tail`. -/
def Found (c : Str) (n : Nat) (tail s : Str) : Prop :=
  ∃ front x rest, s = front ++ x :: rest ∧ x ∈ c ∧
    (strlower rest).take n = (strlower tail).take n

section

variable {c tail s front : Str} {n : Nat} {x : Char}

theorem not_found_nil : ¬ Found c n tail [] := by
  rintro ⟨front, x, rest, hText, -⟩
  simp at hText

theorem found_cons : Found c n tail (x :: s) ↔
    (x ∈ c ∧ (strlower s).take n = (strlower tail).take n) ∨ Found c n tail s := by
  constructor
  · rintro ⟨front, y, rest, hText, hIn, hSame⟩
    cases front with
    | nil =>
      cases hText
      exact .inl ⟨hIn, hSame⟩
    | cons z front =>
      cases hText
      exact .inr ⟨front, y, rest, rfl, hIn, hSame⟩
  · rintro (⟨hIn, hSame⟩ | ⟨front, y, rest, rfl, hIn, hSame⟩)
    · exact ⟨[], x, s, rfl, hIn, hSame⟩
    · exact ⟨x :: front, y, rest, rfl, hIn, hSame⟩

/-- What comes before the first candidate does not matter. -/
theorem found_skip (h : ∀ y ∈ front, y ∉ c) : Found c n tail (front ++ s) ↔ Found c n tail s := by
  induction front with
  | nil => rfl
  | cons y front ih =>
    rw [List.cons_append, found_cons, ih fun z hz => h z (List.mem_cons_of_mem _ hz)]
    exact or_iff_right fun hFirst => h y (List.mem_cons_self ..) hFirst.1

end

section

variable {file a : Bytes} {c tail s : Str} {l : Int} {b : Nat}

/-- A pass of the loop: the end of the name, no candidate any more, or the next candidate with the
comparison. -/
theorem matchPass_cases (hFile : Holds file b s) (hTail : Holds a 1 tail) (hc : nul ∉ c) :
    (s = [] ∧ matchPass file a c l b = .inr (.ok (some b))) ∨
    ((∀ x ∈ s, x ∉ c) ∧ matchPass file a c l b = .inr (.ok none)) ∨
    ∃ front x rest, s = front ++ x :: rest ∧ (∀ y ∈ front, y ∉ c) ∧ x ∈ c ∧
      ((strlower rest).take (toSize (l - 1)) = (strlower tail).take (toSize (l - 1)) ∧
        matchPass file a c l b = .inr (.ok (some (b + front.length))) ∨
      (strlower rest).take (toSize (l - 1)) ≠ (strlower tail).take (toSize (l - 1)) ∧
        matchPass file a c l b = .inl (b + front.length + 1)) := by
  have hHead := hFile.head
  cases s with
  | nil =>
    refine .inl ⟨rfl, ?_⟩
    rw [matchPass, matchBody, hHead]
    rfl
  | cons x s =>
    have hx : x ≠ nul := fun h => hFile.plain (by simp [h])
    have hSearch := hFile.search (p := fun y => y ∈ c) (by simpa using hc)
    obtain ⟨hFront, hEnd⟩ := cutAt_spec (fun y => y ∈ c) (x :: s)
    refine .inr ?_
    rcases hEnd with ⟨hNone, hAll⟩ | ⟨y, rest, hy, hSome, hText⟩
    · refine .inl ⟨fun z hz => ?_, ?_⟩
      · rw [hAll] at hFront
        simpa using hFront z hz
      · rw [matchPass, matchBody, hHead, hSearch, hNone]
        simp [hx]
    · rw [hSome] at hSearch
      have hSplit : x :: s = ((cutAt (fun y => y ∈ c) (x :: s)).1 ++ [y]) ++ rest := by
        rw [List.append_assoc]
        exact hText
      have hRest := hFile.drop hSplit
      rw [List.length_append, List.length_singleton, ← Nat.add_assoc] at hRest
      have hCompare := strncasecmp_eq (toSize (l - 1)) hRest hTail
      refine .inr ⟨_, y, rest, hText, fun z hz => by simpa using hFront z hz, by simpa using hy, ?_⟩
      by_cases hSame : (strlower rest).take (toSize (l - 1)) = (strlower tail).take (toSize (l - 1))
      · refine .inl ⟨hSame, ?_⟩
        rw [decide_eq_true hSame] at hCompare
        rw [matchPass, matchBody, hHead, hSearch]
        simp [hx, hCompare]
      · refine .inr ⟨hSame, ?_⟩
        rw [decide_eq_false hSame] at hCompare
        rw [matchPass, matchBody, hHead, hSearch]
        simp [hx, hCompare]

/-- Where the loop is: a string that has a place for the token exactly when the whole name has. -/
def Ahead (file : Bytes) (c : Str) (n : Nat) (tail s : Str) (b : Nat) : Prop :=
  ∃ rest, Holds file b rest ∧ (Found c n tail rest ↔ Found c n tail s)

/-- How the loop is left tells whether there is a place for the token. -/
def Settled (file : Bytes) (c : Str) (n : Nat) (tail s : Str) (left : Checked (Option Nat)) : Prop :=
  ∃ found : Bool, left >>= matchEnd file = .ok found ∧ (found = true ↔ Found c n tail s)

theorem Ahead.next {b' : Nat} (h : Ahead file c (toSize (l - 1)) tail s b) (hTail : Holds a 1 tail)
    (hc : nul ∉ c) (hPass : matchPass file a c l b = .inl b') :
    Ahead file c (toSize (l - 1)) tail s b' ∧ file.length - b' < file.length - b := by
  obtain ⟨rest, hRest, hSame⟩ := h
  rcases matchPass_cases (l := l) hRest hTail hc with ⟨-, hEnd⟩ | ⟨-, hEnd⟩ |
    ⟨front, x, behind, rfl, hFront, hx, ⟨-, hEnd⟩ | ⟨hOther, hNext⟩⟩
  · rw [hEnd] at hPass
    cases hPass
  · rw [hEnd] at hPass
    cases hPass
  · rw [hEnd] at hPass
    cases hPass
  · rw [hNext] at hPass
    cases hPass
    have hSplit : front ++ x :: behind = (front ++ [x]) ++ behind := by simp
    have hBehind := hRest.drop hSplit
    rw [List.length_append, List.length_singleton, ← Nat.add_assoc] at hBehind
    refine ⟨⟨behind, hBehind, ?_⟩, ?_⟩
    · rw [← hSame, found_skip hFront, found_cons]
      exact (or_iff_right fun hFound => hOther hFound.2).symm
    · have hInside := hBehind.lt_length
      omega

theorem Ahead.done {left : Checked (Option Nat)} (h : Ahead file c (toSize (l - 1)) tail s b)
    (hTail : Holds a 1 tail) (hc : nul ∉ c) (hPass : matchPass file a c l b = .inr left) :
    Settled file c (toSize (l - 1)) tail s left := by
  obtain ⟨rest, hRest, hSame⟩ := h
  rcases matchPass_cases (l := l) hRest hTail hc with ⟨rfl, hEnd⟩ | ⟨hNone, hEnd⟩ |
    ⟨front, x, behind, rfl, hFront, hx, ⟨hMatch, hEnd⟩ | ⟨-, hNext⟩⟩
  · rw [hEnd] at hPass
    cases hPass
    have hHead := hRest.head
    refine ⟨false, by simp [matchEnd, hHead], ?_⟩
    rw [← hSame]
    simpa using not_found_nil
  · rw [hEnd] at hPass
    cases hPass
    refine ⟨false, rfl, ?_⟩
    have hNot : Found c (toSize (l - 1)) tail (rest ++ []) ↔ Found c (toSize (l - 1)) tail [] :=
      found_skip hNone
    rw [List.append_nil] at hNot
    rw [← hSame, hNot]
    simpa using not_found_nil
  · rw [hEnd] at hPass
    cases hPass
    have hThere := hRest.drop (show front ++ x :: behind = front ++ (x :: behind) from rfl)
    have hHead := hThere.head
    have hLetter : x ≠ nul := fun h => hRest.plain (by simp [h])
    refine ⟨true, by simp [matchEnd, hHead, hLetter], ?_⟩
    rw [← hSame, found_skip hFront, found_cons]
    simp [hx, hMatch]
  · rw [hNext] at hPass
    cases hPass

/-- The loop for one token ends inside the name, and tells whether there is a place for the token. -/
theorem matchLoop {fuel : Nat} (hFile : Holds file 0 s) (hTail : Holds a 1 tail) (hc : nul ∉ c)
    (hFuel : file.length < fuel) : ∃ left, Loop.run (matchPass file a c l) fuel 0 = some left ∧
      Settled file c (toSize (l - 1)) tail s left :=
  Loop.run_of_measure (I := Ahead file c (toSize (l - 1)) tail s) (fun b => file.length - b)
    (fun _ _ hAhead hPass => hAhead.next hTail hc hPass)
    (fun _ _ hAhead hPass => hAhead.done hTail hc hPass) ⟨s, hFile, Iff.rfl⟩ hFuel

end

/-- The letters of a token. -/
def bothCases (x : Char) : Str := [x.toLower, x.toUpper]

section

variable {x : Char} {tail s : Str} {fuel : Nat}

theorem nul_bothCases (hx : x ≠ nul) : nul ∉ bothCases x := by
  intro hIn
  have hSame : nul = x.toLower ∨ nul = x.toUpper := by simpa [bothCases] using hIn
  have hLower := either_case_iff.1 hSame
  exact hx (toLower_eq_nul.1 (hLower.symm.trans (by decide)))

theorem needle_cstr (h : nul ∉ x :: tail) :
    needle (cstr (x :: tail)) = .ok (bothCases x, toInt32 (tail.length + 1)) := by
  have hHolds := holds_cstr h
  have hx : x ≠ nul := fun hNul => h (by simp [hNul])
  have hLetters : (bothCases x).takeWhile (· ≠ nul) = bothCases x := by
    refine List.takeWhile_eq_self_iff.2 fun y hy => ?_
    have hOther : y ≠ nul := fun hNul => nul_bothCases hx (hNul ▸ hy)
    simpa using hOther
  rw [needle, hHolds.head, hHolds.text]
  simp only [List.head?_cons, Option.getD_some, ok_bind, pure_eq, List.length_cons]
  rw [show [x.toLower, x.toUpper] = bothCases x from rfl, hLetters]
  rfl

/-- The search for one token stays inside the name, and tells whether there is a place for it. -/
theorem matchToken_found (hFile : nul ∉ s) (hToken : nul ∉ x :: tail) (hFuel : s.length + 1 < fuel) :
    ∃ found : Bool, matchToken fuel (cstr s) (cstr (x :: tail)) = some (.ok found) ∧
      (found = true ↔
        Found (bothCases x) (toSize (toInt32 (tail.length + 1) - 1)) tail s) := by
  have hx : x ≠ nul := fun hNul => hToken (by simp [hNul])
  have hTail := (holds_cstr hToken).drop (show x :: tail = [x] ++ tail from rfl)
  have hBound : (cstr s).length < fuel := by simpa [cstr] using hFuel
  obtain ⟨left, hRun, found, hLeft, hFound⟩ := matchLoop (l := toInt32 (tail.length + 1))
    (holds_cstr hFile) hTail (nul_bothCases hx) hBound
  refine ⟨found, ?_, hFound⟩
  rw [matchToken, needle_cstr hToken]
  change (Loop.run _ fuel 0).map _ = _
  rw [hRun, Option.map_some, hLeft]

end

/-! ### Substrings -/

/-- The token stands in the name, in letters of either case. -/
def Occurs (token file : Str) : Prop := strlower token <:+: strlower file

theorem mem_bothCases {x y : Char} : y ∈ bothCases x ↔ y.toLower = x.toLower := by
  simpa [bothCases] using either_case_iff

/-- A token is found where its length says how much is compared. -/
theorem found_iff_occurs {x : Char} {tail s : Str} :
    Found (bothCases x) tail.length tail s ↔ Occurs (x :: tail) s := by
  have hAll : (strlower tail).take tail.length = strlower tail :=
    List.take_of_length_le (by simp)
  rw [Found, hAll]
  constructor
  · rintro ⟨front, y, rest, rfl, hy, hSame⟩
    refine ⟨strlower front, (strlower rest).drop tail.length, ?_⟩
    have hHead : y.toLower = x.toLower := mem_bothCases.1 hy
    calc strlower front ++ strlower (x :: tail) ++ (strlower rest).drop tail.length
        = strlower front ++ x.toLower :: (strlower tail ++ (strlower rest).drop tail.length) := by
          simp [strlower]
      _ = strlower front ++ x.toLower ::
            ((strlower rest).take tail.length ++ (strlower rest).drop tail.length) := by rw [hSame]
      _ = strlower (front ++ y :: rest) := by
          rw [List.take_append_drop, ← hHead]
          simp [strlower]
  · rintro ⟨before, behind, hText⟩
    rw [List.append_assoc] at hText
    obtain ⟨front, rest, rfl, -, hRest⟩ := List.map_eq_append_iff.1 hText.symm
    obtain ⟨word, last, rfl, hWord, -⟩ := List.map_eq_append_iff.1 hRest
    cases word with
    | nil => cases hWord
    | cons y word =>
      obtain ⟨hHead, hTail⟩ := List.cons.inj hWord
      refine ⟨front, y, word ++ last, rfl, mem_bothCases.2 hHead, ?_⟩
      have hLength : (strlower word).length = tail.length := by
        rw [show strlower word = strlower tail from hTail, strlower_length]
      rw [strlower_append, List.take_append_of_le_length (by omega), ← hLength, List.take_length]
      exact hTail

/-- The length of a token that fits an `int`, less one, is what is compared. -/
theorem toSize_length {n : Nat} (h : n + 1 < 2 ^ 31) : toSize (toInt32 (n + 1) - 1) = n := by
  rw [toInt32_eq (by omega) (by omega), toSize]
  omega

/-- What the model of searches says of one token. -/
theorem tokenIn_iff {x : Char} {tail s : Str} : tokenIn (x :: tail) s = true ↔ Occurs (x :: tail) s := by
  rw [← found_iff_occurs]
  induction s with
  | nil => exact iff_of_false Bool.false_ne_true not_found_nil
  | cons c s ih =>
    rw [tokenIn, Bool.or_eq_true, ih, found_cons]
    refine or_congr_left ?_
    rw [tokenAt, Bool.and_eq_true, samePrefix, beq_iff_eq, strlower, strlower, List.map_take,
      List.map_take]
    simp [bothCases, strlower]

/-- A token that an `int` can count. -/
structure SearchToken (t : Str) : Prop where
  nonempty : t ≠ []
  plain : nul ∉ t
  short : t.length < 2 ^ 31

/-- The search for a token on the bytes of the name is that of the model of searches. -/
theorem matchToken_eq {token file : Str} {fuel : Nat} (hToken : SearchToken token) (hFile : nul ∉ file)
    (hFuel : file.length + 1 < fuel) :
    matchToken fuel (cstr file) (cstr token) = some (.ok (tokenIn token file)) := by
  cases token with
  | nil => exact absurd rfl hToken.nonempty
  | cons x tail =>
    obtain ⟨found, hFirst, hFound⟩ := matchToken_found hFile hToken.plain hFuel
    rw [toSize_length (by simpa using hToken.short), found_iff_occurs, ← tokenIn_iff] at hFound
    rw [hFirst, Bool.eq_iff_iff.2 hFound]

/-- `match` on the bytes of the name is `match` of the model of searches: it ends, and stays inside
the name and the tokens. -/
theorem matchScan_eq {tokens : List Str} {file : Str} {fuel : Nat} (hTokens : ∀ t ∈ tokens, SearchToken t)
    (hFile : nul ∉ file) (hFuel : file.length + 1 < fuel) :
    matchScan fuel (cstr file) (tokens.map cstr) = some (.ok (matchTokens tokens file)) := by
  induction tokens with
  | nil => rfl
  | cons token tokens ih =>
    have hFirst := matchToken_eq (hTokens token (List.mem_cons_self ..)) hFile hFuel
    have hRest := ih fun t ht => hTokens t (List.mem_cons_of_mem _ ht)
    rw [List.map_cons, matchScan, hFirst, matchTokens, List.all_cons]
    cases tokenIn token file with
    | true => exact hRest
    | false => rfl

theorem matchTokens_iff {tokens : List Str} {file : Str} (hTokens : ∀ t ∈ tokens, SearchToken t) :
    matchTokens tokens file = true ↔ ∀ t ∈ tokens, Occurs t file := by
  rw [matchTokens, List.all_eq_true]
  refine forall₂_congr fun t ht => ?_
  cases t with
  | nil => exact absurd rfl (hTokens [] ht).nonempty
  | cons x tail => exact tokenIn_iff

/-- `match` ends, never reads behind the end of the name, and tells whether every token stands in it. -/
theorem match_iff (tokens : List Str) (file : Str) (fuel : Nat) (hTokens : ∀ t ∈ tokens, SearchToken t)
    (hFile : nul ∉ file) (hFuel : file.length + 1 < fuel) :
    ∃ found : Bool, matchScan fuel (cstr file) (tokens.map cstr) = some (.ok found) ∧
      (found = true ↔ ∀ t ∈ tokens, Occurs t file) :=
  ⟨_, matchScan_eq hTokens hFile hFuel, matchTokens_iff hTokens⟩

theorem match_iff_song : ∃ found : Bool,
    matchScan 20 (cstr (str "My Song.mp3")) ([str "song", str "MP3"].map cstr) = some (.ok found) ∧
      (found = true ↔ ∀ t ∈ [str "song", str "MP3"], Occurs t (str "My Song.mp3")) := by
  refine match_iff _ _ 20 ?_ (by decide +kernel) (by decide +kernel)
  intro t ht
  have hEither : t = str "song" ∨ t = str "MP3" := by simpa using ht
  rcases hEither with rfl | rfl
  · exact ⟨by decide +kernel, by decide +kernel, by decide +kernel⟩
  · exact ⟨by decide +kernel, by decide +kernel, by decide +kernel⟩

/-- Without a token the name may be empty. -/
theorem empty_name_matches :
    matchScan 2 (cstr (str "")) ([].map cstr) = some (.ok true) ∧ str "" = [] :=
  ⟨rfl, rfl⟩

/-- A token too long for an `int` is compared to the end of the name, and not found before another
letter. -/
theorem long_token_missed {x z : Char} {tail : Str} {fuel : Nat} (hPlain : nul ∉ x :: tail)
    (hEnd : nul ≠ z) (hLow : 2 ^ 31 ≤ tail.length) (hHigh : tail.length + 1 < 2 ^ 32)
    (hOther : z.toLower ∉ strlower (x :: tail)) (hFuel : tail.length + 3 < fuel) :
    Occurs (x :: tail) (x :: tail ++ [z]) ∧
      matchToken fuel (cstr (x :: tail ++ [z])) (cstr (x :: tail)) = some (.ok false) := by
  have hFile : nul ∉ x :: tail ++ [z] := by
    rw [List.mem_append, not_or, List.mem_singleton]
    exact ⟨hPlain, hEnd⟩
  have hBound : (x :: tail ++ [z]).length + 1 < fuel := by simpa using hFuel
  obtain ⟨found, hFirst, hFound⟩ := matchToken_found hFile hPlain hBound
  refine ⟨⟨[], strlower [z], (strlower_append _ _).symm⟩, ?_⟩
  -- the comparison has no end but that of the strings
  have hSize : tail.length + 1 ≤ toSize (toInt32 (tail.length + 1) - 1) := by
    have hWrap := Int.bmod_eq_self_sub_mul_bdiv (tail.length + 1) (2 ^ 32)
    have hBounds := toInt32_bounds (tail.length + 1)
    rw [toInt32] at hBounds ⊢
    rw [toSize]
    omega
  have hNot : ¬ Found (bothCases x) (toSize (toInt32 (tail.length + 1) - 1)) tail
      (x :: tail ++ [z]) := by
    rintro ⟨front, y, rest, hText, -, hSame⟩
    have hLength : rest.length ≤ tail.length + 1 := by
      have hSum := congrArg List.length hText
      simp only [List.length_append, List.length_cons, List.length_nil] at hSum
      omega
    rw [List.take_of_length_le (by rw [strlower_length]; omega),
      List.take_of_length_le (by rw [strlower_length]; omega)] at hSame
    rcases List.eq_nil_or_concat rest with rfl | ⟨init, last, rfl⟩
    · have hNone := congrArg List.length hSame
      rw [strlower_length, strlower_length, List.length_nil] at hNone
      omega
    · rw [List.concat_eq_append, ← List.cons_append, ← List.append_assoc] at hText
      have hLast : [z] = [last] := List.append_inj_right' hText rfl
      cases hLast
      refine hOther (List.mem_cons_of_mem _ ?_)
      change z.toLower ∈ strlower tail
      rw [← hSame]
      simp [strlower]
  rw [hFirst]
  cases found with
  | true => exact absurd (hFound.1 rfl) hNot
  | false => rfl

end OpenNap
