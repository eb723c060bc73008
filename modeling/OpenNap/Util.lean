import OpenNap.Lib.CText

/-! The argument parsers of the server: `split_line`, which cuts a packet into its fields all at
once, and `next_arg`, which takes one field off the front. -/

namespace OpenNap

open CText

/-- The byte that opens and closes a quoted field. -/
def isQuote (c : Char) : Bool := c == '"'

/-- The loop of `split_line`, entered with leading white space skipped and room for `count` more
fields; `none` is the return value -1, for a quoted field that is not closed. -/
def splitFields : Nat → Str → Option (List Str)
  | 0, _ => some []
  | _ + 1, [] => some []
  | count + 1, c :: cs =>
    if isQuote c then
      match cutAt isQuote cs with
      | (_, none) => none
      | (field, some []) => some [field]
      -- one byte after the closing quote is skipped, whatever it is
      | (field, some (_ :: rest)) => (splitFields count (skipSpace rest)).map (field :: ·)
    else
      match cutAt isBlank (c :: cs) with
      | (word, none) => some [word]
      | (word, some rest) => (splitFields count (skipSpace rest)).map (word :: ·)

/-- `split_line (template, count, pkt)`: the fields stored in the template, or `none` for -1. -/
def splitLine (count : Nat) (pkt : Str) : Option (List Str) := splitFields count (skipSpace pkt)

/-- What `next_arg` leaves of the text after an argument: `none`, the null pointer, when there is
no further argument. -/
def restAfter : Option Str → Option Str
  | none => none
  | some rest => if skipSpace rest = [] then none else some (skipSpace rest)

/-- `next_arg (&s)`: the argument, and what is left of `s`. -/
def nextArg (s : Str) : Str × Option Str :=
  match skipSpace s with
  | [] => ([], none)
  | c :: cs =>
    if isQuote c then ((cutAt isQuote cs).1, restAfter (cutAt isQuote cs).2)
    else ((cutAt isBlank (c :: cs)).1, restAfter (cutAt isBlank (c :: cs)).2)

/-- The arguments that repeated calls of `next_arg` return, at most `fuel` of them. -/
def argsLoop : Nat → Option Str → List Str
  | 0, _ => []
  | _ + 1, none => []
  | fuel + 1, some s => (nextArg s).1 :: argsLoop fuel (nextArg s).2

/-- The arguments that `while (pkt) next_arg (&pkt)` goes through. -/
def args (pkt : Option Str) : List Str := argsLoop ((pkt.getD []).length + 1) pkt

/-- The low sixteen bits of a number. -/
def toUshort (i : Int) : UInt16 := UInt16.ofNat (i % 65536).toNat

/-- The low thirty-two bits of a number. -/
def toUint (i : Int) : UInt32 := UInt32.ofNat (i % 4294967296).toNat

/-- A time printed with `%u` is read back as one printed with `%d`. -/
theorem atoi_showUint (i : Int) : atoi (showNat (toUint i).toNat) = toInt32 i := by
  have hHigh : (i % 4294967296).toNat < 2 ^ 32 := by omega
  have hNat : (toUint i).toNat = (i % 4294967296).toNat := by
    rw [toUint, UInt32.toNat_ofNat', Nat.mod_eq_of_lt hHigh]
  rw [hNat, atoi_showNat_mod]

theorem restAfter_length {p : Char → Bool} {s rest : Str}
    (h : restAfter (cutAt p s).2 = some rest) : rest.length < s.length := by
  cases hCut : (cutAt p s).2 with
  | none =>
    rw [hCut] at h
    cases h
  | some after =>
    have hAfter := cutAt_rest_length p s hCut
    have hSkip := skipSpace_length_le after
    simp only [hCut, restAfter] at h
    split at h
    · cases h
    · cases h
      omega

theorem nextArg_rest_length {s rest : Str} (h : (nextArg s).2 = some rest) :
    rest.length < s.length := by
  have hSkip := skipSpace_length_le s
  rw [nextArg] at h
  split at h
  · cases h
  · rename_i c cs hs
    rw [hs, List.length_cons] at hSkip
    split at h
    · have := restAfter_length h
      omega
    · have := restAfter_length h
      rw [List.length_cons] at this
      omega

theorem argsLoop_fuel {fuel : Nat} {pkt : Option Str} (h : (pkt.getD []).length < fuel) :
    argsLoop fuel pkt = args pkt := by
  suffices hAll : ∀ n m, (pkt.getD []).length < n → (pkt.getD []).length < m →
      argsLoop n pkt = argsLoop m pkt from hAll _ _ h (by omega)
  clear h
  intro n
  induction n generalizing pkt with
  | zero => intro m hn; omega
  | succ n ih =>
    intro m hn hm
    obtain ⟨m, rfl⟩ : ∃ k, m = k + 1 := ⟨m - 1, by omega⟩
    cases pkt with
    | none => rfl
    | some s =>
      simp only [argsLoop, List.cons.injEq, true_and]
      cases hRest : (nextArg s).2 with
      | none => cases n <;> cases m <;> rfl
      | some rest =>
        have hLess := nextArg_rest_length hRest
        simp only [Option.getD_some] at hn hm
        exact ih m (by simp only [Option.getD_some]; omega) (by simp only [Option.getD_some]; omega)

@[simp] theorem args_none : args none = [] := rfl

/-- The arguments of a text are its first one and those of the rest. -/
theorem args_some (s : Str) : args (some s) = (nextArg s).1 :: args (nextArg s).2 := by
  rw [args, argsLoop, List.cons.injEq]
  refine ⟨rfl, ?_⟩
  cases hRest : (nextArg s).2 with
  | none => cases hLen : ((some s).getD []).length <;> rfl
  | some rest => exact argsLoop_fuel (nextArg_rest_length hRest)

theorem splitFields_length {count : Nat} {s : Str} {fields : List Str}
    (h : splitFields count s = some fields) : fields.length ≤ count := by
  fun_induction splitFields count s generalizing fields with
  | case1 => cases h; simp
  | case2 => cases h; simp
  | case3 => cases h
  | case4 => cases h; simp
  | case5 _ _ _ _ _ _ _ _ ih =>
    obtain ⟨rest, hRest, rfl⟩ := Option.map_eq_some_iff.1 h
    simpa using ih hRest
  | case6 => cases h; simp
  | case7 _ _ _ _ _ _ _ ih =>
    obtain ⟨rest, hRest, rfl⟩ := Option.map_eq_some_iff.1 h
    simpa using ih hRest

/-- A plain word: not empty, without white space, and not opened by a quote. -/
structure Word (w : Str) : Prop where
  nonempty : w ≠ []
  plain : ∀ c ∈ w, isSpace c = false
  unquoted : w.head? ≠ some '"'

instance (w : Str) : Decidable (Word w) :=
  decidable_of_iff (w ≠ [] ∧ w.all (fun c => !isSpace c) ∧ w.head? ≠ some '"')
    ⟨fun h => ⟨h.1, by simpa using h.2.1, h.2.2⟩,
      fun h => ⟨h.nonempty, by simpa using h.plain, h.unquoted⟩⟩

theorem Word.blank {w : Str} (h : Word w) : ∀ c ∈ w, isBlank c = false := by
  intro c hc
  by_contra hBlank
  have hSpace := isSpace_of_isBlank (by simpa using hBlank)
  rw [h.plain c hc] at hSpace
  cases hSpace

theorem Word.cons {w : Str} (h : Word w) :
    ∃ c cs, w = c :: cs ∧ isSpace c = false ∧ isQuote c = false := by
  obtain ⟨c, cs, rfl⟩ := List.exists_cons_of_ne_nil h.nonempty
  refine ⟨c, cs, rfl, h.plain c (by simp), ?_⟩
  have hHead := h.unquoted
  simp only [List.head?_cons, ne_eq, Option.some.injEq] at hHead
  simp [isQuote, hHead]

theorem Word.skipSpace {w : Str} (h : Word w) (rest : Str) :
    CText.skipSpace (w ++ rest) = w ++ rest := by
  obtain ⟨c, cs, rfl, hc, -⟩ := h.cons
  exact skipSpace_cons_of_not hc

theorem word_showNat (n : Nat) : Word (showNat n) where
  nonempty := showNat_ne_nil n
  plain := fun _ hc => isSpace_of_isDigit (isDigit_of_mem_showNat hc)
  unquoted := by
    intro hHead
    have hMem := List.mem_of_mem_head? (Option.mem_def.2 hHead)
    exact ne_quote_of_isDigit (isDigit_of_mem_showNat hMem) rfl

theorem splitFields_word {count : Nat} {w : Str} (h : Word w) :
    splitFields (count + 1) w = some [w] := by
  obtain ⟨c, cs, rfl, -, hc⟩ := h.cons
  simp only [splitFields, hc, cutAt_of_none h.blank, Bool.false_eq_true, if_false]

theorem splitFields_word_blank {count : Nat} {w rest : Str} (h : Word w) :
    splitFields (count + 1) (w ++ ' ' :: rest) =
      (splitFields count (skipSpace rest)).map (w :: ·) := by
  obtain ⟨c, cs, rfl, -, hc⟩ := h.cons
  have hCut : cutAt isBlank ((c :: cs) ++ ' ' :: rest) = (c :: cs, some rest) :=
    cutAt_append h.blank (by decide)
  rw [List.cons_append] at hCut ⊢
  simp only [splitFields, hc, hCut, Bool.false_eq_true, if_false]

theorem splitFields_quoted {count : Nat} {q rest : Str} {c : Char} (h : ∀ d ∈ q, isQuote d = false) :
    splitFields (count + 1) ('"' :: (q ++ '"' :: c :: rest)) =
      (splitFields count (skipSpace rest)).map (q :: ·) := by
  have hCut : cutAt isQuote (q ++ '"' :: c :: rest) = (q, some (c :: rest)) :=
    cutAt_append h (by decide)
  simp only [splitFields, hCut, isQuote, beq_self_eq_true, if_true]

theorem splitFields_quoted_end {count : Nat} {q : Str} (h : ∀ d ∈ q, isQuote d = false) :
    splitFields (count + 1) ('"' :: (q ++ ['"'])) = some [q] := by
  have hCut : cutAt isQuote (q ++ ['"']) = (q, some []) := cutAt_append h (by decide)
  simp only [splitFields, hCut, isQuote, beq_self_eq_true, if_true]

theorem nextArg_word {w rest : Str} (h : Word w) (hRest : skipSpace rest ≠ []) :
    nextArg (w ++ ' ' :: rest) = (w, some (skipSpace rest)) := by
  have hSkip := h.skipSpace (' ' :: rest)
  obtain ⟨c, cs, rfl, -, hc⟩ := h.cons
  have hCut : cutAt isBlank ((c :: cs) ++ ' ' :: rest) = (c :: cs, some rest) :=
    cutAt_append h.blank (by decide)
  rw [List.cons_append] at hCut hSkip ⊢
  simp only [nextArg, hSkip, hc, hCut, Bool.false_eq_true, if_false, restAfter, hRest]

theorem nextArg_last {w : Str} (h : Word w) : nextArg w = (w, none) := by
  have hSkip := h.skipSpace []
  have hCut := cutAt_of_none h.blank
  obtain ⟨c, cs, rfl, -, hc⟩ := h.cons
  rw [List.append_nil] at hSkip
  simp only [nextArg, hSkip, hc, hCut, Bool.false_eq_true, if_false, restAfter]

/-! ### Lines of words -/

theorem word_showInt (i : Int) : Word (showInt i) := by
  cases i with
  | ofNat n => exact word_showNat n
  | negSucc n =>
    refine ⟨by simp [showInt], fun c hc => ?_, by simp [showInt]⟩
    rcases List.mem_cons.1 hc with rfl | hc
    · decide
    · exact (word_showNat (n + 1)).plain c hc

/-- Words with one blank between two of them. -/
def line : List Str → Str
  | [] => []
  | [w] => w
  | w :: ws => w ++ ' ' :: line ws

theorem line_cons (w v : Str) (l : List Str) : line (w :: v :: l) = w ++ ' ' :: line (v :: l) := rfl

theorem skipSpace_line {w : Str} (h : Word w) (l : List Str) :
    skipSpace (line (w :: l)) = line (w :: l) := by
  cases l with
  | nil => simpa [line] using h.skipSpace []
  | cons v l => exact h.skipSpace _

/-- A line of words is split into its words. -/
theorem splitLine_line {count : Nat} {l : List Str} (h : ∀ w ∈ l, Word w) :
    splitLine count (line l) = some (l.take count) := by
  have hSplit : splitFields count (line l) = some (l.take count) := by
    induction l generalizing count with
    | nil => cases count <;> rfl
    | cons w l ih =>
      have hw : Word w := h w (by simp)
      cases count with
      | zero => rfl
      | succ count =>
        cases l with
        | nil => simpa [line] using splitFields_word hw
        | cons v l =>
          have hv : Word v := h v (by simp)
          rw [line_cons, splitFields_word_blank hw, skipSpace_line hv,
            ih fun u hu => h u (by simp [hu])]
          rfl
  cases l with
  | nil => exact hSplit
  | cons w l => rw [splitLine, skipSpace_line (h w (by simp)), hSplit]

theorem nextArg_line {w v : Str} {l : List Str} (hw : Word w) (hv : Word v) :
    nextArg (line (w :: v :: l)) = (w, some (line (v :: l))) := by
  have hSkip := skipSpace_line hv l
  have hSome : line (v :: l) ≠ [] := by
    cases l with
    | nil => exact hv.nonempty
    | cons u l => simp [line]
  rw [line_cons, nextArg_word hw (by rwa [hSkip]), hSkip]

end OpenNap
