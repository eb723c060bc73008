import OpenNap.BanFile
import OpenNap.Lib.Glob

/-! Which strings a wildcard mask covers: the meaning that the release notes give to `*` and `?`,
the pattern that `glob_match` goes by instead, and the masks for which the two are the same.  The
masks that old-style bans are turned into are among those whose meaning is as intended. -/

namespace OpenNap

open CText Glob

/-- A mask as a pattern: `*` stands for any text and `?` for any character. -/
def pieces : Str → List (Piece Char)
  | [] => []
  | c :: cs => (if c = '*' then .many else if c = '?' then .one else .sym c) :: pieces cs

/-- The mask covers the whole text, ignoring case. -/
def Covers (mask text : Str) : Prop := Matches (fun a c => sameChar a c = true) (pieces mask) text

/-- What `glob_match` takes a pattern for; with `star` set it follows a `*`.  A `?` among the
wildcards after a `*` is skipped, and wildcards at the end ask for a character. -/
def squeeze : Bool → List (Piece Char) → List (Piece Char)
  | true, [] => [.one, .many]
  | true, .sym a :: ps => .many :: .sym a :: squeeze false ps
  | true, _ :: ps => squeeze true ps
  | false, [] => []
  | false, .many :: ps => squeeze true ps
  | false, p :: ps => p :: squeeze false ps

@[simp] theorem pieces_nil : pieces [] = [] := rfl

theorem pieces_append (a b : Str) : pieces (a ++ b) = pieces a ++ pieces b := by
  induction a with
  | nil => rfl
  | cons c cs ih => simp [pieces, ih]

/-- A text without wildcards stands for itself. -/
theorem pieces_plain {text : Str} (h : ∀ c ∈ text, c ≠ '*' ∧ c ≠ '?') :
    pieces text = text.map .sym := by
  induction text with
  | nil => rfl
  | cons c cs ih =>
    rw [List.forall_mem_cons] at h
    simp [pieces, h.1.1, h.1.2, ih h.2]

theorem sameChar_comm (a b : Char) : sameChar a b = sameChar b a := Bool.beq_comm

theorem mem_textsAfter {p : Char} {s t : Str} :
    t ∈ textsAfter p s ↔ ∃ u c, s = u ++ c :: t ∧ sameChar p c = true := by
  induction s with
  | nil => simp [textsAfter]
  | cons d s ih =>
    have hStep : (∃ u c, d :: s = u ++ c :: t ∧ sameChar p c = true) ↔
        (t = s ∧ sameChar p d = true) ∨ ∃ u c, s = u ++ c :: t ∧ sameChar p c = true := by
      constructor
      · rintro ⟨_ | ⟨x, u⟩, c, hSplit, hSame⟩
        · cases hSplit
          exact .inl ⟨rfl, hSame⟩
        · cases hSplit
          exact .inr ⟨u, c, rfl, hSame⟩
      · rintro (⟨rfl, hSame⟩ | ⟨u, c, rfl, hSame⟩)
        · exact ⟨[], d, rfl, hSame⟩
        · exact ⟨d :: u, c, rfl, hSame⟩
    rw [hStep, ← ih, textsAfter, sameChar_comm d p]
    split <;> simp_all

/-- After a `*`, the search for the next plain character goes through all places it may stand. -/
theorem matches_many_sym {r : Char → Char → Prop} {a : Char} {ps : List (Piece Char)} {s : Str} :
    Matches r (.many :: .sym a :: ps) s ↔ ∃ u c t, s = u ++ c :: t ∧ r a c ∧ Matches r ps t := by
  rw [matches_many]
  constructor
  · rintro ⟨u, v, rfl, hRest⟩
    cases hRest with
    | @sym _ c _ t hSame hRest => exact ⟨u, c, t, rfl, hSame, hRest⟩
  · rintro ⟨u, c, t, rfl, hSame, hRest⟩
    exact ⟨u, c :: t, rfl, .sym hSame hRest⟩

/-- After a `*` the squeezed pattern asks for at least one character. -/
theorem not_matches_squeeze_nil {r : Char → Char → Prop} (ps : List (Piece Char)) :
    ¬ Matches r (squeeze true ps) [] := by
  induction ps with
  | nil => simp [squeeze]
  | cons p ps ih => cases p <;> simp [squeeze, ih]

/-- The loop of `glob_match` goes by the squeezed pattern; it follows a `*` only where there is text
left. -/
theorem globLoop_iff (star : Bool) (mask s : Str) (hLeft : star = true → s ≠ []) :
    globLoop star mask s = true ↔
      Matches (fun a c => sameChar a c = true) (squeeze star (pieces mask)) s := by
  induction mask generalizing star s with
  | nil =>
    cases star with
    | true => simpa [globLoop, squeeze, matches_one_many] using hLeft rfl
    | false => simp [globLoop, squeeze]
  | cons p ps ih =>
    cases star with
    | true =>
      by_cases hWild : (p == '*' || p == '?') = true
      · have hSkip : squeeze true (pieces (p :: ps)) = squeeze true (pieces ps) := by
          simp only [Bool.or_eq_true, beq_iff_eq] at hWild
          obtain rfl | rfl := hWild <;> rfl
        rw [globLoop, if_pos hWild, ih true s hLeft, hSkip]
      · have hSym : pieces (p :: ps) = .sym p :: pieces ps := by
          simp only [Bool.or_eq_true, beq_iff_eq, not_or] at hWild
          simp [pieces, hWild]
        rw [globLoop, if_neg hWild, hSym, squeeze, matches_many_sym, List.any_eq_true]
        constructor
        · rintro ⟨t, hIn, hRest⟩
          obtain ⟨u, c, rfl, hSame⟩ := mem_textsAfter.1 hIn
          exact ⟨u, c, t, rfl, hSame, (ih false t nofun).1 hRest⟩
        · rintro ⟨u, c, t, rfl, hSame, hRest⟩
          exact ⟨t, mem_textsAfter.2 ⟨u, c, rfl, hSame⟩, (ih false t nofun).2 hRest⟩
    | false =>
      by_cases hStar : p = '*'
      · have hEnter : squeeze false (pieces (p :: ps)) = squeeze true (pieces ps) := by
          rw [hStar]
          rfl
        rw [hEnter]
        cases s with
        | nil => simpa [globLoop] using not_matches_squeeze_nil (pieces ps)
        | cons c cs => rw [globLoop, if_pos (by simpa using hStar), ih true (c :: cs) nofun]
      · have hStep : squeeze false (pieces (p :: ps)) =
            (if p = '?' then .one else .sym p) :: squeeze false (pieces ps) := by
          by_cases hOne : p = '?' <;> simp [pieces, hStar, hOne, squeeze]
        rw [hStep]
        cases s with
        | nil => by_cases hOne : p = '?' <;> simp [globLoop, hOne]
        | cons c cs =>
          have hRest := ih false cs nofun
          by_cases hOne : p = '?' <;> by_cases hSame : sameChar p c = true <;>
            simp [globLoop, hStar, hOne, hSame, hRest]

/-- What `glob_match` takes a mask for. -/
theorem globMatch_iff {mask s : Str} :
    globMatch mask s = true ↔
      Matches (fun a c => sameChar a c = true) (squeeze false (pieces mask)) s :=
  globLoop_iff false mask s nofun

/-! ### The masks whose meaning is as documented -/

/-- In each run of wildcards the `?` that follow its first `*` are none where a plain character comes
next, and exactly one where the run ends the mask.  `some n` says that the loop is in such a run,
with so many `?` since the `*`. -/
def Faithful : Option Nat → List (Piece Char) → Prop
  | none, [] => True
  | none, .many :: ps => Faithful (some 0) ps
  | none, _ :: ps => Faithful none ps
  | some n, [] => n = 1
  | some n, .one :: ps => Faithful (some (n + 1)) ps
  | some n, .many :: ps => Faithful (some n) ps
  | some n, .sym _ :: ps => n = 0 ∧ Faithful none ps

/-- The pieces that the squeezed pattern stands for: those of a run that was entered come first. -/
def entered : Option Nat → List (Piece Char) → List (Piece Char)
  | none, ps => ps
  | some n, ps => List.replicate n .one ++ .many :: ps

/-- Squeezing such a mask changes nothing. -/
theorem Faithful.equivalent {r : Char → Char → Prop} {run : Option Nat} {ps : List (Piece Char)}
    (h : Faithful run ps) : Equivalent r (entered run ps) (squeeze run.isSome ps) := by
  induction run, ps using Faithful.induct with
  | case1 => exact .refl _
  | case2 ps ih => exact ih h
  | case3 p ps hStar ih =>
    cases p with
    | many => exact absurd rfl hStar
    | one => exact (ih h).cons .one
    | sym a => exact (ih h).cons (.sym a)
  | case4 n =>
    obtain rfl : n = 1 := h
    exact .refl _
  | case5 n ps ih =>
    have hMove : Equivalent r (entered (some n) (.one :: ps)) (entered (some (n + 1)) ps) := by
      have := (equivalent_many_one (r := r) ps).append_left (List.replicate n .one)
      rw [entered, entered, List.replicate_succ', List.append_assoc]
      exact this
    exact hMove.trans (ih h)
  | case6 n ps ih =>
    exact ((equivalent_many_many ps).append_left (List.replicate n .one)).trans (ih h)
  | case7 n a ps ih =>
    obtain ⟨rfl, h⟩ := h
    exact ((ih h).cons (.sym a)).cons .many

/-- Squeezing keeps the shape of such masks only. -/
theorem Faithful.of_shape {run : Option Nat} {ps : List (Piece Char)}
    (h : shape (entered run ps) = shape (squeeze run.isSome ps)) : Faithful run ps := by
  induction run, ps using Faithful.induct with
  | case1 => trivial
  | case2 ps ih => exact ih h
  | case3 p ps hStar ih =>
    cases p with
    | many => exact absurd rfl hStar
    | one => exact ih (List.cons.inj h).2
    | sym a => exact ih (List.cons.inj h).2
  | case4 n =>
    have hLength := congrArg List.length h
    have hOne : n = 1 := by simpa [entered, squeeze, shape_append, shape] using hLength
    exact hOne
  | case5 n ps ih =>
    refine ih (Eq.trans ?_ h)
    simp [entered, shape_append, shape, List.replicate_succ']
  | case6 n ps ih =>
    refine ih (Eq.trans ?_ h)
    simp [entered, shape_append, shape]
  | case7 n a ps ih =>
    cases n with
    | zero => exact ⟨rfl, ih (List.cons.inj h).2⟩
    | succ n => cases h

/-- Some character is not the one that a plain character of a mask stands for. -/
theorem exists_not_sameChar (a : Char) : ∃ c, ¬ sameChar a c = true := by
  by_cases h : sameChar a 'x' = true
  · refine ⟨'y', fun h' => ?_⟩
    simp only [sameChar, beq_iff_eq] at h h'
    exact absurd (h.symm.trans h') (by decide)
  · exact ⟨'x', h⟩

/-- `glob_match` says whether a mask covers a text, for each mask, exactly where the mask asks for
nothing that is squeezed out of it. -/
theorem globMatch_iff_covers_iff (mask : Str) :
    (∀ s, globMatch mask s = true ↔ Covers mask s) ↔ Faithful none (pieces mask) := by
  constructor
  · intro h
    refine Faithful.of_shape ?_
    have hSame : Equivalent (fun a c => sameChar a c = true) (pieces mask)
        (squeeze false (pieces mask)) := fun s => (h s).symm.trans globMatch_iff
    exact hSame.shape_eq (fun a => ⟨a, by simp [sameChar]⟩) exists_not_sameChar
  · exact fun h s => globMatch_iff.trans (h.equivalent s).symm

/-- A `*` at the end of a mask does not stand for the empty text. -/
theorem star_needs_text : ¬ ∀ mask s, globMatch mask s = true ↔ Covers mask s := by
  intro h
  have hCovers : Covers (str "a*") (str "a") := .sym (by decide) (.skip .nil)
  exact absurd ((h (str "a*") (str "a")).2 hCovers) (by decide)

/-! ### The masks of old-style bans -/

/-- A character that is no small letter is the lower case of itself alone. -/
theorem toLower_eq_iff {c d : Char} (h : d.toNat < 97) (hSame : d.toLower = d) :
    c.toLower = d ↔ c = d := by
  constructor
  · intro hLower
    unfold Char.toLower at hLower
    split at hLower
    · rename_i hUpper
      have hVal := congrArg Char.val hLower
      have hLow : 65 ≤ c.val.toNat := hUpper.1
      have hHigh : c.val.toNat ≤ 90 := hUpper.2
      have hSum : (c.val.toNat + 32) % 4294967296 = d.toNat := congrArg UInt32.toNat hVal
      omega
    · exact hLower
  · rintro rfl
    exact hSame

theorem sameChar_bang {c : Char} : sameChar '!' c = true ↔ c = '!' := by
  rw [sameChar, beq_iff_eq, eq_comm]
  exact toLower_eq_iff (by decide) (by decide)

theorem forall₂_sameChar {a b : Str} :
    List.Forall₂ (fun x c => sameChar x c = true) a b ↔ sameText a b = true := by
  induction a generalizing b with
  | nil => cases b <;> simp [strlower]
  | cons x a ih => cases b <;> simp_all [sameChar, strlower]

theorem squeeze_syms (text : Str) (ps : List (Piece Char)) :
    squeeze false (text.map .sym ++ ps) = text.map .sym ++ squeeze false ps := by
  induction text with
  | nil => rfl
  | cons c text ih => exact congrArg (List.cons _) ih

theorem bang_not_mem_of_invalidNick {cfg : Config} {nick : Str}
    (h : invalidNick cfg nick = false) : '!' ∉ nick := by
  intro hIn
  simp only [invalidNick, Bool.or_eq_false_iff, List.any_eq_false] at h
  exact h.1.1.2 '!' hIn (by decide)

section OldBans

variable {cfg : Config} {src n h : Str}

/-- A mask on a nick covers who has that nick, wherever they come from. -/
theorem globMatch_nickBan (hSrc : ∀ c ∈ src, c ≠ '*' ∧ c ≠ '?') (hn : '!' ∉ n) (hh : '!' ∉ h)
    (hHost : h ≠ []) : globMatch (src ++ str "!*") (n ++ '!' :: h) = true ↔ sameText src n = true := by
  have hPieces : squeeze false (pieces (src ++ str "!*")) =
      src.map .sym ++ [.sym '!', .one, .many] := by
    rw [pieces_append, pieces_plain hSrc, squeeze_syms]
    rfl
  rw [globMatch_iff, hPieces, matches_syms_append]
  constructor
  · rintro ⟨u, v, hSplit, hNick, hRest⟩
    cases hRest with
    | @sym _ c _ w hBang hRest =>
      obtain rfl := sameChar_bang.1 hBang
      obtain ⟨rfl, rfl⟩ := (Lists.split_at_mark hn hh).1 hSplit
      exact forall₂_sameChar.1 hNick
  · intro hNick
    exact ⟨n, '!' :: h, rfl, forall₂_sameChar.2 hNick,
      .sym (by decide) (matches_one_many.2 hHost)⟩

/-- A mask on a host covers whoever comes from there. -/
theorem globMatch_hostBan {ps : List (Piece Char)} {mask : Str}
    (hMask : squeeze false (pieces mask) = .many :: .sym '!' :: ps) (hn : '!' ∉ n) (hh : '!' ∉ h) :
    globMatch mask (n ++ '!' :: h) = true ↔ Matches (fun a c => sameChar a c = true) ps h := by
  rw [globMatch_iff, hMask, matches_many_sym]
  constructor
  · rintro ⟨u, c, t, hSplit, hBang, hRest⟩
    obtain rfl := sameChar_bang.1 hBang
    obtain ⟨rfl, rfl⟩ := (Lists.split_at_mark hn hh).1 hSplit
    exact hRest
  · exact fun hRest => ⟨n, '!', h, rfl, by decide, hRest⟩

/-- An old-style ban covers who has that nick, or who comes from that host, or from a host that
begins so when it ends in a dot; and normalizing it a second time changes nothing. -/
theorem normalizeBan_covers (hSrc : ∀ c ∈ src, c ≠ '!' ∧ c ≠ '*' ∧ c ≠ '?')
    (hFit : src.length + (if src.getLast? = some '.' then 3 else 2) ≤ 255)
    (hNick : invalidNick cfg n = false) (hHost : h ≠ []) (hBang : '!' ∉ h)
    (hMask : n.length + 1 + h.length ≤ 255) :
    (globMatch (normalizeBan cfg src) (userMask n h) = true ↔
      (invalidNick cfg src = false ∧ sameText src n = true) ∨
      (invalidNick cfg src = true ∧ src.getLast? ≠ some '.' ∧ sameText src h = true) ∨
      (invalidNick cfg src = true ∧ src.getLast? = some '.' ∧
        ∃ start more, h = start ++ more ∧ more ≠ [] ∧ sameText src start = true)) ∧
    normalizeBan cfg (normalizeBan cfg src) = normalizeBan cfg src := by
  refine ⟨?_, normalizeBan_normalizeBan cfg src⟩
  have hn := bang_not_mem_of_invalidNick hNick
  have hPlain : ∀ c ∈ src, c ≠ '*' ∧ c ≠ '?' := fun c hc => (hSrc c hc).2
  have hNoBang : '!' ∉ src := fun hIn => (hSrc '!' hIn).1 rfl
  have hText : userMask n h = n ++ '!' :: h := by
    rw [userMask, List.take_of_length_le (by simp [str]; omega)]
    simp [str]
  rw [hText, normalizeBan, if_neg (by simpa using hNoBang)]
  cases hInvalid : invalidNick cfg src with
  | false =>
    rw [if_neg (by simp), List.take_of_length_le, globMatch_nickBan hPlain hn hBang hHost]
    · simp
    · have hTwo : (str "!*").length = 2 := rfl
      rw [List.length_append, hTwo]
      split at hFit <;> omega
  | true =>
    rw [if_pos rfl]
    by_cases hDot : src.getLast? = some '.'
    · have hPieces : squeeze false (pieces (str "*!" ++ src ++ str "*")) =
          .many :: .sym '!' :: (src.map .sym ++ [.one, .many]) := by
        rw [List.append_assoc, pieces_append, pieces_append, pieces_plain hPlain]
        exact congrArg (fun ps => .many :: .sym '!' :: ps) (squeeze_syms src [.many])
      rw [if_pos hDot] at hFit ⊢
      rw [List.take_of_length_le (by simp [str]; omega), globMatch_hostBan hPieces hn hBang,
        matches_syms_append]
      simp only [forall₂_sameChar, matches_one_many]
      constructor
      · rintro ⟨start, more, hSplit, hStart, hMore⟩
        exact .inr (.inr ⟨trivial, hDot, start, more, hSplit, hMore, hStart⟩)
      · rintro (⟨hValid, -⟩ | ⟨-, hEnd, -⟩ | ⟨-, -, start, more, hSplit, hMore, hStart⟩)
        · cases hValid
        · exact absurd hDot hEnd
        · exact ⟨start, more, hSplit, hStart, hMore⟩
    · have hPieces : squeeze false (pieces (str "*!" ++ src ++ [])) =
          .many :: .sym '!' :: (src.map .sym ++ []) := by
        rw [List.append_assoc, pieces_append, List.append_nil, List.append_nil,
          pieces_plain hPlain]
        have hSyms := squeeze_syms src []
        rw [List.append_nil] at hSyms
        simp [pieces, str, squeeze, hSyms]
      rw [if_neg hDot] at hFit ⊢
      rw [List.take_of_length_le (by simp [str]; omega), globMatch_hostBan hPieces hn hBang,
        List.append_nil, matches_syms, forall₂_sameChar]
      constructor
      · exact fun hSame => .inr (.inl ⟨rfl, hDot, hSame⟩)
      · rintro (⟨hValid, -⟩ | ⟨-, -, hSame⟩ | ⟨-, hEnd, -⟩)
        · cases hValid
        · exact hSame
        · exact absurd hEnd hDot

/-- Example: a ban on a network covers a host in it. -/
theorem normalizeBan_covers_network :
    globMatch (normalizeBan { serverName := str "hub", md5 := fun _ => [] } (str "10.0."))
      (userMask (str "ann") (str "10.0.3.7")) = true :=
  (normalizeBan_covers (n := str "ann") (h := str "10.0.3.7") (by simp [str]) (by decide) (by decide)
    (by decide) (by simp [str]) (by decide)).1.2
    (.inr (.inr ⟨by decide, by decide, str "10.0.", str "3.7", by decide, by decide, by decide⟩))

end OldBans

end OpenNap
