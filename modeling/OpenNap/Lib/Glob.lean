import Mathlib.Data.List.Forall2

/-! Wildcard patterns over an arbitrary alphabet: what a pattern matches, which rewritings of a
pattern change nothing, and what two patterns that match the same words have in common. -/

namespace Glob

/-- A piece of a pattern: any one letter, any word, or a given symbol. -/
inductive Piece (σ : Type) where
  | one
  | many
  | sym (a : σ)
  deriving DecidableEq

variable {σ α : Type}

/-- `Matches r p w`: the pattern covers the whole word, where `r a c` says that the letter `c` is
one that the symbol `a` stands for. -/
inductive Matches (r : σ → α → Prop) : List (Piece σ) → List α → Prop
  | nil : Matches r [] []
  | one (c : α) {p : List (Piece σ)} {w : List α} : Matches r p w → Matches r (.one :: p) (c :: w)
  | sym {a : σ} {c : α} {p : List (Piece σ)} {w : List α} :
      r a c → Matches r p w → Matches r (.sym a :: p) (c :: w)
  | skip {p : List (Piece σ)} {w : List α} : Matches r p w → Matches r (.many :: p) w
  | take (c : α) {p : List (Piece σ)} {w : List α} :
      Matches r (.many :: p) w → Matches r (.many :: p) (c :: w)

section Words

variable {r : σ → α → Prop} {p q : List (Piece σ)} {w : List α} {a : σ} {c : α}

@[simp] theorem matches_nil : Matches r [] w ↔ w = [] := by
  constructor
  · rintro ⟨⟩
    rfl
  · rintro rfl
    exact .nil

@[simp] theorem not_matches_one_nil : ¬ Matches r (.one :: p) [] := by
  rintro ⟨⟩

@[simp] theorem not_matches_sym_nil : ¬ Matches r (.sym a :: p) [] := by
  rintro ⟨⟩

@[simp] theorem matches_one_cons : Matches r (.one :: p) (c :: w) ↔ Matches r p w := by
  constructor
  · rintro ⟨⟩
    assumption
  · exact .one c

@[simp] theorem matches_sym_cons :
    Matches r (.sym a :: p) (c :: w) ↔ r a c ∧ Matches r p w := by
  constructor
  · rintro (_ | _ | ⟨hHit, hRest⟩)
    exact ⟨hHit, hRest⟩
  · rintro ⟨hHit, hRest⟩
    exact .sym hHit hRest

/-- The rest of the pattern covers what follows some number of letters. -/
theorem matches_many : Matches r (.many :: p) w ↔ ∃ u v, w = u ++ v ∧ Matches r p v := by
  constructor
  · intro h
    generalize hPat : Piece.many :: p = pat at h
    induction h with
    | nil => cases hPat
    | one => cases hPat
    | sym => cases hPat
    | @skip _ w h =>
      cases hPat
      exact ⟨[], w, rfl, h⟩
    | take c _ ih =>
      cases hPat
      obtain ⟨u, v, rfl, hRest⟩ := ih rfl
      exact ⟨c :: u, v, rfl, hRest⟩
  · rintro ⟨u, v, rfl, hRest⟩
    induction u with
    | nil => exact .skip hRest
    | cons c u ih => exact .take c ih

@[simp] theorem matches_many_nil : Matches r (.many :: p) [] ↔ Matches r p [] := by
  rw [matches_many]
  constructor
  · rintro ⟨u, v, hSplit, hRest⟩
    obtain ⟨-, rfl⟩ := List.append_eq_nil_iff.1 hSplit.symm
    exact hRest
  · exact fun h => ⟨[], [], rfl, h⟩

theorem matches_many_cons :
    Matches r (.many :: p) (c :: w) ↔ Matches r p (c :: w) ∨ Matches r (.many :: p) w := by
  constructor
  · intro h
    cases h with
    | skip h => exact .inl h
    | take c h => exact .inr h
  · rintro (h | h)
    · exact .skip h
    · exact .take c h

/-- A pattern of symbols covers the words that agree with it letter by letter. -/
theorem matches_syms {text : List σ} :
    Matches r (text.map .sym) w ↔ List.Forall₂ r text w := by
  induction text generalizing w with
  | nil => simp
  | cons a text ih =>
    cases w with
    | nil => simp
    | cons c w => simp [ih]

/-- Symbols in front of a pattern cover a beginning of the word. -/
theorem matches_syms_append {text : List σ} :
    Matches r (text.map .sym ++ p) w ↔
      ∃ u v, w = u ++ v ∧ List.Forall₂ r text u ∧ Matches r p v := by
  induction text generalizing w with
  | nil => simp
  | cons a text ih =>
    cases w with
    | nil => simp
    | cons c w =>
      simp only [List.map_cons, List.cons_append, matches_sym_cons, ih]
      constructor
      · rintro ⟨hHit, u, v, rfl, hText, hRest⟩
        exact ⟨c :: u, v, rfl, .cons hHit hText, hRest⟩
      · rintro ⟨u, v, hSplit, hText, hRest⟩
        cases hText with
        | cons hHit hText =>
          cases hSplit
          exact ⟨hHit, _, v, rfl, hText, hRest⟩

/-- One letter and then any word: the words that are not empty. -/
theorem matches_one_many : Matches r [.one, .many] w ↔ w ≠ [] := by
  cases w with
  | nil => simp
  | cons c w =>
    rw [matches_one_cons, matches_many]
    simp

end Words

/-! ### Patterns that match the same words -/

/-- Two patterns match the same words. -/
def Equivalent (r : σ → α → Prop) (p q : List (Piece σ)) : Prop :=
  ∀ w, Matches r p w ↔ Matches r q w

namespace Equivalent

variable {r : σ → α → Prop} {p q t : List (Piece σ)}

theorem refl (p : List (Piece σ)) : Equivalent r p p := fun _ => Iff.rfl

theorem symm (h : Equivalent r p q) : Equivalent r q p := fun w => (h w).symm

theorem trans (h : Equivalent r p q) (h' : Equivalent r q t) : Equivalent r p t :=
  fun w => (h w).trans (h' w)

theorem cons (h : Equivalent r p q) (x : Piece σ) : Equivalent r (x :: p) (x :: q) := by
  intro w
  cases x with
  | many => simp only [matches_many, h _]
  | one =>
    cases w with
    | nil => simp
    | cons c w => simpa using h w
  | sym a =>
    cases w with
    | nil => simp
    | cons c w => simp [h w]

theorem append_left (h : Equivalent r p q) (t : List (Piece σ)) :
    Equivalent r (t ++ p) (t ++ q) := by
  induction t with
  | nil => exact h
  | cons x t ih => exact ih.cons x

end Equivalent

variable {r : σ → α → Prop}

/-- A second `many` adds nothing. -/
theorem equivalent_many_many (p : List (Piece σ)) :
    Equivalent r (.many :: .many :: p) (.many :: p) := by
  intro w
  constructor
  · intro h
    obtain ⟨u, v, rfl, hRest⟩ := matches_many.1 h
    obtain ⟨u', v', rfl, hRest'⟩ := matches_many.1 hRest
    exact matches_many.2 ⟨u ++ u', v', (List.append_assoc ..).symm, hRest'⟩
  · exact .skip

/-- It does not matter on which side of a `many` a letter is asked for. -/
theorem equivalent_many_one (p : List (Piece σ)) :
    Equivalent r (.many :: .one :: p) (.one :: .many :: p) := by
  intro w
  induction w with
  | nil => simp
  | cons c w ih =>
    rw [matches_many_cons, ih, matches_one_cons, matches_one_cons]
    constructor
    · rintro (h | h)
      · exact .skip h
      · cases h with
        | one c h => exact .take c h
    · intro h
      cases w with
      | nil => exact .inl (matches_many_nil.1 h)
      | cons d w =>
        rcases matches_many_cons.1 h with hHere | hLater
        · exact .inl hHere
        · exact .inr (.one d hLater)

/-! ### The shortest words of a pattern -/

/-- The pieces that cover exactly one letter. -/
def solid : List (Piece σ) → List (Piece σ)
  | [] => []
  | .many :: p => solid p
  | .one :: p => .one :: solid p
  | .sym a :: p => .sym a :: solid p

/-- The shape of a pattern: for each piece that covers one letter, whether it is a symbol. -/
def shape : List (Piece σ) → List Bool
  | [] => []
  | .many :: p => shape p
  | .one :: p => false :: shape p
  | .sym _ :: p => true :: shape p

theorem shape_append (p q : List (Piece σ)) : shape (p ++ q) = shape p ++ shape q := by
  induction p with
  | nil => rfl
  | cons x p ih => cases x <;> simp [shape, ih]

@[simp] theorem shape_replicate_one (n : Nat) :
    shape (List.replicate n (.one : Piece σ)) = List.replicate n false := by
  induction n with
  | zero => rfl
  | succ n ih => simp [List.replicate_succ, shape, ih]

/-- Where each `many` covers nothing. -/
theorem Matches.of_solid {p : List (Piece σ)} {w : List α} (h : Matches r (solid p) w) :
    Matches r p w := by
  induction p generalizing w with
  | nil => exact h
  | cons x p ih =>
    cases x with
    | many => exact .skip (ih h)
    | one =>
      cases h with
      | one c h => exact .one c (ih h)
    | sym a =>
      cases h with
      | sym hHit h => exact .sym hHit (ih h)

theorem Matches.length_le {p : List (Piece σ)} {w : List α} (h : Matches r p w) :
    (shape p).length ≤ w.length := by
  induction h with
  | nil => exact Nat.le_refl 0
  | one c _ ih => exact Nat.succ_le_succ ih
  | sym _ _ ih => exact Nat.succ_le_succ ih
  | skip _ ih => exact ih
  | take c _ ih => exact Nat.le_succ_of_le ih

/-- A word as short as can be leaves nothing for any `many`. -/
theorem Matches.solid {p : List (Piece σ)} {w : List α} (h : Matches r p w)
    (hShort : w.length ≤ (shape p).length) : Matches r (solid p) w := by
  induction h with
  | nil => exact .nil
  | one c _ ih => exact .one c (ih (Nat.le_of_succ_le_succ hShort))
  | sym hHit _ ih => exact .sym hHit (ih (Nat.le_of_succ_le_succ hShort))
  | skip _ ih => exact ih hShort
  | take c h ih =>
    have := h.length_le
    simp only [List.length_cons] at hShort
    omega

theorem Matches.length_solid {p : List (Piece σ)} {w : List α} (h : Matches r (Glob.solid p) w) :
    w.length = (shape p).length := by
  induction p generalizing w with
  | nil =>
    cases h
    rfl
  | cons x p ih =>
    cases x with
    | many => exact ih h
    | one =>
      cases h with
      | one c h => exact congrArg Nat.succ (ih h)
    | sym a =>
      cases h with
      | sym _ h => exact congrArg Nat.succ (ih h)

/-- Every symbol stands for some letter: some word matches. -/
theorem exists_matches_solid (hHit : ∀ a, ∃ c, r a c) [Nonempty α] (p : List (Piece σ)) :
    ∃ w, Matches r (solid p) w := by
  induction p with
  | nil => exact ⟨[], .nil⟩
  | cons x p ih =>
    obtain ⟨w, hMatch⟩ := ih
    cases x with
    | many => exact ⟨w, hMatch⟩
    | one =>
      obtain ⟨c⟩ := ‹Nonempty α›
      exact ⟨c :: w, .one c hMatch⟩
    | sym a =>
      obtain ⟨c, hc⟩ := hHit a
      exact ⟨c :: w, .sym hc hMatch⟩

section Shortest

variable [Nonempty α] {p q : List (Piece σ)}

/-- Patterns that match the same words have shortest words of one length. -/
theorem Equivalent.length_le (h : Equivalent r p q) (hHit : ∀ a, ∃ c, r a c) :
    (shape q).length ≤ (shape p).length := by
  obtain ⟨w, hMatch⟩ := exists_matches_solid hHit p
  have hLength := hMatch.length_solid
  have := ((h w).1 hMatch.of_solid).length_le
  omega

theorem Equivalent.solid_imp (h : Equivalent r p q) (hHit : ∀ a, ∃ c, r a c) {w : List α}
    (hMatch : Matches r (solid p) w) : Matches r (solid q) w := by
  refine ((h w).1 hMatch.of_solid).solid ?_
  have := hMatch.length_solid
  have := h.symm.length_le hHit
  omega

/-- Patterns that match the same words match the same shortest words. -/
theorem Equivalent.solid (h : Equivalent r p q) (hHit : ∀ a, ∃ c, r a c) :
    Equivalent r (solid p) (solid q) :=
  fun _ => ⟨h.solid_imp hHit, h.symm.solid_imp hHit⟩

theorem shape_eq_of_solid (hHit : ∀ a, ∃ c, r a c) (hMiss : ∀ a, ∃ c, ¬ r a c)
    (h : Equivalent r (solid p) (solid q)) : shape p = shape q := by
  induction p generalizing q with
  | nil =>
    induction q with
    | nil => rfl
    | cons y q ih =>
      have hNil : Matches r (solid (y :: q)) [] := (h []).1 .nil
      cases y with
      | many => exact ih h
      | one => cases hNil
      | sym b => cases hNil
  | cons x p ihp =>
    induction q with
    | nil =>
      have hNil : Matches r (solid (x :: p)) [] := (h []).2 .nil
      cases x with
      | many => exact ihp h
      | one => cases hNil
      | sym a => cases hNil
    | cons y q ihq =>
      cases x with
      | many => exact ihp h
      | one =>
        cases y with
        | many => exact ihq h
        | one =>
          obtain ⟨c⟩ := ‹Nonempty α›
          refine congrArg (List.cons false) (ihp fun w => ?_)
          simpa [solid] using h (c :: w)
        | sym b =>
          -- a letter that the symbol does not stand for tells the two apart
          obtain ⟨c, hc⟩ := hMiss b
          obtain ⟨w, hw⟩ := exists_matches_solid hHit p
          cases (h (c :: w)).1 (.one c hw) with
          | sym hHere _ => exact absurd hHere hc
      | sym a =>
        cases y with
        | many => exact ihq h
        | one =>
          obtain ⟨c, hc⟩ := hMiss a
          obtain ⟨w, hw⟩ := exists_matches_solid hHit q
          cases (h (c :: w)).2 (.one c hw) with
          | sym hHere _ => exact absurd hHere hc
        | sym b =>
          obtain ⟨c, hc⟩ := hHit a
          obtain ⟨w, hw⟩ := exists_matches_solid hHit p
          have hb : r b c := by
            cases (h (c :: w)).1 (.sym hc hw) with
            | sym hHere _ => exact hHere
          refine congrArg (List.cons true) (ihp fun w => ?_)
          simpa [solid, hc, hb] using h (c :: w)

/-- Patterns that match the same words agree on where the symbols stand among the pieces that cover
one letter. -/
theorem Equivalent.shape_eq (h : Equivalent r p q) (hHit : ∀ a, ∃ c, r a c)
    (hMiss : ∀ a, ∃ c, ¬ r a c) : shape p = shape q :=
  shape_eq_of_solid hHit hMiss (h.solid hHit)

end Shortest

end Glob
