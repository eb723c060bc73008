import Mathlib.Data.List.Basic

/-! Streams that are cut into items from their front.  What the items are does not depend on the
pieces in which the stream arrives. -/

namespace Framing

/-- How the first item is taken off a stream, when all of it is there. -/
structure Splitter (β α : Type) where
  next : List β → Option (α × List β)
  shorter : ∀ l a rest, next l = some (a, rest) → rest.length < l.length
  /-- more of the stream changes nothing about an item that is there -/
  stable : ∀ l a rest more, next l = some (a, rest) → next (l ++ more) = some (a, rest ++ more)

namespace Splitter

variable {β α : Type} (S : Splitter β α)

/-- All items that are there, and the beginning of the next one. -/
def items (l : List β) : List α × List β :=
  match _h : S.next l with
  | none => ([], l)
  | some (a, rest) => (a :: (items rest).1, (items rest).2)
termination_by l.length
decreasing_by all_goals exact S.shorter l a rest _h

theorem items_of_none {l : List β} (h : S.next l = none) : S.items l = ([], l) := by
  rw [items]
  split
  · rfl
  · rename_i hSome
    rw [h] at hSome
    cases hSome

theorem items_of_some {l rest : List β} {a : α} (h : S.next l = some (a, rest)) :
    S.items l = (a :: (S.items rest).1, (S.items rest).2) := by
  rw [items]
  split
  · rename_i hNone
    rw [h] at hNone
    cases hNone
  · rename_i hSome
    rw [h] at hSome
    cases hSome
    rfl

/-- One item is taken off a stream, or none is there: the induction along `items`. -/
theorem induction {motive : List β → Prop} (none : ∀ l, S.next l = none → motive l)
    (some : ∀ l a rest, S.next l = some (a, rest) → motive rest → motive l) (l : List β) :
    motive l := by
  induction hLength : l.length using Nat.strongRecOn generalizing l with
  | ind n ih =>
    cases h : S.next l with
    | none => exact none l h
    | some found =>
      obtain ⟨a, rest⟩ := found
      have hShorter := S.shorter l a rest h
      exact some l a rest h (ih rest.length (by omega) rest rfl)

/-- No item is there in what is left. -/
theorem next_rest (l : List β) : S.next (S.items l).2 = none := by
  induction l using S.induction with
  | none l h =>
    rw [S.items_of_none h]
    exact h
  | some l a rest h ih =>
    rw [S.items_of_some h]
    exact ih

/-- The items of a stream are those of a first piece, and then those of what that piece leaves and
the rest of the stream. -/
theorem items_append (l more : List β) :
    S.items (l ++ more) =
      ((S.items l).1 ++ (S.items ((S.items l).2 ++ more)).1, (S.items ((S.items l).2 ++ more)).2) := by
  induction l using S.induction with
  | none l h =>
    rw [S.items_of_none h]
    rfl
  | some l a rest h ih =>
    rw [S.items_of_some (S.stable l a rest more h), S.items_of_some h, ih]
    rfl

/-- A stream that is cut into items without a rest begins with one. -/
theorem next_of_whole {l : List β} (hSome : l ≠ []) (hAll : (S.items l).2 = []) :
    ∃ a rest, S.next l = some (a, rest) ∧ (S.items l).1 = a :: (S.items rest).1 := by
  cases h : S.next l with
  | none =>
    rw [S.items_of_none h] at hAll
    exact absurd hAll hSome
  | some found =>
    obtain ⟨a, rest⟩ := found
    exact ⟨a, rest, rfl, by rw [S.items_of_some h]⟩

section Encoded

variable {S} {encode : α → List β} (hEncode : ∀ a more, S.next (encode a ++ more) = some (a, more))

include hEncode

/-- What was encoded is read back, whatever comes after it. -/
theorem items_encode (as : List α) (more : List β) :
    S.items (as.flatMap encode ++ more) = (as ++ (S.items more).1, (S.items more).2) := by
  induction as with
  | nil => rfl
  | cons a as ih =>
    have hNext : S.next ((a :: as).flatMap encode ++ more) = some (a, as.flatMap encode ++ more) := by
      rw [List.flatMap_cons, List.append_assoc]
      exact hEncode a _
    rw [S.items_of_some hNext, ih]
    rfl

end Encoded

/-- A stream is what its items were encoded as, and what is left. -/
theorem eq_encode {encode : α → List β} (hDecode : ∀ l a rest, S.next l = some (a, rest) → l = encode a ++ rest)
    (l : List β) : l = (S.items l).1.flatMap encode ++ (S.items l).2 := by
  induction l using S.induction with
  | none l h =>
    rw [S.items_of_none h]
    rfl
  | some l a rest h ih =>
    rw [S.items_of_some h, List.flatMap_cons, List.append_assoc, ← ih]
    exact hDecode l a rest h

end Splitter

end Framing
