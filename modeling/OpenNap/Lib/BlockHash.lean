import Mathlib.Data.List.Basic
import Mathlib.Data.Nat.ModEq

/-! Functions of an input that is taken in blocks of a fixed length: there is a state, and a function
that takes a block into it.  The input comes in pieces of any length; what does not fill a block yet
waits until more comes. -/

namespace BlockHash

variable {σ β M : Type}

/-- The first blocks of an input. -/
def blocks (n : Nat) : Nat → List β → List (List β)
  | 0, _ => []
  | k + 1, l => l.take n :: blocks n k (l.drop n)

/-- The state when all whole blocks of an input are taken. -/
def absorb (n : Nat) (compress : σ → List β → σ) (s : σ) (l : List β) : σ :=
  (blocks n (l.length / n) l).foldl compress s

/-- A state and what waits stand for an input: the blocks before what waits have been taken. -/
def Taken (n : Nat) (compress : σ → List β → σ) (first : σ) (input : List β) (s : σ)
    (rest : List β) : Prop :=
  ∃ whole, input = whole ++ rest ∧ n ∣ whole.length ∧ s = absorb n compress first whole

section

variable {n : Nat} {compress : σ → List β → σ} {first s : σ} {input rest : List β}

theorem blocks_append {j : Nat} {l : List β} (h : l.length = j * n) (k : Nat) (l' : List β) :
    blocks n (j + k) (l ++ l') = blocks n j l ++ blocks n k l' := by
  induction j generalizing l with
  | zero =>
    have hNil : l = [] := List.eq_nil_of_length_eq_zero (by omega)
    simp [hNil, blocks]
  | succ j ih =>
    have hLe : n ≤ l.length := by
      rw [h]
      exact Nat.le_mul_of_pos_left n (Nat.succ_pos j)
    have hRest : (l.drop n).length = j * n := by
      rw [List.length_drop, h, Nat.succ_mul, Nat.add_sub_cancel]
    rw [Nat.succ_add, blocks, blocks, List.take_append_of_le_length hLe,
      List.drop_append_of_le_length hLe, ih hRest, List.cons_append]

theorem absorb_nil : absorb n compress s [] = s := by
  simp [absorb, blocks]

/-- Whole blocks are taken before what follows them. -/
theorem absorb_append {l : List β} (h : n ∣ l.length) (l' : List β) :
    absorb n compress s (l ++ l') = absorb n compress (absorb n compress s l) l' := by
  have hLength : l.length = l.length / n * n := (Nat.div_mul_cancel h).symm
  have hCount : (l ++ l').length / n = l.length / n + l'.length / n := by
    rw [List.length_append, Nat.add_div_of_dvd_right h]
  rw [absorb, hCount, blocks_append hLength, List.foldl_append]
  rfl

namespace Taken

theorem start : Taken n compress first [] first [] :=
  ⟨[], rfl, by simp, absorb_nil.symm⟩

/-- More input waits. -/
theorem wait (h : Taken n compress first input s rest) (more : List β) :
    Taken n compress first (input ++ more) s (rest ++ more) := by
  obtain ⟨whole, rfl, hWhole, hState⟩ := h
  exact ⟨whole, List.append_assoc .., hWhole, hState⟩

/-- Whole blocks of what waits are taken. -/
theorem take {part : List β} (h : Taken n compress first input s (part ++ rest))
    (hPart : n ∣ part.length) : Taken n compress first input (absorb n compress s part) rest := by
  obtain ⟨whole, rfl, hWhole, rfl⟩ := h
  refine ⟨whole ++ part, (List.append_assoc ..).symm, ?_, (absorb_append hWhole part).symm⟩
  rw [List.length_append]
  exact Nat.dvd_add hWhole hPart

/-- When what waits is made whole, the state is that of the whole input. -/
theorem finish (h : Taken n compress first input s rest) (pad : List β) :
    absorb n compress s (rest ++ pad) = absorb n compress first (input ++ pad) := by
  obtain ⟨whole, rfl, hWhole, rfl⟩ := h
  rw [List.append_assoc, absorb_append hWhole]

theorem length_mod (h : Taken n compress first input s rest) :
    input.length % n = rest.length % n := by
  obtain ⟨whole, rfl, ⟨k, hWhole⟩, -⟩ := h
  rw [List.length_append, hWhole, Nat.mul_add_mod]

end Taken

end

/-- What each piece keeps, a list of pieces keeps. -/
theorem foldlM_keeps (step : M → List β → Option M) (Good : List β → M → Prop)
    (Fits : List β → Prop)
    (hStep : ∀ {input m} piece, Fits piece → Good input m →
      ∃ m', step m piece = some m' ∧ Good (input ++ piece) m')
    (pieces : List (List β)) (hFits : ∀ piece ∈ pieces, Fits piece) {input : List β} {m : M}
    (h : Good input m) :
    ∃ m', pieces.foldlM step m = some m' ∧ Good (input ++ pieces.flatten) m' := by
  induction pieces generalizing input m with
  | nil => exact ⟨m, rfl, by simpa using h⟩
  | cons piece pieces ih =>
    obtain ⟨m1, hFirst, hGood⟩ := hStep piece (hFits piece (by simp)) h
    obtain ⟨m2, hRest, hDone⟩ := ih (fun p hp => hFits p (by simp [hp])) hGood
    refine ⟨m2, ?_, ?_⟩
    · rw [List.foldlM_cons, hFirst]
      exact hRest
    · rwa [List.flatten_cons, ← List.append_assoc]

end BlockHash
