import Mathlib.Logic.Relation

/-! Runs of a total step function over a list of events, runs whose every step meets a condition,
and paths of operations.  Each comes with its invariant rule. -/

namespace Runs

variable {σ ε : Type}

/-- The state after the events, taken in order. -/
def run (step : σ → ε → σ) (s : σ) (events : List ε) : σ := events.foldl step s

@[simp] theorem run_nil (step : σ → ε → σ) (s : σ) : run step s [] = s := rfl

@[simp] theorem run_cons (step : σ → ε → σ) (s : σ) (e : ε) (events : List ε) :
    run step s (e :: events) = run step (step s e) events := rfl

theorem run_append (step : σ → ε → σ) (s : σ) (before after : List ε) :
    run step s (before ++ after) = run step (run step s before) after :=
  List.foldl_append

/-- What holds at first and is kept by every step holds after every run. -/
theorem run_invariant {step : σ → ε → σ} {I : σ → Prop} (hStep : ∀ s e, I s → I (step s e))
    {s : σ} (hInit : I s) (events : List ε) : I (run step s events) := by
  induction events generalizing s with
  | nil => exact hInit
  | cons e events ih => exact ih (hStep s e hInit)

/-- Every step of the run meets the condition in the state in which it is taken. -/
def Meets (step : σ → ε → σ) (ok : σ → ε → Prop) : σ → List ε → Prop
  | _, [] => True
  | s, e :: events => ok s e ∧ Meets step ok (step s e) events

/-- What holds at first and is kept by every step that meets the condition holds after every run
whose steps all meet it. -/
theorem Meets.invariant {step : σ → ε → σ} {ok : σ → ε → Prop} {I : σ → Prop}
    (hStep : ∀ s e, ok s e → I s → I (step s e)) {s : σ} {events : List ε}
    (hMeets : Meets step ok s events) (hInit : I s) : I (run step s events) := by
  induction events generalizing s with
  | nil => exact hInit
  | cons e events ih => exact ih hMeets.2 (hStep s e hMeets.1 hInit)

theorem Meets.append {step : σ → ε → σ} {ok : σ → ε → Prop} {s : σ} {before after : List ε}
    (hBefore : Meets step ok s before) (hAfter : Meets step ok (run step s before) after) :
    Meets step ok s (before ++ after) := by
  induction before generalizing s with
  | nil => exact hAfter
  | cons e before ih => exact ⟨hBefore.1, ih hBefore.2 hAfter⟩

theorem Meets.split {step : σ → ε → σ} {ok : σ → ε → Prop} {s : σ} {before after : List ε}
    (h : Meets step ok s (before ++ after)) :
    Meets step ok s before ∧ Meets step ok (run step s before) after := by
  induction before generalizing s with
  | nil => exact ⟨trivial, h⟩
  | cons e before ih =>
    have hRest := ih h.2
    exact ⟨⟨h.1, hRest.1⟩, hRest.2⟩

/-- What every step keeps may be added to the condition. -/
theorem Meets.and {step : σ → ε → σ} {ok : σ → ε → Prop} {I : σ → Prop}
    (hStep : ∀ s e, I s → I (step s e)) {s : σ} {events : List ε} (hMeets : Meets step ok s events)
    (hInit : I s) : Meets step (fun s e => ok s e ∧ I s) s events := by
  induction events generalizing s with
  | nil => trivial
  | cons e events ih => exact ⟨⟨hMeets.1, hInit⟩, ih hMeets.2 (hStep s e hInit)⟩

/-- What holds at first and is kept by every step holds after every part of a run. -/
theorem run_take {step : σ → ε → σ} {I : σ → Prop} {s : σ} {e : ε} {events : List ε}
    (h : ∀ n, I (run step s ((e :: events).take n))) : I (step s e) ∧
      ∀ n, I (run step (step s e) (events.take n)) :=
  ⟨by simpa using h 1, fun n => by simpa using h (n + 1)⟩

/-- When a step keeps `I` exactly when it meets the condition, given what every step keeps, then `I`
holds after every part of a run exactly when every step of the run meets the condition. -/
theorem meets_iff {step : σ → ε → σ} {ok : σ → ε → Prop} {I J : σ → Prop}
    (hKeep : ∀ s e, J s → J (step s e)) (hStep : ∀ s e, J s → I s → (I (step s e) ↔ ok s e))
    {s : σ} (hJ : J s) (hI : I s) (events : List ε) :
    (∀ n, I (run step s (events.take n))) ↔ Meets step ok s events := by
  induction events generalizing s with
  | nil => simpa [Meets] using hI
  | cons e events ih =>
    constructor
    · intro hAll
      obtain ⟨hFirst, hRest⟩ := run_take hAll
      exact ⟨(hStep s e hJ hI).1 hFirst, (ih (hKeep s e hJ) hFirst).1 hRest⟩
    · rintro ⟨hOk, hRest⟩ n
      have hFirst := (hStep s e hJ hI).2 hOk
      cases n with
      | zero => exact hI
      | succ n => exact (ih (hKeep s e hJ) hFirst).2 hRest n

/-- Two conditions that say the same in every state that a run can come to are met by the same runs. -/
theorem meets_congr {step : σ → ε → σ} {ok ok' : σ → ε → Prop} {J : σ → Prop}
    (hKeep : ∀ s e, J s → J (step s e)) (hSame : ∀ s e, J s → (ok s e ↔ ok' s e)) {s : σ} (hJ : J s)
    (events : List ε) : Meets step ok s events ↔ Meets step ok' s events := by
  induction events generalizing s with
  | nil => exact Iff.rfl
  | cons e events ih => exact and_congr (hSame s e hJ) (ih (hKeep s e hJ))

/-- Any number of operations, one after the other. -/
abbrev Path (op : σ → σ → Prop) : σ → σ → Prop := Relation.ReflTransGen op

namespace Path

variable {op : σ → σ → Prop}

/-- What every operation keeps, a path keeps. -/
theorem invariant {I : σ → Prop} (hOp : ∀ s t, op s t → I s → I t) {s t : σ}
    (h : Path op s t) (hInit : I s) : I t := by
  induction h with
  | refl => exact hInit
  | tail _ hLast ih => exact hOp _ _ hLast ih

/-- A walk over a list is a path when each of its steps is one, given what paths keep. -/
theorem foldl {α : Type} {f : σ → α → σ} {I : σ → Prop} (hOp : ∀ s t, op s t → I s → I t)
    {l : List α} (hStep : ∀ s, ∀ a ∈ l, I s → Path op s (f s a)) {s : σ} (h : I s) :
    Path op s (l.foldl f s) := by
  induction l generalizing s with
  | nil => exact .refl
  | cons a as ih =>
    have hFirst := hStep s a (by simp) h
    exact hFirst.trans (ih (fun s b hb => hStep s b (by simp [hb])) (hFirst.invariant hOp h))

end Path

end Runs
