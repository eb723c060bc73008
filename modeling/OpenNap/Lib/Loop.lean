import Mathlib.Logic.Relation

/-! Loops whose end is not obvious.  A pass either leads to the next one or ends the loop with a result.
A loop ends when a measure goes down from pass to pass, and never does when a pass that does not end it
always leads to another such pass. -/

namespace Loop

variable {σ ρ : Type}

/-- The result of a loop that ends within so many passes. -/
def run (pass : σ → σ ⊕ ρ) : Nat → σ → Option ρ
  | 0, _ => none
  | fuel + 1, s =>
    match pass s with
    | .inl t => run pass fuel t
    | .inr r => some r

/-- The loop ends with that result. -/
def Ends (pass : σ → σ ⊕ ρ) (s : σ) (r : ρ) : Prop := ∃ fuel, run pass fuel s = some r

/-- The loop comes from one state to another. -/
abbrev Comes (pass : σ → σ ⊕ ρ) : σ → σ → Prop :=
  Relation.ReflTransGen fun s t => pass s = .inl t

section

variable {pass : σ → σ ⊕ ρ} {s t : σ} {r r' : ρ}

theorem run_inl (h : pass s = .inl t) (fuel : Nat) : run pass (fuel + 1) s = run pass fuel t := by
  rw [run, h]

theorem run_inr (h : pass s = .inr r) (fuel : Nat) : run pass (fuel + 1) s = some r := by
  rw [run, h]

/-- More fuel does no harm. -/
theorem run_mono {fuel more : Nat} (hLe : fuel ≤ more) (h : run pass fuel s = some r) :
    run pass more s = some r := by
  induction fuel generalizing more s with
  | zero => cases h
  | succ fuel ih =>
    obtain ⟨more, rfl⟩ : ∃ n, more = n + 1 := ⟨more - 1, by omega⟩
    cases hPass : pass s with
    | inl t =>
      rw [run_inl hPass] at h ⊢
      exact ih (Nat.le_of_succ_le_succ hLe) h
    | inr r' =>
      rw [run_inr hPass] at h ⊢
      exact h

theorem ends_inl (h : pass s = .inl t) : Ends pass s r ↔ Ends pass t r := by
  constructor
  · rintro ⟨fuel, hRun⟩
    cases fuel with
    | zero => cases hRun
    | succ fuel => exact ⟨fuel, by rwa [run_inl h] at hRun⟩
  · rintro ⟨fuel, hRun⟩
    exact ⟨fuel + 1, by rwa [run_inl h]⟩

theorem ends_inr (h : pass s = .inr r) : Ends pass s r' ↔ r' = r := by
  constructor
  · rintro ⟨fuel, hRun⟩
    cases fuel with
    | zero => cases hRun
    | succ fuel =>
      rw [run_inr h] at hRun
      exact (Option.some.inj hRun).symm
  · rintro rfl
    exact ⟨1, run_inr h 0⟩

/-- A loop has one result at most. -/
theorem Ends.unique (h : Ends pass s r) (h' : Ends pass s r') : r = r' := by
  obtain ⟨fuel, hRun⟩ := h
  obtain ⟨fuel', hRun'⟩ := h'
  have hBoth := run_mono (Nat.le_max_left fuel fuel') hRun
  rw [run_mono (Nat.le_max_right fuel fuel') hRun'] at hBoth
  exact (Option.some.inj hBoth).symm

/-- What every pass keeps holds wherever the loop comes. -/
theorem Comes.invariant {I : σ → Prop} (hPass : ∀ s t, I s → pass s = .inl t → I t)
    (h : Comes pass s t) (hInit : I s) : I t := by
  induction h with
  | refl => exact hInit
  | tail _ hLast ih => exact hPass _ _ ih hLast

/-- A loop whose passes keep `I` and make a measure smaller ends within as many passes as the measure
says, and what ends it has `Q`. -/
theorem run_of_measure {I : σ → Prop} {Q : ρ → Prop} (measure : σ → Nat)
    (hNext : ∀ s t, I s → pass s = .inl t → I t ∧ measure t < measure s)
    (hDone : ∀ s r, I s → pass s = .inr r → Q r) (h : I s) {fuel : Nat} (hFuel : measure s < fuel) :
    ∃ r, run pass fuel s = some r ∧ Q r := by
  induction fuel generalizing s with
  | zero => cases hFuel
  | succ fuel ih =>
    cases hPass : pass s with
    | inl t =>
      obtain ⟨hKeep, hLess⟩ := hNext s t h hPass
      rw [run_inl hPass]
      exact ih hKeep (by omega)
    | inr r => exact ⟨r, run_inr hPass fuel, hDone s r h hPass⟩

theorem ends_of_measure {I : σ → Prop} {Q : ρ → Prop} (measure : σ → Nat)
    (hNext : ∀ s t, I s → pass s = .inl t → I t ∧ measure t < measure s)
    (hDone : ∀ s r, I s → pass s = .inr r → Q r) (h : I s) : ∃ r, Ends pass s r ∧ Q r := by
  obtain ⟨r, hRun, hr⟩ := run_of_measure measure hNext hDone h (Nat.lt_succ_self _)
  exact ⟨r, ⟨_, hRun⟩, hr⟩

/-- What ends a loop has what every pass that ends it gives. -/
theorem Ends.post {I : σ → Prop} {Q : ρ → Prop} (hNext : ∀ s t, I s → pass s = .inl t → I t)
    (hDone : ∀ s r, I s → pass s = .inr r → Q r) (hInit : I s) (h : Ends pass s r) : Q r := by
  obtain ⟨fuel, hRun⟩ := h
  induction fuel generalizing s with
  | zero => cases hRun
  | succ fuel ih =>
    cases hPass : pass s with
    | inl t =>
      rw [run_inl hPass] at hRun
      exact ih (hNext s t hInit hPass) hRun
    | inr r' =>
      rw [run_inr hPass] at hRun
      cases hRun
      exact hDone s r hInit hPass

/-- A loop that always goes on never ends. -/
theorem not_ends {I : σ → Prop} (hNext : ∀ s, I s → ∃ t, pass s = .inl t ∧ I t) (h : I s) (r : ρ) :
    ¬ Ends pass s r := by
  intro hEnds
  refine hEnds.post (Q := fun _ => False) (fun s t hs hPass => ?_) (fun s r hs hPass => ?_) h
  · obtain ⟨t', hPass', ht⟩ := hNext s hs
    rw [hPass] at hPass'
    cases hPass'
    exact ht
  · obtain ⟨t, hPass', -⟩ := hNext s hs
    rw [hPass] at hPass'
    cases hPass'

end

end Loop
