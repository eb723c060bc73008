import Mathlib.Data.List.Forall2

/-! Messages that go down a line of parties: what one party passes on is what the next one reads.
The parties that something reaches are those from the first one on, until nothing is passed on. -/

namespace Relay

variable {σ μ : Type}

/-- How a party changes when it reads a message, and what it passes on. -/
abbrev Party (σ μ : Type) := σ → μ → σ → List μ → Prop

/-- A party reads messages, one after the other. -/
inductive Reads (party : Party σ μ) : σ → List μ → σ → List μ → Prop
  | nil (s : σ) : Reads party s [] s []
  | cons {s t u : σ} {m : μ} {ms out rest : List μ} :
      party s m t out → Reads party t ms u rest → Reads party s (m :: ms) u (out ++ rest)

theorem Reads.single {party : Party σ μ} {s t : σ} {m : μ} {out : List μ}
    (h : Reads party s [m] t out) : party s m t out := by
  cases h with
  | cons hRead hRest =>
    cases hRest with
    | nil =>
      rw [List.append_nil]
      exact hRead

/-- Messages go down a line; `reached` are the parties that have read any, as they are then. -/
inductive Passes : List (Party σ μ × σ) → List μ → List σ → Prop
  | silent (line : List (Party σ μ × σ)) : Passes line [] []
  | ended (ms : List μ) : Passes [] ms []
  | next {party : Party σ μ} {s t : σ} {line : List (Party σ μ × σ)} {ms out : List μ}
      {reached : List σ} : ms ≠ [] → Reads party s ms t out → Passes line out reached →
      Passes ((party, s) :: line) ms (t :: reached)

/-- Each party of a line passes on a message of a kind when it reads one, up to the last, and
changes as `R` says. -/
inductive Carries (Kind : μ → Prop) (R : σ → σ → Prop) : List (Party σ μ × σ) → Prop
  | nil : Carries Kind R []
  | last {party : Party σ μ} {s : σ} (hRead : ∀ m t out, Kind m → party s m t out → R s t) :
      Carries Kind R [(party, s)]
  | cons {party : Party σ μ} {s : σ} {line : List (Party σ μ × σ)}
      (hRead : ∀ m t out, Kind m → party s m t out → R s t ∧ ∃ o, out = [o] ∧ Kind o)
      (hLine : Carries Kind R line) : Carries Kind R ((party, s) :: line)

theorem Passes.silent_reached {line : List (Party σ μ × σ)} {reached : List σ}
    (h : Passes line [] reached) : reached = [] := by
  cases h with
  | silent => rfl
  | ended => rfl
  | next hSome => exact absurd rfl hSome

theorem Passes.ended_reached {ms : List μ} {reached : List σ}
    (h : Passes ([] : List (Party σ μ × σ)) ms reached) : reached = [] := by
  cases h with
  | silent => rfl
  | ended => rfl

theorem Passes.cons_inv {party : Party σ μ} {s : σ} {line : List (Party σ μ × σ)} {m : μ}
    {reached : List σ} (h : Passes ((party, s) :: line) [m] reached) :
    ∃ t out rest, party s m t out ∧ Passes line out rest ∧ reached = t :: rest := by
  cases h with
  | next _ hReads hPasses => exact ⟨_, _, _, hReads.single, hPasses, rfl⟩

/-- A message of the kind reaches every party of the line, and each of them changes as it does. -/
theorem Carries.reached {Kind : μ → Prop} {R : σ → σ → Prop} {line : List (Party σ μ × σ)}
    (h : Carries Kind R line) {m : μ} (hKind : Kind m) {reached : List σ}
    (hPasses : Passes line [m] reached) : List.Forall₂ R (line.map (·.2)) reached := by
  induction h generalizing m reached with
  | nil =>
    cases hPasses with
    | ended => exact .nil
  | last hRead =>
    obtain ⟨t, out, rest, hParty, hRest, rfl⟩ := hPasses.cons_inv
    rw [hRest.ended_reached]
    exact .cons (hRead _ _ _ hKind hParty) .nil
  | cons hRead hLine ih =>
    obtain ⟨t, out, rest, hParty, hRest, rfl⟩ := hPasses.cons_inv
    obtain ⟨hStep, o, rfl, hNext⟩ := hRead _ _ _ hKind hParty
    exact .cons hStep (ih hNext hRest)

end Relay
