import Mathlib.Data.List.Basic
import Mathlib.Data.List.Perm.Basic

/-! Facts about lists that are searched for their first element of a kind. -/

namespace Lists

variable {α β : Type}

/-- Taking out the first element of a kind is taking out the one that a search finds. -/
theorem perm_eraseP_of_find {p : α → Bool} {a : α} {l : List α} (h : l.find? p = some a) :
    l.Perm (a :: l.eraseP p) := by
  obtain ⟨hKind, before, after, hEq, hNot⟩ := List.find?_eq_some_iff_append.1 h
  have hBefore : ∀ b ∈ before, ¬ p b = true := by
    intro b hb
    simpa using hNot b hb
  rw [hEq, List.eraseP_append_right _ hBefore]
  simp only [List.eraseP_cons, hKind, cond_true]
  exact List.perm_middle

/-- What replaced elements agree on with those they replace is what it was. -/
theorem map_replaceF {f : α → Option α} {g : α → β} (h : ∀ a b, f a = some b → g b = g a)
    (l : List α) : (l.replaceF f).map g = l.map g := by
  induction l with
  | nil => rfl
  | cons a l ih =>
    rw [List.replaceF_cons]
    cases hReplace : f a with
    | none => simp [ih]
    | some b => simp [h a b hReplace]

/-- Where keys are distinct, replacing the first entry with a key replaces every one. -/
theorem replaceF_eq_map {α κ : Type} [DecidableEq κ] {key : α → κ} {k : κ} (g : α → α) {l : List α}
    (h : (l.map key).Nodup) :
    (l.replaceF fun a => if key a = k then some (g a) else none) =
      l.map fun a => if key a = k then g a else a := by
  induction l with
  | nil => rfl
  | cons a l ih =>
    obtain ⟨hNot, hRest⟩ := List.nodup_cons.1 h
    by_cases ha : key a = k
    · have hOthers : l.map (fun a => if key a = k then g a else a) = l := by
        calc l.map (fun a => if key a = k then g a else a)
            _ = l.map id := List.map_congr_left fun b hb => by
              have hb' : key b ≠ k := fun hEq => hNot (ha ▸ hEq ▸ List.mem_map_of_mem hb)
              simp [hb']
            _ = l := List.map_id l
      simp [List.replaceF, ha, hOthers]
    · simp [List.replaceF, ha, ih hRest]

/-- Writing each element as a block of one length loses nothing when no two elements have the same
block. -/
theorem flatMap_injective {f : α → List β} {n : Nat} (hLen : ∀ a, (f a).length = n)
    (hPos : 0 < n) (hInj : ∀ a b, f a = f b → a = b) {l m : List α}
    (h : l.flatMap f = m.flatMap f) : l = m := by
  have hNil (a : α) (as : List α) : (a :: as).flatMap f ≠ [] := by
    intro hEmpty
    have hZero := congrArg List.length hEmpty
    rw [List.flatMap_cons, List.length_append, hLen, List.length_nil] at hZero
    omega
  induction l generalizing m with
  | nil =>
    cases m with
    | nil => rfl
    | cons b bs => exact absurd h.symm (hNil b bs)
  | cons a as ih =>
    cases m with
    | nil => exact absurd h (hNil a as)
    | cons b bs =>
      rw [List.flatMap_cons, List.flatMap_cons] at h
      obtain ⟨hFirst, hRest⟩ := List.append_inj h (by rw [hLen, hLen])
      rw [hInj a b hFirst, ih hRest]

/-- A list with one mark in it splits at the mark in one way. -/
theorem split_at_mark {mark : α} {a b u v : List α} (ha : mark ∉ a) (hb : mark ∉ b) :
    a ++ mark :: b = u ++ mark :: v ↔ u = a ∧ v = b := by
  constructor
  · intro h
    induction a generalizing u with
    | nil =>
      cases u with
      | nil => exact ⟨rfl, (List.cons.inj h).2.symm⟩
      | cons x u =>
        have hIn : mark ∈ b := by
          rw [(List.cons.inj h).2]
          simp
        exact absurd hIn hb
    | cons x a ih =>
      cases u with
      | nil => exact absurd (List.cons.inj h).1 fun hx => ha (by simp [hx])
      | cons y u =>
        obtain ⟨rfl, hRest⟩ := List.cons.inj h
        obtain ⟨rfl, rfl⟩ := ih (fun hIn => ha (List.mem_cons_of_mem _ hIn)) hRest
        exact ⟨rfl, rfl⟩
  · rintro ⟨rfl, rfl⟩
    rfl

end Lists
