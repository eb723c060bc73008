import Mathlib.Data.List.Induction
import Mathlib.Order.Lattice

/-! The search for a least element in one pass.  The loop keeps a candidate and its key and takes
the next eligible element when its key is strictly less, so that of several least ones it ends with
the first. -/

namespace Least

variable {α β : Type} [LinearOrder β] (fits : α → Bool) (key : α → β)

/-- One pass of the loop. -/
def choose (best : Option α × β) (a : α) : Option α × β :=
  if fits a && decide (key a < best.2) then (some a, key a) else best

/-- Of the eligible elements of the list `a` is the first with the least key. -/
def First (l : List α) (a : α) : Prop :=
  ∃ before after, l = before ++ a :: after ∧ fits a = true ∧
    (∀ b ∈ before, fits b = true → key a < key b) ∧
    ∀ b ∈ after, fits b = true → key a ≤ key b

variable {fits key} {l : List α} {a b : α} {bound : β}

theorem choose_take {best : Option α × β} (hFits : fits a = true) (hKey : key a < best.2) :
    choose fits key best a = (some a, key a) := by
  simp [choose, hFits, hKey]

theorem choose_keep {best : Option α × β} (h : ¬ (fits a = true ∧ key a < best.2)) :
    choose fits key best a = best := by
  simp [choose, h]

theorem First.mem (h : First fits key l a) : a ∈ l := by
  obtain ⟨before, after, rfl, -⟩ := h
  simp

theorem First.fit (h : First fits key l a) : fits a = true := by
  obtain ⟨-, -, -, hFits, -⟩ := h
  exact hFits

theorem First.le (h : First fits key l a) (hb : b ∈ l) (hFits : fits b = true) :
    key a ≤ key b := by
  obtain ⟨before, after, rfl, -, hBefore, hAfter⟩ := h
  rcases List.mem_append.1 hb with hb | hb
  · exact le_of_lt (hBefore b hb hFits)
  · rcases List.mem_cons.1 hb with rfl | hb
    · exact le_refl _
    · exact hAfter b hb hFits

theorem First.concat (h : First fits key l a) (hb : fits b = true → key a ≤ key b) :
    First fits key (l ++ [b]) a := by
  obtain ⟨before, after, rfl, hFits, hBefore, hAfter⟩ := h
  refine ⟨before, after ++ [b], by simp, hFits, hBefore, fun c hc hc' => ?_⟩
  rcases List.mem_append.1 hc with hc | hc
  · exact hAfter c hc hc'
  · obtain rfl := List.mem_singleton.1 hc
    exact hb hc'

/-- What the loop ends with: nothing when no key is below the bound, else the first of the least. -/
theorem foldl_choose (fits : α → Bool) (key : α → β) (l : List α) (bound : β) :
    (l.foldl (choose fits key) (none, bound) = (none, bound) ∧
      ∀ a ∈ l, fits a = true → bound ≤ key a) ∨
    ∃ a, l.foldl (choose fits key) (none, bound) = (some a, key a) ∧
      First fits key l a ∧ key a < bound := by
  -- the loop is followed from its start, so the list grows at its end
  induction l using List.reverseRecOn with
  | nil => exact .inl ⟨rfl, by simp⟩
  | append_singleton l b ih =>
    simp only [List.foldl_append, List.foldl_cons, List.foldl_nil]
    rcases ih with ⟨hFold, hAll⟩ | ⟨a, hFold, hFirst, hBound⟩ <;> rw [hFold]
    · by_cases hb : fits b = true ∧ key b < bound
      · refine .inr ⟨b, choose_take hb.1 hb.2, ⟨l, [], by simp, hb.1, ?_, by simp⟩, hb.2⟩
        intro c hc hc'
        exact lt_of_lt_of_le hb.2 (hAll c hc hc')
      · refine .inl ⟨choose_keep hb, fun c hc hc' => ?_⟩
        rcases List.mem_append.1 hc with hc | hc
        · exact hAll c hc hc'
        · obtain rfl := List.mem_singleton.1 hc
          exact not_lt.1 fun hLt => hb ⟨hc', hLt⟩
    · by_cases hb : fits b = true ∧ key b < key a
      · refine .inr ⟨b, choose_take hb.1 hb.2, ⟨l, [], by simp, hb.1, ?_, by simp⟩,
          lt_trans hb.2 hBound⟩
        intro c hc hc'
        exact lt_of_lt_of_le hb.2 (hFirst.le hc hc')
      · refine .inr ⟨a, choose_keep hb, hFirst.concat fun hb' => ?_, hBound⟩
        exact not_lt.1 fun hLt => hb ⟨hb', hLt⟩

/-- The loop finds something exactly when some eligible key is below the bound. -/
theorem foldl_choose_isSome : (l.foldl (choose fits key) (none, bound)).1.isSome = true ↔
    ∃ a ∈ l, fits a = true ∧ key a < bound := by
  rcases foldl_choose fits key l bound with ⟨hFold, hAll⟩ | ⟨a, hFold, hFirst, hBound⟩ <;>
    rw [hFold]
  · simp only [Option.isSome_none, Bool.false_eq_true, false_iff, not_exists, not_and]
    exact fun a ha ha' => not_lt.2 (hAll a ha ha')
  · simp only [Option.isSome_some, true_iff]
    exact ⟨a, hFirst.mem, hFirst.fit, hBound⟩

theorem foldl_choose_some (h : (l.foldl (choose fits key) (none, bound)).1 = some a) :
    First fits key l a ∧ key a < bound := by
  rcases foldl_choose fits key l bound with ⟨hFold, -⟩ | ⟨b, hFold, hFirst⟩ <;> rw [hFold] at h
  · cases h
  · cases h
    exact hFirst

/-! ### A search by a mark

The elements that are wanted are told by a mark `fits` that need not be right. -/

/-- An element between `before` and `after` gives way to `q`. -/
def GivesWay (key : α → β) (before after : List α) (r q : α) : Prop :=
  q ∈ before ∧ key q ≤ key r ∨ q ∈ after ∧ key q < key r

/-- Every other eligible element gives way to the first of the least. -/
theorem First.givesWay {before after : List α} {r : α} (h : First fits key (before ++ r :: after) a)
    (hFits : fits r = true) (hNe : a ≠ r) : GivesWay key before after r a := by
  have hLe := h.le (List.mem_append_right before List.mem_cons_self) hFits
  obtain ⟨before', after', hSplit, -, hBefore, -⟩ := h
  rcases List.append_eq_append_iff.1 hSplit with ⟨c, rfl, hRest⟩ | ⟨c, rfl, hRest⟩
  · cases c with
    | nil => exact absurd (List.cons.inj hRest).1.symm hNe
    | cons d c =>
      obtain ⟨rfl, rfl⟩ := List.cons.inj hRest
      exact .inr ⟨by simp, hBefore r (by simp) hFits⟩
  · cases c with
    | nil => exact absurd (List.cons.inj hRest).1 hNe
    | cons d c =>
      obtain ⟨rfl, -⟩ := List.cons.inj hRest
      exact .inl ⟨by simp, hLe⟩

/-- The first of the least gives way to none. -/
theorem First.stands (h : First fits key l a) : ∃ before after, l = before ++ a :: after ∧
    ∀ q, fits q = true → ¬ GivesWay key before after a q := by
  obtain ⟨before, after, rfl, -, hBefore, hAfter⟩ := h
  refine ⟨before, after, rfl, fun q hq hWay => ?_⟩
  rcases hWay with ⟨hIn, hLe⟩ | ⟨hIn, hLt⟩
  · exact not_lt.2 hLe (hBefore q hIn hq)
  · exact not_lt.2 (hAfter q hIn hq) hLt

/-- The mark may be wrong about an element only where it does not matter: one that is marked and not
wanted gives way to one that is both, and one that is wanted and not marked has one that is both
and is not later. -/
structure MarkSettles (fits wanted : α → Bool) (key : α → β) (l : List α) (bound : β) : Prop where
  marked : ∀ before r after, l = before ++ r :: after → fits r = true → wanted r = false →
    key r < bound → ∃ q, fits q = true ∧ wanted q = true ∧ GivesWay key before after r q
  missed : ∀ r ∈ l, fits r = false → wanted r = true → key r < bound →
    ∃ q ∈ l, fits q = true ∧ wanted q = true ∧ key q ≤ key r

/-- The loop finds a least wanted element, and one if there is one, exactly when the mark settles
it. -/
theorem finds_wanted_iff (fits wanted : α → Bool) (key : α → β) (l : List α) (bound : β) :
    ((∀ a, (l.foldl (choose fits key) (none, bound)).1 = some a →
        wanted a = true ∧ ∀ b ∈ l, wanted b = true → key a ≤ key b) ∧
      ((∃ a ∈ l, wanted a = true ∧ key a < bound) →
        (l.foldl (choose fits key) (none, bound)).1.isSome = true)) ↔
    MarkSettles fits wanted key l bound := by
  constructor
  · rintro ⟨hRight, hFinds⟩
    constructor
    · rintro before r after rfl hFits hNot hBound
      obtain ⟨a, ha⟩ := Option.isSome_iff_exists.1
        (foldl_choose_isSome.2
          ⟨r, List.mem_append_right before List.mem_cons_self, hFits, hBound⟩)
      have hFirst := (foldl_choose_some ha).1
      have hWanted := (hRight a ha).1
      refine ⟨a, hFirst.fit, hWanted, hFirst.givesWay hFits ?_⟩
      rintro rfl
      rw [hNot] at hWanted
      cases hWanted
    · intro r hr _ hWanted hBound
      obtain ⟨a, ha⟩ := Option.isSome_iff_exists.1 (hFinds ⟨r, hr, hWanted, hBound⟩)
      have hFirst := (foldl_choose_some ha).1
      exact ⟨a, hFirst.mem, hFirst.fit, (hRight a ha).1, (hRight a ha).2 r hr hWanted⟩
  · intro h
    constructor
    · intro a ha
      obtain ⟨hFirst, hBound⟩ := foldl_choose_some ha
      refine ⟨?_, fun b hb hWanted => ?_⟩
      · obtain ⟨before, after, hSplit, hStands⟩ := hFirst.stands
        by_contra hNot
        obtain ⟨q, hFits, -, hWay⟩ := h.marked before a after hSplit hFirst.fit
          (Bool.eq_false_iff.2 hNot) hBound
        exact hStands q hFits hWay
      · by_contra hLater
        have hEarly : key b < key a := not_le.1 hLater
        by_cases hFits : fits b = true
        · exact hLater (hFirst.le hb hFits)
        · obtain ⟨q, hq, hq', -, hLe⟩ := h.missed b hb (Bool.eq_false_iff.2 hFits) hWanted
            (lt_trans hEarly hBound)
          exact hLater (le_trans (hFirst.le hq hq') hLe)
    · rintro ⟨r, hr, hWanted, hBound⟩
      rw [foldl_choose_isSome]
      by_cases hFits : fits r = true
      · exact ⟨r, hr, hFits, hBound⟩
      · obtain ⟨q, hq, hq', -, hLe⟩ := h.missed r hr (Bool.eq_false_iff.2 hFits) hWanted hBound
        exact ⟨q, hq, hq', lt_of_le_of_lt hLe hBound⟩

end Least
