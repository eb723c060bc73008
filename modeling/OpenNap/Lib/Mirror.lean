import Mathlib.Data.List.Basic
import Mathlib.Data.List.Nodup
import Mathlib.Logic.Function.Basic

/-! Two families of lists that mirror each other: what is listed under `a` lists `a` in turn.  `A`
and `B` say which lists are there.  Each way in which such lists change comes with a rule. -/

/-- Each list has nothing twice, and `b` is listed under `a` exactly when `a` is listed under `b`. -/
structure Mirror {α β : Type} (A : α → Prop) (B : β → Prop) (f : α → List β) (g : β → List α) :
    Prop where
  onceLeft : ∀ a, A a → (f a).Nodup
  onceRight : ∀ b, B b → (g b).Nodup
  left : ∀ a, A a → ∀ b ∈ f a, B b ∧ a ∈ g b
  right : ∀ b, B b → ∀ a ∈ g b, A a ∧ b ∈ f a

namespace Mirror

variable {α β : Type} {A : α → Prop} {B : β → Prop} {f : α → List β} {g : β → List α}

theorem symm (h : Mirror A B f g) : Mirror B A g f :=
  ⟨h.onceRight, h.onceLeft, h.right, h.left⟩

/-- Only the lists that are there matter. -/
theorem congr (h : Mirror A B f g) {A' : α → Prop} {B' : β → Prop} {f' : α → List β}
    {g' : β → List α} (hA : ∀ a, A' a ↔ A a) (hB : ∀ b, B' b ↔ B b) (hf : ∀ a, A a → f' a = f a)
    (hg : ∀ b, B b → g' b = g b) : Mirror A' B' f' g' where
  onceLeft a ha := by
    rw [hf a ((hA a).1 ha)]
    exact h.onceLeft a ((hA a).1 ha)
  onceRight b hb := by
    rw [hg b ((hB b).1 hb)]
    exact h.onceRight b ((hB b).1 hb)
  left a ha b hIn := by
    rw [hf a ((hA a).1 ha)] at hIn
    obtain ⟨hb, hBack⟩ := h.left a ((hA a).1 ha) b hIn
    exact ⟨(hB b).2 hb, by rwa [hg b hb]⟩
  right b hb a hIn := by
    rw [hg b ((hB b).1 hb)] at hIn
    obtain ⟨ha, hBack⟩ := h.right b ((hB b).1 hb) a hIn
    exact ⟨(hA a).2 ha, by rwa [hf a ha]⟩

theorem mem_iff (h : Mirror A B f g) {a : α} {b : β} (ha : A a) (hb : B b) :
    b ∈ f a ↔ a ∈ g b :=
  ⟨fun hIn => (h.left a ha b hIn).2, fun hIn => (h.right b hb a hIn).2⟩

/-- Who is not there is on no list. -/
theorem not_mem (h : Mirror A B f g) {a : α} {b : β} (ha : ¬ A a) (hb : B b) : a ∉ g b :=
  fun hIn => ha (h.right b hb a hIn).1

variable [DecidableEq α]

/-- A list goes, and with it the entries on the other side. -/
theorem drop (h : Mirror A B f g) (a : α) :
    Mirror (fun c => A c ∧ c ≠ a) B f fun b => (g b).erase a where
  onceLeft c hc := h.onceLeft c hc.1
  onceRight b hb := (h.onceRight b hb).erase a
  left c hc b hIn := by
    obtain ⟨hb, hBack⟩ := h.left c hc.1 b hIn
    exact ⟨hb, ((h.onceRight b hb).mem_erase_iff).2 ⟨hc.2, hBack⟩⟩
  right b hb c hIn := by
    obtain ⟨hNe, hIn⟩ := ((h.onceRight b hb).mem_erase_iff).1 hIn
    obtain ⟨hc, hBack⟩ := h.right b hb c hIn
    exact ⟨⟨hc, hNe⟩, hBack⟩

/-- A new list, which is empty. -/
theorem add (h : Mirror A B f g) {a : α} (ha : ¬ A a) :
    Mirror (fun c => c = a ∨ A c) B (Function.update f a []) g where
  onceLeft c hc := by
    by_cases hEq : c = a
    · subst hEq
      simp
    · simpa [hEq] using h.onceLeft c (hc.resolve_left hEq)
  onceRight := h.onceRight
  left c hc b hIn := by
    by_cases hEq : c = a
    · subst hEq
      simp at hIn
    · rw [Function.update_of_ne hEq] at hIn
      exact h.left c (hc.resolve_left hEq) b hIn
  right b hb c hIn := by
    obtain ⟨hc, hBack⟩ := h.right b hb c hIn
    have hNe : c ≠ a := fun hEq => ha (hEq ▸ hc)
    exact ⟨.inr hc, by simpa [hNe] using hBack⟩

variable [DecidableEq β]

/-- A list goes, and the other lists that it names lose their entry. -/
theorem dropped (h : Mirror A B f g) {a : α} (ha : A a) {A' : α → Prop} {B' : β → Prop}
    {f' : α → List β} {g' : β → List α} (hA : ∀ c, A' c ↔ A c ∧ c ≠ a) (hB : ∀ b, B' b ↔ B b)
    (hf : ∀ c, A c → f' c = f c)
    (hg : ∀ b, B b → g' b = if b ∈ f a then (g b).erase a else g b) : Mirror A' B' f' g' := by
  refine (h.drop a).congr hA hB (fun c hc => hf c hc.1) fun b hb => ?_
  rw [hg b hb]
  split
  · rfl
  · rename_i hNot
    rw [List.erase_of_not_mem fun hIn => hNot ((h.mem_iff ha hb).2 hIn)]

/-- Both sides list each other equally often, which is once at most. -/
theorem count (h : Mirror A B f g) {a : α} {b : β} (ha : A a) (hb : B b) :
    (f a).count b = (g b).count a ∧ (f a).count b ≤ 1 := by
  by_cases hIn : b ∈ f a
  · rw [List.count_eq_one_of_mem (h.onceLeft a ha) hIn,
      List.count_eq_one_of_mem (h.onceRight b hb) ((h.mem_iff ha hb).1 hIn)]
    exact ⟨rfl, Nat.le_refl 1⟩
  · have hNot : a ∉ g b := fun hBack => hIn ((h.mem_iff ha hb).2 hBack)
    rw [List.count_eq_zero_of_not_mem hIn, List.count_eq_zero_of_not_mem hNot]
    exact ⟨rfl, Nat.zero_le 1⟩

/-- A new entry on both sides. -/
theorem link (h : Mirror A B f g) {a : α} {b : β} (ha : A a) (hb : B b) (hNew : b ∉ f a) :
    Mirror A B (Function.update f a (b :: f a)) (Function.update g b (a :: g b)) where
  onceLeft c hc := by
    by_cases hEq : c = a
    · subst hEq
      simpa using ⟨hNew, h.onceLeft c hc⟩
    · simpa [hEq] using h.onceLeft c hc
  onceRight d hd := by
    by_cases hEq : d = b
    · subst hEq
      simpa using ⟨fun hIn => hNew ((h.mem_iff ha hb).2 hIn), h.onceRight d hd⟩
    · simpa [hEq] using h.onceRight d hd
  left c hc d hIn := by
    have hOld : d ∈ f c → B d ∧ c ∈ Function.update g b (a :: g b) d := fun hIn => by
      obtain ⟨hd, hBack⟩ := h.left c hc d hIn
      by_cases hEq : d = b
      · subst hEq
        exact ⟨hd, by simp [hBack]⟩
      · exact ⟨hd, by simpa [hEq] using hBack⟩
    by_cases hEq : c = a
    · subst hEq
      rw [Function.update_self] at hIn
      rcases List.mem_cons.1 hIn with rfl | hIn
      · exact ⟨hb, by simp⟩
      · exact hOld hIn
    · rw [Function.update_of_ne hEq] at hIn
      exact hOld hIn
  right d hd c hIn := by
    have hOld : c ∈ g d → A c ∧ d ∈ Function.update f a (b :: f a) c := fun hIn => by
      obtain ⟨hc, hBack⟩ := h.right d hd c hIn
      by_cases hEq : c = a
      · subst hEq
        exact ⟨hc, by simp [hBack]⟩
      · exact ⟨hc, by simpa [hEq] using hBack⟩
    by_cases hEq : d = b
    · subst hEq
      rw [Function.update_self] at hIn
      rcases List.mem_cons.1 hIn with rfl | hIn
      · exact ⟨ha, by simp⟩
      · exact hOld hIn
    · rw [Function.update_of_ne hEq] at hIn
      exact hOld hIn

/-- An entry goes on both sides, if it is there. -/
theorem unlink (h : Mirror A B f g) (a : α) (b : β) :
    Mirror A B (Function.update f a ((f a).erase b)) (Function.update g b ((g b).erase a)) := by
  -- the erased entry aside, the lists are as they were
  have hLeft (c : α) (hc : A c) (d : β) :
      d ∈ Function.update f a ((f a).erase b) c ↔ d ∈ f c ∧ ¬ (c = a ∧ d = b) := by
    by_cases hEq : c = a
    · subst hEq
      simp [(h.onceLeft c hc).mem_erase_iff, and_comm]
    · simp [hEq]
  have hRight (d : β) (hd : B d) (c : α) :
      c ∈ Function.update g b ((g b).erase a) d ↔ c ∈ g d ∧ ¬ (c = a ∧ d = b) := by
    by_cases hEq : d = b
    · subst hEq
      simp [(h.onceRight d hd).mem_erase_iff, and_comm]
    · simp [hEq]
  refine ⟨fun c hc => ?_, fun d hd => ?_, fun c hc d hIn => ?_, fun d hd c hIn => ?_⟩
  · by_cases hEq : c = a
    · subst hEq
      simpa using (h.onceLeft c hc).erase b
    · simpa [hEq] using h.onceLeft c hc
  · by_cases hEq : d = b
    · subst hEq
      simpa using (h.onceRight d hd).erase a
    · simpa [hEq] using h.onceRight d hd
  · obtain ⟨hIn, hNe⟩ := (hLeft c hc d).1 hIn
    obtain ⟨hd, hBack⟩ := h.left c hc d hIn
    exact ⟨hd, (hRight d hd c).2 ⟨hBack, hNe⟩⟩
  · obtain ⟨hIn, hNe⟩ := (hRight d hd c).1 hIn
    obtain ⟨hc, hBack⟩ := h.right d hd c hIn
    exact ⟨hc, (hLeft c hc d).2 ⟨hBack, hNe⟩⟩

end Mirror
