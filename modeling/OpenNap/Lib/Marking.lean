import Mathlib.Data.List.Basic
import Mathlib.Logic.Relation

/-! Marking what is reachable in a graph that is kept as a list of edges.  The pass goes over the
whole list for each node it comes to, marks the open edges that leave the node, and goes on from
the other end of each before it looks at the next one.  Each call marks an edge that was open, so
that the depth of the calls is bounded, and the edges marked are the open ones whose source is
reachable along open edges. -/

namespace Marking

variable {E N : Type}

/-- Edges with a mark: only an open edge is followed, and a marked one is not open. -/
structure Scheme (E N : Type) where
  source : E → N
  target : E → N
  isOpen : E → Bool
  mark : E → E
  shut : ∀ e, isOpen (mark e) = false

variable (m : Scheme E N)

/-- An open edge leads from one node to another. -/
def Leads (edges : List E) (a b : N) : Prop :=
  ∃ e ∈ edges, m.isOpen e = true ∧ m.source e = a ∧ m.target e = b

/-- The source of an edge is reachable along open edges. -/
def Reached (edges : List E) (start : N) (e : E) : Prop :=
  Relation.ReflTransGen (Leads m edges) start (m.source e)

theorem Leads.mono {edges edges' : List E} (h : ∀ e ∈ edges, m.isOpen e = true → e ∈ edges')
    {a b : N} (hab : Leads m edges a b) : Leads m edges' a b := by
  obtain ⟨e, he, hOpen, hSource, hTarget⟩ := hab
  exact ⟨e, h e he hOpen, hOpen, hSource, hTarget⟩

/-! ### What a pass may do -/

/-- Each edge is as it was, or it was open and is marked. -/
structure Evolves (before after : List E) : Prop where
  length : after.length = before.length
  entry : ∀ (i : Nat) e, before[i]? = some e →
    after[i]? = some e ∨ (m.isOpen e = true ∧ after[i]? = some (m.mark e))

namespace Evolves

variable {m} {edges edges' edges'' : List E}

theorem refl (edges : List E) : Evolves m edges edges := ⟨rfl, fun _ _ h => .inl h⟩

theorem trans (h1 : Evolves m edges edges') (h2 : Evolves m edges' edges'') :
    Evolves m edges edges'' where
  length := h2.length.trans h1.length
  entry i e he := by
    rcases h1.entry i e he with hSame | ⟨hOpen, hMark⟩
    · exact h2.entry i e hSame
    · rcases h2.entry i _ hMark with hSame | ⟨hBad, -⟩
      · exact .inr ⟨hOpen, hSame⟩
      · rw [m.shut] at hBad
        cases hBad

/-- The edges that are open afterwards were there before. -/
theorem mem (h : Evolves m edges edges') : ∀ e ∈ edges', m.isOpen e = true → e ∈ edges := by
  intro e he hOpen
  obtain ⟨i, hi, rfl⟩ := List.getElem_of_mem he
  have hOld : i < edges.length := h.length ▸ hi
  have hBefore : edges[i]? = some edges[i] := List.getElem?_eq_getElem hOld
  rcases h.entry i _ hBefore with hSame | ⟨-, hMark⟩
  · rw [List.getElem?_eq_getElem hi, Option.some.injEq] at hSame
    rw [hSame]
    exact List.getElem_mem _
  · rw [List.getElem?_eq_getElem hi, Option.some.injEq] at hMark
    rw [hMark, m.shut] at hOpen
    cases hOpen

theorem set {i : Nat} {e : E} (h : edges[i]? = some e) (hOpen : m.isOpen e = true) :
    Evolves m edges (edges.set i (m.mark e)) where
  length := List.length_set
  entry j f hf := by
    by_cases hij : i = j
    · subst hij
      rw [h] at hf
      cases hf
      refine .inr ⟨hOpen, ?_⟩
      obtain ⟨hi, -⟩ := List.getElem?_eq_some_iff.1 h
      rw [List.getElem?_set_self hi]
    · left
      rw [List.getElem?_set_ne hij, hf]

/-- Fewer edges are open once one has been marked. -/
theorem countP_set {i : Nat} {e : E} (h : edges[i]? = some e) (hOpen : m.isOpen e = true) :
    (edges.set i (m.mark e)).countP m.isOpen < edges.countP m.isOpen := by
  obtain ⟨hi, rfl⟩ := List.getElem?_eq_some_iff.1 h
  have hPos : 0 < edges.countP m.isOpen := List.countP_pos_iff.2 ⟨_, List.getElem_mem hi, hOpen⟩
  rw [List.countP_set hi, hOpen, m.shut]
  simp only [if_true, Bool.false_eq_true, if_false]
  omega

theorem countP_le (h : Evolves m edges edges') :
    edges'.countP m.isOpen ≤ edges.countP m.isOpen := by
  induction edges generalizing edges' with
  | nil =>
    have hNil : edges' = [] := List.length_eq_zero_iff.1 h.length
    simp [hNil]
  | cons e rest ih =>
    cases edges' with
    | nil => simp
    | cons e' rest' =>
      have hRest : Evolves m rest rest' := by
        refine ⟨by simpa using h.length, fun i f hf => ?_⟩
        simpa using h.entry (i + 1) f (by simpa using hf)
      have hHead := h.entry 0 e rfl
      simp only [List.getElem?_cons_zero, Option.some.injEq] at hHead
      have hLe := ih hRest
      simp only [List.countP_cons]
      rcases hHead with rfl | ⟨hOpen, rfl⟩
      · omega
      · rw [m.shut, hOpen]
        simp only [Bool.false_eq_true, if_false, if_true]
        omega

end Evolves

/-! ### What a pass does -/

/-- The marks of a pass from a node: on edges that are reached, and so that no open edge is left at
the node, or at the other end of an edge that was marked. -/
structure Swept (node : N) (before after : List E) : Prop where
  evolves : Evolves m before after
  sound : ∀ (i : Nat) e, before[i]? = some e → after[i]? = some (m.mark e) → m.isOpen e = true →
    Reached m before node e
  here : ∀ e ∈ after, m.isOpen e = true → m.source e ≠ node
  ends : ∀ (i : Nat) e, before[i]? = some e → after[i]? = some (m.mark e) → m.isOpen e = true →
    ∀ f ∈ after, m.isOpen f = true → m.source f ≠ m.target e

/-- The marks after the edges below `i` have been looked at. -/
structure Sweeping (node : N) (before : List E) (i : Nat) (after : List E) : Prop where
  evolves : Evolves m before after
  sound : ∀ (j : Nat) e, before[j]? = some e → after[j]? = some (m.mark e) → m.isOpen e = true →
    Reached m before node e
  here : ∀ (j : Nat) e, j < i → after[j]? = some e → m.isOpen e = true → m.source e ≠ node
  ends : ∀ (j : Nat) e, before[j]? = some e → after[j]? = some (m.mark e) → m.isOpen e = true →
    ∀ f ∈ after, m.isOpen f = true → m.source f ≠ m.target e

variable {m} {node : N} {before after : List E} {i : Nat}

theorem ne_mark {e : E} (h : m.isOpen e = true) : e ≠ m.mark e := by
  intro hEq
  rw [hEq, m.shut] at h
  cases h

theorem Sweeping.start (node : N) (before : List E) : Sweeping m node before 0 before where
  evolves := .refl before
  sound j e hBefore hAfter hOpen := by
    rw [hBefore, Option.some.injEq] at hAfter
    exact absurd hAfter (ne_mark hOpen)
  here j e hj := absurd hj (Nat.not_lt_zero j)
  ends j e hBefore hAfter hOpen := by
    rw [hBefore, Option.some.injEq] at hAfter
    exact absurd hAfter (ne_mark hOpen)

/-- An edge that is not followed is passed over. -/
theorem Sweeping.skip (h : Sweeping m node before i after)
    (hSkip : ∀ e, after[i]? = some e → m.isOpen e = true → m.source e ≠ node) :
    Sweeping m node before (i + 1) after where
  evolves := h.evolves
  sound := h.sound
  here j e hj he hOpen := by
    rcases Nat.lt_succ_iff_lt_or_eq.1 hj with hLess | rfl
    · exact h.here j e hLess he hOpen
    · exact hSkip e he hOpen
  ends := h.ends

/-- An edge that is followed is marked, and the pass from its other end is made. -/
theorem Sweeping.follow (h : Sweeping m node before i after) {e : E} (he : after[i]? = some e)
    (hOpen : m.isOpen e = true) (hSource : m.source e = node) {after' : List E}
    (hSwept : Swept m (m.target e) (after.set i (m.mark e)) after') :
    Sweeping m node before (i + 1) after' := by
  have hSet := Evolves.set he hOpen
  have hMid := h.evolves.trans hSet
  have hAll := hMid.trans hSwept.evolves
  have hEdge : e ∈ before := h.evolves.mem e (List.mem_of_getElem? he) hOpen
  -- what is reached from the other end is reached through the edge
  have hVia (f : E) (hf : Reached m (after.set i (m.mark e)) (m.target e) f) :
      Reached m before node f := by
    have hFirst : Leads m before node (m.target e) := ⟨e, hEdge, hOpen, hSource, rfl⟩
    have hLeads : Leads m (after.set i (m.mark e)) ≤ Leads m before :=
      fun a b hab => Leads.mono m hMid.mem hab
    exact .head hFirst (Relation.ReflTransGen.mono hLeads _ _ hf)
  have hOld (j : Nat) (f : E) (hf : before[j]? = some f) :
      j = i ∨ after[j]? = (after.set i (m.mark e))[j]? := by
    by_cases hij : i = j
    · exact .inl hij.symm
    · exact .inr (List.getElem?_set_ne hij).symm
  have hAt (f : E) (hf : before[i]? = some f) (hfOpen : m.isOpen f = true) : f = e := by
    rcases h.evolves.entry i f hf with hSame | ⟨-, hMark⟩
    · rw [he, Option.some.injEq] at hSame
      exact hSame.symm
    · rw [he, Option.some.injEq] at hMark
      rw [hMark, m.shut] at hOpen
      cases hOpen
  -- an edge marked in the end was marked before, is the one followed, or was marked on the way
  have hWhen (j : Nat) (f : E) (hf : before[j]? = some f) (hMark : after'[j]? = some (m.mark f))
      (hfOpen : m.isOpen f = true) :
      after[j]? = some (m.mark f) ∨ (j = i ∧ f = e) ∨
        (after.set i (m.mark e))[j]? = some f := by
    rcases hOld j f hf with rfl | hEq
    · exact .inr (.inl ⟨rfl, hAt f hf hfOpen⟩)
    · rcases h.evolves.entry j f hf with hSame | ⟨-, hDone⟩
      · exact .inr (.inr (hEq ▸ hSame))
      · exact .inl hDone
  refine ⟨hAll, fun j f hf hMark hfOpen => ?_, fun j f hj hf hfOpen => ?_,
    fun j f hf hMark hfOpen g hg hgOpen => ?_⟩
  · rcases hWhen j f hf hMark hfOpen with hDone | ⟨rfl, rfl⟩ | hMid'
    · exact h.sound j f hf hDone hfOpen
    · rw [Reached, hSource]
    · exact hVia f (hSwept.sound j f hMid' hMark hfOpen)
  · have hj' : j < (after.set i (m.mark e)).length := by
      rw [← hSwept.evolves.length]
      exact (List.getElem?_eq_some_iff.1 hf).1
    obtain ⟨g, hg⟩ : ∃ g, (after.set i (m.mark e))[j]? = some g := ⟨_, List.getElem?_eq_getElem hj'⟩
    -- an edge that is open in the end was not touched
    have hSame : (after.set i (m.mark e))[j]? = some f := by
      rcases hSwept.evolves.entry j g hg with hEq | ⟨-, hMark⟩
      · rw [hf] at hEq
        rw [hg, hEq]
      · rw [hf, Option.some.injEq] at hMark
        rw [hMark, m.shut] at hfOpen
        cases hfOpen
    rcases Nat.lt_succ_iff_lt_or_eq.1 hj with hLess | rfl
    · rw [List.getElem?_set_ne (by omega)] at hSame
      exact h.here j f hLess hSame hfOpen
    · rw [List.getElem?_set_self (List.getElem?_eq_some_iff.1 he).1, Option.some.injEq] at hSame
      rw [← hSame, m.shut] at hfOpen
      cases hfOpen
  · have hgMid := hSwept.evolves.mem g hg hgOpen
    rcases hWhen j f hf hMark hfOpen with hDone | ⟨rfl, rfl⟩ | hMid'
    · exact h.ends j f hf hDone hfOpen g (hSet.mem g hgMid hgOpen) hgOpen
    · exact hSwept.here g hg hgOpen
    · exact hSwept.ends j f hMid' hMark hfOpen g hg hgOpen

theorem Sweeping.finish (h : Sweeping m node before before.length after) :
    Swept m node before after where
  evolves := h.evolves
  sound := h.sound
  here e he hOpen := by
    obtain ⟨j, hj, rfl⟩ := List.getElem_of_mem he
    exact h.here j _ (h.evolves.length ▸ hj) (List.getElem?_eq_getElem hj) hOpen
  ends := h.ends

/-! ### The pass -/

variable [DecidableEq N]

/-- The part of the pass that looks at one edge; `go` is the pass from the other end. -/
def visit (m : Scheme E N) (go : N → List E → Option (List E)) (node : N) (edges : List E)
    (i : Nat) : Option (List E) :=
  match edges[i]? with
  | some e =>
    if m.isOpen e = true ∧ m.source e = node then go (m.target e) (edges.set i (m.mark e))
    else some edges
  | none => some edges

/-- The marking pass from a node, with calls in a given depth at most; `none` when that is not
enough. -/
def sweep (m : Scheme E N) : Nat → N → List E → Option (List E)
  | 0, _, _ => none
  | depth + 1, node, edges =>
    (List.range edges.length).foldlM (visit m (sweep m depth) node) edges

/-- With calls in a depth above the number of open edges the pass comes to an end. -/
theorem sweep_swept (node : N) {depth : Nat} (hDepth : before.countP m.isOpen < depth) :
    ∃ after, sweep m depth node before = some after ∧ Swept m node before after := by
  induction depth generalizing node before with
  | zero => omega
  | succ depth ih =>
    have hLoop : ∀ i ≤ before.length, ∃ after,
        (List.range i).foldlM (visit m (sweep m depth) node) before = some after ∧
          Sweeping m node before i after := by
      intro i
      induction i with
      | zero => exact fun _ => ⟨before, rfl, .start node before⟩
      | succ i hi =>
        intro hLe
        obtain ⟨after, hRun, hSoFar⟩ := hi (by omega)
        have hiLess : i < after.length := by
          rw [hSoFar.evolves.length]
          omega
        have hEntry : after[i]? = some after[i] := List.getElem?_eq_getElem hiLess
        rw [List.range_succ, List.foldlM_append, hRun]
        simp only [Option.bind_eq_bind, Option.bind_some, List.foldlM_cons, List.foldlM_nil, visit,
          hEntry]
        by_cases hTake : m.isOpen after[i] = true ∧ m.source after[i] = node
        · rw [if_pos hTake]
          have hLess := Evolves.countP_set hEntry hTake.1
          have hBound := hSoFar.evolves.countP_le
          have hFewer : (after.set i (m.mark after[i])).countP m.isOpen < depth := by omega
          obtain ⟨after', hRest, hSwept⟩ := ih (m.target after[i]) hFewer
          exact ⟨after', by rw [hRest]; rfl, hSoFar.follow hEntry hTake.1 hTake.2 hSwept⟩
        · rw [if_neg hTake]
          refine ⟨after, rfl, hSoFar.skip fun e he hOpen hSource => hTake ?_⟩
          rw [hEntry, Option.some.injEq] at he
          subst he
          exact ⟨hOpen, hSource⟩
    obtain ⟨after, hRun, hDone⟩ := hLoop before.length (Nat.le_refl _)
    exact ⟨after, hRun, hDone.finish⟩

omit [DecidableEq N] in
/-- The edges that a pass marks are the open ones that are reached. -/
theorem Swept.marked_iff (h : Swept m node before after) {e : E} (he : before[i]? = some e) :
    (m.isOpen e = true ∧ Reached m before node e → after[i]? = some (m.mark e)) ∧
      (¬ (m.isOpen e = true ∧ Reached m before node e) → after[i]? = some e) := by
  constructor
  · rintro ⟨hOpen, hReached⟩
    -- no open edge is left at a node that is reached
    have hNone : ∀ n, Relation.ReflTransGen (Leads m before) node n →
        ∀ f ∈ after, m.isOpen f = true → m.source f ≠ n := by
      intro n hn
      induction hn with
      | refl => exact h.here
      | tail _ hStep ih =>
        obtain ⟨g, hg, hgOpen, rfl, rfl⟩ := hStep
        obtain ⟨j, hj, rfl⟩ := List.getElem_of_mem hg
        have hEntry : before[j]? = some before[j] := List.getElem?_eq_getElem hj
        rcases h.evolves.entry j _ hEntry with hSame | ⟨-, hMark⟩
        · exact absurd rfl (ih _ (List.mem_of_getElem? hSame) hgOpen)
        · exact h.ends j _ hEntry hMark hgOpen
    rcases h.evolves.entry i e he with hSame | ⟨-, hMark⟩
    · exact absurd rfl (hNone _ hReached e (List.mem_of_getElem? hSame) hOpen)
    · exact hMark
  · intro hNot
    rcases h.evolves.entry i e he with hSame | ⟨hOpen, hMark⟩
    · exact hSame
    · exact absurd ⟨hOpen, h.sound i e he hMark hOpen⟩ hNot

open Classical in
/-- A pass marks the open edges that are reached and leaves the others as they are. -/
theorem sweep_eq (node : N) {depth : Nat} (hDepth : before.countP m.isOpen < depth) :
    sweep m depth node before = some (before.map fun e =>
      if m.isOpen e = true ∧ Reached m before node e then m.mark e else e) := by
  obtain ⟨after, hRun, hSwept⟩ := sweep_swept node hDepth
  rw [hRun, Option.some.injEq]
  refine List.ext_getElem? fun i => ?_
  rw [List.getElem?_map]
  cases he : before[i]? with
  | none =>
    rw [List.getElem?_eq_none_iff] at he
    rw [Option.map_none, List.getElem?_eq_none_iff, hSwept.evolves.length]
    exact he
  | some e =>
    rw [Option.map_some]
    split
    · rename_i hYes
      exact (hSwept.marked_iff he).1 hYes
    · rename_i hNo
      exact (hSwept.marked_iff he).2 hNo

end Marking
