import Mathlib.Data.List.Nodup
import Mathlib.Logic.Function.Basic

/-! Singly linked lists in a store of cells, as programs walk and change them: through the address of a
cell, and through a pointer to the pointer that leads to it.  A freed cell is gone from the store, and
reading it is a fault. -/

namespace Chain

variable {α : Type}

/-- A cell: what it holds, and the address of the next one, `none` for the null pointer. -/
structure Cell (α : Type) where
  data : α
  next : Option Nat

/-- The heads of some lists, and the cells that are allocated. -/
structure Store (α : Type) where
  head : Nat → Option Nat
  cell : Nat → Option (Cell α)

/-- A pointer to a pointer: the head of a list, or the `next` of a cell. -/
inductive Slot
  | head (i : Nat)
  | next (p : Nat)
deriving DecidableEq

namespace Store

/-- The pointer in a slot. -/
def read (s : Store α) : Slot → Option (Option Nat)
  | .head i => some (s.head i)
  | .next p => (s.cell p).map Cell.next

/-- A pointer is stored into a slot. -/
def write (s : Store α) (he : Slot) (q : Option Nat) : Option (Store α) :=
  match he with
  | .head i => some { s with head := Function.update s.head i q }
  | .next p => (s.cell p).map fun c =>
      { s with cell := Function.update s.cell p (some { c with next := q }) }

/-- A cell is freed. -/
def free (s : Store α) (p : Nat) : Store α := { s with cell := Function.update s.cell p none }

/-- A cell is put in front of a list. -/
def push (s : Store α) (i p : Nat) (x : α) : Store α where
  head := Function.update s.head i (some p)
  cell := Function.update s.cell p (some ⟨x, s.head i⟩)

end Store

/-- The pointer to the first of some cells. -/
def first (l : List (Nat × α)) : Option Nat := l.head?.map Prod.fst

@[simp] theorem first_nil : first ([] : List (Nat × α)) = none := rfl

@[simp] theorem first_cons (p : Nat) (x : α) (l : List (Nat × α)) : first ((p, x) :: l) = some p := rfl

/-- Each cell is allocated and leads to the next one, and the last one to nothing. -/
def Linked (s : Store α) : List (Nat × α) → Prop
  | [] => True
  | (p, x) :: rest => s.cell p = some ⟨x, first rest⟩ ∧ Linked s rest

section

variable {s s' : Store α} {l l' front rest : List (Nat × α)} {he : Slot} {p i n : Nat} {x : α}

/-- Cells that are as they were are linked as they were. -/
theorem Linked.congr (h : Linked s l) (hSame : ∀ c ∈ l, s'.cell c.1 = s.cell c.1) : Linked s' l := by
  induction l with
  | nil => trivial
  | cons c l ih =>
    obtain ⟨p, x⟩ := c
    refine ⟨?_, ih h.2 fun d hd => hSame d (List.mem_cons_of_mem _ hd)⟩
    rw [hSame (p, x) (List.mem_cons_self ..)]
    exact h.1

/-- A cell of a linked list is allocated. -/
theorem Linked.allocated (h : Linked s l) {c : Nat × α} (hc : c ∈ l) : s.cell c.1 ≠ none := by
  induction l with
  | nil => cases hc
  | cons d l ih =>
    rcases List.mem_cons.1 hc with rfl | hc
    · rw [h.1]
      simp
    · exact ih h.2 hc

/-- The rest of a list is linked. -/
theorem Linked.suffix (h : Linked s (front ++ rest)) : Linked s rest := by
  induction front with
  | nil => exact h
  | cons c front ih => exact ih h.2

/-- A list that a slot leads to: its cells are different, and the slot is in none of them. -/
structure Behind (s : Store α) (he : Slot) (l : List (Nat × α)) : Prop where
  read : s.read he = some (first l)
  linked : Linked s l
  nodup : (l.map Prod.fst).Nodup
  outside : ∀ c ∈ l, he ≠ .next c.1

/-- From a slot to that of the next cell. -/
theorem Behind.next (h : Behind s he ((p, x) :: rest)) : Behind s (.next p) rest where
  read := by
    rw [Store.read, h.linked.1]
    rfl
  linked := h.linked.2
  nodup := (List.nodup_cons.1 h.nodup).2
  outside c hc := by
    intro hSame
    cases hSame
    exact (List.nodup_cons.1 h.nodup).1 (List.mem_map.2 ⟨c, hc, rfl⟩)

/-- The list that a slot leads to has become another one, and nothing else has changed. -/
structure Unlinks (s s' : Store α) (he : Slot) (l l' : List (Nat × α)) : Prop where
  linked : Linked s' l'
  read : s'.read he = some (first l')
  heads : ∀ i, he ≠ .head i → s'.head i = s.head i
  cells : ∀ q, he ≠ .next q → (∀ c ∈ l, c.1 ≠ q) → s'.cell q = s.cell q
  own : ∀ q c, he = .next q → s.cell q = some c → s'.cell q = some { c with next := first l' }

/-- Nothing has changed. -/
theorem Behind.refl (h : Behind s he l) : Unlinks s s he l l where
  linked := h.linked
  read := h.read
  heads _ _ := rfl
  cells _ _ _ := rfl
  own q c hHe hCell := by
    have hRead := h.read
    rw [hHe, Store.read, hCell, Option.map_some] at hRead
    rw [hCell, ← Option.some.inj hRead]

/-- The first cell is freed, and the slot leads to the next one. -/
theorem Behind.unlink (h : Behind s he ((p, x) :: rest)) :
    ∃ s', (s.free p).write he (first rest) = some s' ∧ Unlinks s s' he ((p, x) :: rest) rest := by
  have hFree : ∀ q, q ≠ p → (s.free p).cell q = s.cell q := fun q hq => Function.update_of_ne hq ..
  have hRest : ∀ c ∈ rest, c.1 ≠ p := fun c hc hSame =>
    (List.nodup_cons.1 h.nodup).1 (List.mem_map.2 ⟨c, hc, hSame⟩)
  cases he with
  | head i =>
    refine ⟨_, rfl, ?_, ?_, ?_, ?_, ?_⟩
    · exact h.linked.2.congr fun c hc => hFree c.1 (hRest c hc)
    · exact congrArg some (Function.update_self ..)
    · intro j hj
      refine Function.update_of_ne (fun hSame => hj ?_) ..
      rw [hSame]
    · intro q _ hq
      exact hFree q (Ne.symm (hq (p, x) (List.mem_cons_self ..)))
    · intro q c hHe
      cases hHe
  | next q =>
    have hOther : q ≠ p := fun hSame => h.outside (p, x) (List.mem_cons_self ..) (hSame ▸ rfl)
    obtain ⟨c, hCell, -⟩ := Option.map_eq_some_iff.1 h.read
    have hWrite : (s.free p).write (.next q) (first rest) = some { s.free p with
        cell := Function.update (s.free p).cell q (some { c with next := first rest }) } := by
      rw [Store.write, hFree q hOther, hCell]
      rfl
    have hElse : ∀ r, r ≠ q → Function.update (s.free p).cell q
        (some { c with next := first rest }) r = (s.free p).cell r :=
      fun r hr => Function.update_of_ne hr ..
    have hHere : Function.update (s.free p).cell q (some { c with next := first rest }) q =
        some { c with next := first rest } := Function.update_self ..
    refine ⟨_, hWrite, ?_, ?_, ?_, ?_, ?_⟩
    · refine h.linked.2.congr fun d hd => ?_
      have hNot : d.1 ≠ q := fun hSame =>
        h.outside d (List.mem_cons_of_mem _ hd) (hSame ▸ rfl)
      exact (hElse d.1 hNot).trans (hFree d.1 (hRest d hd))
    · exact congrArg (Option.map Cell.next) hHere
    · intro i _
      rfl
    · intro r hHe hr
      have hNot : r ≠ q := fun hSame => hHe (hSame ▸ rfl)
      exact (hElse r hNot).trans (hFree r (Ne.symm (hr (p, x) (List.mem_cons_self ..))))
    · intro r d hHe hThere
      cases hHe
      rw [hCell] at hThere
      cases hThere
      exact hHere

/-- A change behind the first cell is a change behind the slot. -/
theorem Behind.keep (h : Behind s he ((p, x) :: rest)) (hNext : Unlinks s s' (.next p) rest l') :
    Unlinks s s' he ((p, x) :: rest) ((p, x) :: l') := by
  have hNot : he ≠ .next p := h.outside (p, x) (List.mem_cons_self ..)
  have hOut : ∀ c ∈ rest, he ≠ .next c.1 := fun c hc => h.outside c (List.mem_cons_of_mem _ hc)
  -- the cell of the slot, if it is in one, is another one than all that may have changed
  have hSlot : ∀ q, he = .next q → s'.cell q = s.cell q := by
    intro q hq
    refine hNext.cells q (fun hSame => hNot ?_) fun c hc hSame => hOut c hc ?_
    · rw [hq, hSame]
    · rw [hq, hSame]
  have hRead : s'.read he = s.read he := by
    cases hHe : he with
    | head i => exact congrArg some (hNext.heads i (by simp))
    | next q => rw [Store.read, Store.read, hSlot q hHe]
  refine ⟨⟨hNext.own p _ rfl h.linked.1, hNext.linked⟩, ?_, ?_, ?_, ?_⟩
  · rw [hRead, h.read]
    rfl
  · intro i _
    exact hNext.heads i (by simp)
  · intro q _ hq
    refine hNext.cells q ?_ fun c hc => hq c (List.mem_cons_of_mem _ hc)
    intro hSame
    cases hSame
    exact hq (p, x) (List.mem_cons_self ..) rfl
  · intro q c hHe hCell
    have hFirst := h.read
    rw [hHe, Store.read, hCell, Option.map_some] at hFirst
    rw [hSlot q hHe, hCell, first_cons, ← first_cons p x rest, ← Option.some.inj hFirst]

/-! ### Several lists -/

/-- The first `n` heads lead to the lists, which share no cell. -/
structure Holds (s : Store α) (n : Nat) (lists : Nat → List (Nat × α)) : Prop where
  head : ∀ i < n, s.head i = first (lists i)
  linked : ∀ i < n, Linked s (lists i)
  nodup : ∀ i < n, ((lists i).map Prod.fst).Nodup
  apart : ∀ i < n, ∀ j < n, i ≠ j → ∀ c ∈ lists i, ∀ d ∈ lists j, c.1 ≠ d.1

variable {lists : Nat → List (Nat × α)}

theorem Holds.behind (h : Holds s n lists) (hi : i < n) : Behind s (.head i) (lists i) where
  read := congrArg some (h.head i hi)
  linked := h.linked i hi
  nodup := h.nodup i hi
  outside _ _ := by simp

/-- A change to one list leaves the others alone. -/
theorem Holds.unlinks (h : Holds s n lists) (hi : i < n) (hChange : Unlinks s s' (.head i) (lists i) l')
    (hLess : l'.Sublist (lists i)) : Holds s' n (Function.update lists i l') := by
  have hPart : ∀ j, ∀ c ∈ Function.update lists i l' j, c ∈ lists j := by
    intro j c hc
    by_cases hj : j = i
    · subst hj
      rw [Function.update_self] at hc
      exact hLess.subset hc
    · rwa [Function.update_of_ne hj] at hc
  have hSublist : ∀ j, (Function.update lists i l' j).Sublist (lists j) := by
    intro j
    by_cases hj : j = i
    · subst hj
      rw [Function.update_self]
      exact hLess
    · rw [Function.update_of_ne hj]
  constructor
  · intro j hj
    by_cases hSame : j = i
    · subst hSame
      rw [Function.update_self]
      exact Option.some.inj hChange.read
    · rw [Function.update_of_ne hSame, ← h.head j hj]
      exact hChange.heads j fun hEq => hSame (by cases hEq; rfl)
  · intro j hj
    by_cases hSame : j = i
    · subst hSame
      rw [Function.update_self]
      exact hChange.linked
    · rw [Function.update_of_ne hSame]
      refine (h.linked j hj).congr fun c hc => hChange.cells c.1 (by simp) fun d hd => ?_
      exact h.apart i hi j hj (Ne.symm hSame) d hd c hc
  · intro j hj
    exact (h.nodup j hj).sublist ((hSublist j).map _)
  · intro j hj k hk hOther c hc d hd
    exact h.apart j hj k hk hOther c (hPart j c hc) d (hPart k d hd)

/-- A new cell in front of one list. -/
theorem Holds.push (h : Holds s n lists) (hFresh : s.cell p = none) :
    Holds (s.push i p x) n (Function.update lists i ((p, x) :: lists i)) := by
  have hOld : ∀ j < n, ∀ c ∈ lists j, c.1 ≠ p := fun j hj c hc hSame =>
    (h.linked j hj).allocated hc (hSame ▸ hFresh)
  have hCells : ∀ j < n, Linked (s.push i p x) (lists j) := fun j hj =>
    (h.linked j hj).congr fun c hc => Function.update_of_ne (hOld j hj c hc) ..
  have hOther : ∀ j, j ≠ i → Function.update lists i ((p, x) :: lists i) j = lists j :=
    fun j hj => Function.update_of_ne hj ..
  have hHere : Function.update lists i ((p, x) :: lists i) i = (p, x) :: lists i :=
    Function.update_self ..
  -- a cell of one of the new lists is the new one, in its list, or an old one
  have hMem : ∀ j, ∀ c ∈ Function.update lists i ((p, x) :: lists i) j,
      (j = i ∧ c = (p, x)) ∨ c ∈ lists j := by
    intro j c hc
    by_cases hj : j = i
    · subst hj
      rw [hHere] at hc
      exact (List.mem_cons.1 hc).imp (⟨rfl, ·⟩) id
    · rw [hOther j hj] at hc
      exact .inr hc
  constructor
  · intro j hj
    by_cases hSame : j = i
    · subst hSame
      rw [hHere]
      exact Function.update_self ..
    · rw [hOther j hSame, ← h.head j hj]
      exact Function.update_of_ne hSame ..
  · intro j hj
    by_cases hSame : j = i
    · subst hSame
      rw [hHere]
      refine ⟨?_, hCells j hj⟩
      rw [← h.head j hj]
      exact Function.update_self ..
    · rw [hOther j hSame]
      exact hCells j hj
  · intro j hj
    by_cases hSame : j = i
    · subst hSame
      rw [hHere, List.map_cons]
      refine List.nodup_cons.2 ⟨fun hIn => ?_, h.nodup j hj⟩
      obtain ⟨c, hc, hEq⟩ := List.mem_map.1 hIn
      exact hOld j hj c hc hEq
    · rw [hOther j hSame]
      exact h.nodup j hj
  · intro j hj k hk hDiff c hc d hd
    rcases hMem j c hc with ⟨rfl, rfl⟩ | hc'
    · rcases hMem k d hd with ⟨rfl, -⟩ | hd'
      · exact absurd rfl hDiff
      · exact Ne.symm (hOld k hk d hd')
    · rcases hMem k d hd with ⟨rfl, rfl⟩ | hd'
      · exact hOld j hj c hc'
      · exact h.apart j hj k hk hDiff c hc' d hd'

end

/-! ### Lists behind one another, and cells in no list -/

section

variable {s s' : Store α} {l l' b : List (Nat × α)} {he : Slot} {p i j n : Nat} {x : α}
  {lists : Nat → List (Nat × α)}

/-- What is stored into a slot changes no other cell. -/
theorem Store.write_cell {q : Option Nat} (h : s.write he q = some s') {r : Nat} (hr : he ≠ .next r) :
    s'.cell r = s.cell r := by
  cases he with
  | head i =>
    cases h
    rfl
  | next p =>
    obtain ⟨c, -, rfl⟩ := Option.map_eq_some_iff.1 h
    refine Function.update_of_ne (fun hSame => hr ?_) ..
    rw [hSame]

/-- A cell may be freed before or after another slot is written. -/
theorem Store.write_free (q : Option Nat) (hp : he ≠ .next p) :
    (s.write he q).map (·.free p) = (s.free p).write he q := by
  cases he with
  | head i => rfl
  | next r =>
    have hOther : r ≠ p := fun hSame => hp (hSame ▸ rfl)
    have hCell : (s.free p).cell r = s.cell r := Function.update_of_ne hOther ..
    simp only [write, hCell, Option.map_map]
    congr 1
    funext c
    simp only [Function.comp, free, Function.update_comm hOther]

/-- The pointer to a list is stored into a slot with a null pointer. -/
theorem Behind.attach (h : Behind s he []) (hb : Linked s b) (hOut : ∀ c ∈ b, he ≠ .next c.1) :
    ∃ s', s.write he (first b) = some s' ∧ Unlinks s s' he [] b := by
  have hCells {s' : Store α} (hWrite : s.write he (first b) = some s') : ∀ q, he ≠ .next q →
      s'.cell q = s.cell q := fun q hq => Store.write_cell hWrite hq
  cases he with
  | head i =>
    refine ⟨_, rfl, ?_, congrArg some (Function.update_self ..), fun j hj => ?_, fun q hq _ => rfl,
      fun q c hHe => by cases hHe⟩
    · exact hb.congr fun c _ => rfl
    · refine Function.update_of_ne (fun hSame => hj ?_) ..
      rw [hSame]
  | next r =>
    obtain ⟨c, hCell, -⟩ := Option.map_eq_some_iff.1 h.read
    have hWrite : s.write (.next r) (first b) =
        some { s with cell := Function.update s.cell r (some { c with next := first b }) } := by
      rw [Store.write, hCell]
      rfl
    have hHere : Function.update s.cell r (some { c with next := first b }) r =
        some { c with next := first b } := Function.update_self ..
    refine ⟨_, hWrite, ?_, congrArg (Option.map Cell.next) hHere, fun _ _ => rfl,
      fun q hq _ => hCells hWrite q hq, ?_⟩
    · exact hb.congr fun d hd => hCells hWrite d.1 (hOut d hd)
    · intro q d hHe hThere
      cases hHe
      rw [hCell] at hThere
      cases hThere
      exact hHere

/-- One list has become another one, whose cells are in none of the others. -/
theorem Holds.replace (h : Holds s n lists) (hi : i < n)
    (hChange : Unlinks s s' (.head i) (lists i) l') (hNodup : (l'.map Prod.fst).Nodup)
    (hApart : ∀ j < n, j ≠ i → ∀ c ∈ l', ∀ d ∈ lists j, c.1 ≠ d.1) :
    Holds s' n (Function.update lists i l') := by
  constructor
  · intro j hj
    by_cases hSame : j = i
    · subst hSame
      rw [Function.update_self]
      exact Option.some.inj hChange.read
    · rw [Function.update_of_ne hSame, ← h.head j hj]
      exact hChange.heads j fun hEq => hSame (by cases hEq; rfl)
  · intro j hj
    by_cases hSame : j = i
    · subst hSame
      rw [Function.update_self]
      exact hChange.linked
    · rw [Function.update_of_ne hSame]
      refine (h.linked j hj).congr fun c hc => hChange.cells c.1 (by simp) fun d hd => ?_
      exact h.apart i hi j hj (Ne.symm hSame) d hd c hc
  · intro j hj
    by_cases hSame : j = i
    · subst hSame
      rwa [Function.update_self]
    · rw [Function.update_of_ne hSame]
      exact h.nodup j hj
  · intro j hj k hk hOther c hc d hd
    by_cases hSame : j = i
    · subst hSame
      rw [Function.update_self] at hc
      rw [Function.update_of_ne (Ne.symm hOther)] at hd
      exact hApart k hk (Ne.symm hOther) c hc d hd
    · rw [Function.update_of_ne hSame] at hc
      by_cases hSame' : k = i
      · subst hSame'
        rw [Function.update_self] at hd
        exact Ne.symm (hApart j hj hSame d hd c hc)
      · rw [Function.update_of_ne hSame'] at hd
        exact h.apart j hj k hk hOther c hc d hd

/-- One variable is set to the null pointer. -/
theorem Holds.forget (h : Holds s n lists) (j : Nat) :
    Holds { s with head := Function.update s.head j none } n (Function.update lists j []) := by
  have hPart : ∀ k, ∀ c ∈ Function.update lists j [] k, c ∈ lists k := by
    intro k c hc
    by_cases hk : k = j
    · subst hk
      rw [Function.update_self] at hc
      cases hc
    · rwa [Function.update_of_ne hk] at hc
  constructor
  · intro k hk
    by_cases hSame : k = j
    · subst hSame
      simp
    · simp only [Function.update_of_ne hSame]
      exact h.head k hk
  · intro k hk
    by_cases hSame : k = j
    · subst hSame
      rw [Function.update_self]
      trivial
    · rw [Function.update_of_ne hSame]
      exact (h.linked k hk).congr fun _ _ => rfl
  · intro k hk
    by_cases hSame : k = j
    · subst hSame
      simp
    · rw [Function.update_of_ne hSame]
      exact h.nodup k hk
  · intro k hk m hm hOther c hc d hd
    exact h.apart k hk m hm hOther c (hPart k c hc) d (hPart m d hd)

/-- A change to cells of no list. -/
theorem Holds.congr (h : Holds s n lists) (hHead : ∀ i < n, s'.head i = s.head i)
    (hCell : ∀ i < n, ∀ c ∈ lists i, s'.cell c.1 = s.cell c.1) : Holds s' n lists where
  head i hi := (hHead i hi).trans (h.head i hi)
  linked i hi := (h.linked i hi).congr (hCell i hi)
  nodup := h.nodup
  apart := h.apart

/-- All cells that are allocated are in the lists. -/
def Covered (s : Store α) (n : Nat) (lists : Nat → List (Nat × α)) : Prop :=
  ∀ q, s.cell q ≠ none → ∃ i < n, ∃ c ∈ lists i, c.1 = q

/-- Where one list becomes another one, its own cells must be in that or be freed. -/
theorem Covered.replace (h : Covered s n lists) (hi : i < n)
    (hOther : ∀ q, (∀ c ∈ lists i, c.1 ≠ q) → s'.cell q ≠ none →
      s.cell q ≠ none ∨ ∃ c ∈ l', c.1 = q)
    (hOwn : ∀ c ∈ lists i, s'.cell c.1 ≠ none → ∃ d ∈ l', d.1 = c.1) :
    Covered s' n (Function.update lists i l') := by
  intro q hq
  by_cases hIn : ∃ c ∈ lists i, c.1 = q
  · obtain ⟨c, hc, rfl⟩ := hIn
    obtain ⟨d, hd, hEq⟩ := hOwn c hc hq
    exact ⟨i, hi, d, by rwa [Function.update_self], hEq⟩
  · have hOut : ∀ c ∈ lists i, c.1 ≠ q := fun c hc hEq => hIn ⟨c, hc, hEq⟩
    obtain hOld | ⟨c, hc, hEq⟩ := hOther q hOut hq
    · obtain ⟨j, hj, c, hc, rfl⟩ := h q hOld
      have hSame : j ≠ i := by
        rintro rfl
        exact hOut c hc rfl
      exact ⟨j, hj, c, by rwa [Function.update_of_ne hSame], rfl⟩
    · exact ⟨i, hi, c, by rwa [Function.update_self], hEq⟩

end

end Chain
