import Mathlib.Algebra.BigOperators.Group.Finset.Basic
import OpenNap.Lib.Chain

/-! `list.c` with its elements in memory.  Each function on the linked `LIST`s does what the function
of the same purpose does on a list of the data, and in every sequence of calls the cells that are
allocated are those of the lists: none is lost, and none is used after it was freed. -/

namespace OpenNap

open Chain

/-! ### The code -/

section

variable {α : Type}

/-- `list_new`, with the address that `CALLOC` gives. -/
def listNew (s : Store α) (p : Nat) (data : α) : Store α :=
  { s with cell := Function.update s.cell p (some ⟨data, none⟩) }

/-- `list_delete`, with so much fuel.  The slot is the variable that the callers store the result in.
`none` is a fault. -/
def listDelete [DecidableEq α] (data : α) : Nat → Slot → Store α → Option (Store α)
  | 0, _, _ => none
  | fuel + 1, ptr, s => do
    match ← s.read ptr with
    | none => return s
    | some tmp =>
      let c ← s.cell tmp
      if c.data = data then
        let s ← s.write ptr c.next
        return s.free tmp
      else listDelete data fuel (.next tmp) s

/-- `list_append`. -/
def listAppend (b : Option Nat) : Nat → Slot → Store α → Option (Store α)
  | 0, _, _ => none
  | fuel + 1, r, s => do
    match ← s.read r with
    | none => s.write r b
    | some p => listAppend b fuel (.next p) s

/-- `list_append_data`. -/
def listAppendData (fuel : Nat) (s : Store α) (l : Slot) (p : Nat) (data : α) : Option (Store α) :=
  listAppend (some p) fuel l (listNew s p data)

/-- `list_free`, with the data that the callback was called for. -/
def listFree : Nat → Option Nat → Store α → List α → Option (Store α × List α)
  | 0, _, _, _ => none
  | _ + 1, none, s, destroyed => some (s, destroyed)
  | fuel + 1, some t, s, destroyed => do
    let c ← s.cell t
    listFree fuel c.next (s.free t) (destroyed ++ [c.data])

/-- `list_count`. -/
def listCount (s : Store α) : Nat → Option Nat → Nat → Option Nat
  | 0, _, _ => none
  | _ + 1, none, count => some count
  | fuel + 1, some p, count => do
    let c ← s.cell p
    listCount s fuel c.next (count + 1)

/-- `list_find`. -/
def listFind [DecidableEq α] (s : Store α) (data : α) : Nat → Option Nat → Option (Option Nat)
  | 0, _ => none
  | _ + 1, none => some none
  | fuel + 1, some p => do
    let c ← s.cell p
    if c.data = data then return some p else listFind s data fuel c.next

end

/-- What is done with a list: the variable that it is in, and the address of a new cell. -/
inductive ListCall (α : Type)
  /-- a new cell is put in front -/
  | push (i p : Nat) (data : α)
  | appendData (i p : Nat) (data : α)
  /-- the list in the second variable, which is given up, is put behind the first one -/
  | append (i j : Nat)
  | delete (i : Nat) (data : α)
  /-- `list_free`, and the variable is set to the null pointer -/
  | free (i : Nat)
  | count (i : Nat)
  | find (i : Nat) (data : α)
deriving Repr

/-- What a call returns. -/
inductive ListReply (α : Type)
  | done
  | destroyed (l : List α)
  | number (n : Nat)
  | found (yes : Bool)
deriving DecidableEq, Repr

/-- The variables, and what each of the lists holds. -/
abbrev ListView (α : Type) := Nat → List α

namespace ListCall

variable {α : Type}

/-- What a call does to the cells. -/
def run [DecidableEq α] (fuel : Nat) (s : Store α) : ListCall α → Option (Store α × ListReply α)
  | push i p data => some (s.push i p data, .done)
  | appendData i p data => (listAppendData fuel s (.head i) p data).map fun s => (s, .done)
  | append i j =>
    (listAppend (s.head j) fuel (.head i) { s with head := Function.update s.head j none }).map
      fun s => (s, .done)
  | delete i data => (listDelete data fuel (.head i) s).map fun s => (s, .done)
  | free i => (listFree fuel (s.head i) s []).map fun r =>
      ({ r.1 with head := Function.update r.1.head i none }, .destroyed r.2)
  | count i => (listCount s fuel (s.head i) 0).map fun n => (s, .number n)
  | find i data => (listFind s data fuel (s.head i)).map fun p => (s, .found p.isSome)

/-- What a call does to the lists. -/
def after [DecidableEq α] (v : ListView α) : ListCall α → ListView α
  | push i _ data => Function.update v i (data :: v i)
  | appendData i _ data => Function.update v i (v i ++ [data])
  | append i j => Function.update (Function.update v j []) i (v i ++ v j)
  | delete i data => Function.update v i ((v i).erase data)
  | free i => Function.update v i []
  | count _ | find _ _ => v

/-- What a call returns. -/
def reply [DecidableEq α] (v : ListView α) : ListCall α → ListReply α
  | push _ _ _ | appendData _ _ _ | append _ _ | delete _ _ => .done
  | free i => .destroyed (v i)
  | count i => .number (v i).length
  | find i data => .found (decide (data ∈ v i))

/-- The variables are among the first `n`, a new cell has an address that is not in use, and no list is
put behind itself. -/
def Valid (n : Nat) (s : Store α) : ListCall α → Prop
  | push i p _ | appendData i p _ => i < n ∧ s.cell p = none
  | append i j => i < n ∧ j < n ∧ i ≠ j
  | delete i _ | free i | count i | find i _ => i < n

/-- Calls one after the other, with what they return. -/
def runAll [DecidableEq α] (fuel : Nat) : Store α → List (ListCall α) → Option (Store α × List (ListReply α))
  | s, [] => some (s, [])
  | s, call :: calls => do
    let (s, r) ← call.run fuel s
    let (s, rs) ← runAll fuel s calls
    return (s, r :: rs)

/-- The lists after some calls. -/
def afterAll [DecidableEq α] (v : ListView α) (calls : List (ListCall α)) : ListView α := calls.foldl after v

/-- What some calls return. -/
def replies [DecidableEq α] : ListView α → List (ListCall α) → List (ListReply α)
  | _, [] => []
  | v, call :: calls => call.reply v :: replies (call.after v) calls

/-- Each call is valid when it is made. -/
def AllValid [DecidableEq α] (fuel n : Nat) : Store α → List (ListCall α) → Prop
  | _, [] => True
  | s, call :: calls => call.Valid n s ∧
      ∀ s' r, call.run fuel s = some (s', r) → AllValid fuel n s' calls

end ListCall

/-! ### Each function -/

section

variable {α : Type} {s s' : Store α} {l l' b : List (Nat × α)} {he : Slot} {data : α} {fuel : Nat}

/-- The first cell with the data is freed, if there is one. -/
theorem listDelete_behind [DecidableEq α] (data : α) (h : Behind s he l) (hFuel : l.length < fuel) :
    ∃ s', listDelete data fuel he s = some s' ∧ Unlinks s s' he l (l.eraseP (·.2 = data)) ∧
      ∀ c ∈ l, s'.cell c.1 ≠ none → c.1 ∈ (l.eraseP (·.2 = data)).map Prod.fst := by
  induction l generalizing he fuel with
  | nil =>
    obtain ⟨fuel, rfl⟩ : ∃ n, fuel = n + 1 := ⟨fuel - 1, by omega⟩
    refine ⟨s, ?_, h.refl, by simp⟩
    rw [listDelete, h.read]
    rfl
  | cons c l ih =>
    obtain ⟨p, x⟩ := c
    obtain ⟨fuel, rfl⟩ : ∃ n, fuel = n + 1 := ⟨fuel - 1, by omega⟩
    have hOut : he ≠ .next p := h.outside (p, x) (List.mem_cons_self ..)
    by_cases hData : x = data
    · obtain ⟨s', hWrite, hUnlinks⟩ := h.unlink
      have hErase : List.eraseP (fun c => decide (c.2 = data)) ((p, x) :: l) = l := by
        simp [hData]
      rw [hErase]
      refine ⟨s', ?_, hUnlinks, fun c hc hSome => ?_⟩
      · rw [← Store.write_free _ hOut] at hWrite
        obtain ⟨t, hFirst, hFree⟩ := Option.map_eq_some_iff.1 hWrite
        rw [listDelete, h.read]
        simp [h.linked.1, hData, hFirst, hFree]
      · rcases List.mem_cons.1 hc with rfl | hc
        · refine absurd ?_ hSome
          rw [Store.write_cell hWrite hOut]
          exact Function.update_self ..
        · exact List.mem_map.2 ⟨c, hc, rfl⟩
    · obtain ⟨s', hRun, hUnlinks, hLeft⟩ := ih h.next (Nat.lt_of_succ_lt_succ hFuel)
      have hErase : List.eraseP (fun c => decide (c.2 = data)) ((p, x) :: l) =
          (p, x) :: l.eraseP (·.2 = data) := by simp [hData]
      rw [hErase]
      refine ⟨s', ?_, h.keep hUnlinks, fun c hc hSome => ?_⟩
      · rw [listDelete, h.read]
        simp [h.linked.1, hData, hRun]
      · rcases List.mem_cons.1 hc with rfl | hc
        · simp
        · exact List.mem_cons_of_mem _ (hLeft c hc hSome)

/-- The other list is put behind the last cell. -/
theorem listAppend_behind (h : Behind s he l) (hb : Linked s b) (hOut : ∀ c ∈ b, he ≠ .next c.1)
    (hApart : ∀ c ∈ l, ∀ d ∈ b, c.1 ≠ d.1) (hFuel : l.length < fuel) :
    ∃ s', listAppend (first b) fuel he s = some s' ∧ Unlinks s s' he l (l ++ b) := by
  induction l generalizing he fuel with
  | nil =>
    obtain ⟨fuel, rfl⟩ : ∃ n, fuel = n + 1 := ⟨fuel - 1, by omega⟩
    obtain ⟨s', hWrite, hUnlinks⟩ := h.attach hb hOut
    refine ⟨s', ?_, hUnlinks⟩
    rw [listAppend, h.read]
    exact hWrite
  | cons c l ih =>
    obtain ⟨p, x⟩ := c
    obtain ⟨fuel, rfl⟩ : ∃ n, fuel = n + 1 := ⟨fuel - 1, by omega⟩
    have hNext : ∀ d ∈ b, Slot.next p ≠ .next d.1 := fun d hd hEq => by
      cases hEq
      exact hApart (d.1, x) (List.mem_cons_self ..) d hd rfl
    obtain ⟨s', hRun, hUnlinks⟩ := ih h.next hNext
      (fun c hc => hApart c (List.mem_cons_of_mem _ hc)) (Nat.lt_of_succ_lt_succ hFuel)
    refine ⟨s', ?_, h.keep hUnlinks⟩
    rw [listAppend, h.read]
    exact hRun

/-- All cells are freed, and the callback is called for each in their order. -/
theorem listFree_linked (h : Linked s l) (hNodup : (l.map Prod.fst).Nodup) (hFuel : l.length < fuel)
    (destroyed : List α) : ∃ s', listFree fuel (first l) s destroyed =
        some (s', destroyed ++ l.map Prod.snd) ∧ s'.head = s.head ∧
      (∀ q, (∀ c ∈ l, c.1 ≠ q) → s'.cell q = s.cell q) ∧ ∀ c ∈ l, s'.cell c.1 = none := by
  induction l generalizing fuel s destroyed with
  | nil =>
    obtain ⟨fuel, rfl⟩ : ∃ n, fuel = n + 1 := ⟨fuel - 1, by omega⟩
    exact ⟨s, by simp [listFree], rfl, fun _ _ => rfl, by simp⟩
  | cons c l ih =>
    obtain ⟨p, x⟩ := c
    obtain ⟨fuel, rfl⟩ : ∃ n, fuel = n + 1 := ⟨fuel - 1, by omega⟩
    rw [List.map_cons, List.nodup_cons] at hNodup
    have hOther : ∀ c ∈ l, c.1 ≠ p := fun c hc hEq =>
      hNodup.1 (List.mem_map.2 ⟨c, hc, hEq⟩)
    have hFree : ∀ q, q ≠ p → (s.free p).cell q = s.cell q := fun q hq => Function.update_of_ne hq ..
    obtain ⟨s', hRun, hHead, hCells, hGone⟩ := ih (s := s.free p)
      (h.2.congr fun c hc => hFree c.1 (hOther c hc)) hNodup.2 (Nat.lt_of_succ_lt_succ hFuel)
      (destroyed ++ [x])
    refine ⟨s', ?_, hHead, fun q hq => ?_, fun c hc => ?_⟩
    · simp only [first_cons, listFree, h.1, Option.bind_eq_bind, Option.bind_some, hRun]
      simp
    · rw [hCells q fun c hc => hq c (List.mem_cons_of_mem _ hc)]
      exact hFree q (Ne.symm (hq (p, x) (List.mem_cons_self ..)))
    · rcases List.mem_cons.1 hc with rfl | hc
      · rw [hCells p hOther]
        exact Function.update_self ..
      · exact hGone c hc

theorem listCount_linked (h : Linked s l) (hFuel : l.length < fuel) (count : Nat) :
    listCount s fuel (first l) count = some (count + l.length) := by
  induction l generalizing fuel count with
  | nil =>
    obtain ⟨fuel, rfl⟩ : ∃ n, fuel = n + 1 := ⟨fuel - 1, by omega⟩
    rfl
  | cons c l ih =>
    obtain ⟨p, x⟩ := c
    obtain ⟨fuel, rfl⟩ : ∃ n, fuel = n + 1 := ⟨fuel - 1, by omega⟩
    simp only [first_cons, listCount, h.1, Option.bind_eq_bind, Option.bind_some,
      ih h.2 (Nat.lt_of_succ_lt_succ hFuel), List.length_cons]
    congr 1
    omega

/-- The first cell with the data is found. -/
theorem listFind_linked [DecidableEq α] (data : α) (h : Linked s l) (hFuel : l.length < fuel) :
    listFind s data fuel (first l) = some ((l.find? (·.2 = data)).map Prod.fst) := by
  induction l generalizing fuel with
  | nil =>
    obtain ⟨fuel, rfl⟩ : ∃ n, fuel = n + 1 := ⟨fuel - 1, by omega⟩
    rfl
  | cons c l ih =>
    obtain ⟨p, x⟩ := c
    obtain ⟨fuel, rfl⟩ : ∃ n, fuel = n + 1 := ⟨fuel - 1, by omega⟩
    simp only [first_cons, listFind, h.1, Option.bind_eq_bind, Option.bind_some,
      ih h.2 (Nat.lt_of_succ_lt_succ hFuel), List.find?_cons]
    by_cases hData : x = data
    · simp [hData]
    · simp [hData]

end

/-! ### Runs -/

section

variable {α : Type} {s s' : Store α} {n i j : Nat} {lists : Nat → List (Nat × α)}
  {l' : List (Nat × α)}

/-- What the lists hold. -/
def viewOf (lists : Nat → List (Nat × α)) : ListView α := fun i => (lists i).map Prod.snd

theorem viewOf_update (lists : Nat → List (Nat × α)) (i : Nat) (l : List (Nat × α)) :
    viewOf (Function.update lists i l) = Function.update (viewOf lists) i (l.map Prod.snd) := by
  funext j
  by_cases hj : j = i
  · subst hj
    simp [viewOf]
  · simp [viewOf, hj]

/-- How many cells the lists have. -/
def cellCount (n : Nat) (lists : Nat → List (Nat × α)) : Nat :=
  ∑ i ∈ Finset.range n, (lists i).length

theorem cellCount_update (lists : Nat → List (Nat × α)) (hi : i < n) (l : List (Nat × α)) :
    cellCount n (Function.update lists i l) + (lists i).length = cellCount n lists + l.length := by
  have hMem : i ∈ Finset.range n := Finset.mem_range.2 hi
  have hSame : ∀ j ∈ (Finset.range n).erase i,
      (Function.update lists i l j).length = (lists j).length := fun j hj => by
    rw [Function.update_of_ne (Finset.ne_of_mem_erase hj)]
  have hNew := Finset.add_sum_erase _ (fun j => (Function.update lists i l j).length) hMem
  have hOld := Finset.add_sum_erase _ (fun j => (lists j).length) hMem
  rw [Finset.sum_congr rfl hSame, Function.update_self] at hNew
  rw [cellCount, cellCount]
  omega

theorem length_le_cellCount (hi : i < n) : (lists i).length ≤ cellCount n lists := by
  have hNone := cellCount_update lists hi []
  rw [List.length_nil] at hNone
  omega

/-- The variables lead to the lists, and there are no other cells. -/
structure LaidOut (s : Store α) (n : Nat) (lists : Nat → List (Nat × α)) : Prop where
  holds : Holds s n lists
  covered : Covered s n lists

namespace LaidOut

/-- A list has become another one. -/
theorem replace (h : LaidOut s n lists) (hi : i < n)
    (hChange : Unlinks s s' (.head i) (lists i) l') (hNodup : (l'.map Prod.fst).Nodup)
    (hApart : ∀ j < n, j ≠ i → ∀ c ∈ l', ∀ d ∈ lists j, c.1 ≠ d.1)
    (hOwn : ∀ c ∈ lists i, s'.cell c.1 ≠ none → c.1 ∈ l'.map Prod.fst) :
    LaidOut s' n (Function.update lists i l') where
  holds := h.holds.replace hi hChange hNodup hApart
  covered := h.covered.replace hi
    (fun q hq hSome => .inl (by rwa [hChange.cells q (by simp) hq] at hSome))
    fun c hc hSome => by
      obtain ⟨d, hd, hEq⟩ := List.mem_map.1 (hOwn c hc hSome)
      exact ⟨d, hd, hEq⟩

/-- An address that is not in use is in no list. -/
theorem fresh (h : LaidOut s n lists) {p : Nat} (hFresh : s.cell p = none) :
    ∀ j < n, ∀ c ∈ lists j, c.1 ≠ p := fun j hj _ hc hSame =>
  (h.holds.linked j hj).allocated hc (hSame ▸ hFresh)

theorem push (h : LaidOut s n lists) (hi : i < n) {p : Nat} (hFresh : s.cell p = none) (data : α) :
    LaidOut (s.push i p data) n (Function.update lists i ((p, data) :: lists i)) where
  holds := h.holds.push hFresh
  covered := h.covered.replace hi
    (fun q _ hSome => by
      by_cases hq : q = p
      · exact .inr ⟨(p, data), List.mem_cons_self .., hq.symm⟩
      · have hOld : (s.push i p data).cell q = s.cell q := Function.update_of_ne hq ..
        exact .inl (by rwa [hOld] at hSome))
    fun d hd _ => ⟨d, List.mem_cons_of_mem _ hd, rfl⟩

theorem appendData (h : LaidOut s n lists) (hi : i < n) {p : Nat} (hFresh : s.cell p = none) (data : α)
    {fuel : Nat} (hFuel : (lists i).length < fuel) :
    ∃ s', listAppendData fuel s (.head i) p data = some s' ∧
      LaidOut s' n (Function.update lists i (lists i ++ [(p, data)])) := by
  have hNot := h.fresh hFresh
  have hOld : ∀ q, q ≠ p → (listNew s p data).cell q = s.cell q := fun q hq =>
    Function.update_of_ne hq ..
  have hHolds : Holds (listNew s p data) n lists :=
    h.holds.congr (fun _ _ => rfl) fun j hj c hc => hOld c.1 (hNot j hj c hc)
  have hNew : Linked (listNew s p data) [(p, data)] := ⟨Function.update_self .., trivial⟩
  obtain ⟨s', hRun, hUnlinks⟩ := listAppend_behind (hHolds.behind hi) hNew (by simp)
    (fun c hc d hd hEq => hNot i hi c hc (by rw [hEq, List.mem_singleton.1 hd])) hFuel
  have hNodup : ((lists i ++ [(p, data)]).map Prod.fst).Nodup := by
    rw [List.map_append, List.nodup_append]
    refine ⟨hHolds.nodup i hi, List.nodup_singleton _, fun a ha b hb hEq => ?_⟩
    obtain ⟨c, hc, rfl⟩ := List.mem_map.1 ha
    exact hNot i hi c hc (hEq.trans (List.mem_singleton.1 hb))
  refine ⟨s', hRun, hHolds.replace hi hUnlinks hNodup (fun j hj hji c hc d hd hEq => ?_), ?_⟩
  · rcases List.mem_append.1 hc with hc | hc
    · exact hHolds.apart i hi j hj (Ne.symm hji) c hc d hd hEq
    · rw [List.mem_singleton.1 hc] at hEq
      exact hNot j hj d hd hEq.symm
  · refine h.covered.replace hi (fun q hq hSome => ?_) fun c hc _ =>
      ⟨c, List.mem_append_left _ hc, rfl⟩
    rw [hUnlinks.cells q (by simp) hq] at hSome
    by_cases hp : q = p
    · exact .inr ⟨(p, data), by simp, hp.symm⟩
    · exact .inl (by rwa [hOld q hp] at hSome)

theorem append (h : LaidOut s n lists) (hi : i < n) (hj : j < n) (hNe : i ≠ j) {fuel : Nat}
    (hFuel : (lists i).length < fuel) :
    ∃ s', listAppend (s.head j) fuel (.head i) { s with head := Function.update s.head j none } =
        some s' ∧
      LaidOut s' n (Function.update (Function.update lists j []) i (lists i ++ lists j)) := by
  have hHolds := h.holds.forget j
  have hHere : Function.update lists j [] i = lists i := Function.update_of_ne hNe ..
  have hBehind := hHolds.behind hi
  rw [hHere] at hBehind
  have hLinked : Linked { s with head := Function.update s.head j none } (lists j) :=
    (h.holds.linked j hj).congr fun _ _ => rfl
  obtain ⟨s', hRun, hUnlinks⟩ := listAppend_behind hBehind hLinked (by simp)
    (h.holds.apart i hi j hj hNe) hFuel
  have hNodup : ((lists i ++ lists j).map Prod.fst).Nodup := by
    rw [List.map_append, List.nodup_append]
    refine ⟨h.holds.nodup i hi, h.holds.nodup j hj, fun a ha b hb hEq => ?_⟩
    obtain ⟨c, hc, rfl⟩ := List.mem_map.1 ha
    obtain ⟨d, hd, rfl⟩ := List.mem_map.1 hb
    exact h.holds.apart i hi j hj hNe c hc d hd hEq
  rw [← hHere] at hUnlinks
  refine ⟨s', by rw [h.holds.head j hj]; exact hRun, ?_, ?_⟩
  · rw [← hHere]
    refine hHolds.replace hi hUnlinks (by rwa [hHere]) fun k hk hki c hc d hd hEq => ?_
    rw [hHere] at hc
    by_cases hkj : k = j
    · subst hkj
      rw [Function.update_self] at hd
      cases hd
    · rw [Function.update_of_ne hkj] at hd
      rcases List.mem_append.1 hc with hc | hc
      · exact h.holds.apart i hi k hk (Ne.symm hki) c hc d hd hEq
      · exact h.holds.apart j hj k hk (Ne.symm hkj) c hc d hd hEq
  · intro q hq
    by_cases hIn : ∃ c ∈ lists i, c.1 = q
    · obtain ⟨c, hc, hEq⟩ := hIn
      exact ⟨i, hi, c, by rw [Function.update_self]; exact List.mem_append_left _ hc, hEq⟩
    · have hOut : ∀ c ∈ Function.update lists j [] i, c.1 ≠ q := fun c hc hEq =>
        hIn ⟨c, hHere ▸ hc, hEq⟩
      rw [hUnlinks.cells q (by simp) hOut] at hq
      obtain ⟨k, hk, c, hc, hEq⟩ := h.covered q hq
      by_cases hkj : k = j
      · subst hkj
        exact ⟨i, hi, c, by rw [Function.update_self]; exact List.mem_append_right _ hc, hEq⟩
      · have hki : k ≠ i := by
          rintro rfl
          exact hIn ⟨c, hc, hEq⟩
        exact ⟨k, hk, c, by rwa [Function.update_of_ne hki, Function.update_of_ne hkj], hEq⟩

theorem delete [DecidableEq α] (h : LaidOut s n lists) (hi : i < n) (data : α) {fuel : Nat}
    (hFuel : (lists i).length < fuel) :
    ∃ s', listDelete data fuel (.head i) s = some s' ∧
      LaidOut s' n (Function.update lists i ((lists i).eraseP (·.2 = data))) := by
  obtain ⟨s', hRun, hUnlinks, hLeft⟩ := listDelete_behind data (h.holds.behind hi) hFuel
  have hLess : ((lists i).eraseP (·.2 = data)).Sublist (lists i) := List.eraseP_sublist
  refine ⟨s', hRun, h.replace hi hUnlinks ((h.holds.nodup i hi).sublist (hLess.map _))
    (fun j hj hji c hc d hd => ?_) hLeft⟩
  exact h.holds.apart i hi j hj (Ne.symm hji) c (hLess.subset hc) d hd

theorem free (h : LaidOut s n lists) (hi : i < n) {fuel : Nat} (hFuel : (lists i).length < fuel) :
    ∃ s', listFree fuel (s.head i) s [] = some (s', viewOf lists i) ∧
      LaidOut { s' with head := Function.update s'.head i none } n (Function.update lists i []) := by
  obtain ⟨s', hRun, hHead, hCells, hGone⟩ :=
    listFree_linked (h.holds.linked i hi) (h.holds.nodup i hi) hFuel []
  rw [← h.holds.head i hi] at hRun
  refine ⟨s', hRun, (h.holds.forget i).congr (fun j _ => by rw [hHead]) fun j hj c hc => ?_, ?_⟩
  · by_cases hji : j = i
    · subst hji
      rw [Function.update_self] at hc
      cases hc
    · rw [Function.update_of_ne hji] at hc
      exact hCells c.1 fun d hd hEq => h.holds.apart j hj i hi hji c hc d hd hEq.symm
  · refine h.covered.replace hi (fun q hq hSome => .inl ?_) fun c hc hSome =>
      absurd (hGone c hc) hSome
    rwa [hCells q hq] at hSome

end LaidOut

namespace ListCall

/-- One call. -/
theorem run_laidOut [DecidableEq α] (h : LaidOut s n lists) {call : ListCall α}
    (hValid : call.Valid n s) {fuel : Nat} (hFuel : cellCount n lists < fuel) :
    ∃ s' lists', call.run fuel s = some (s', call.reply (viewOf lists)) ∧ LaidOut s' n lists' ∧
      viewOf lists' = call.after (viewOf lists) ∧ cellCount n lists' ≤ cellCount n lists + 1 := by
  have hRoom {i : Nat} (hi : i < n) : (lists i).length < fuel :=
    (length_le_cellCount hi).trans_lt hFuel
  cases call with
  | push i p data =>
    obtain ⟨hi, hFresh⟩ := hValid
    have hCount := cellCount_update lists hi ((p, data) :: lists i)
    refine ⟨_, _, rfl, h.push hi hFresh data, viewOf_update .., ?_⟩
    rw [List.length_cons] at hCount
    omega
  | appendData i p data =>
    obtain ⟨hi, hFresh⟩ := hValid
    obtain ⟨s', hRun, hLaid⟩ := h.appendData hi hFresh data (hRoom hi)
    have hCount := cellCount_update lists hi (lists i ++ [(p, data)])
    refine ⟨s', _, by rw [run, hRun]; rfl, hLaid, ?_, ?_⟩
    · rw [viewOf_update, List.map_append]
      rfl
    · rw [List.length_append, List.length_singleton] at hCount
      omega
  | append i j =>
    obtain ⟨hi, hj, hNe⟩ := hValid
    obtain ⟨s', hRun, hLaid⟩ := h.append hi hj hNe (hRoom hi)
    have hGone := cellCount_update lists hj ([] : List (Nat × α))
    have hCount := cellCount_update (Function.update lists j []) hi (lists i ++ lists j)
    refine ⟨s', _, by rw [run, hRun]; rfl, hLaid, ?_, ?_⟩
    · rw [viewOf_update, viewOf_update, List.map_append]
      rfl
    · rw [Function.update_of_ne hNe, List.length_append] at hCount
      rw [List.length_nil] at hGone
      omega
  | delete i data =>
    obtain ⟨s', hRun, hLaid⟩ := h.delete hValid data (hRoom hValid)
    have hCount := cellCount_update lists hValid ((lists i).eraseP (·.2 = data))
    refine ⟨s', _, by rw [run, hRun]; rfl, hLaid, ?_, ?_⟩
    · rw [viewOf_update, after, viewOf, List.erase_eq_eraseP', List.eraseP_map]
      rfl
    · have hLess := (List.eraseP_sublist (p := fun c => decide (c.2 = data)) (l := lists i)).length_le
      omega
  | free i =>
    obtain ⟨s', hRun, hLaid⟩ := h.free hValid (hRoom hValid)
    have hCount := cellCount_update lists hValid ([] : List (Nat × α))
    refine ⟨_, _, by rw [run, hRun]; rfl, hLaid, viewOf_update .., ?_⟩
    rw [List.length_nil] at hCount
    omega
  | count i =>
    have hRun := listCount_linked (h.holds.linked i hValid) (hRoom hValid) 0
    refine ⟨s, lists, ?_, h, rfl, Nat.le_succ _⟩
    rw [run, h.holds.head i hValid, hRun]
    simp [reply, viewOf]
  | find i data =>
    have hRun := listFind_linked data (h.holds.linked i hValid) (hRoom hValid)
    refine ⟨s, lists, ?_, h, rfl, Nat.le_succ _⟩
    have hSame : ((lists i).find? (·.2 = data)).isSome = decide (data ∈ viewOf lists i) := by
      rw [Bool.eq_iff_iff, List.find?_isSome, decide_eq_true_iff, viewOf, List.mem_map]
      simp
    rw [run, h.holds.head i hValid, hRun, Option.map_some, reply, Option.isSome_map, hSame]

/-- Calls one after the other. -/
theorem runAll_laidOut [DecidableEq α] (calls : List (ListCall α)) {fuel : Nat}
    (h : LaidOut s n lists) (hValid : AllValid fuel n s calls)
    (hFuel : cellCount n lists + calls.length < fuel + 1) :
    ∃ s' lists', runAll fuel s calls = some (s', replies (viewOf lists) calls) ∧
      LaidOut s' n lists' ∧ viewOf lists' = afterAll (viewOf lists) calls := by
  induction calls generalizing s lists with
  | nil => exact ⟨s, lists, rfl, h, rfl⟩
  | cons call calls ih =>
    rw [List.length_cons] at hFuel
    have hRoom : cellCount n lists < fuel := by omega
    obtain ⟨t, between, hRun, hLaid, hView, hCount⟩ := run_laidOut h hValid.1 hRoom
    obtain ⟨s', lists', hRest, hEnd, hLast⟩ := ih hLaid (hValid.2 t _ hRun) (by omega)
    refine ⟨s', lists', ?_, hEnd, ?_⟩
    · rw [runAll, hRun]
      simp only [Option.bind_eq_bind, Option.bind_some, hRest, hView]
      rfl
    · rw [hLast, hView]
      rfl

end ListCall

/-- No list has been made, and no cell is allocated. -/
def noCells (α : Type) : Store α := ⟨fun _ => none, fun _ => none⟩

theorem laidOut_noCells (n : Nat) : LaidOut (noCells α) n fun _ => [] where
  holds := ⟨fun _ _ => rfl, fun _ _ => trivial, fun _ _ => List.nodup_nil, by simp⟩
  covered q hq := absurd rfl hq

/-- Whatever is done with the lists of any number of variables, each function does and returns what it
is for, no freed cell is read, written or freed again, and the cells that are allocated in the end are
those that the variables lead to. -/
theorem list_calls_refine [DecidableEq α] (n : Nat) (calls : List (ListCall α)) (fuel : Nat)
    (hValid : ListCall.AllValid fuel n (noCells α) calls) (hFuel : calls.length ≤ fuel) :
    ∃ s lists, ListCall.runAll fuel (noCells α) calls =
        some (s, ListCall.replies (fun _ => []) calls) ∧
      LaidOut s n lists ∧ viewOf lists = ListCall.afterAll (fun _ => []) calls := by
  have hNone : cellCount n (fun _ => ([] : List (Nat × α))) = 0 := by simp [cellCount]
  exact ListCall.runAll_laidOut calls (laidOut_noCells n) hValid (by omega)

end

/-- Two cells are put into a list, and the first one is taken out. -/
theorem list_calls_refine_two : ∃ s lists, ListCall.runAll 4 (noCells Nat)
      [.push 0 10 1, .appendData 0 11 2, .delete 0 1, .find 0 1] =
        some (s, [.done, .done, .done, .found false]) ∧
    LaidOut s 1 lists ∧ viewOf lists 0 = [2] := by
  have hValid : ListCall.AllValid 4 1 (noCells Nat)
      [.push 0 10 1, .appendData 0 11 2, .delete 0 1, .find 0 1] := by
    refine ⟨⟨by decide, rfl⟩, fun _ _ hRun => ?_⟩
    cases hRun
    refine ⟨⟨by decide, rfl⟩, fun _ _ hRun => ?_⟩
    exact ⟨Nat.zero_lt_one, fun _ _ _ => ⟨Nat.zero_lt_one, fun _ _ _ => trivial⟩⟩
  obtain ⟨s, lists, hRun, hLaid, hView⟩ := list_calls_refine 1 _ 4 hValid (by decide)
  exact ⟨s, lists, hRun, hLaid, congrFun hView 0⟩

end OpenNap
