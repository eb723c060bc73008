import OpenNap.Dispatch
import OpenNap.Lib.Loop

/-! `find_handler`: a binary search of the table of handlers.  The two ends of the part that is still
searched are of type `int`, and so is their sum. -/

namespace OpenNap

open CText

/-- What the search may do that the language does not define, or that the assertion forbids. -/
inductive LookupFault
  /-- a sum that does not fit an `int` -/
  | overflow
  /-- a read outside the table -/
  | bounds
  /-- `ASSERT (min <= max)` -/
  | assertion
  deriving DecidableEq

/-- The part of the table that is still searched. -/
structure Bounds where
  min : Int
  max : Int
  deriving DecidableEq

/-- The result of `find_handler`. -/
abbrev Lookup := Except LookupFault Int

namespace Handlers

/-- `(max + min) / 2`. -/
def midpoint (b : Bounds) : Lookup :=
  if -2 ^ 31 ≤ b.max + b.min ∧ b.max + b.min < 2 ^ 31 then .ok ((b.max + b.min).tdiv 2)
  else .error .overflow

/-- `Protocol[i].message`. -/
def message (table : List UInt32) (i : Int) : Except LookupFault UInt32 :=
  if 0 ≤ i then
    match table[i.toNat]? with
    | some message => .ok message
    | none => .error .bounds
  else .error .bounds

/-- The end of a pass, where the bounds must still be in order. -/
def narrow (b : Bounds) : Bounds ⊕ Lookup :=
  if b.min ≤ b.max then .inl b else .inr (.error .assertion)

/-- One pass of the loop of `find_handler`, while no signal is caught. -/
def findPass (table : List UInt32) (tag : UInt32) (b : Bounds) : Bounds ⊕ Lookup :=
  match midpoint b with
  | .error e => .inr (.error e)
  | .ok i =>
    match message table i with
    | .error e => .inr (.error e)
    | .ok m =>
      if tag = m then .inr (.ok i)
      else if b.min = b.max then .inr (.ok (-1))
      else if tag < m then
        if i = b.min then .inr (.ok (-1)) else narrow { b with max := i - 1 }
      else if i = b.max then .inr (.ok (-1))
      else narrow { b with min := i + 1 }

/-- The whole table; `Protocol_Size` is an `int`. -/
def wholeTable (table : List UInt32) : Bounds := { min := 0, max := toInt32 table.length - 1 }

/-- `find_handler` returns. -/
def FindHandler (table : List UInt32) (tag : UInt32) : Lookup → Prop :=
  Loop.Ends (findPass table tag) (wholeTable table)

/-- The loop of `find_handler` comes to these bounds. -/
def Searches (table : List UInt32) (tag : UInt32) : Bounds → Prop :=
  Loop.Comes (findPass table tag) (wholeTable table)

/-! ### One pass -/

/-- The bounds are in order and inside the table. -/
structure Inside (table : List UInt32) (b : Bounds) : Prop where
  min : 0 ≤ b.min
  order : b.min ≤ b.max
  max : b.max < table.length

section

variable {table : List UInt32} {tag : UInt32} {b : Bounds}

theorem midpoint_fits (h : Inside table b) (hFits : b.max + b.min < 2 ^ 31) :
    ∃ i : Nat, midpoint b = .ok i ∧ b.min ≤ i ∧ (i : Int) ≤ b.max ∧
      (b.min < b.max → (i : Int) < b.max) := by
  obtain ⟨hMin, hOrder, -⟩ := h
  have hTdiv : (b.max + b.min).tdiv 2 = (b.max + b.min) / 2 :=
    Int.tdiv_eq_ediv_of_nonneg (by omega)
  refine ⟨((b.max + b.min) / 2).toNat, ?_, by omega, by omega, fun hLess => by omega⟩
  rw [midpoint, if_pos ⟨by omega, hFits⟩, hTdiv]
  congr 1
  omega

theorem midpoint_overflows (h : 2 ^ 31 ≤ b.max + b.min) : midpoint b = .error .overflow :=
  if_neg fun hFits => absurd hFits.2 (Int.not_lt.2 h)

theorem message_ok {i : Nat} {m : UInt32} (h : table[i]? = some m) : message table i = .ok m := by
  rw [message, if_pos (Int.natCast_nonneg i), Int.toNat_natCast, h]

/-- What a pass does: it finds the tag, gives up, or goes on with one side. -/
inductive PassCases (table : List UInt32) (tag : UInt32) (b : Bounds) : Bounds ⊕ Lookup → Prop
  | overflow (h : 2 ^ 31 ≤ b.max + b.min) : PassCases table tag b (.inr (.error .overflow))
  | found {i : Nat} (hHere : table[i]? = some tag) (hFits : b.max + b.min < 2 ^ 31)
      (hBelow : b.min < b.max → (i : Int) < b.max) : PassCases table tag b (.inr (.ok i))
  | missing {i : Nat} {m : UInt32} (hHere : table[i]? = some m) (hNot : tag ≠ m)
      (hLow : b.min ≤ i) (hHigh : (i : Int) ≤ b.max)
      (hLeft : tag < m → (i : Int) = b.min) (hRight : m < tag → (i : Int) = b.max) :
      PassCases table tag b (.inr (.ok (-1)))
  | left {i : Nat} {m : UInt32} (hHere : table[i]? = some m) (hLess : tag < m) (hLow : b.min < i)
      (hHigh : (i : Int) ≤ b.max) : PassCases table tag b (.inl { b with max := i - 1 })
  | right {i : Nat} {m : UInt32} (hHere : table[i]? = some m) (hLess : m < tag) (hLow : b.min ≤ i)
      (hHigh : (i : Int) < b.max) : PassCases table tag b (.inl { b with min := i + 1 })

theorem pass_cases (h : Inside table b) (tag : UInt32) :
    PassCases table tag b (findPass table tag b) := by
  by_cases hFits : b.max + b.min < 2 ^ 31
  · obtain ⟨i, hMid, hLow, hHigh, hBelow⟩ := midpoint_fits h hFits
    have hMax := h.max
    have hOrder := h.order
    have hRange : i < table.length := by omega
    have hHere : table[i]? = some table[i] := List.getElem?_eq_getElem hRange
    generalize table[i] = m at hHere
    simp only [findPass, hMid, message_ok hHere]
    by_cases hTag : tag = m
    · rw [if_pos hTag]
      exact .found (hTag ▸ hHere) hFits hBelow
    · rw [if_neg hTag]
      by_cases hLast : b.min = b.max
      · rw [if_pos hLast]
        exact .missing hHere hTag hLow hHigh (fun _ => by omega) fun _ => by omega
      · rw [if_neg hLast]
        by_cases hLess : tag < m
        · rw [if_pos hLess]
          by_cases hEnd : (i : Int) = b.min
          · rw [if_pos hEnd]
            exact .missing hHere hTag hLow hHigh (fun _ => hEnd)
              fun hMore => absurd hMore (UInt32.lt_asymm hLess)
          · rw [if_neg hEnd, narrow, if_pos (show b.min ≤ (i : Int) - 1 by omega)]
            exact .left hHere hLess (by omega) hHigh
        · have hMore : m < tag := by
            rcases UInt32.lt_or_lt_of_ne hTag with hLt | hGt
            · exact absurd hLt hLess
            · exact hGt
          have hNotEnd : (i : Int) < b.max := hBelow (by omega)
          rw [if_neg hLess, if_neg (by omega), narrow, if_pos (show (i : Int) + 1 ≤ b.max by omega)]
          exact .right hHere hMore hLow hNotEnd
  · have hOver : 2 ^ 31 ≤ b.max + b.min := Int.not_lt.1 hFits
    simp only [findPass, midpoint_overflows hOver]
    exact .overflow hOver

/-- A pass that goes on stays inside the table and has less to search. -/
theorem Inside.next {c : Bounds} (h : Inside table b) (hPass : findPass table tag b = .inl c) :
    Inside table c ∧ (c.max - c.min).toNat < (b.max - b.min).toNat := by
  have hCases := pass_cases h tag
  obtain ⟨hMin, hOrder, hMax⟩ := h
  rw [hPass] at hCases
  cases hCases with
  | left hHere hLess hLow hHigh =>
    exact ⟨⟨hMin, by simp only; omega, by simp only; omega⟩, by simp only; omega⟩
  | right hHere hLess hLow hHigh =>
    exact ⟨⟨by simp only; omega, by simp only; omega, hMax⟩, by simp only; omega⟩

theorem Inside.start (hSome : table ≠ []) (hLength : table.length < 2 ^ 31) :
    Inside table (wholeTable table) := by
  have hPos : 0 < table.length := List.length_pos_of_ne_nil hSome
  have hSize : toInt32 table.length = table.length := toInt32_eq (by omega) (by omega)
  refine ⟨Int.le_refl 0, ?_, ?_⟩ <;> simp only [wholeTable, hSize] <;> omega

end

/-! ### The whole search -/

section

variable {table : List UInt32} {tag : UInt32} {b : Bounds}

theorem index_eq (hSorted : table.Pairwise (· < ·)) {i j : Nat} {m : UInt32}
    (hi : table[i]? = some m) (hj : table[j]? = some m) : i = j := by
  obtain ⟨hiLen, hi⟩ := List.getElem?_eq_some_iff.1 hi
  obtain ⟨hjLen, hj⟩ := List.getElem?_eq_some_iff.1 hj
  have hNodup : table.Nodup := hSorted.imp fun hLt => UInt32.ne_of_lt hLt
  exact hNodup.getElem_inj_iff.1 (hi.trans hj.symm)

theorem index_lt (hSorted : table.Pairwise (· < ·)) {i j : Nat} {m n : UInt32}
    (hi : table[i]? = some m) (hj : table[j]? = some n) (hLess : m < n) : i < j := by
  obtain ⟨hiLen, rfl⟩ := List.getElem?_eq_some_iff.1 hi
  obtain ⟨hjLen, rfl⟩ := List.getElem?_eq_some_iff.1 hj
  rcases Nat.lt_trichotomy i j with hLt | hEq | hGt
  · exact hLt
  · subst hEq
    exact absurd hLess (UInt32.lt_irrefl _)
  · have hBack := List.pairwise_iff_getElem.1 hSorted j i hjLen hiLen hGt
    exact absurd hLess (UInt32.lt_asymm hBack)

/-- The tag is nowhere else than between the bounds. -/
def Holds (table : List UInt32) (tag : UInt32) (b : Bounds) : Prop :=
  ∀ i : Nat, table[i]? = some tag → b.min ≤ i ∧ (i : Int) ≤ b.max

theorem Holds.next {c : Bounds} (hSorted : table.Pairwise (· < ·)) (hInside : Inside table b)
    (h : Holds table tag b) (hPass : findPass table tag b = .inl c) : Holds table tag c := by
  have hCases := pass_cases hInside tag
  rw [hPass] at hCases
  intro j hj
  have hOld := h j hj
  cases hCases with
  | left hHere hLess hLow hHigh =>
    have hBefore := index_lt hSorted hj hHere hLess
    exact ⟨hOld.1, by simp only; omega⟩
  | right hHere hLess hLow hHigh =>
    have hAfter := index_lt hSorted hHere hj hLess
    exact ⟨by simp only; omega, hOld.2⟩

/-- The index of the tag, or -1. -/
def Right (table : List UInt32) (tag : UInt32) (l : Int) : Prop :=
  (∀ i : Nat, table[i]? = some tag → l = i) ∧ (tag ∉ table → l = -1)

theorem pass_right (hSorted : table.Pairwise (· < ·)) (hInside : Inside table b)
    (hHolds : Holds table tag b) (hFits : b.max + b.min < 2 ^ 31) {r : Lookup}
    (hPass : findPass table tag b = .inr r) : ∃ l, r = .ok l ∧ Right table tag l := by
  have hCases := pass_cases hInside tag
  rw [hPass] at hCases
  cases hCases with
  | overflow hOver => omega
  | @found i hHere =>
    refine ⟨i, rfl, fun j hj => ?_, fun hNot => absurd (List.mem_of_getElem? hHere) hNot⟩
    rw [index_eq hSorted hHere hj]
  | @missing i m hHere hNot hLow hHigh hLeft hRight =>
    refine ⟨-1, rfl, fun j hj => ?_, fun _ => rfl⟩
    have hIn := hHolds j hj
    rcases UInt32.lt_or_lt_of_ne hNot with hLess | hMore
    · have hBefore := index_lt hSorted hj hHere hLess
      have hAt := hLeft hLess
      omega
    · have hAfter := index_lt hSorted hHere hj hMore
      have hAt := hRight hMore
      omega

theorem search_ends (hSorted : table.Pairwise (· < ·)) (hSome : table ≠ [])
    (hSmall : table.length ≤ 2 ^ 30) (tag : UInt32) :
    ∃ l, FindHandler table tag (.ok l) ∧ Right table tag l := by
  have hHolds : Holds table tag (wholeTable table) := by
    intro i hi
    obtain ⟨hLen, -⟩ := List.getElem?_eq_some_iff.1 hi
    have hSize : toInt32 table.length = table.length := toInt32_eq (by omega) (by omega)
    simp only [wholeTable, hSize]
    omega
  obtain ⟨r, hEnds, l, rfl, hRight⟩ := Loop.ends_of_measure
    (I := fun b => Inside table b ∧ Holds table tag b)
    (Q := fun r => ∃ l, r = .ok l ∧ Right table tag l) (fun b => (b.max - b.min).toNat)
    (fun b c h hPass => ⟨⟨(h.1.next hPass).1, h.2.next hSorted h.1 hPass⟩, (h.1.next hPass).2⟩)
    (fun b r h hPass => by
      obtain ⟨hMin, hOrder, hMax⟩ := h.1
      exact pass_right hSorted h.1 h.2 (by omega) hPass)
    ⟨Inside.start hSome (by omega), hHolds⟩
  exact ⟨l, hEnds, hRight⟩

/-- In a table that is in order and has so few entries that the sum of two indices fits an `int`, the
bounds of the search stay in order and inside the table, the search ends, and it returns the index of
the tag if the table has it and -1 if not. -/
theorem findHandler_spec (table : List UInt32) (hSorted : table.Pairwise (· < ·)) (hSome : table ≠ [])
    (hSmall : table.length ≤ 2 ^ 30) (tag : UInt32) :
    (∀ b, Searches table tag b → Inside table b) ∧
      ∃ l, FindHandler table tag (.ok l) ∧ Right table tag l := by
  refine ⟨fun b hSearches => ?_, search_ends hSorted hSome hSmall tag⟩
  exact Loop.Comes.invariant (fun b c h hPass => (h.next hPass).1) hSearches
    (Inside.start hSome (by omega))

/-- The search for the last entry of a longer table does not return: the bounds meet at the last index,
and twice that index does not fit an `int`. -/
theorem findHandler_overflows (hSorted : table.Pairwise (· < ·)) (hLong : 2 ^ 30 < table.length)
    (hLength : table.length < 2 ^ 31) (hLast : table[table.length - 1]? = some tag) (l : Int) :
    ¬ FindHandler table tag (.ok l) := by
  have hSome : table ≠ [] := by
    rintro rfl
    cases hLong
  have hSize : toInt32 table.length = table.length := toInt32_eq (by omega) (by omega)
  intro hEnds
  -- the right end stays where it is
  have hFault : ∀ r, Loop.Ends (findPass table tag) (wholeTable table) r → r = .error .overflow := by
    intro r hr
    refine hr.post (I := fun b => Inside table b ∧ b.max = table.length - 1)
      (Q := fun r => r = .error .overflow)
      (fun b c h hPass => ?_) (fun b r h hPass => ?_)
      ⟨Inside.start hSome hLength, by simp only [wholeTable, hSize]⟩
    · refine ⟨(h.1.next hPass).1, ?_⟩
      have hCases := pass_cases h.1 tag
      rw [hPass] at hCases
      cases hCases with
      | left hHere hLess hLow hHigh =>
        have hBefore := index_lt hSorted hLast hHere hLess
        have hMax := h.2
        omega
      | right => exact h.2
    · have hCases := pass_cases h.1 tag
      have hMax := h.2
      rw [hPass] at hCases
      cases hCases with
      | overflow => rfl
      | @found i hHere hFits hBelow =>
        have hAt := index_eq hSorted hHere hLast
        have hOrder := h.1.order
        omega
      | @missing i m hHere hNot hLow hHigh hLeft hRight =>
        rcases UInt32.lt_or_lt_of_ne hNot with hLess | hMore
        · have hBefore := index_lt hSorted hLast hHere hLess
          omega
        · have hAt := hRight hMore
          have hEnd : i = table.length - 1 := by omega
          rw [hEnd, hLast] at hHere
          exact absurd (Option.some.inj hHere) hNot
  cases hFault _ hEnds

end

/-- The first numbers in order. -/
def firstTags (n : Nat) : List UInt32 := (List.range n).map UInt32.ofNat

theorem firstTags_sorted {n : Nat} (h : n ≤ 2 ^ 32) : (firstTags n).Pairwise (· < ·) := by
  refine List.pairwise_map.2 ((List.pairwise_lt_range (n := n)).imp_of_mem fun hi hj hLess => ?_)
  rw [List.mem_range] at hi hj
  have hSize : UInt32.size = 2 ^ 32 := rfl
  rw [UInt32.lt_iff_toNat_lt, UInt32.toNat_ofNat_of_lt' (by omega), UInt32.toNat_ofNat_of_lt' (by omega)]
  exact hLess

/-- In a table with one entry more the last one is not found. -/
theorem long_table_fails : ¬ ∀ table : List UInt32, table.Pairwise (· < ·) → table ≠ [] →
    ∀ tag, (∀ b, Searches table tag b → Inside table b) ∧
      ∃ l, FindHandler table tag (.ok l) ∧ Right table tag l := by
  intro hAll
  have hLength : (firstTags (2 ^ 30 + 1)).length = 2 ^ 30 + 1 := by simp [firstTags]
  have hSorted : (firstTags (2 ^ 30 + 1)).Pairwise (· < ·) := firstTags_sorted (by decide)
  have hSome : firstTags (2 ^ 30 + 1) ≠ [] := List.ne_nil_of_length_pos (by omega)
  have hLast : (firstTags (2 ^ 30 + 1))[(firstTags (2 ^ 30 + 1)).length - 1]? =
      some (UInt32.ofNat (2 ^ 30)) := by
    rw [hLength]
    simp [firstTags]
  obtain ⟨-, l, hEnds, -⟩ := hAll _ hSorted hSome (UInt32.ofNat (2 ^ 30))
  exact findHandler_overflows hSorted (by omega) (by omega) hLast l hEnds

/-! ### The table of the server -/

/-- `Protocol`, without the handlers. -/
def protocol : List UInt32 :=
  [2, 6, 7, 11, 100, 102, 200, 203, 205, 207, 208, 211, 214, 215, 218, 219, 220, 221, 300, 303, 320,
    322, 323, 326, 400, 401, 402, 403, 404, 410, 420, 422, 423, 424, 500, 600, 603, 606, 607, 608, 610,
    611, 612, 613, 614, 615, 617, 619, 621, 622, 623, 625, 626, 627, 628, 652, 700, 701, 702, 703, 750,
    751, 752, 753, 800, 801, 810, 820, 821, 822, 823, 824, 826, 827, 829, 830, 831, 870, 10000, 10010,
    10011, 10012, 10013, 10014, 10015, 10016, 10017, 10018, 10019, 10020, 10021, 10100, 10101, 10110,
    10111, 10112, 10115, 10117, 10200, 10201, 10202, 10203, 10204, 10205, 10206, 10207, 10208, 10209,
    10210, 10211, 10212, 10213, 10214, 10300, 10301]

theorem protocol_sorted : protocol.Pairwise (· < ·) := by decide +kernel

/-- The message 606 is the 38th entry. -/
theorem findHandler_spec_level : FindHandler protocol 606 (.ok 37) := by
  obtain ⟨-, l, hEnds, hRight⟩ :=
    findHandler_spec protocol protocol_sorted (by decide) (by decide) 606
  have hIndex : l = (37 : Nat) := hRight.1 37 (by decide)
  rw [hIndex] at hEnds
  exact hEnds

/-- Every command of the model has an entry in the table. -/
theorem tag_mem_protocol (cmd : Command) : UInt32.ofNat cmd.tag ∈ protocol := by
  cases cmd <;> decide +kernel

/-- The search finds what a command is for. -/
theorem findHandler_command (cmd : Command) : ∃ i : Nat, FindHandler protocol (UInt32.ofNat cmd.tag)
    (.ok i) ∧ protocol[i]? = some (UInt32.ofNat cmd.tag) := by
  obtain ⟨i, hi⟩ := List.mem_iff_getElem?.1 (tag_mem_protocol cmd)
  obtain ⟨l, hEnds, hRight⟩ := search_ends protocol_sorted (by decide) (by decide)
    (UInt32.ofNat cmd.tag)
  refine ⟨i, ?_, hi⟩
  rw [← hRight.1 i hi]
  exact hEnds

end Handlers

end OpenNap
