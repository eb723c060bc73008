import Mathlib.Data.List.Basic
import Mathlib.Data.List.Nodup
import Mathlib.Data.List.Perm.Basic
import OpenNap.Lib.Lists

/-! Chained hash tables.  A table spreads its entries over a fixed number of chains; a new entry
goes to the front of its chain, and a search or a removal takes the first entry of the chain whose
key compares equal.  Nothing stops two entries from having equal keys: `Distinct` says when that
has not happened. -/

namespace Bucket

variable {K N V : Type}

/-- How keys are compared and spread: two keys are equal when their normal forms are, and the
normal form decides the hash value. -/
structure Scheme (K N : Type) where
  norm : K → N
  hash : N → Nat

/-- A chained table.  An entry is only ever in the chain of its key. -/
structure Table (scheme : Scheme K N) (V : Type) where
  buckets : Nat
  positive : 0 < buckets
  chain : Nat → List (K × V)
  placed : ∀ i, ∀ e ∈ chain i, scheme.hash (scheme.norm e.1) % buckets = i

variable {scheme : Scheme K N}

namespace Table

/-- The chain of a key. -/
def slot (t : Table scheme V) (key : K) : Nat := scheme.hash (scheme.norm key) % t.buckets

theorem slot_lt (t : Table scheme V) (key : K) : t.slot key < t.buckets :=
  Nat.mod_lt _ t.positive

theorem slot_congr (t : Table scheme V) {j k : K} (h : scheme.norm j = scheme.norm k) :
    t.slot j = t.slot k := by
  simp only [slot, h]

/-- A table of `n` chains without entries. -/
def empty (scheme : Scheme K N) (V : Type) (n : Nat) (h : 0 < n) : Table scheme V where
  buckets := n
  positive := h
  chain := fun _ => []
  placed := by simp

/-- Every entry, in the order in which the chains are walked. -/
def entries (t : Table scheme V) : List (K × V) := (List.range t.buckets).flatMap t.chain

/-- Every value, in the order in which the chains are walked. -/
def values (t : Table scheme V) : List V := t.entries.map Prod.snd

@[simp] theorem entries_empty (n : Nat) (h : 0 < n) : (empty scheme V n h).entries = [] := by
  simp [entries, empty]

@[simp] theorem values_empty (n : Nat) (h : 0 < n) : (empty scheme V n h).values = [] := by
  simp [values]

theorem mem_entries {t : Table scheme V} {e : K × V} :
    e ∈ t.entries ↔ e ∈ t.chain (t.slot e.1) := by
  constructor
  · intro h
    obtain ⟨i, -, he⟩ := List.mem_flatMap.1 h
    have hi : t.slot e.1 = i := t.placed i e he
    rw [hi]
    exact he
  · intro h
    exact List.mem_flatMap.2 ⟨t.slot e.1, List.mem_range.2 (t.slot_lt _), h⟩

theorem mem_values {t : Table scheme V} {v : V} : v ∈ t.values ↔ ∃ k, (k, v) ∈ t.entries := by
  simp [values]

/-- The table with a new entry at the front of its chain. -/
def add (t : Table scheme V) (key : K) (value : V) : Table scheme V where
  buckets := t.buckets
  positive := t.positive
  chain := fun i => if i = t.slot key then (key, value) :: t.chain i else t.chain i
  placed := by
    intro i e he
    split at he
    · rename_i hi
      rcases List.mem_cons.1 he with rfl | he
      · exact hi.symm
      · exact t.placed i e he
    · exact t.placed i e he

/-- Changing one chain of a walk by one entry changes the walk by that entry. -/
theorem flatMap_perm_cons {α : Type} {f g : Nat → List α} {i : Nat} {a : α} {l : List Nat}
    (hl : l.Nodup) (hi : i ∈ l) (hSame : ∀ j, j ≠ i → f j = g j) (hHere : (f i).Perm (a :: g i)) :
    (l.flatMap f).Perm (a :: l.flatMap g) := by
  induction l with
  | nil => cases hi
  | cons j js ih =>
    obtain ⟨hj, hjs⟩ := List.nodup_cons.1 hl
    simp only [List.flatMap_cons]
    by_cases hEq : j = i
    · subst hEq
      have hRest : js.flatMap f = js.flatMap g :=
        List.flatMap_congr fun k hk => hSame k fun hkj => hj (hkj ▸ hk)
      rw [hRest]
      exact hHere.append_right _
    · have hi' : i ∈ js := by
        rcases List.mem_cons.1 hi with h | h
        · exact absurd h.symm hEq
        · exact h
      rw [hSame j hEq]
      exact ((ih hjs hi').append_left _).trans List.perm_middle

theorem entries_add (t : Table scheme V) (key : K) (value : V) :
    (t.add key value).entries.Perm ((key, value) :: t.entries) := by
  refine flatMap_perm_cons List.nodup_range (List.mem_range.2 (t.slot_lt key)) ?_ ?_
  · intro j hj
    simp [add, hj]
  · simp [add]

theorem values_add (t : Table scheme V) (key : K) (value : V) :
    (t.add key value).values.Perm (value :: t.values) :=
  (t.entries_add key value).map Prod.snd

/-- No two entries have equal keys. -/
def Distinct (t : Table scheme V) : Prop := (t.entries.map fun e => scheme.norm e.1).Nodup

theorem distinct_empty (n : Nat) (h : 0 < n) : (empty scheme V n h).Distinct := by
  simp [Distinct]

theorem Distinct.eq_of_mem {t : Table scheme V} (h : t.Distinct) {e f : K × V}
    (he : e ∈ t.entries) (hf : f ∈ t.entries) (hEq : scheme.norm e.1 = scheme.norm f.1) : e = f :=
  List.inj_on_of_nodup_map h he hf hEq

variable [DecidableEq N]

/-- Whether an entry answers a search for `key`. -/
def answers (scheme : Scheme K N) (key : K) (e : K × V) : Bool :=
  scheme.norm e.1 == scheme.norm key

@[simp] theorem answers_iff {key : K} {e : K × V} :
    answers scheme key e = true ↔ scheme.norm e.1 = scheme.norm key := by
  simp [answers]

/-- The entry that a search for `key` meets first. -/
def find (t : Table scheme V) (key : K) : Option (K × V) :=
  (t.chain (t.slot key)).find? (answers scheme key)

/-- The value that a search for `key` meets first. -/
def lookup (t : Table scheme V) (key : K) : Option V := (t.find key).map Prod.snd

/-- The table without the first entry that answers a search for `key`. -/
def remove (t : Table scheme V) (key : K) : Table scheme V where
  buckets := t.buckets
  positive := t.positive
  chain := fun i =>
    if i = t.slot key then (t.chain i).eraseP (answers scheme key) else t.chain i
  placed := by
    intro i e he
    split at he
    · exact t.placed i e (List.mem_of_mem_eraseP he)
    · exact t.placed i e he

theorem find_some {t : Table scheme V} {key : K} {e : K × V} (h : t.find key = some e) :
    e ∈ t.entries ∧ scheme.norm e.1 = scheme.norm key := by
  have hKey : scheme.norm e.1 = scheme.norm key := answers_iff.1 (List.find?_some h)
  refine ⟨mem_entries.2 ?_, hKey⟩
  rw [t.slot_congr hKey]
  exact List.mem_of_find?_eq_some h

theorem find_eq_none {t : Table scheme V} {key : K} :
    t.find key = none ↔ ∀ e ∈ t.entries, scheme.norm e.1 ≠ scheme.norm key := by
  rw [find, List.find?_eq_none]
  constructor
  · intro h e he hKey
    refine h e ?_ (answers_iff.2 hKey)
    rw [← t.slot_congr hKey]
    exact mem_entries.1 he
  · intro h e he hKey
    have hNorm := answers_iff.1 hKey
    refine h e (mem_entries.2 ?_) hNorm
    rw [t.slot_congr hNorm]
    exact he

theorem lookup_eq_none {t : Table scheme V} {key : K} :
    t.lookup key = none ↔ ∀ e ∈ t.entries, scheme.norm e.1 ≠ scheme.norm key := by
  rw [lookup, Option.map_eq_none_iff, find_eq_none]

theorem lookup_some {t : Table scheme V} {key : K} {v : V} (h : t.lookup key = some v) :
    ∃ k, (k, v) ∈ t.entries ∧ scheme.norm k = scheme.norm key := by
  obtain ⟨⟨k, w⟩, hFind, rfl⟩ := Option.map_eq_some_iff.1 h
  exact ⟨k, find_some hFind⟩

theorem mem_values_of_lookup {t : Table scheme V} {key : K} {v : V} (h : t.lookup key = some v) :
    v ∈ t.values := by
  obtain ⟨k, hk, -⟩ := lookup_some h
  exact mem_values.2 ⟨k, hk⟩

theorem lookup_congr {t : Table scheme V} {j k : K} (h : scheme.norm j = scheme.norm k) :
    t.lookup j = t.lookup k := by
  have hAnswers : answers scheme (V := V) j = answers scheme k := by
    funext e
    simp only [answers, h]
  simp only [lookup, find, t.slot_congr h, hAnswers]

theorem find_add (t : Table scheme V) (key : K) (value : V) (j : K) :
    (t.add key value).find j =
      if scheme.norm key = scheme.norm j then some (key, value) else t.find j := by
  have hSlot : (t.add key value).slot j = t.slot j := rfl
  rw [find, hSlot]
  by_cases hKey : scheme.norm key = scheme.norm j
  · have hEq : t.slot j = t.slot key := (t.slot_congr hKey).symm
    simp [add, hEq, answers, hKey]
  · by_cases hEq : t.slot j = t.slot key
    · simp [add, hEq, answers, hKey, find]
    · simp [add, hEq, hKey, find]

theorem lookup_add (t : Table scheme V) (key : K) (value : V) (j : K) :
    (t.add key value).lookup j =
      if scheme.norm key = scheme.norm j then some value else t.lookup j := by
  simp only [lookup, find_add]
  split <;> rfl

theorem find_remove_of_ne (t : Table scheme V) {key j : K} (h : scheme.norm key ≠ scheme.norm j) :
    (t.remove key).find j = t.find j := by
  have hSlot : (t.remove key).slot j = t.slot j := rfl
  rw [find, hSlot, find]
  by_cases hEq : t.slot j = t.slot key
  · simp only [remove, hEq, if_true]
    induction t.chain (t.slot key) with
    | nil => rfl
    | cons e es ih =>
      by_cases he : answers scheme key e = true
      · have hj : answers scheme j e = false := by
          have := answers_iff.1 he
          simp [answers, this, h]
        simp [he, hj]
      · rw [List.eraseP_cons_of_neg (by simpa using he), List.find?_cons, List.find?_cons, ih]
  · simp [remove, hEq]

theorem lookup_remove_of_ne (t : Table scheme V) {key j : K}
    (h : scheme.norm key ≠ scheme.norm j) : (t.remove key).lookup j = t.lookup j := by
  simp only [lookup, t.find_remove_of_ne h]

theorem remove_of_find_none {t : Table scheme V} {key : K} (h : t.find key = none) :
    t.remove key = t := by
  have hChain : (t.remove key).chain = t.chain := by
    funext i
    by_cases hi : i = t.slot key
    · subst hi
      simp only [remove, if_true]
      exact List.eraseP_of_forall_not fun e he => by
        simpa using List.find?_eq_none.1 h e he
    · simp [remove, hi]
  cases t
  simp only [remove] at hChain ⊢
  congr

theorem entries_remove {t : Table scheme V} {key : K} {e : K × V} (h : t.find key = some e) :
    t.entries.Perm (e :: (t.remove key).entries) := by
  refine flatMap_perm_cons List.nodup_range (List.mem_range.2 (t.slot_lt key)) ?_ ?_
  · intro j hj
    simp [remove, hj]
  · simp only [remove, if_true]
    exact Lists.perm_eraseP_of_find h

theorem values_remove {t : Table scheme V} {key : K} {v : V} (h : t.lookup key = some v) :
    t.values.Perm (v :: (t.remove key).values) := by
  obtain ⟨e, hFind, rfl⟩ := Option.map_eq_some_iff.1 h
  exact (entries_remove hFind).map Prod.snd

theorem mem_entries_of_mem_remove {t : Table scheme V} {key : K} {e : K × V}
    (h : e ∈ (t.remove key).entries) : e ∈ t.entries := by
  cases hFind : t.find key with
  | none => rwa [remove_of_find_none hFind] at h
  | some found => exact (entries_remove hFind).mem_iff.2 (List.mem_cons_of_mem _ h)

theorem mem_values_of_mem_remove {t : Table scheme V} {key : K} {v : V}
    (h : v ∈ (t.remove key).values) : v ∈ t.values := by
  obtain ⟨k, hk⟩ := mem_values.1 h
  exact mem_values.2 ⟨k, mem_entries_of_mem_remove hk⟩

/-- An entry under another key stays. -/
theorem mem_remove_of_ne {t : Table scheme V} {key : K} {e : K × V} (h : e ∈ t.entries)
    (hKey : scheme.norm e.1 ≠ scheme.norm key) : e ∈ (t.remove key).entries := by
  cases hFind : t.find key with
  | none => rwa [remove_of_find_none hFind]
  | some found =>
    rcases List.mem_cons.1 ((entries_remove hFind).mem_iff.1 h) with rfl | h
    · exact absurd (find_some hFind).2 hKey
    · exact h

/-! ### Tables without equal keys -/

theorem Distinct.add {t : Table scheme V} (h : t.Distinct) {key : K} (hNone : t.find key = none)
    (value : V) : (t.add key value).Distinct := by
  have hPerm := (t.entries_add key value).map fun e => scheme.norm e.1
  refine hPerm.nodup_iff.2 (List.nodup_cons.2 ⟨?_, h⟩)
  intro hMem
  obtain ⟨e, he, hEq⟩ := List.mem_map.1 hMem
  exact find_eq_none.1 hNone e he hEq

theorem Distinct.remove {t : Table scheme V} (h : t.Distinct) (key : K) :
    (t.remove key).Distinct := by
  cases hFind : t.find key with
  | none => rwa [remove_of_find_none hFind]
  | some e =>
    have hPerm := (entries_remove hFind).map fun e => scheme.norm e.1
    exact (List.nodup_cons.1 (hPerm.nodup_iff.1 h)).2

theorem Distinct.find {t : Table scheme V} (h : t.Distinct) {key : K} {e : K × V}
    (he : e ∈ t.entries) (hKey : scheme.norm e.1 = scheme.norm key) : t.find key = some e := by
  cases hFind : t.find key with
  | none => exact absurd hKey (find_eq_none.1 hFind e he)
  | some f =>
    obtain ⟨hf, hNorm⟩ := find_some hFind
    rw [h.eq_of_mem hf he (hNorm.trans hKey.symm)]

theorem Distinct.lookup {t : Table scheme V} (h : t.Distinct) {key k : K} {v : V}
    (he : (k, v) ∈ t.entries) (hKey : scheme.norm k = scheme.norm key) : t.lookup key = some v := by
  rw [Table.lookup, h.find he hKey]
  rfl

theorem Distinct.find_remove {t : Table scheme V} (h : t.Distinct) (key : K) :
    (t.remove key).find key = none := by
  cases hFind : t.find key with
  | none => rw [remove_of_find_none hFind, hFind]
  | some e =>
    rw [find_eq_none]
    intro f hf hEq
    have hPerm := (entries_remove hFind).map fun e => scheme.norm e.1
    have hNot := (List.nodup_cons.1 (hPerm.nodup_iff.1 h)).1
    refine hNot ?_
    have hSame : scheme.norm e.1 = scheme.norm f.1 := (find_some hFind).2.trans hEq.symm
    simp only [hSame]
    exact List.mem_map_of_mem (f := fun e => scheme.norm e.1) hf

/-- The entries left by a removal are those under other keys. -/
theorem Distinct.mem_remove {t : Table scheme V} (h : t.Distinct) {key : K} {e : K × V} :
    e ∈ (t.remove key).entries ↔ e ∈ t.entries ∧ scheme.norm e.1 ≠ scheme.norm key := by
  constructor
  · intro he
    exact ⟨mem_entries_of_mem_remove he, find_eq_none.1 (h.find_remove key) e he⟩
  · intro he
    exact mem_remove_of_ne he.1 he.2

end Table

end Bucket
