import OpenNap.Hash
import OpenNap.Lib.EntryStack

/-! `hash.c` against the stack of entries that it keeps, over every sequence of operations. -/

namespace OpenNap

open CText Bucket

/-- `HASH`: the chains, and the number of elements, an `int`. -/
structure HashTable (V : Type) where
  table : NameTable V
  dbsize : Int

/-- An operation on a hash table. -/
abbrev HashOp (V : Type) := StackOp Str V

/-- `strcasecmp (key, he->key) == 0`. -/
abbrev sameName {V : Type} (key : Str) (e : Str × V) : Bool := Table.answers byName key e

namespace HashTable

variable {V : Type}

/-- `hash_init`, without the function that frees the data. -/
def hashInit (V : Type) (buckets : Nat) (h : 0 < buckets) : HashTable V :=
  { table := Table.empty byName V buckets h, dbsize := 0 }

/-- `hash_add`: the table afterwards, and what is returned. -/
def hashAdd (h : HashTable V) (key : Str) (data : V) : HashTable V × Int :=
  ({ table := h.table.add key data, dbsize := toInt32 (h.dbsize + 1) }, 0)

/-- `hash_lookup`: the data, or `none` for the null pointer. -/
def hashLookup (h : HashTable V) (key : Str) : Option V := h.table.lookup key

/-- `hash_remove`: the table afterwards, and what is returned. -/
def hashRemove (h : HashTable V) (key : Str) : HashTable V × Int :=
  match h.table.find key with
  | some _ => ({ table := h.table.remove key, dbsize := toInt32 (h.dbsize - 1) }, 0)
  | none => (h, -1)

/-- The table after an operation. -/
def step (h : HashTable V) : HashOp V → HashTable V
  | .add key data => (h.hashAdd key data).1
  | .remove key => (h.hashRemove key).1
  | .lookup _ => h

/-- The table after some operations. -/
def run (h : HashTable V) (ops : List (HashOp V)) : HashTable V := ops.foldl step h

/-- The table keeps the stack, and counts it. -/
structure Counts (h : HashTable V) (live : List (Str × V)) : Prop where
  keeps : h.table.Keeps live
  size : h.dbsize = toInt32 live.length

variable {h : HashTable V} {live : List (Str × V)}

theorem counts_hashInit (buckets : Nat) (hPos : 0 < buckets) :
    (hashInit V buckets hPos).Counts [] := by
  have hZero : toInt32 0 = 0 := toInt32_eq (by decide) (by decide)
  exact ⟨Table.keeps_empty buckets hPos, hZero.symm⟩

/-- One operation on the table is the operation on the stack. -/
theorem Counts.step (h0 : h.Counts live) (op : HashOp V) :
    (h.step op).Counts (stackStep byName live op) := by
  cases op with
  | add key data =>
    refine ⟨h0.keeps.add key data, ?_⟩
    simp only [HashTable.step, hashAdd, stackStep, h0.size, toInt32_add, List.length_cons,
      Int.natCast_add, Int.cast_ofNat_Int]
  | remove key =>
    have hFind := h0.keeps.find key
    simp only [HashTable.step, hashRemove, stackStep]
    cases hEntry : h.table.find key with
    | none =>
      rw [hEntry] at hFind
      rw [List.eraseP_of_forall_not (List.find?_eq_none.1 hFind.symm)]
      exact h0
    | some e =>
      rw [hEntry] at hFind
      refine ⟨h0.keeps.remove key, ?_⟩
      have hLen := (Lists.perm_eraseP_of_find hFind.symm).length_eq
      rw [List.length_cons] at hLen
      have hLess : (live.length : Int) + -1 =
          ((live.eraseP (Table.answers byName key)).length : Int) := by
        omega
      simp only [h0.size, Int.sub_eq_add_neg, toInt32_add, hLess]
  | lookup key => exact h0

theorem Counts.run (h0 : h.Counts live) (ops : List (HashOp V)) :
    (h.run ops).Counts (ops.foldl (stackStep byName) live) := by
  induction ops generalizing h live with
  | nil => exact h0
  | cons op ops ih => exact ih (h0.step op)

/-- The table that some operations make of an empty one. -/
theorem counts_run (buckets : Nat) (hPos : 0 < buckets) (ops : List (HashOp V)) :
    ((hashInit V buckets hPos).run ops).Counts (liveEntries byName ops) :=
  (counts_hashInit buckets hPos).run ops

theorem Counts.lookup (h0 : h.Counts live) (key : Str) :
    h.hashLookup key = (live.find? (sameName key)).map Prod.snd := by
  rw [hashLookup, Table.lookup, h0.keeps.find]

theorem Counts.reply (h0 : h.Counts live) (key : Str) :
    (h.hashRemove key).2 = if (live.find? (sameName key)).isSome then 0 else -1 := by
  have hFind := h0.keeps.find key
  rw [hashRemove]
  cases hEntry : h.table.find key with
  | none =>
    rw [hEntry] at hFind
    rw [← hFind]
    rfl
  | some e =>
    rw [hEntry] at hFind
    rw [← hFind]
    rfl

/-- The table is a map that ignores case: a search finds the entry that was added last of those that
were not removed, a removal takes that one out and says so, every other entry is untouched, and the
size is the number of entries as long as an `int` holds it. -/
theorem run_refines (buckets : Nat) (hPos : 0 < buckets) (ops : List (HashOp V)) (key : Str) :
    let h := (hashInit V buckets hPos).run ops
    let live := liveEntries byName ops
    h.table.entries.Perm live ∧
      h.hashLookup key = (live.find? (sameName key)).map Prod.snd ∧
      (h.hashRemove key).2 = (if live.any (sameName key) then 0 else -1) ∧
      (h.hashRemove key).1.table.entries.Perm (live.eraseP (sameName key)) ∧
      (live.length < 2 ^ 31 → h.dbsize = live.length) ∧
      h.hashLookup key = ((hashInit V buckets hPos).run
        (ops.filter (StackOp.concerns byName key))).hashLookup key ∧
      (h.hashRemove key).2 = (((hashInit V buckets hPos).run
        (ops.filter (StackOp.concerns byName key))).hashRemove key).2 := by
  intro h live
  have hRun : h.Counts live := counts_run buckets hPos ops
  have hAlone := counts_run (V := V) buckets hPos (ops.filter (StackOp.concerns byName key))
  refine ⟨hRun.keeps.entries, hRun.lookup key, ?_, (hRun.step (.remove key)).keeps.entries,
    fun hSmall => ?_, ?_, ?_⟩
  · rw [hRun.reply, Bool.eq_iff_iff.2 (List.find?_isSome.trans List.any_eq_true.symm)]
  · rw [hRun.size, toInt32_eq (by omega) (by omega)]
  · rw [hRun.lookup, hAlone.lookup, find_liveEntries]
  · rw [hRun.reply, hAlone.reply, find_liveEntries]

theorem run_refines_two :
    ((hashInit Nat 257 pos_257).run [.add (str "joe") 1, .add (str "JOE") 2]).hashLookup
      (str "Joe") = some 2 :=
  (run_refines 257 pos_257 [.add (str "joe") 1, .add (str "JOE") 2] (str "Joe")).2.1

theorem length_adds (key : Str) (data : V) (n : Nat) (live : List (Str × V)) :
    ((List.replicate n (StackOp.add key data)).foldl (stackStep byName) live).length =
      n + live.length := by
  induction n generalizing live with
  | zero => simp
  | succ n ih =>
    rw [List.replicate_succ, List.foldl_cons, ih, stackStep, List.length_cons]
    omega

/-- With 2 ^ 31 entries the size is not their number. -/
theorem dbsize_overflows :
    ¬ ∀ (buckets : Nat) (hPos : 0 < buckets) (ops : List (HashOp Nat)),
      ((hashInit Nat buckets hPos).run ops).dbsize = (liveEntries byName ops).length := by
  intro hAll
  have hSize := hAll 1 Nat.one_pos (List.replicate (2 ^ 31) (.add (str "a") 1))
  rw [(counts_run 1 Nat.one_pos _).size, liveEntries, length_adds, List.length_nil] at hSize
  revert hSize
  decide

end HashTable

end OpenNap
