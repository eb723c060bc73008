import OpenNap.HashTable
import OpenNap.Lib.Chain

/-! `hash.c` with its entries in memory: a table is an array of pointers to linked `HASHENT`s.  Each
operation on the cells is the operation of the same name on the table, and `hash_foreach` goes through
all entries although its callback may remove the one that it is called with. -/

namespace OpenNap

open CText Bucket Chain

/-! ### The code -/

/-- `HASH`, with `bucket` and the entries in `store`.  What frees the data of an entry is left out. -/
structure Hash (V : Type) where
  numbuckets : Nat
  store : Store (Str × V)
  dbsize : Int

namespace Hash

variable {V σ : Type}

/-- The index into `bucket` of a key. -/
def sum (h : Hash V) (key : Str) : Nat := hashString (strlower key) % h.numbuckets

/-- `hash_add`, with the address that `CALLOC` gives. -/
def hashAdd (h : Hash V) (he : Nat) (key : Str) (data : V) : Hash V :=
  { h with store := h.store.push (h.sum key) he (key, data), dbsize := toInt32 (h.dbsize + 1) }

/-- The loop of `hash_remove`, with so much fuel: the table afterwards, and what is returned.  `none` is
a fault. -/
def removeLoop (h : Hash V) (key : Str) : Nat → Slot → Option (Hash V × Int)
  | 0, _ => none
  | fuel + 1, he => do
    match ← h.store.read he with
    | none => return (h, -1)
    | some p =>
      let entry ← h.store.cell p
      if sameText key entry.data.1 then
        let ptr := entry.next
        let store := h.store.free p
        let dbsize := toInt32 (h.dbsize - 1)
        let store ← store.write he ptr
        return ({ h with store := store, dbsize := dbsize }, 0)
      else removeLoop h key fuel (.next p)

/-- `hash_remove`. -/
def hashRemove (fuel : Nat) (h : Hash V) (key : Str) : Option (Hash V × Int) :=
  h.removeLoop key fuel (.head (h.sum key))

/-- Where `hash_foreach` is: `funcdata`, the table, and, for the record, the data that the callback was
called with and the keys that it gave to `hash_remove`. -/
structure Walk (σ V : Type) where
  funcdata : σ
  table : Hash V
  calls : List V := []
  removals : List Str := []

/-- A callback: it changes `funcdata`, and calls `hash_remove` for some keys. -/
abbrev Func (σ V : Type) := σ → Hash V → V → σ × List Str

/-- Some calls of `hash_remove`. -/
def removeAll (fuel : Nat) : Hash V → List Str → Option (Hash V)
  | h, [] => some h
  | h, key :: keys => do
    let (h, _) ← h.hashRemove fuel key
    removeAll fuel h keys

/-- `func (ptr->data, funcdata)`. -/
def callBack (func : Func σ V) (fuel : Nat) (w : Walk σ V) (data : V) : Option (Walk σ V) := do
  let (funcdata, keys) := func w.funcdata w.table data
  let table ← removeAll fuel w.table keys
  return ⟨funcdata, table, w.calls ++ [data], w.removals ++ keys⟩

theorem callBack_eq (func : Func σ V) (fuel : Nat) (w : Walk σ V) (data : V) :
    callBack func fuel w data =
      (removeAll fuel w.table (func w.funcdata w.table data).2).map fun table =>
        ⟨(func w.funcdata w.table data).1, table, w.calls ++ [data],
          w.removals ++ (func w.funcdata w.table data).2⟩ := by
  rw [callBack]
  cases func w.funcdata w.table data with
  | mk funcdata keys =>
    simp only [Option.bind_eq_bind, Option.map_eq_bind]
    rfl

/-- The loop of `hash_foreach` over one bucket. -/
def chainLoop (func : Func σ V) (limit : Nat) : Nat → Option Nat → Walk σ V → Option (Walk σ V)
  | 0, _, _ => none
  | _ + 1, none, w => some w
  | fuel + 1, some ptr, w => do
    let entry ← w.table.store.cell ptr
    -- read before the callback may free the entry
    let he := entry.next
    let w ← callBack func limit w entry.data.2
    chainLoop func limit fuel he w

/-- `hash_foreach`. -/
def hashForeach (func : Func σ V) (limit : Nat) (w : Walk σ V) : Option (Walk σ V) :=
  (List.range w.table.numbuckets).foldlM
    (fun w i => chainLoop func limit limit (w.table.store.head i) w) w

/-! ### The tables that a store holds -/

/-- The cells of the table hold these entries. -/
structure Laid (h : Hash V) (t : HashTable V) (lists : Nat → List (Nat × (Str × V))) : Prop where
  numbuckets : h.numbuckets = t.table.buckets
  dbsize : h.dbsize = t.dbsize
  holds : Holds h.store h.numbuckets lists
  chain : ∀ i < h.numbuckets, (lists i).map Prod.snd = t.table.chain i

/-- The table in memory is that table. -/
def Stores (h : Hash V) (t : HashTable V) : Prop := ∃ lists, Laid h t lists

/-- Whether `hash_remove` takes the entry of a cell for the one with the key. -/
def named (key : Str) (c : Nat × (Str × V)) : Bool := sameText key c.2.1

variable {h : Hash V} {t : HashTable V} {lists : Nat → List (Nat × (Str × V))} {key : Str}

theorem answers_eq_named (key : Str) (c : Nat × (Str × V)) :
    Table.answers byName key c.2 = named key c := by
  rw [Bool.eq_iff_iff, Table.answers_iff, named, sameText_iff]
  exact eq_comm

/-- `hash_remove` behind a slot: it takes out the first entry with the key, or finds none. -/
theorem removeLoop_behind {l : List (Nat × (Str × V))} {he : Slot} {fuel : Nat} (key : Str)
    (hBehind : Behind h.store he l) (hFuel : l.length < fuel) :
    ∃ store, Unlinks h.store store he l (l.eraseP (named key)) ∧
      h.removeLoop key fuel he =
        if l.any (named key) then some ({ h with store := store, dbsize := toInt32 (h.dbsize - 1) }, 0)
        else some (h, -1) := by
  induction l generalizing he fuel with
  | nil =>
    obtain ⟨fuel, rfl⟩ : ∃ n, fuel = n + 1 := ⟨fuel - 1, by omega⟩
    refine ⟨h.store, hBehind.refl, ?_⟩
    rw [removeLoop, hBehind.read]
    rfl
  | cons c l ih =>
    obtain ⟨p, e⟩ := c
    obtain ⟨fuel, rfl⟩ : ∃ n, fuel = n + 1 := ⟨fuel - 1, by omega⟩
    have hCell := hBehind.linked.1
    rw [removeLoop, hBehind.read, List.any_cons]
    cases hNamed : named key (p, e) with
    | true =>
      obtain ⟨store, hWrite, hUnlinks⟩ := hBehind.unlink
      refine ⟨store, ?_, ?_⟩
      · rw [List.eraseP_cons_of_pos hNamed]
        exact hUnlinks
      · have hText : sameText key e.1 = true := hNamed
        simp only [first_cons, Option.bind_eq_bind, Option.bind_some, hCell, hText, if_true, hWrite,
          Bool.true_or]
        rfl
    | false =>
      obtain ⟨store, hUnlinks, hRest⟩ := ih hBehind.next (Nat.lt_of_succ_lt_succ hFuel)
      refine ⟨store, ?_, ?_⟩
      · rw [List.eraseP_cons_of_neg (by simp [hNamed])]
        exact hBehind.keep hUnlinks
      · have hText : sameText key e.1 = false := hNamed
        simp only [first_cons, Option.bind_eq_bind, Option.bind_some, hCell, hText,
          Bool.false_eq_true, if_false, Bool.false_or]
        exact hRest

/-- `hash_remove` on the cells is `hash_remove` on the table. -/
theorem Laid.hashRemove (hLaid : Laid h t lists) {fuel : Nat} (key : Str)
    (hFuel : ∀ i < h.numbuckets, (lists i).length < fuel) :
    ∃ after, h.hashRemove fuel key = some (after, (t.hashRemove key).2) ∧
      Laid after (t.hashRemove key).1
        (Function.update lists (h.sum key) ((lists (h.sum key)).eraseP (named key))) := by
  have hSum : h.sum key = t.table.slot key := by
    rw [sum, hLaid.numbuckets]
    rfl
  have hLess : h.sum key < h.numbuckets := by
    rw [hSum, hLaid.numbuckets]
    exact t.table.slot_lt key
  have hChain := hLaid.chain _ hLess
  obtain ⟨store, hUnlinks, hRun⟩ := removeLoop_behind key (hLaid.holds.behind hLess) (hFuel _ hLess)
  have hAny : (lists (h.sum key)).any (named key) = (t.table.find key).isSome := by
    rw [Table.find, List.isSome_find?, ← hSum, ← hChain, List.any_map]
    congr 1
    funext c
    exact (answers_eq_named key c).symm
  rw [HashTable.hashRemove]
  cases hFind : t.table.find key with
  | none =>
    rw [hFind] at hAny
    have hNone : (lists (h.sum key)).eraseP (named key) = lists (h.sum key) :=
      List.eraseP_of_forall_not fun c hc => by
        simpa using List.any_eq_false.1 hAny c hc
    rw [hAny] at hRun
    refine ⟨h, hRun, ?_⟩
    rw [hNone, Function.update_eq_self]
    exact hLaid
  | some e =>
    rw [hFind] at hAny
    rw [hAny] at hRun
    refine ⟨_, hRun, hLaid.numbuckets, congrArg (fun d => toInt32 (d - 1)) hLaid.dbsize,
      hLaid.holds.unlinks hLess hUnlinks List.eraseP_sublist, fun i hi => ?_⟩
    by_cases hSame : i = h.sum key
    · subst hSame
      rw [Function.update_self]
      simp only [Table.remove, hSum, if_true]
      rw [← hSum, ← hChain, List.eraseP_map]
      congr 2
      funext c
      exact (answers_eq_named key c).symm
    · rw [Function.update_of_ne hSame, hLaid.chain i hi]
      simp only [Table.remove, ← hSum, if_neg hSame]

/-- `hash_add` on the cells is `hash_add` on the table. -/
theorem Stores.hashAdd (hStores : Stores h t) {he : Nat} (hFresh : h.store.cell he = none) (key : Str)
    (data : V) : Stores (h.hashAdd he key data) (t.hashAdd key data).1 := by
  obtain ⟨lists, hLaid⟩ := hStores
  have hSum : h.sum key = t.table.slot key := by
    rw [sum, hLaid.numbuckets]
    rfl
  refine ⟨_, hLaid.numbuckets, congrArg (fun d => toInt32 (d + 1)) hLaid.dbsize,
    hLaid.holds.push hFresh, fun i hi => ?_⟩
  by_cases hSame : i = h.sum key
  · subst hSame
    rw [Function.update_self, List.map_cons, hLaid.chain _ hi]
    simp only [HashTable.hashAdd, Table.add, hSum, if_true]
  · rw [Function.update_of_ne hSame, hLaid.chain i hi]
    simp only [HashTable.hashAdd, Table.add, ← hSum, if_neg hSame]

/-- `hash_init`: the pointers are null and there are no entries. -/
def hashInit (V : Type) (buckets : Nat) : Hash V where
  numbuckets := buckets
  store := { head := fun _ => none, cell := fun _ => none }
  dbsize := 0

theorem stores_hashInit (buckets : Nat) (hPos : 0 < buckets) :
    Stores (hashInit V buckets) (HashTable.hashInit V buckets hPos) :=
  ⟨fun _ => [], rfl, rfl, ⟨fun _ _ => rfl, fun _ _ => trivial, fun _ _ => List.nodup_nil,
    fun _ _ _ _ _ _ hc => absurd hc List.not_mem_nil⟩, fun _ _ => rfl⟩

/-! ### Removals by the callback -/

section

variable {T : NameTable V} {i limit : Nat} {c : Nat × (Str × V)} {todo rest : List (Nat × (Str × V))}

/-- Where the walk over bucket `i` is: what is to come there, and all later buckets, are as they were in
the table `T` at the start. -/
structure Ahead (T : NameTable V) (limit i : Nat) (todo : List (Nat × (Str × V))) (h : Hash V)
    (t : HashTable V) (lists : Nat → List (Nat × (Str × V))) : Prop where
  laid : Laid h t lists
  numbuckets : h.numbuckets = T.buckets
  inside : i < T.buckets
  here : ∃ done, lists i = done ++ todo
  whole : ∃ seen, T.chain i = seen ++ todo.map Prod.snd
  later : ∀ j, i < j → j < T.buckets → (lists j).map Prod.snd = T.chain j
  short : ∀ j < T.buckets, (lists j).length < limit

/-- A key that names no entry that is to come. -/
structure Spares (T : NameTable V) (i : Nat) (todo : List (Nat × (Str × V))) (key : Str) : Prop where
  here : ∀ d ∈ todo, named key d = false
  later : ∀ j, i < j → ∀ e ∈ T.chain j, sameText key e.1 = false

/-- `hash_remove` with such a key leaves alone what is to come. -/
theorem Ahead.hashRemove (hAhead : Ahead T limit i todo h t lists) (hSpares : Spares T i todo key) :
    ∃ after lists', h.hashRemove limit key = some (after, (t.hashRemove key).2) ∧
      Ahead T limit i todo after (t.hashRemove key).1 lists' := by
  have hShort : ∀ j < h.numbuckets, (lists j).length < limit := fun j hj =>
    hAhead.short j (hAhead.numbuckets ▸ hj)
  obtain ⟨after, hRun, hLaid⟩ := hAhead.laid.hashRemove key hShort
  have hBuckets : after.numbuckets = T.buckets := by
    have hTable : (t.hashRemove key).1.table.buckets = t.table.buckets := by
      rw [HashTable.hashRemove]
      cases t.table.find key <;> rfl
    rw [hLaid.numbuckets, hTable, ← hAhead.laid.numbuckets, hAhead.numbuckets]
  refine ⟨after, _, hRun, hLaid, hBuckets, hAhead.inside, ?_, hAhead.whole, ?_, ?_⟩
  · obtain ⟨done, hHere⟩ := hAhead.here
    by_cases hSame : i = h.sum key
    · subst hSame
      rw [Function.update_self, hHere]
      by_cases hDone : ∃ d ∈ done, named key d = true
      · obtain ⟨d, hd, hNamed⟩ := hDone
        exact ⟨_, List.eraseP_append_left hNamed todo hd⟩
      · have hTodo : todo.eraseP (named key) = todo :=
          List.eraseP_of_forall_not fun d hd => by simp [hSpares.here d hd]
        refine ⟨done, ?_⟩
        rw [List.eraseP_append_right _ fun d hd hNamed => hDone ⟨d, hd, hNamed⟩, hTodo]
    · rw [Function.update_of_ne hSame]
      exact ⟨done, hHere⟩
  · intro j hj hLess
    by_cases hSame : j = h.sum key
    · subst hSame
      have hNone : ∀ d ∈ lists (h.sum key), ¬ named key d = true := by
        intro d hd hNamed
        have hIn : d.2 ∈ T.chain (h.sum key) := by
          rw [← hAhead.later _ hj hLess]
          exact List.mem_map_of_mem hd
        rw [named, hSpares.later _ hj d.2 hIn] at hNamed
        cases hNamed
      rw [Function.update_self, List.eraseP_of_forall_not hNone]
      exact hAhead.later _ hj hLess
    · rw [Function.update_of_ne hSame]
      exact hAhead.later j hj hLess
  · intro j hj
    by_cases hSame : j = h.sum key
    · subst hSame
      rw [Function.update_self]
      exact Nat.lt_of_le_of_lt List.eraseP_sublist.length_le (hAhead.short _ hj)
    · rw [Function.update_of_ne hSame]
      exact hAhead.short j hj

/-- All calls of `hash_remove` of one callback. -/
theorem Ahead.removeAll (hAhead : Ahead T limit i todo h t lists) (keys : List Str)
    (hSpares : ∀ key ∈ keys, Spares T i todo key) :
    ∃ after lists', removeAll limit h keys = some after ∧
      Ahead T limit i todo after (t.run (keys.map .remove)) lists' := by
  induction keys generalizing h t lists with
  | nil => exact ⟨h, lists, rfl, hAhead⟩
  | cons key keys ih =>
    obtain ⟨mid, lists', hRun, hMid⟩ := hAhead.hashRemove (hSpares key (List.mem_cons_self ..))
    obtain ⟨after, lists'', hRest, hAfter⟩ := ih hMid fun k hk => hSpares k (List.mem_cons_of_mem _ hk)
    refine ⟨after, lists'', ?_, hAfter⟩
    rw [Hash.removeAll, hRun]
    exact hRest

/-! ### The walk -/

/-- The callback removes no entry but the one that it is called with. -/
def Own (T : NameTable V) (func : Func σ V) : Prop :=
  ∀ s g, ∀ e ∈ T.entries, ∀ key ∈ (func s g e.2).2, ∀ f ∈ T.entries, sameText key f.1 = true → f = e

/-- Such a callback spares all entries that come behind. -/
theorem Own.spares {func : Func σ V} (hOwn : Own T func) (hDistinct : T.Distinct)
    (hInside : i < T.buckets) {seen : List (Str × V)}
    (hWhole : T.chain i = seen ++ (c :: rest).map Prod.snd) {s : σ} {g : Hash V} {key : Str}
    (hKey : key ∈ (func s g c.2.2).2) : Spares T i rest key := by
  have hEntry : ∀ j < T.buckets, ∀ e ∈ T.chain j, e ∈ T.entries := fun j hj e he =>
    List.mem_flatMap.2 ⟨j, List.mem_range.2 hj, he⟩
  have hHere : c.2 ∈ T.chain i := by
    rw [hWhole]
    simp
  have hCurrent : c.2 ∈ T.entries := hEntry i hInside c.2 hHere
  have hNodup : (T.chain i).Nodup := by
    have hAll : T.entries.Nodup := List.Nodup.of_map _ hDistinct
    exact (List.nodup_flatMap.1 hAll).1 i (List.mem_range.2 hInside)
  constructor
  · intro d hd
    cases hNamed : named key d with
    | false => rfl
    | true =>
      have hIn : d.2 ∈ T.chain i := by
        rw [hWhole]
        refine List.mem_append_right _ (List.mem_map_of_mem (List.mem_cons_of_mem _ hd))
      have hSame : d.2 = c.2 := hOwn s g c.2 hCurrent key hKey d.2 (hEntry i hInside _ hIn) hNamed
      rw [hWhole, List.map_cons] at hNodup
      have hNot := (List.nodup_cons.1 (List.nodup_append.1 hNodup).2.1).1
      exact absurd (hSame ▸ List.mem_map_of_mem hd) hNot
  · intro j hj e he
    cases hNamed : sameText key e.1 with
    | false => rfl
    | true =>
      have hLess : j < T.buckets := by
        rw [← T.placed j e he]
        exact Nat.mod_lt _ T.positive
      have hSame : e = c.2 := hOwn s g c.2 hCurrent key hKey e (hEntry j hLess e he) hNamed
      have hBucket : j = i := by
        rw [← T.placed j e he, hSame]
        exact T.placed i c.2 hHere
      omega

variable {t₀ : HashTable V} {func : Func σ V} {w : Walk σ V}

/-- The table that the walk has left so far. -/
def Walk.left (t₀ : HashTable V) (w : Walk σ V) : HashTable V := t₀.run (w.removals.map .remove)

/-- The walk over the rest of a bucket calls the callback for each of its entries. -/
theorem chainLoop_ahead (hOwn : Own T func) (hDistinct : T.Distinct) {fuel : Nat}
    (hAhead : Ahead T limit i todo w.table (w.left t₀) lists) (hFuel : todo.length < fuel) :
    ∃ w' lists', chainLoop func limit fuel (first todo) w = some w' ∧
      Ahead T limit i [] w'.table (w'.left t₀) lists' ∧
      w'.calls = w.calls ++ todo.map fun c => c.2.2 := by
  induction todo generalizing fuel w lists with
  | nil =>
    obtain ⟨fuel, rfl⟩ : ∃ n, fuel = n + 1 := ⟨fuel - 1, by omega⟩
    exact ⟨w, lists, rfl, hAhead, (List.append_nil _).symm⟩
  | cons c rest ih =>
    obtain ⟨fuel, rfl⟩ : ∃ n, fuel = n + 1 := ⟨fuel - 1, by omega⟩
    obtain ⟨p, e⟩ := c
    obtain ⟨done, hHere⟩ := hAhead.here
    obtain ⟨seen, hWhole⟩ := hAhead.whole
    have hCell : w.table.store.cell p = some ⟨e, first rest⟩ := by
      have hLinked := hAhead.laid.holds.linked i (hAhead.numbuckets ▸ hAhead.inside)
      rw [hHere] at hLinked
      exact hLinked.suffix.1
    -- the entry itself is no longer to come when its callback is run
    have hNext : Ahead T limit i rest w.table (w.left t₀) lists :=
      { hAhead with
        here := ⟨done ++ [(p, e)], by simp [hHere]⟩
        whole := ⟨seen ++ [e], by simp [hWhole]⟩ }
    obtain ⟨after, lists', hRemove, hAfter⟩ := hNext.removeAll (func w.funcdata w.table e.2).2
      fun key hKey => hOwn.spares hDistinct hAhead.inside hWhole hKey
    let called : Walk σ V := ⟨(func w.funcdata w.table e.2).1, after, w.calls ++ [e.2],
      w.removals ++ (func w.funcdata w.table e.2).2⟩
    have hLeft : called.left t₀ =
        (w.left t₀).run ((func w.funcdata w.table e.2).2.map .remove) := by
      simp only [Walk.left, called, List.map_append, HashTable.run, List.foldl_append]
    have hCalled : callBack func limit w e.2 = some called := by
      rw [callBack_eq, hRemove]
      rfl
    have hAgain : Ahead T limit i rest called.table (called.left t₀) lists' := by
      rw [hLeft]
      exact hAfter
    obtain ⟨w', lists'', hLoop, hEnd, hCalls⟩ := ih hAgain (Nat.lt_of_succ_lt_succ hFuel)
    refine ⟨w', lists'', ?_, hEnd, ?_⟩
    · rw [first_cons, chainLoop, hCell]
      simp only [Option.bind_eq_bind, Option.bind_some, hCalled]
      exact hLoop
    · rw [hCalls]
      simp [called]

/-- Where `hash_foreach` is in front of bucket `i`. -/
structure Before (T : NameTable V) (t₀ : HashTable V) (limit i : Nat) (w : Walk σ V)
    (lists : Nat → List (Nat × (Str × V))) : Prop where
  laid : Laid w.table (w.left t₀) lists
  numbuckets : w.table.numbuckets = T.buckets
  later : ∀ j, i ≤ j → j < T.buckets → (lists j).map Prod.snd = T.chain j
  short : ∀ j < T.buckets, (lists j).length < limit
  calls : w.calls = ((List.range i).flatMap T.chain).map Prod.snd

theorem Before.next (hOwn : Own T func) (hDistinct : T.Distinct)
    (hBefore : Before T t₀ limit i w lists) (hInside : i < T.buckets) :
    ∃ w' lists', chainLoop func limit limit (w.table.store.head i) w = some w' ∧
      Before T t₀ limit (i + 1) w' lists' := by
  have hAhead : Ahead T limit i (lists i) w.table (w.left t₀) lists :=
    { laid := hBefore.laid
      numbuckets := hBefore.numbuckets
      inside := hInside
      here := ⟨[], rfl⟩
      whole := ⟨[], (hBefore.later i (Nat.le_refl i) hInside).symm⟩
      later := fun j hj => hBefore.later j (Nat.le_of_lt hj)
      short := hBefore.short }
  obtain ⟨w', lists', hLoop, hEnd, hCalls⟩ := chainLoop_ahead hOwn hDistinct hAhead
    (hBefore.short i hInside)
  have hHead : w.table.store.head i = first (lists i) :=
    hBefore.laid.holds.head i (hBefore.numbuckets ▸ hInside)
  refine ⟨w', lists', by rw [hHead]; exact hLoop, hEnd.laid, hEnd.numbuckets, hEnd.later, hEnd.short,
    ?_⟩
  have hSame : (lists i).map (fun c => c.2.2) = (T.chain i).map Prod.snd := by
    rw [← hBefore.later i (Nat.le_refl i) hInside, List.map_map]
    rfl
  rw [hCalls, hBefore.calls, hSame, List.range_succ, List.flatMap_append, List.map_append]
  simp

/-- The loop of `hash_foreach` over the first buckets. -/
theorem foreach_before (hOwn : Own T func) (hDistinct : T.Distinct)
    (hBefore : Before T t₀ limit 0 w lists) {k : Nat} (hk : k ≤ T.buckets) :
    ∃ w' lists', (List.range k).foldlM
        (fun w i => chainLoop func limit limit (w.table.store.head i) w) w = some w' ∧
      Before T t₀ limit k w' lists' := by
  induction k with
  | zero => exact ⟨w, lists, rfl, hBefore⟩
  | succ k ih =>
    obtain ⟨mid, lists', hFold, hMid⟩ := ih (Nat.le_of_succ_le hk)
    obtain ⟨w', lists'', hLoop, hEnd⟩ := hMid.next hOwn hDistinct hk
    refine ⟨w', lists'', ?_, hEnd⟩
    rw [List.range_succ, List.foldlM_append, hFold]
    simpa using hLoop

end

/-! ### What is left -/

/-- Without equal names a removal leaves the entries with other names. -/
theorem eraseP_eq_filter {l : List (Str × V)} (h : (l.map fun e => byName.norm e.1).Nodup) (key : Str) :
    l.eraseP (sameName key) = l.filter fun e => !sameText key e.1 := by
  induction l with
  | nil => rfl
  | cons e l ih =>
    obtain ⟨hFirst, hRest⟩ := List.nodup_cons.1 h
    have hSame : sameName key e = sameText key e.1 := answers_eq_named key (0, e)
    cases hNamed : sameText key e.1 with
    | true =>
      rw [List.eraseP_cons_of_pos (hSame.trans hNamed), List.filter_cons_of_neg (by simp [hNamed])]
      refine (List.filter_eq_self.2 fun f hf => ?_).symm
      by_contra hOther
      have hBoth : sameText key f.1 = true := by simpa using hOther
      rw [sameText_iff] at hNamed hBoth
      refine hFirst (List.mem_map.2 ⟨f, hf, ?_⟩)
      exact hBoth.symm.trans hNamed
    | false =>
      rw [List.eraseP_cons_of_neg (by simp [hSame, hNamed]), List.filter_cons_of_pos (by simp [hNamed]),
        ih hRest]

theorem entries_hashRemove {t : HashTable V} (hDistinct : t.table.Distinct) (key : Str) :
    (t.hashRemove key).1.table.entries = t.table.entries.filter fun e => !sameText key e.1 := by
  have hTable : (t.hashRemove key).1.table = t.table.remove key := by
    rw [HashTable.hashRemove]
    cases hFind : t.table.find key with
    | none => exact (Table.remove_of_find_none hFind).symm
    | some e => rfl
  rw [hTable, Table.entries, Table.entries, List.filter_flatMap]
  refine List.flatMap_congr fun i hi => ?_
  by_cases hSame : i = t.table.slot key
  · have hChain : (t.table.remove key).chain i = (t.table.chain i).eraseP (sameName key) := by
      simp only [Table.remove, hSame, if_true]
    rw [hChain]
    have hNames : (t.table.entries.map fun e => byName.norm e.1).Nodup := hDistinct
    rw [Table.entries, List.map_flatMap] at hNames
    exact eraseP_eq_filter ((List.nodup_flatMap.1 hNames).1 i hi) key
  · have hChain : (t.table.remove key).chain i = t.table.chain i := by
      simp only [Table.remove, if_neg hSame]
    rw [hChain]
    refine (List.filter_eq_self.2 fun e he => ?_).symm
    by_contra hOther
    have hNamed : sameText key e.1 = true := by simpa using hOther
    rw [sameText_iff] at hNamed
    refine hSame ((t.table.placed i e he).symm.trans ?_)
    exact congrArg (fun name => hashString name % t.table.buckets) hNamed.symm

theorem distinct_hashRemove {t : HashTable V} (hDistinct : t.table.Distinct) (key : Str) :
    (t.hashRemove key).1.table.Distinct := by
  rw [Table.Distinct, entries_hashRemove hDistinct]
  exact hDistinct.sublist (List.filter_sublist.map _)

/-- The size of a table counts its entries, as far as an `int` does. -/
def Counted (t : HashTable V) : Prop := t.dbsize = toInt32 t.table.entries.length

theorem Counted.hashRemove {t : HashTable V} (hCounted : Counted t) (key : Str) :
    Counted (t.hashRemove key).1 := by
  rw [HashTable.hashRemove]
  cases hFind : t.table.find key with
  | none => exact hCounted
  | some e =>
    have hLength := (Table.entries_remove hFind).length_eq
    rw [List.length_cons] at hLength
    have hLess : (t.table.entries.length : Int) + -1 = ((t.table.remove key).entries.length : Int) := by
      omega
    rw [Counted] at hCounted
    simp only [Counted, hCounted, Int.sub_eq_add_neg, toInt32_add, hLess]

/-- After some removals the table holds the entries that none of them named, and counts them. -/
theorem run_removals {t : HashTable V} (hDistinct : t.table.Distinct) (hCounted : Counted t)
    (keys : List Str) : Counted (t.run (keys.map .remove)) ∧
      (t.run (keys.map .remove)).table.entries =
        t.table.entries.filter fun e => keys.all fun key => !sameText key e.1 := by
  induction keys generalizing t with
  | nil => exact ⟨hCounted, (List.filter_eq_self.2 fun _ _ => rfl).symm⟩
  | cons key keys ih =>
    obtain ⟨hSize, hEntries⟩ := ih (distinct_hashRemove hDistinct key) (hCounted.hashRemove key)
    refine ⟨hSize, hEntries.trans ?_⟩
    rw [entries_hashRemove hDistinct, List.filter_filter]
    refine List.filter_congr fun e _ => ?_
    rw [List.all_cons, Bool.and_comm]

/-- `hash_foreach` calls its callback once for every entry that was there at the start, in the order of
the buckets, although the callback may remove the entry that it is called with; afterwards the table
holds the entries that were not removed, and counts them. -/
theorem foreach_once {h : Hash V} {t : HashTable V} {func : Func σ V} {limit : Nat} (funcdata : σ)
    (hStores : Stores h t) (hDistinct : t.table.Distinct) (hCounted : Counted t)
    (hOwn : Own t.table func) (hLimit : t.table.entries.length < limit) :
    ∃ w, hashForeach func limit { funcdata := funcdata, table := h } = some w ∧
      w.calls = t.table.values ∧
      ∃ after, Stores w.table after ∧
        after.table.entries =
          t.table.entries.filter (fun e => w.removals.all fun key => !sameText key e.1) ∧
        w.table.dbsize = toInt32 after.table.entries.length := by
  obtain ⟨lists, hLaid⟩ := hStores
  have hShort : ∀ j < t.table.buckets, (lists j).length < limit := by
    intro j hj
    have hChain := congrArg List.length (hLaid.chain j (hLaid.numbuckets ▸ hj))
    rw [List.length_map] at hChain
    have hPart : (t.table.chain j).length ≤ t.table.entries.length := by
      rw [Table.entries, List.flatMap_def]
      exact (List.sublist_flatten_of_mem
        (List.mem_map.2 ⟨j, List.mem_range.2 hj, rfl⟩)).length_le
    omega
  have hBefore : Before t.table t limit 0 { funcdata := funcdata, table := h } lists :=
    ⟨hLaid, hLaid.numbuckets, fun j _ hj => hLaid.chain j (hLaid.numbuckets ▸ hj), hShort, rfl⟩
  obtain ⟨w, lists', hFold, hEnd⟩ := foreach_before hOwn hDistinct hBefore (Nat.le_refl _)
  obtain ⟨hSize, hEntries⟩ := run_removals hDistinct hCounted w.removals
  refine ⟨w, ?_, hEnd.calls, w.left t, ⟨lists', hEnd.laid⟩, hEntries, ?_⟩
  · rw [hashForeach, hLaid.numbuckets]
    exact hFold
  · rw [hEnd.laid.dbsize]
    exact hSize

/-- A callback that finds the key in the data of the entry, as those of the server do, names no other
entry. -/
theorem own_of_key {T : NameTable V} {func : Func σ V} {keyOf : V → Str} (hDistinct : T.Distinct)
    (hKey : ∀ e ∈ T.entries, strlower (keyOf e.2) = strlower e.1)
    (hFunc : ∀ s g v, ∀ key ∈ (func s g v).2, key = keyOf v) : Own T func := by
  intro s g e he key hIn f hf hNamed
  rw [sameText_iff, hFunc s g e.2 key hIn, hKey e he] at hNamed
  exact hDistinct.eq_of_mem hf he hNamed.symm

/-- What `dump_userdb` does with the records, which are taken here as a nick and the time when it was
last seen: those that were not seen for long are removed, and the others are counted. -/
def expire (oldest : Nat) : Func Nat (Str × Nat) := fun written _ db =>
  if db.2 < oldest then (written, [db.1]) else (written + 1, [])

/-- Three nicks in two buckets. -/
def threeNicks : Hash (Str × Nat) :=
  (((hashInit (Str × Nat) 2).hashAdd 10 (str "joe") (str "joe", 5)).hashAdd 20 (str "bob")
    (str "bob", 50)).hashAdd 30 (str "eve") (str "eve", 7)

def threeRecords : HashTable (Str × Nat) :=
  (HashTable.hashInit (Str × Nat) 2 Nat.two_pos).run
    [.add (str "joe") (str "joe", 5), .add (str "bob") (str "bob", 50), .add (str "eve") (str "eve", 7)]

theorem foreach_once_three : ∃ w, hashForeach (expire 10) 4 { funcdata := 0, table := threeNicks } =
    some w ∧ w.calls = threeRecords.table.values ∧
      ∃ after, Stores w.table after ∧
        after.table.entries = threeRecords.table.entries.filter
          (fun e => w.removals.all fun key => !sameText key e.1) ∧
        w.table.dbsize = toInt32 after.table.entries.length := by
  have hEmpty := stores_hashInit (V := Str × Nat) 2 Nat.two_pos
  have hOne : Stores ((hashInit (Str × Nat) 2).hashAdd 10 (str "joe") (str "joe", 5)) _ :=
    hEmpty.hashAdd rfl _ _
  have hTwo : Stores (Hash.hashAdd _ 20 (str "bob") (str "bob", 50)) _ := hOne.hashAdd rfl _ _
  have hThree : Stores threeNicks threeRecords := hTwo.hashAdd rfl _ _
  have hDistinct : threeRecords.table.Distinct := by
    change List.Nodup _
    decide +kernel
  have hCounted : Counted threeRecords := by
    rw [Counted]
    decide +kernel
  have hKeys : ∀ s g v, ∀ key ∈ (expire 10 s g v).2, key = Prod.fst v := by
    intro written g db key hIn
    by_cases hOld : db.2 < 10
    · simp only [expire, if_pos hOld] at hIn
      exact List.mem_singleton.1 hIn
    · simp only [expire, if_neg hOld] at hIn
      cases hIn
  exact foreach_once 0 hThree hDistinct hCounted (own_of_key hDistinct (by decide +kernel) hKeys)
    (by decide +kernel)

end Hash

end OpenNap
