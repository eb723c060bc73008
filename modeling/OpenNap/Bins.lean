import OpenNap.Depot

/-! The bins of the two indexes of files.  A bin of an index is where a search for its word finds it,
counts what it lists, and is never without a record; a record that goes into a bin is taken by that
bin and by nothing else. -/

namespace OpenNap

open CText

namespace Depot

/-- What may hold a record. -/
inductive Container
  | owner (con : ConId)
  | bin (index : Index) (bin : FlistId)
  deriving DecidableEq

/-- The records that a container holds. -/
def contents (s : Depot) : Container → List DatumId
  | .owner con => (s.library con).values
  | .bin index bin => if bin ∈ (s.table index).values then (s.flist bin).list else []

/-- The containers, the counts and the calls of `free_datum`. -/
def store (s : Depot) : RefCount.Store Container DatumId 5 where
  contents := s.contents
  count := fun d => (s.datum d).refcount
  drops := s.freed

/-! ### The shape of the indexes -/

/-- The bins of the two indexes are where a search for their words finds them. -/
structure Shelved (s : Depot) : Prop where
  distinct : ∀ index, (s.table index).Distinct
  keyed : ∀ index, ∀ e ∈ (s.table index).entries, (s.flist e.2).key = e.1
  apart : ∀ i j bin, bin ∈ (s.table i).values → bin ∈ (s.table j).values → i = j
  known : ∀ index, ∀ bin ∈ (s.table index).values, bin < s.next
  counted : ∀ index, ∀ bin ∈ (s.table index).values,
    (s.flist bin).count = (s.flist bin).list.length

/-- No bin is empty. -/
def Filled (s : Depot) : Prop := ∀ index, ∀ bin ∈ (s.table index).values, (s.flist bin).list ≠ []

section

variable {s t : Depot} {index : Index} {bin : FlistId} {key : Str}

theorem contents_bin (h : bin ∈ (s.table index).values) :
    s.contents (.bin index bin) = (s.flist bin).list := if_pos h

theorem contents_of_not_mem (h : bin ∉ (s.table index).values) : s.contents (.bin index bin) = [] :=
  if_neg h

/-- A bin holds what it held when it is in the same index with the same list. -/
theorem contents_congr (hTable : bin ∈ (t.table index).values ↔ bin ∈ (s.table index).values)
    (hList : (t.flist bin).list = (s.flist bin).list) :
    t.contents (.bin index bin) = s.contents (.bin index bin) := by
  simp only [contents, hTable, hList]

theorem Shelved.of_same (h : Shelved s) (hTable : ∀ index, t.table index = s.table index)
    (hFlist : t.flist = s.flist) (hNext : s.next ≤ t.next) : Shelved t where
  distinct index := by rw [hTable]; exact h.distinct index
  keyed index := by rw [hTable, hFlist]; exact h.keyed index
  apart i j bin := by rw [hTable, hTable]; exact h.apart i j bin
  known index bin hBin := by
    rw [hTable] at hBin
    exact Nat.lt_of_lt_of_le (h.known index bin hBin) hNext
  counted index := by rw [hTable, hFlist]; exact h.counted index

/-- The bins of an index are different. -/
theorem Shelved.nodup (h : Shelved s) (index : Index) : (s.table index).values.Nodup := by
  have hKeys : ((s.table index).values.map fun bin => strlower (s.flist bin).key) =
      (s.table index).entries.map fun e => byName.norm e.1 := by
    rw [Bucket.Table.values, List.map_map]
    refine List.map_congr_left fun e he => ?_
    simp only [Function.comp_apply, h.keyed index e he]
    rfl
  have hNodup := h.distinct index
  rw [Bucket.Table.Distinct, ← hKeys] at hNodup
  exact hNodup.of_map _

/-- The bin of a word has that word as its key. -/
theorem Shelved.key_of_lookup (h : Shelved s) (hBin : (s.table index).lookup key = some bin) :
    strlower (s.flist bin).key = strlower key := by
  obtain ⟨k, hIn, hKey⟩ := Bucket.Table.lookup_some hBin
  rw [h.keyed index (k, bin) hIn]
  exact hKey

/-- A search for the key of a bin finds the bin. -/
theorem Shelved.lookup_key (h : Shelved s) (hBin : bin ∈ (s.table index).values) :
    (s.table index).lookup (s.flist bin).key = some bin := by
  obtain ⟨k, hIn⟩ := Bucket.Table.mem_values.1 hBin
  refine (h.distinct index).lookup hIn ?_
  rw [h.keyed index (k, bin) hIn]

end

/-! ### The parts of the data that a step leaves -/

@[simp] theorem table_setTable (s : Depot) (i j : Index) (files : NameTable FlistId) :
    (s.setTable i files).table j = if j = i then files else s.table j := by
  cases i <;> cases j <;> rfl

@[simp] theorem flist_setTable (s : Depot) (i : Index) (files : NameTable FlistId) :
    (s.setTable i files).flist = s.flist := by
  cases i <;> rfl

@[simp] theorem datum_setTable (s : Depot) (i : Index) (files : NameTable FlistId) :
    (s.setTable i files).datum = s.datum := by
  cases i <;> rfl

@[simp] theorem con_setTable (s : Depot) (i : Index) (files : NameTable FlistId) :
    (s.setTable i files).con = s.con := by
  cases i <;> rfl

@[simp] theorem next_setTable (s : Depot) (i : Index) (files : NameTable FlistId) :
    (s.setTable i files).next = s.next := by
  cases i <;> rfl

@[simp] theorem freed_setTable (s : Depot) (i : Index) (files : NameTable FlistId) :
    (s.setTable i files).freed = s.freed := by
  cases i <;> rfl

theorem library_congr {s t : Core} (h : t.con = s.con) (con : ConId) :
    t.library con = s.library con := by
  simp only [Core.library, Core.files, h]

/-- From `s` to `t` only the records of files and what was freed change. -/
structure Unfiled (s t : Depot) : Prop where
  con : t.con = s.con
  table : ∀ index, t.table index = s.table index
  flist : t.flist = s.flist
  next : t.next = s.next
  made : t.made = s.made

namespace Unfiled

theorem freeDatums (l : List DatumId) (s : Depot) : Unfiled s (l.foldl freeDatum s) := by
  induction l generalizing s with
  | nil => exact ⟨rfl, fun _ => rfl, rfl, rfl, rfl⟩
  | cons d l ih =>
    have h := ih (s.freeDatum d)
    refine ⟨h.con, fun index => (h.table index).trans ?_, h.flist, h.next, h.made⟩
    cases index <;> rfl

end Unfiled

/-- A record is freed once for each time it is listed, and so are the others. -/
theorem freeDatums_spec {l : List DatumId} (hl : l.Nodup) (s : Depot) :
    (∀ d, ((l.foldl freeDatum s).datum d).refcount =
        if d ∈ l then (s.datum d).refcount - 1 else (s.datum d).refcount) ∧
      (l.foldl freeDatum s).freed = s.freed ++ l.map fun d => (d, (s.datum d).refcount) := by
  induction l generalizing s with
  | nil => simp
  | cons a l ih =>
    obtain ⟨ha, hl⟩ := List.nodup_cons.1 hl
    obtain ⟨hCounts, hFreed⟩ := ih hl (s.freeDatum a)
    have hFirst : ∀ d, ((s.freeDatum a).datum d).refcount =
        if d = a then (s.datum d).refcount - 1 else (s.datum d).refcount := by
      intro d
      simp only [freeDatum, onCore, Core.freeDatum, Core.modDatum_datum]
      split <;> rfl
    rw [List.foldl_cons]
    constructor
    · intro d
      rw [hCounts, hFirst]
      by_cases hd : d = a
      · subst hd
        simp [ha]
      · simp [hd]
    · rw [hFreed, List.map_cons]
      have hRest : (l.map fun d => (d, ((s.freeDatum a).datum d).refcount)) =
          l.map fun d => (d, (s.datum d).refcount) := by
        refine List.map_congr_left fun d hd => ?_
        rw [hFirst, if_neg (by rintro rfl; exact ha hd)]
      rw [hRest]
      simp [freeDatum, onCore]

/-! ### A bin that gets a record -/

/-- From `s` to `t` a record goes to the end of a bin of an index, which may be a new one. -/
structure Binned (index : Index) (bin : FlistId) (d : DatumId) (s t : Depot) : Prop where
  mem : ∀ j b, b ∈ (t.table j).values ↔ b ∈ (s.table j).values ∨ (j = index ∧ b = bin)
  list : (t.flist bin).list = s.contents (.bin index bin) ++ [d]
  flist : ∀ b, b ≠ bin → t.flist b = s.flist b
  apart : ∀ j, bin ∈ (s.table j).values → j = index
  count : ∀ x, (t.datum x).refcount =
    if x = d then (s.datum x).refcount + 1 else (s.datum x).refcount
  con : t.con = s.con
  freed : t.freed = s.freed
  next : s.next ≤ t.next

theorem Binned.takes {index : Index} {bin : FlistId} {d : DatumId} {s t : Depot}
    (h : Binned index bin d s t) (hNew : d ∉ s.contents (.bin index bin))
    (hFresh : s.store.history d = []) :
    RefCount.Takes (.bin index bin) d s.store t.store where
  new := hNew
  fresh := hFresh
  here := by
    have hIn : bin ∈ (t.table index).values := (h.mem index bin).2 (.inr ⟨rfl, rfl⟩)
    have hList : t.contents (.bin index bin) = s.contents (.bin index bin) ++ [d] :=
      (contents_bin hIn).trans h.list
    show (t.contents (.bin index bin)).Perm (d :: s.contents (.bin index bin))
    rw [hList]
    exact List.perm_append_singleton d _
  other c hc := by
    cases c with
    | owner con => exact congrArg Bucket.Table.values (library_congr h.con con)
    | bin j b =>
      by_cases hb : b = bin
      · subst hb
        have hj : j ≠ index := by
          rintro rfl
          exact hc rfl
        have hBefore : b ∉ (s.table j).values := fun hIn => hj (h.apart j hIn)
        have hAfter : b ∉ (t.table j).values := by
          rw [h.mem]
          rintro (hIn | ⟨hEq, -⟩)
          · exact hBefore hIn
          · exact hj hEq
        show t.contents (.bin j b) = s.contents (.bin j b)
        rw [contents_of_not_mem hBefore, contents_of_not_mem hAfter]
      · refine contents_congr ?_ (by rw [h.flist b hb])
        rw [h.mem]
        simp [hb]
  count := (h.count d).trans (if_pos rfl)
  counts x hx := (h.count x).trans (if_neg hx)
  drops := h.freed

theorem Binned.filled {index : Index} {bin : FlistId} {d : DatumId} {s t : Depot}
    (h : Binned index bin d s t) (hFilled : Filled s) : Filled t := by
  intro j b hIn
  by_cases hb : b = bin
  · subst hb
    rw [h.list]
    simp
  · rw [h.flist b hb]
    refine hFilled j b ?_
    rcases (h.mem j b).1 hIn with hIn | ⟨-, hEq⟩
    · exact hIn
    · exact absurd hEq hb

section

variable {s : Depot} {index : Index} {bin : FlistId} {d : DatumId} {key : Str}

theorem count_addRef (s : Core) (d x : DatumId) : ((s.addRef d).datum x).refcount =
    if x = d then (s.datum x).refcount + 1 else (s.datum x).refcount := by
  simp only [Core.addRef, Core.modDatum_datum]
  split <;> rfl

theorem fdbAdd_old (h : Shelved s) (hBin : (s.table index).lookup key = some bin) (d : DatumId) :
    Binned index bin d s (s.fdbAdd index d key) ∧ Shelved (s.fdbAdd index d key) := by
  have hIn := Bucket.Table.mem_values_of_lookup hBin
  have hEq : s.fdbAdd index d key = (s.onCore (·.modFlist bin fun b =>
      { b with list := b.list ++ [d], count := b.count + 1 })).addRef d := by
    simp only [fdbAdd, hBin]
  have hTable : ∀ j, (s.fdbAdd index d key).table j = s.table j := by
    intro j
    rw [hEq]
    cases j <;> rfl
  have hFlist : ∀ b, (s.fdbAdd index d key).flist b = if b = bin then
      { s.flist b with list := (s.flist b).list ++ [d], count := (s.flist b).count + 1 }
      else s.flist b := by
    intro b
    rw [hEq]
    rfl
  refine ⟨⟨?_, ?_, ?_, ?_, ?_, ?_, ?_, ?_⟩, ⟨?_, ?_, ?_, ?_, ?_⟩⟩
  · intro j b
    rw [hTable]
    constructor
    · exact .inl
    · rintro (hMem | ⟨rfl, rfl⟩)
      · exact hMem
      · exact hIn
  · rw [hFlist, if_pos rfl, contents_bin hIn]
  · intro b hb
    rw [hFlist, if_neg hb]
  · exact fun j hMem => h.apart j index bin hMem hIn
  · intro x
    rw [hEq]
    exact count_addRef _ d x
  · rw [hEq]; rfl
  · rw [hEq]; rfl
  · rw [hEq]; exact Nat.le_refl _
  · intro j
    rw [hTable]
    exact h.distinct j
  · intro j e he
    rw [hTable] at he
    rw [hFlist, ← h.keyed j e he]
    split <;> rfl
  · intro i j b
    rw [hTable, hTable]
    exact h.apart i j b
  · intro j b hb
    rw [hTable] at hb
    rw [hEq]
    exact h.known j b hb
  · intro j b hb
    rw [hTable] at hb
    have hCount := h.counted j b hb
    rw [hFlist]
    split
    · simp [hCount]
    · exact hCount

theorem fdbAdd_new (h : Shelved s) (hNone : (s.table index).lookup key = none) (d : DatumId) :
    Binned index s.next d s (s.fdbAdd index d key) ∧ Shelved (s.fdbAdd index d key) := by
  have hEq : s.fdbAdd index d key = ((s.onCore (·.alloc.modFlist s.next fun _ =>
      { key := key, list := [d], count := 1 })).setTable index
        ((s.table index).add key s.next)).addRef d := by
    simp only [fdbAdd, hNone]
  have hTable : ∀ j, (s.fdbAdd index d key).table j =
      if j = index then (s.table index).add key s.next else s.table j := by
    intro j
    rw [hEq]
    cases j <;> cases index <;> rfl
  have hFlist : ∀ b, (s.fdbAdd index d key).flist b =
      if b = s.next then { key := key, list := [d], count := 1 } else s.flist b := by
    intro b
    rw [hEq]
    cases index <;> rfl
  have hNext : (s.fdbAdd index d key).next = s.next + 1 := by
    rw [hEq]
    cases index <;> rfl
  have hValues : ∀ b, b ∈ ((s.table index).add key s.next).values ↔
      b ∈ (s.table index).values ∨ b = s.next := by
    intro b
    rw [((s.table index).values_add key s.next).mem_iff, List.mem_cons, or_comm]
  have hMem : ∀ j b, b ∈ ((s.fdbAdd index d key).table j).values ↔
      b ∈ (s.table j).values ∨ (j = index ∧ b = s.next) := by
    intro j b
    rw [hTable]
    by_cases hj : j = index
    · subst hj
      simp [hValues]
    · simp [hj]
  have hUnknown : ∀ j, s.next ∉ (s.table j).values :=
    fun j hIn => Nat.lt_irrefl _ (h.known j _ hIn)
  have hOther : ∀ j, ∀ b ∈ (s.table j).values, (s.fdbAdd index d key).flist b = s.flist b := by
    intro j b hb
    rw [hFlist, if_neg]
    rintro rfl
    exact hUnknown j hb
  refine ⟨⟨hMem, ?_, ?_, ?_, ?_, ?_, ?_, ?_⟩, ⟨?_, ?_, ?_, ?_, ?_⟩⟩
  · rw [hFlist, if_pos rfl, contents_of_not_mem (hUnknown index)]
    rfl
  · intro b hb
    rw [hFlist, if_neg hb]
  · exact fun j hIn => absurd hIn (hUnknown j)
  · intro x
    rw [hEq]
    cases index <;> exact count_addRef _ d x
  · rw [hEq]; cases index <;> rfl
  · rw [hEq]; cases index <;> rfl
  · rw [hNext]; exact Nat.le_succ _
  · intro j
    rw [hTable]
    split
    · exact (h.distinct index).add (Option.map_eq_none_iff.1 hNone) s.next
    · exact h.distinct j
  · intro j e he
    have hCases : (j = index ∧ e = (key, s.next)) ∨ e ∈ (s.table j).entries := by
      rw [hTable] at he
      split at he
      · rename_i hj
        subst hj
        rcases List.mem_cons.1 (((s.table j).entries_add key s.next).mem_iff.1 he) with hHead | hTail
        · exact .inl ⟨rfl, hHead⟩
        · exact .inr hTail
      · exact .inr he
    rcases hCases with ⟨rfl, rfl⟩ | hOld
    · rw [hFlist, if_pos rfl]
    · rw [hOther j e.2 (Bucket.Table.mem_values.2 ⟨e.1, hOld⟩)]
      exact h.keyed j e hOld
  · intro i j b hi hj
    rcases (hMem i b).1 hi with hOld | ⟨rfl, rfl⟩
    · rcases (hMem j b).1 hj with hOld' | ⟨rfl, rfl⟩
      · exact h.apart i j b hOld hOld'
      · exact absurd hOld (hUnknown i)
    · rcases (hMem j s.next).1 hj with hOld' | ⟨rfl, -⟩
      · exact absurd hOld' (hUnknown j)
      · rfl
  · intro j b hb
    rw [hNext]
    rcases (hMem j b).1 hb with hOld | ⟨-, rfl⟩
    · exact Nat.lt_succ_of_lt (h.known j b hOld)
    · exact Nat.lt_succ_self _
  · intro j b hb
    rcases (hMem j b).1 hb with hOld | ⟨-, rfl⟩
    · rw [hOther j b hOld]
      exact h.counted j b hOld
    · rw [hFlist, if_pos rfl]
      rfl

/-- No bin that a search for the word finds holds the record. -/
def Absent (s : Depot) (index : Index) (d : DatumId) (key : Str) : Prop :=
  ∀ bin, (s.table index).lookup key = some bin → d ∉ (s.flist bin).list

theorem fdbAdd_binned (h : Shelved s) (hAbsent : Absent s index d key) :
    ∃ bin, Binned index bin d s (s.fdbAdd index d key) ∧ Shelved (s.fdbAdd index d key) ∧
      d ∉ s.contents (.bin index bin) ∧
      strlower ((s.fdbAdd index d key).flist bin).key = strlower key := by
  cases hBin : (s.table index).lookup key with
  | some bin =>
    obtain ⟨hBinned, hShelved⟩ := fdbAdd_old h hBin d
    refine ⟨bin, hBinned, hShelved, ?_, ?_⟩
    · rw [contents_bin (Bucket.Table.mem_values_of_lookup hBin)]
      exact hAbsent bin hBin
    · have hKey := h.key_of_lookup hBin
      simpa [fdbAdd, hBin, addRef, onCore, Core.addRef] using hKey
  | none =>
    obtain ⟨hBinned, hShelved⟩ := fdbAdd_new h hBin d
    refine ⟨s.next, hBinned, hShelved, ?_, ?_⟩
    · rw [contents_of_not_mem fun hIn => Nat.lt_irrefl _ (h.known index _ hIn)]
      exact List.not_mem_nil
    · cases index <;> simp [fdbAdd, hBin, addRef, onCore, Core.addRef, setTable]

/-- The bins of other words are as before. -/
theorem Binned.absent {t : Depot} (h : Binned index bin d s t) (hs : Shelved s) (ht : Shelved t)
    (hKey : strlower (t.flist bin).key = strlower key) {other : Str}
    (hOther : strlower other ≠ strlower key) (hAbsent : Absent s index d other) :
    Absent t index d other := by
  intro b hFound
  have hKeyOther := ht.key_of_lookup hFound
  have hb : b ≠ bin := by
    rintro rfl
    exact hOther (hKeyOther.symm.trans hKey)
  have hIn : b ∈ (s.table index).values := by
    rcases (h.mem index b).1 (Bucket.Table.mem_values_of_lookup hFound) with hIn | ⟨-, hEq⟩
    · exact hIn
    · exact absurd hEq hb
  rw [h.flist b hb] at hKeyOther ⊢
  refine hAbsent b ?_
  have hNorm : byName.norm (s.flist b).key = byName.norm other := hKeyOther
  rw [← Bucket.Table.lookup_congr hNorm]
  exact hs.lookup_key hIn

end

end Depot

end OpenNap
