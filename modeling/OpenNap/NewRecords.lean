import OpenNap.DatumCounts
import OpenNap.FileRecords

/-! A new record.  It goes into its owner's table, and into the index under the last thirty words of
its name; the rest of the tables stays as it is. -/

namespace OpenNap

open CText

/-- From `s` to `t` the index gets a record under some words. -/
structure FilesUnder (d : DatumId) (keys : List Str) (s t : Core) : Prop where
  next : s.next ≤ t.next
  con : t.con = s.con
  filter : t.filter = s.filter
  datum : ∀ x, { t.datum x with refcount := 0 } = { s.datum x with refcount := 0 }
  index : WordIndex t
  filed : ∀ key x, t.Filed key x ↔
    s.Filed key x ∨ x = d ∧ ∃ k ∈ keys, byName.norm k = byName.norm key

namespace FilesUnder

variable {s t u : Core} {d : DatumId} {key : Str} {keys : List Str}

theorem refl (h : WordIndex s) (d : DatumId) : FilesUnder d [] s s :=
  ⟨Nat.le_refl _, rfl, rfl, fun _ => rfl, h, by simp⟩

theorem cons (h1 : FilesUnder d [key] s t) (h2 : FilesUnder d keys t u) : FilesUnder d (key :: keys) s u where
  next := h1.next.trans h2.next
  con := h2.con.trans h1.con
  filter := h2.filter.trans h1.filter
  datum x := (h2.datum x).trans (h1.datum x)
  index := h2.index
  filed k x := by
    rw [h2.filed, h1.filed]
    simp only [List.mem_singleton, exists_eq_left, List.mem_cons, exists_eq_or_imp]
    tauto

/-- The record goes to the end of the bin of the word. -/
theorem old {bin : FlistId} (h : WordIndex s) (hBin : s.fileTable.lookup key = some bin)
    (hKnown : d < s.next) (hNew : ¬ s.Filed key d) : FilesUnder d [key] s (s.fdbAdd d key) := by
  obtain ⟨k, hIn, hKey⟩ := Bucket.Table.lookup_some hBin
  have hNot : d ∉ (s.flist bin).list := fun hd => hNew (h.filed_iff.2 ⟨bin, hBin, hd⟩)
  have hFlist (b : FlistId) : (s.fdbAdd d key).flist b = if b = bin then
      { s.flist bin with list := (s.flist bin).list ++ [d], count := (s.flist bin).count + 1 }
      else s.flist b := by
    rw [Core.fdbAdd, hBin]
    by_cases hb : b = bin <;> simp [Core.addRef, hb]
  have hTable : (s.fdbAdd d key).fileTable = s.fileTable := by rw [Core.fdbAdd, hBin]; rfl
  have hNext : (s.fdbAdd d key).next = s.next := by rw [Core.fdbAdd, hBin]; rfl
  refine ⟨le_of_eq hNext.symm, by rw [Core.fdbAdd, hBin]; rfl, by rw [Core.fdbAdd, hBin]; rfl,
    fun x => ?_, ⟨?_, ?_, ?_, ?_, ?_, ?_⟩, fun k' x => ?_⟩
  · rw [Core.fdbAdd, hBin]
    by_cases hx : x = d <;> simp [Core.addRef, hx]
  · rw [hTable]
    exact h.distinct
  · intro e he
    rw [hTable] at he
    rw [hFlist, ← h.keyed e he]
    split
    · rename_i hb
      rw [hb]
    · rfl
  · rw [hTable, hNext]
    exact h.known
  · intro b hb
    rw [hTable] at hb
    rw [hFlist]
    split
    · rename_i hEq
      have hCount := h.counted bin (Bucket.Table.mem_values_of_lookup hBin)
      simp [hCount]
    · exact h.counted b hb
  · intro b hb
    rw [hTable] at hb
    rw [hFlist]
    split
    · rename_i hEq
      rw [← List.concat_eq_append]
      exact (h.once bin (Bucket.Table.mem_values_of_lookup hBin)).concat hNot
    · exact h.once b hb
  · intro b hb x hx
    rw [hTable] at hb
    rw [hNext]
    rw [hFlist] at hx
    split at hx
    · rcases List.mem_append.1 hx with hx | hx
      · exact h.records bin (Bucket.Table.mem_values_of_lookup hBin) x hx
      · rw [List.mem_singleton.1 hx]
        exact hKnown
    · exact h.records b hb x hx
  · simp only [List.mem_singleton, exists_eq_left]
    constructor
    · rintro ⟨e, he, hNorm, hx⟩
      rw [hTable] at he
      rw [hFlist] at hx
      split at hx
      · rename_i hb
        have hEq : byName.norm key = byName.norm k' := by
          have hSame : e.1 = k := by
            rw [← h.keyed e he, hb]
            exact h.keyed _ hIn
          rw [← hKey, ← hSame]
          exact hNorm
        rcases List.mem_append.1 hx with hx | hx
        · exact .inl ⟨e, he, hNorm, by rw [hb]; exact hx⟩
        · exact .inr ⟨List.mem_singleton.1 hx, hEq⟩
      · exact .inl ⟨e, he, hNorm, hx⟩
    · rintro (⟨e, he, hNorm, hx⟩ | ⟨rfl, hNorm⟩)
      · refine ⟨e, by rw [hTable]; exact he, hNorm, ?_⟩
        rw [hFlist]
        split
        · rename_i hb
          rw [hb] at hx
          exact List.mem_append_left _ hx
        · exact hx
      · refine ⟨(k, bin), by rw [hTable]; exact hIn, hKey.trans hNorm, ?_⟩
        rw [hFlist, if_pos rfl]
        simp

/-- A word that has no bin yet gets one. -/
theorem new (h : WordIndex s) (hNone : s.fileTable.lookup key = none) (hKnown : d < s.next) :
    FilesUnder d [key] s (s.fdbAdd d key) := by
  have hFlist (b : FlistId) : (s.fdbAdd d key).flist b = if b = s.next then
      { key := key, list := [d], count := 1 } else s.flist b := by
    rw [Core.fdbAdd, hNone]
    by_cases hb : b = s.next <;> simp [Core.addRef, hb]
  have hTable : (s.fdbAdd d key).fileTable = s.fileTable.add key s.next := by
    rw [Core.fdbAdd, hNone]
    rfl
  have hNext : (s.fdbAdd d key).next = s.next + 1 := by rw [Core.fdbAdd, hNone]; rfl
  have hEntries (e : Str × FlistId) : e ∈ (s.fileTable.add key s.next).entries ↔
      e = (key, s.next) ∨ e ∈ s.fileTable.entries := by
    rw [(s.fileTable.entries_add key s.next).mem_iff, List.mem_cons]
  have hOld {e : Str × FlistId} (he : e ∈ s.fileTable.entries) : e.2 ≠ s.next :=
    (h.known e.2 (Bucket.Table.mem_values.2 ⟨e.1, he⟩)).ne
  have hFind : s.fileTable.find key = none := by simpa [Bucket.Table.lookup] using hNone
  have hBins {b : FlistId} (hb : b ∈ (s.fileTable.add key s.next).values) :
      b = s.next ∨ b ≠ s.next ∧ b ∈ s.fileTable.values := by
    rcases List.mem_cons.1 ((s.fileTable.values_add key s.next).mem_iff.1 hb) with hEq | hIn
    · exact .inl hEq
    · exact .inr ⟨(h.known b hIn).ne, hIn⟩
  refine ⟨by omega, by rw [Core.fdbAdd, hNone]; rfl, by rw [Core.fdbAdd, hNone]; rfl,
    fun x => ?_, ⟨?_, ?_, ?_, ?_, ?_, ?_⟩, fun k' x => ?_⟩
  · rw [Core.fdbAdd, hNone]
    by_cases hx : x = d <;> simp [Core.addRef, hx]
  · rw [hTable]
    exact h.distinct.add hFind _
  · intro e he
    rw [hTable, hEntries] at he
    rw [hFlist]
    rcases he with rfl | he
    · simp
    · rw [if_neg (hOld he)]
      exact h.keyed e he
  · intro b hb
    rw [hTable] at hb
    rw [hNext]
    rcases hBins hb with rfl | ⟨-, hIn⟩
    · exact Nat.lt_succ_self _
    · exact (h.known b hIn).trans (Nat.lt_succ_self _)
  · intro b hb
    rw [hTable] at hb
    rw [hFlist]
    rcases hBins hb with rfl | ⟨hNe, hIn⟩
    · simp
    · rw [if_neg hNe]
      exact h.counted b hIn
  · intro b hb
    rw [hTable] at hb
    rw [hFlist]
    rcases hBins hb with rfl | ⟨hNe, hIn⟩
    · simp
    · rw [if_neg hNe]
      exact h.once b hIn
  · intro b hb x hx
    rw [hTable] at hb
    rw [hFlist] at hx
    rw [hNext]
    rcases hBins hb with rfl | ⟨hNe, hIn⟩
    · rw [if_pos rfl] at hx
      rw [List.mem_singleton.1 hx]
      exact hKnown.trans (Nat.lt_succ_self _)
    · rw [if_neg hNe] at hx
      exact (h.records b hIn x hx).trans (Nat.lt_succ_self _)
  · simp only [List.mem_singleton, exists_eq_left, Core.Filed, hTable, hEntries]
    constructor
    · rintro ⟨e, rfl | he, hNorm, hx⟩
      · rw [hFlist, if_pos rfl] at hx
        exact .inr ⟨List.mem_singleton.1 hx, hNorm⟩
      · rw [hFlist, if_neg (hOld he)] at hx
        exact .inl ⟨e, he, hNorm, hx⟩
    · rintro (⟨e, he, hNorm, hx⟩ | ⟨rfl, hNorm⟩)
      · refine ⟨e, .inr he, hNorm, ?_⟩
        rw [hFlist, if_neg (hOld he)]
        exact hx
      · refine ⟨(key, s.next), .inl rfl, hNorm, ?_⟩
        rw [hFlist, if_pos rfl]
        simp

theorem fdbAdd (h : WordIndex s) (hKnown : d < s.next) (hNew : ¬ s.Filed key d) :
    FilesUnder d [key] s (s.fdbAdd d key) := by
  cases hBin : s.fileTable.lookup key with
  | some bin => exact old h hBin hKnown hNew
  | none => exact new h hBin hKnown

/-- The record goes into the bins of words that are all different. -/
theorem fdbAdds (hKeys : (keys.map byName.norm).Nodup) (h : WordIndex s) (hKnown : d < s.next)
    (hNew : ∀ key ∈ keys, ¬ s.Filed key d) :
    FilesUnder d keys s (keys.foldl (fun s key => s.fdbAdd d key) s) := by
  induction keys generalizing s with
  | nil => exact refl h d
  | cons key keys ih =>
    rw [List.map_cons, List.nodup_cons] at hKeys
    have hFirst := fdbAdd h hKnown (hNew key (by simp))
    refine hFirst.cons (ih hKeys.2 hFirst.index (hKnown.trans_le hFirst.next) ?_)
    intro k hk hFiled
    rcases (hFirst.filed k d).1 hFiled with hOld | ⟨-, k', hk', hNorm⟩
    · exact hNew k (by simp [hk]) hOld
    · rw [List.mem_singleton.1 hk'] at hNorm
      exact hKeys.1 (List.mem_map.2 ⟨k, hk, hNorm.symm⟩)

end FilesUnder

/-! ### insert_datum -/

/-- The words under which `insert_datum` enters a file of that name. -/
def Core.wordsOfFile (s : Core) (name : Str) : List Str := Core.indexTokens (s.tokenize name)

/-- From `s` to `t` a user on a connection gets a new file. -/
structure Gains (con : ConId) (user : UserId) (info : Datum) (s t : Core) : Prop where
  next : s.next < t.next
  filter : t.filter = s.filter
  owner : ∀ c, (t.con c).user = (s.con c).user
  here : (t.library con).values.Perm (s.next :: (s.library con).values)
  elsewhere : ∀ other, other ≠ con → t.library other = s.library other
  made : { t.datum s.next with refcount := 0 } = { info with user := some user, refcount := 0 }
  others : ∀ d, d ≠ s.next → { t.datum d with refcount := 0 } = { s.datum d with refcount := 0 }
  index : WordIndex t
  filed : ∀ key d, t.Filed key d ↔
    s.Filed key d ∨ d = s.next ∧ ∃ k ∈ s.wordsOfFile info.filename, byName.norm k = byName.norm key

section

variable {s t : Core} {con : ConId} {user : UserId} {info : Datum}

/-- The index has no record that there is not yet. -/
theorem WordIndex.fresh (h : WordIndex s) (key : Str) : ¬ s.Filed key s.next := by
  rintro ⟨e, he, -, hd⟩
  exact Nat.lt_irrefl _ (h.records e.2 (Bucket.Table.mem_values.2 ⟨e.1, he⟩) _ hd)

theorem gains_insertDatum (h : WordIndex s) (hOptions : (s.con con).uopt.isSome = true)
    (user : UserId) (info : Datum) : Gains con user info s (s.insertDatum con user info) := by
  obtain ⟨owned, hOwned⟩ : ∃ owned, owned =
      ((s.alloc.modDatum s.next fun _ => { info with user := some user }).setFiles con
        (some ((s.library con).add info.filename s.next))).addRef s.next := ⟨_, rfl⟩
  have hEq : s.insertDatum con user info =
      ((s.wordsOfFile info.filename).foldl (fun t key => t.fdbAdd s.next key) owned).countShared user
        (info.size / 1024) := by
    rw [hOwned]
    rfl
  have hNext : owned.next = s.next + 1 := by rw [hOwned]; rfl
  have hTable : owned.fileTable = s.fileTable := by rw [hOwned]; rfl
  have hFlist : owned.flist = s.flist := by rw [hOwned]; rfl
  have hIndex : WordIndex owned := h.of_same hTable hFlist (by omega)
  have hAdds : FilesUnder s.next (s.wordsOfFile info.filename) owned
      ((s.wordsOfFile info.filename).foldl (fun t key => t.fdbAdd s.next key) owned) := by
    have hKnown : s.next < owned.next := by rw [hNext]; exact Nat.lt_succ_self _
    refine FilesUnder.fdbAdds (Depot.indexTokens_distinct s info.filename) hIndex hKnown ?_
    intro key _
    rw [filed_of_same hTable hFlist]
    exact h.fresh key
  rw [hEq]
  generalize (s.wordsOfFile info.filename).foldl (fun t key => t.fdbAdd s.next key) owned = u at hAdds
  have hDatum : (u.countShared user (info.size / 1024)).datum = u.datum := rfl
  have hBins : (u.countShared user (info.size / 1024)).fileTable = u.fileTable ∧
      (u.countShared user (info.size / 1024)).flist = u.flist := ⟨rfl, rfl⟩
  have hLater : (u.countShared user (info.size / 1024)).next = u.next := rfl
  have hFilter : (u.countShared user (info.size / 1024)).filter = u.filter := rfl
  have hCon : (u.countShared user (info.size / 1024)).con = owned.con := hAdds.con
  generalize u.countShared user (info.size / 1024) = t at *
  have hLibrary (c : ConId) : t.library c = owned.library c := by
    simp only [Core.library, Core.files, hCon]
  constructor
  · have hLe := hAdds.next
    omega
  · rw [hFilter, hAdds.filter, hOwned]
    rfl
  · intro c
    rw [hCon, hOwned]
    by_cases hc : c = con <;> simp [Core.addRef, Core.setFiles, hc]
  · have hHere : owned.library con = (s.library con).add info.filename s.next := by
      rw [hOwned]
      exact Core.library_setFiles (by simpa using hOptions) _
    rw [hLibrary, hHere]
    exact Bucket.Table.values_add _ _ _
  · intro other hOther
    rw [hLibrary, hOwned]
    simp [Core.library, Core.files, Core.addRef, Core.setFiles, hOther]
  · have hMade := hAdds.datum s.next
    rw [hOwned] at hMade
    rw [hDatum]
    simpa [Core.addRef, Core.setFiles] using hMade
  · intro d hd
    have hSame := hAdds.datum d
    rw [hOwned] at hSame
    rw [hDatum]
    simpa [Core.addRef, Core.setFiles, hd] using hSame
  · exact hAdds.index.of_same hBins.1 hBins.2 (le_of_eq hLater.symm)
  · intro key d
    rw [filed_of_same hBins.1 hBins.2, hAdds.filed, filed_of_same hTable hFlist]

/-- The record of a new file, but for its count. -/
theorem Gains.new_datum (h : Gains con user info s t) : (t.datum s.next).user = some user ∧
    (t.datum s.next).filename = info.filename ∧ (t.datum s.next).size = info.size :=
  ⟨(congrArg Datum.user h.made :), (congrArg Datum.filename h.made :), (congrArg Datum.size h.made :)⟩

/-- The other records, but for their counts. -/
theorem Gains.old_datum (h : Gains con user info s t) {d : DatumId} (hd : d ≠ s.next) :
    (t.datum d).user = (s.datum d).user ∧ (t.datum d).filename = (s.datum d).filename ∧
      (t.datum d).size = (s.datum d).size :=
  ⟨(congrArg Datum.user (h.others d hd) :), (congrArg Datum.filename (h.others d hd) :),
    (congrArg Datum.size (h.others d hd) :)⟩

theorem Gains.mem_library (h : Gains con user info s t) {c : ConId} {d : DatumId} :
    d ∈ (t.library c).values ↔ d ∈ (s.library c).values ∨ c = con ∧ d = s.next := by
  by_cases hc : c = con
  · subst hc
    rw [h.here.mem_iff, List.mem_cons]
    tauto
  · rw [h.elsewhere c hc]
    simp [hc]

theorem Gains.shelf (h : Gains con user info s t) (hShelf : Shelf s) : Shelf t where
  once c := by
    by_cases hc : c = con
    · subst hc
      rw [h.here.nodup_iff, List.nodup_cons]
      exact ⟨fun hIn => Nat.lt_irrefl _ (hShelf.known c _ hIn), hShelf.once c⟩
    · rw [h.elsewhere c hc]
      exact hShelf.once c
  apart c c' d hc hc' := by
    rw [h.mem_library] at hc hc'
    rcases hc with hc | ⟨rfl, rfl⟩ <;> rcases hc' with hc' | ⟨rfl, hd⟩
    · exact hShelf.apart c c' d hc hc'
    · rw [hd] at hc
      exact absurd (hShelf.known c _ hc) (Nat.lt_irrefl _)
    · exact absurd (hShelf.known c' _ hc') (Nat.lt_irrefl _)
    · rfl
  known c d hd := by
    rcases h.mem_library.1 hd with hOld | ⟨-, rfl⟩
    · exact (hShelf.known c d hOld).trans h.next
    · exact h.next
  index := h.index

end

/-! ### Every operation -/

/-- Every operation keeps the tables of files in order. -/
theorem Shelf.op {ok : Label → Core → Prop} {s t : Core} (hOp : Op ok s t) (hSound : Sound s)
    (hHotlists : Hotlists s) (h : Shelf s) : Shelf t := by
  rcases Tidy.op hOp hSound hHotlists with hTidy | ⟨con, user, info, hClient, -, -, -, rfl⟩
  · exact (hTidy h).shelf h
  · exact (gains_insertDatum h.index ((hHotlists.options con).2 hClient) user info).shelf h

/-- At the start there are neither files nor words. -/
theorem start_empty (f : Startup) : (∀ con, ((Core.start f).library con).values = []) ∧
    (Core.start f).fileTable.entries = [] := by
  obtain ⟨next, channels, chan, userDb, db, filter, hStart⟩ := Core.loaded_start f
  rw [hStart]
  constructor
  · intro con
    simp [Core.empty, Core.library, Core.files]
  · simp [Core.empty]

theorem Shelf.start (f : Startup) : Shelf (Core.start f) := by
  obtain ⟨hLibrary, hEntries⟩ := start_empty f
  have hValues : (Core.start f).fileTable.values = [] := by rw [Bucket.Table.values, hEntries]; rfl
  refine ⟨?_, ?_, ?_, ⟨?_, ?_, ?_, ?_, ?_, ?_⟩⟩ <;>
    simp [hLibrary, hEntries, hValues, Bucket.Table.Distinct]

end OpenNap
