import OpenNap.Bins

/-! The five bits in which a record of a file counts its references.  A new record is entered in its
owner's table, in thirty bins of the index by word at most and, with RESUME, in one of the index by
hash; the owner's table and the garbage collection drop it again.  Each step keeps the count. -/

namespace OpenNap

open CText

namespace Depot

/-! ### Entering a record -/

/-- From `s` to `t` a record is taken by so many containers of a kind, and all else that is held
stays where it is. -/
structure Entered (d : DatumId) (kind : Set Container) (n : Nat) (s t : Depot) : Prop where
  shelved : Shelved t
  filled : Filled t
  exact : RefCount.Exact t.store
  number : t.store.number d = s.store.number d + n
  kinds : ∀ c ∈ t.store.holders d, c ∈ s.store.holders d ∨ c ∈ kind
  others : ∀ x, x ≠ d → t.store.holders x = s.store.holders x
  freed : t.freed = s.freed
  next : s.next ≤ t.next

namespace Entered

variable {d : DatumId} {kind : Set Container} {m n : Nat} {s t u : Depot}

theorem refl (d : DatumId) (kind : Set Container) (hShelved : Shelved s) (hFilled : Filled s)
    (hExact : RefCount.Exact s.store) : Entered d kind 0 s s where
  shelved := hShelved
  filled := hFilled
  exact := hExact
  number := rfl
  kinds _ hc := .inl hc
  others _ _ := rfl
  freed := rfl
  next := Nat.le_refl _

theorem trans (h1 : Entered d kind m s t) (h2 : Entered d kind n t u) :
    Entered d kind (m + n) s u where
  shelved := h2.shelved
  filled := h2.filled
  exact := h2.exact
  number := by rw [h2.number, h1.number, Nat.add_assoc]
  kinds c hc := by
    rcases h2.kinds c hc with hc | hc
    · exact h1.kinds c hc
    · exact .inr hc
  others x hx := (h2.others x hx).trans (h1.others x hx)
  freed := h2.freed.trans h1.freed
  next := h1.next.trans h2.next

theorem mono (h : Entered d kind n s t) {kind' : Set Container} (hKind : kind ⊆ kind') :
    Entered d kind' n s t :=
  { h with kinds := fun c hc => (h.kinds c hc).imp id fun hIn => hKind hIn }

theorem history (h : Entered d kind n s t) (x : DatumId) :
    t.store.history x = s.store.history x := by
  have hDrops : t.store.drops = s.store.drops := h.freed
  rw [RefCount.Store.history, hDrops]
  rfl

/-- A container that takes the record is one step of that. -/
theorem of_takes {c : Container} (h : RefCount.Takes c d s.store t.store)
    (hExact : RefCount.Exact s.store) (hShelved : Shelved t) (hFilled : Filled t)
    (hNext : s.next ≤ t.next) : Entered d {c} 1 s t where
  shelved := hShelved
  filled := hFilled
  exact := hExact.takes h
  number := h.number (hExact.finite d)
  kinds c' hc' := by
    rw [h.holders] at hc'
    exact hc'.symm
  others x hx := h.holders_ne hx
  freed := h.drops
  next := hNext

theorem of_same (h : Entered d kind n s t) (hStore : u.store = t.store)
    (hTable : ∀ index, u.table index = t.table index) (hFlist : u.flist = t.flist)
    (hNext : u.next = t.next) : Entered d kind n s u where
  shelved := h.shelved.of_same hTable hFlist (by rw [hNext])
  filled index := by
    rw [hTable, hFlist]
    exact h.filled index
  exact := by
    rw [hStore]
    exact h.exact
  number := by
    rw [hStore]
    exact h.number
  kinds := by
    rw [hStore]
    exact h.kinds
  others := by
    rw [hStore]
    exact h.others
  freed := by
    have hFreed : u.freed = t.freed := congrArg RefCount.Store.drops hStore
    rw [hFreed]
    exact h.freed
  next := by
    rw [hNext]
    exact h.next

/-- The counters have no part in that. -/
theorem counted (h : Entered d kind n s t) (user : UserId) (kb : UInt32) (made : List DatumId) :
    Entered d kind n s { t.onCore (·.countShared user kb) with made := made } :=
  h.of_same rfl (fun index => by cases index <;> rfl) rfl rfl

end Entered

/-- The bins of an index. -/
def binsOf (index : Index) : Set Container := { c | ∃ bin, c = .bin index bin }

section

variable {s : Depot} {index : Index} {d : DatumId}

/-- Entering a record under words that are different, and under which it is not yet. -/
theorem fdbAdds_entered {keys : List Str} (hKeys : (keys.map strlower).Nodup) (h : Shelved s)
    (hFilled : Filled s) (hExact : RefCount.Exact s.store) (hFresh : s.store.history d = [])
    (hAbsent : ∀ key ∈ keys, Absent s index d key) :
    Entered d (binsOf index) keys.length s (keys.foldl (fun s key => s.fdbAdd index d key) s) := by
  induction keys generalizing s with
  | nil => exact .refl d _ h hFilled hExact
  | cons key keys ih =>
    obtain ⟨hKey, hRest⟩ := List.nodup_cons.1 hKeys
    obtain ⟨bin, hBinned, hShelved, hNew, hName⟩ := fdbAdd_binned h (hAbsent key (by simp))
    have hFirst := Entered.of_takes (hBinned.takes hNew hFresh) hExact hShelved
      (hBinned.filled hFilled) hBinned.next
    have hLater := ih hRest hShelved hFirst.filled hFirst.exact
      ((hFirst.history d).trans hFresh) fun other hOther =>
        hBinned.absent h hShelved hName (fun hEq => hKey (hEq ▸ List.mem_map_of_mem hOther))
          (hAbsent other (by simp [hOther]))
    have hKind : {Container.bin index bin} ⊆ binsOf index :=
      Set.singleton_subset_iff.2 ⟨bin, rfl⟩
    have hWhole := (hFirst.mono hKind).trans hLater
    rw [List.length_cons, Nat.add_comm]
    exact hWhole

end

/-! ### What holds between the steps -/

/-- What holds of the records and the tables between the steps: among the rest, no record was ever
held by more than so many containers. -/
structure Kept (most : Nat) (s : Depot) : Prop where
  shelved : Shelved s
  filled : Filled s
  exact : RefCount.Exact s.store
  held : ∀ c, ∀ d ∈ s.contents c, d < s.next
  dropped : ∀ e ∈ s.freed, e.1 < s.next
  bounded : ∀ d, s.store.total d ≤ most
  made : ∀ d, d ∈ s.made ↔ 0 < s.store.total d

section

variable {most : Nat} {s t : Depot}

/-- Nothing holds a record that there is not yet. -/
theorem Kept.holders_next (h : Kept most s) : s.store.holders s.next = ∅ := by
  rw [Set.eq_empty_iff_forall_notMem]
  exact fun c hc => Nat.lt_irrefl _ (h.held c s.next hc)

theorem Kept.history_next (h : Kept most s) : s.store.history s.next = [] := by
  rw [List.eq_nil_iff_forall_not_mem]
  exact fun k hk => Nat.lt_irrefl _ (h.dropped _ (RefCount.Store.mem_history.1 hk))

theorem Kept.number_next (h : Kept most s) : s.store.number s.next = 0 := by
  rw [RefCount.Store.number, h.holders_next, Set.ncard_empty]

/-- Other data may change as it likes. -/
theorem Kept.of_same (h : Kept most s) (hCon : ∀ con, (t.library con).values = (s.library con).values)
    (hTable : ∀ index, t.table index = s.table index) (hFlist : t.flist = s.flist)
    (hDatum : t.datum = s.datum) (hNext : t.next = s.next) (hFreed : t.freed = s.freed)
    (hMade : t.made = s.made) : Kept most t := by
  have hContents : t.contents = s.contents := by
    funext c
    cases c with
    | owner con => exact hCon con
    | bin index bin => simp only [contents, hTable, hFlist]
  have hStore : t.store = s.store := by
    simp only [store, hContents, hDatum, hFreed]
  refine ⟨h.shelved.of_same hTable hFlist (by rw [hNext]), ?_, ?_, ?_, ?_, ?_, ?_⟩
  · intro index
    rw [hTable, hFlist]
    exact h.filled index
  · rw [hStore]
    exact h.exact
  · rw [hContents, hNext]
    exact h.held
  · rw [hFreed, hNext]
    exact h.dropped
  · rw [hStore]
    exact h.bounded
  · rw [hStore, hMade]
    exact h.made

/-- A container that drops records leaves the rest as it is. -/
theorem Kept.drops (h : Kept most s) {c : Container} {l : List DatumId}
    (hDrops : RefCount.Drops c l s.store t.store) (hShelved : Shelved t) (hFilled : Filled t)
    (hNext : t.next = s.next) (hMade : t.made = s.made) : Kept most t where
  shelved := hShelved
  filled := hFilled
  exact := h.exact.drops hDrops
  held c' d hd := by
    rw [hNext]
    refine h.held c' d ?_
    by_cases hc : c' = c
    · subst hc
      exact hDrops.here.mem_iff.2 (List.mem_append_right _ hd)
    · have hSame : t.contents c' = s.contents c' := hDrops.other c' hc
      rwa [← hSame]
  dropped e he := by
    have hFreed : t.freed = s.freed ++ l.map fun d => (d, (s.datum d).refcount) := hDrops.drops
    rw [hNext]
    rw [hFreed] at he
    rcases List.mem_append.1 he with he | he
    · exact h.dropped e he
    · obtain ⟨d, hd, rfl⟩ := List.mem_map.1 he
      exact h.held c d (hDrops.holds hd)
  bounded d := by
    rw [hDrops.total h.exact]
    exact h.bounded d
  made d := by
    rw [hDrops.total h.exact, hMade]
    exact h.made d

end

/-! ### The words of a file name -/

theorem toLower_toLower (c : Char) : c.toLower.toLower = c.toLower := by
  by_cases hUpper : 'A'.val ≤ c.val ∧ c.val ≤ 'Z'.val
  · have hLow : 65 ≤ c.val.toNat := hUpper.1
    have hHigh : c.val.toNat ≤ 90 := hUpper.2
    have hLower : c.toLower.val.toNat = (c.val.toNat + 32) % 4294967296 :=
      congrArg (fun d : Char => d.val.toNat) (dif_pos hUpper)
    refine dif_neg ?_
    rintro ⟨-, hStill⟩
    have hSmall : c.toLower.val.toNat ≤ 90 := hStill
    omega
  · have hSame : c.toLower = c := dif_neg hUpper
    rw [hSame, hSame]

@[simp] theorem strlower_strlower (s : Str) : strlower (strlower s) = strlower s := by
  simp [strlower, toLower_toLower]

theorem rawWords_lower {fuel : Nat} {s w : Str} (h : w ∈ rawWords fuel s) : strlower w = w := by
  fun_induction rawWords fuel s with
  | case1 => cases h
  | case2 => cases h
  | case3 fuel c cs rest ih =>
    rcases List.mem_cons.1 h with rfl | h
    · exact strlower_strlower _
    · exact ih h

/-- The tokens of a text are in lower case, and no two are the same. -/
theorem tokenizeWith_distinct (filtered : Str → Bool) (text : Str) :
    ((tokenizeWith filtered text).map strlower).Nodup := by
  have hWalk : ∀ (l acc : List Str), (∀ w ∈ l, strlower w = w) → (acc.map strlower).Nodup →
      (∀ w ∈ acc, strlower w = w) → ((l.foldl (fun tokens word =>
        if filtered word || tokens.contains word then tokens else tokens ++ [word]) acc).map
          strlower).Nodup := by
    intro l
    induction l with
    | nil => exact fun acc _ h _ => h
    | cons w l ih =>
      intro acc hLower hAcc hSame
      obtain ⟨hw, hl⟩ := List.forall_mem_cons.1 hLower
      rw [List.foldl_cons]
      split
      · exact ih acc hl hAcc hSame
      · rename_i hNew
        have hNot : w ∉ acc := by
          intro hIn
          exact hNew (by simp [hIn])
        refine ih _ hl ?_ ?_
        · rw [List.map_append, List.map_singleton, ← List.concat_eq_append]
          refine hAcc.concat ?_
          intro hIn
          obtain ⟨v, hv, hEq⟩ := List.mem_map.1 hIn
          rw [hSame v hv, hw] at hEq
          exact hNot (hEq ▸ hv)
        · intro v hv
          rcases List.mem_append.1 hv with hv | hv
          · exact hSame v hv
          · rw [List.mem_singleton.1 hv]
            exact hw
  exact hWalk _ [] (fun w hw => rawWords_lower hw) List.nodup_nil (fun w hw => by cases hw)

/-- `insert_datum` enters a file in at most thirty bins by word. -/
theorem indexTokens_distinct (s : Core) (text : Str) :
    ((Core.indexTokens (s.tokenize text)).map strlower).Nodup :=
  (tokenizeWith_distinct s.isFiltered text).sublist ((List.drop_sublist _ _).map strlower)

theorem length_indexTokens (tokens : List Str) :
    (Core.indexTokens tokens).length = min tokens.length 30 := by
  rw [Core.indexTokens, List.length_drop]
  omega

/-! ### A new record -/

section

variable {most : Nat} {s : Depot} {con : ConId} {user : UserId} {info : Datum} {hash : Str}

theorem enterOwner_entered (h : Kept most s) (hOptions : (s.con con).uopt.isSome = true)
    (hCount : info.refcount = 0) (user : UserId) :
    Entered s.next {.owner con} 1 s (s.enterOwner con user info) := by
  have hTable : ∀ index, (s.enterOwner con user info).table index = s.table index := by
    intro index
    cases index <;> rfl
  have hLibrary : (s.enterOwner con user info).library con =
      (s.library con).add info.filename s.next :=
    Core.library_setFiles (s := s.alloc.modDatum s.next fun _ => { info with user := some user })
      hOptions _
  have hOther : ∀ other, other ≠ con →
      (s.enterOwner con user info).library other = s.library other := by
    intro other hCon
    simp [Core.library, Core.files, enterOwner, onCore, addRef, Core.addRef, Core.setFiles, hCon]
  refine Entered.of_takes ?_ h.exact (h.shelved.of_same hTable rfl (Nat.le_succ _)) ?_
    (Nat.le_succ _)
  · refine ⟨?_, h.history_next, ?_, ?_, ?_, ?_, rfl⟩
    · exact fun hIn => Nat.lt_irrefl _ (h.held (.owner con) s.next hIn)
    · show ((s.enterOwner con user info).library con).values.Perm _
      rw [hLibrary]
      exact (s.library con).values_add info.filename s.next
    · intro c hc
      cases c with
      | owner other =>
        refine congrArg Bucket.Table.values (hOther other ?_)
        rintro rfl
        exact hc rfl
      | bin index bin => exact contents_congr (by rw [hTable]) rfl
    · have hBefore : (s.datum s.next).refcount = 0 := by
        have hExact := h.exact.count s.next
        rw [h.number_next] at hExact
        exact hExact
      show ((s.enterOwner con user info).datum s.next).refcount = (s.datum s.next).refcount + 1
      rw [hBefore]
      simp [enterOwner, onCore, addRef, Core.addRef, Core.setFiles, hCount]
    · intro x hx
      show ((s.enterOwner con user info).datum x).refcount = (s.datum x).refcount
      simp [enterOwner, onCore, addRef, Core.addRef, Core.setFiles, hx]
  · intro index
    rw [hTable]
    exact h.filled index

/-- The number of the containers that a new record is entered in. -/
def references (s : Depot) (name : Str) : Nat :=
  min (s.tokenize name).length 30 + 1 + if s.resume then 1 else 0

/-- What is held by containers of other kinds alone is in no bin of an index. -/
theorem absent_of_kinds {t : Depot} {d : DatumId} {kind : Set Container} {index : Index}
    (hKinds : ∀ c ∈ t.store.holders d, c ∈ kind) (hNot : ∀ bin, .bin index bin ∉ kind) (key : Str) :
    Absent t index d key := by
  intro bin hBin hIn
  refine hNot bin (hKinds _ ?_)
  show d ∈ t.contents (.bin index bin)
  rw [contents_bin (Bucket.Table.mem_values_of_lookup hBin)]
  exact hIn

/-- A new record is entered in its owner's table, in the bins of its words, and in one of its hash. -/
theorem indexes_entered (h : Kept most s) (hOptions : (s.con con).uopt.isSome = true)
    (hCount : info.refcount = 0) (user : UserId) (hash : Str) :
    ∃ t, Entered s.next Set.univ (s.references info.filename) s t ∧ s.next < t.next ∧
      s.insertDatum con user info hash =
        let u := t.onCore (·.countShared user (info.size / 1024))
        { u with made := s.next :: u.made } := by
  have hOwner := enterOwner_entered h hOptions hCount user
  have hFresh := (hOwner.history s.next).trans h.history_next
  have hOwned : ∀ c ∈ (s.enterOwner con user info).store.holders s.next,
      c ∈ ({.owner con} : Set Container) := by
    intro c hc
    rcases hOwner.kinds c hc with hOld | hNew
    · rw [h.holders_next] at hOld
      exact absurd hOld (Set.notMem_empty c)
    · exact hNew
  have hNoWord : ∀ bin, Container.bin .words bin ∉ ({.owner con} : Set Container) :=
    fun bin hIn => by cases hIn
  have hWords := fdbAdds_entered (indexTokens_distinct s.toCore info.filename) hOwner.shelved
    hOwner.filled hOwner.exact hFresh fun key _ => absent_of_kinds hOwned hNoWord key
  have hBoth := (hOwner.mono (Set.subset_univ _)).trans (hWords.mono (Set.subset_univ _))
  have hLength := length_indexTokens (s.tokenize info.filename)
  have hBuild := (fdbAdds_rest .words s.next (Core.indexTokens (s.tokenize info.filename))
    (s.enterOwner con user info)).1
  have hOwnerNext : s.next < (s.enterOwner con user info).next := Nat.lt_succ_self _
  have hOwnerBuild : (s.enterOwner con user info).resume = s.resume := rfl
  unfold insertDatum
  cases hResume : s.resume with
  | false =>
    have hTotal : s.references info.filename =
        1 + (Core.indexTokens (s.tokenize info.filename)).length := by
      rw [references, hResume, hLength]
      simp only [Bool.false_eq_true, if_false]
      omega
    rw [hTotal]
    simp only [hBuild, hOwnerBuild, hResume, Bool.false_eq_true, if_false]
    exact ⟨_, hBoth, Nat.lt_of_lt_of_le hOwnerNext hWords.next, rfl⟩
  | true =>
    have hTotal : s.references info.filename =
        1 + (Core.indexTokens (s.tokenize info.filename)).length + 1 := by
      rw [references, hResume, hLength]
      simp only [if_true]
      omega
    have hKinds : ∀ c ∈ ((Core.indexTokens (s.tokenize info.filename)).foldl
        (fun s' key => s'.fdbAdd .words s.next key) (s.enterOwner con user info)).store.holders s.next,
        c ∈ ({.owner con} : Set Container) ∪ binsOf .words := by
      intro c hc
      rcases hWords.kinds c hc with hOld | hNew
      · exact .inl (hOwned c hOld)
      · exact .inr hNew
    have hNoHash : ∀ bin, Container.bin .hashes bin ∉ {.owner con} ∪ binsOf .words := by
      rintro bin (hIn | ⟨bin', hIn⟩)
      · cases hIn
      · cases hIn
    have hOne : ([hash].map strlower).Nodup := List.nodup_singleton _
    have hHash := fdbAdds_entered hOne hWords.shelved hWords.filled hWords.exact
      ((hWords.history s.next).trans hFresh) fun key _ => absent_of_kinds hKinds hNoHash key
    rw [List.foldl_cons, List.foldl_nil] at hHash
    rw [hTotal]
    simp only [hBuild, hOwnerBuild, hResume, if_true]
    exact ⟨_, hBoth.trans (hHash.mono (Set.subset_univ _)),
      Nat.lt_of_lt_of_le hOwnerNext (hWords.next.trans hHash.next), rfl⟩

theorem insertDatum_entered (h : Kept most s) (hOptions : (s.con con).uopt.isSome = true)
    (hCount : info.refcount = 0) (user : UserId) (hash : Str) :
    Entered s.next Set.univ (s.references info.filename) s (s.insertDatum con user info hash) ∧
      s.next < (s.insertDatum con user info hash).next := by
  obtain ⟨t, hEntered, hNext, hEq⟩ := indexes_entered h hOptions hCount user hash
  rw [hEq]
  exact ⟨hEntered.counted _ _ _, hNext⟩

/-- What a new record leaves of the rest. -/
theorem Kept.insertDatum (h : Kept most s) (hOptions : (s.con con).uopt.isSome = true)
    (hCount : info.refcount = 0) (hMost : s.references info.filename ≤ most) :
    Kept most (s.insertDatum con user info hash) := by
  obtain ⟨hEntered, hNext⟩ := insertDatum_entered h hOptions hCount user hash
  have hTotal : (s.insertDatum con user info hash).store.total s.next =
      s.references info.filename := by
    rw [RefCount.Store.total, hEntered.history, h.history_next, hEntered.number, h.number_next]
    simp
  have hOthers : ∀ x, x ≠ s.next →
      (s.insertDatum con user info hash).store.total x = s.store.total x := by
    intro x hx
    rw [RefCount.Store.total, hEntered.history, RefCount.Store.number, hEntered.others x hx]
    rfl
  refine ⟨hEntered.shelved, hEntered.filled, hEntered.exact, ?_, ?_, ?_, ?_⟩
  · intro c d hd
    by_cases hx : d = s.next
    · subst hx
      exact hNext
    · have hOld : c ∈ s.store.holders d := by
        rw [← hEntered.others d hx]
        exact hd
      exact Nat.lt_trans (h.held c d hOld) hNext
  · intro e he
    rw [hEntered.freed] at he
    exact Nat.lt_trans (h.dropped e he) hNext
  · intro d
    by_cases hx : d = s.next
    · rw [hx, hTotal]
      exact hMost
    · rw [hOthers d hx]
      exact h.bounded d
  · intro d
    rw [made_insertDatum, List.mem_cons]
    by_cases hx : d = s.next
    · rw [hx, hTotal, references]
      simp
    · rw [hOthers d hx, h.made]
      simp [hx]

end

/-! ### Records that are dropped -/

section

variable {most : Nat} {s : Depot}

theorem library_setFiles {s : Core} {con : ConId} (h : (s.con con).uopt.isSome = true)
    (files : Option (NameTable DatumId)) : (s.setFiles con files).library con =
      files.getD (Bucket.Table.empty byName DatumId 257 pos_257) := by
  obtain ⟨o, ho⟩ := Option.isSome_iff_exists.1 h
  simp [Core.library, Core.files, Core.setFiles, ho]

/-- A connection with a table of files has options, and the table is its library. -/
theorem options_of_files {s : Core} {con : ConId} {table : NameTable DatumId}
    (h : s.files con = some table) :
    (s.con con).uopt.isSome = true ∧ s.library con = table := by
  constructor
  · rw [Core.files, Option.bind_eq_some_iff] at h
    obtain ⟨o, ho, -⟩ := h
    rw [ho]
    rfl
  · rw [Core.library, h]
    rfl

/-- An owner's table drops what is freed. -/
theorem Kept.ownerDrops (h : Kept most s) {con : ConId} (l : List DatumId)
    (files : Option (NameTable DatumId)) (hOptions : (s.con con).uopt.isSome = true)
    (hPerm : (s.library con).values.Perm
      (l ++ (files.getD (Bucket.Table.empty byName DatumId 257 pos_257)).values)) :
    Kept most ((l.foldl freeDatum s).onCore (·.setFiles con files)) := by
  have hFreed := Unfiled.freeDatums l s
  have hl : l.Nodup :=
    (List.nodup_append.1 (hPerm.nodup_iff.1 (h.exact.nodup (.owner con)))).1
  obtain ⟨hCounts, hDrops⟩ := freeDatums_spec hl s
  generalize l.foldl freeDatum s = t at hFreed hCounts hDrops ⊢
  have hTable : ∀ index, (t.onCore (·.setFiles con files)).table index = s.table index :=
    fun index => (by cases index <;> rfl : _ = t.table index).trans (hFreed.table index)
  have hLibrary : (t.onCore (·.setFiles con files)).library con =
      files.getD (Bucket.Table.empty byName DatumId 257 pos_257) := by
    refine library_setFiles ?_ files
    rw [hFreed.con]
    exact hOptions
  have hOther : ∀ other, other ≠ con →
      (t.onCore (·.setFiles con files)).library other = s.library other := by
    intro other hCon
    have hOwn := library_congr hFreed.con other
    rw [← hOwn]
    simp [Core.library, Core.files, onCore, Core.setFiles, hCon]
  refine h.drops (c := .owner con) (l := l) ⟨?_, ?_, hCounts, hDrops⟩
    (h.shelved.of_same hTable hFreed.flist (le_of_eq hFreed.next.symm)) ?_ hFreed.next hFreed.made
  · show (s.library con).values.Perm
      (l ++ ((t.onCore (·.setFiles con files)).library con).values)
    rw [hLibrary]
    exact hPerm
  · intro c hc
    cases c with
    | owner other =>
      refine congrArg Bucket.Table.values (hOther other ?_)
      rintro rfl
      exact hc rfl
    | bin index bin => exact contents_congr (by rw [hTable]) (congrArg _ (congrFun hFreed.flist bin))
  · intro index
    rw [hTable]
    have hFlist : (t.onCore (·.setFiles con files)).flist = s.flist := hFreed.flist
    rw [hFlist]
    exact h.filled index

theorem Kept.hashRemoveFile (h : Kept most s) (con : ConId) (name : Str) :
    Kept most (s.hashRemoveFile con name) := by
  unfold Depot.hashRemoveFile
  split
  · exact h
  · rename_i d hFile
    rw [Core.lookupFile, Option.bind_eq_some_iff] at hFile
    obtain ⟨table, hTable, hLookup⟩ := hFile
    obtain ⟨hOptions, hLibrary⟩ := options_of_files hTable
    have hPerm := Bucket.Table.values_remove hLookup
    rw [← hLibrary] at hPerm
    rw [hTable, ← hLibrary]
    exact h.ownerDrops [d] (some ((s.library con).remove name)) hOptions hPerm

theorem Kept.freeFiles (h : Kept most s) (con : ConId) : Kept most (s.freeFiles con) := by
  unfold Depot.freeFiles
  split
  · exact h
  · rename_i table hTable
    obtain ⟨hOptions, hLibrary⟩ := options_of_files hTable
    exact h.ownerDrops table.values none hOptions (by simp [hLibrary])

theorem Kept.dropFile (h : Kept most s) (con : ConId) (user : UserId) (d : DatumId) :
    Kept most (s.dropFile con user d) := by
  refine Kept.hashRemoveFile ?_ con _
  exact h.of_same (fun con => rfl) (fun index => by cases index <;> rfl) rfl rfl rfl rfl rfl

end

/-! ### Garbage -/

section

variable {most : Nat} {s : Depot} {index : Index} {bin : FlistId}

/-- What taking the invalid records out of a bin changes. -/
structure Reaped (index : Index) (bin : FlistId) (s t : Depot) : Prop where
  drops : ∃ l, RefCount.Drops (.bin index bin) l s.store t.store
  shelved : Shelved t
  table : ∀ j, t.table j = s.table j
  flist : ∀ b, b ≠ bin → t.flist b = s.flist b
  key : (t.flist bin).key = (s.flist bin).key
  next : t.next = s.next
  made : t.made = s.made

theorem reap_reaped (h : Kept most s) (hBin : bin ∈ (s.table index).values) :
    Reaped index bin s (s.reap bin) := by
  have hHeld : s.contents (.bin index bin) = (s.flist bin).list := contents_bin hBin
  have hList : (s.contents (.bin index bin)).Nodup := h.exact.nodup (.bin index bin)
  have hSplit : (((s.flist bin).list.filter fun d => (s.datum d).size == invalidSize) ++
      (s.flist bin).list.filter fun d => (s.datum d).size != invalidSize).Perm
        (s.contents (.bin index bin)) := by
    rw [hHeld]
    exact List.filter_append_perm _ _
  unfold reap
  simp only
  generalize (s.flist bin).list.filter (fun d => (s.datum d).size == invalidSize) = dead at hSplit ⊢
  generalize (s.flist bin).list.filter (fun d => (s.datum d).size != invalidSize) = live at hSplit ⊢
  have hFreed := Unfiled.freeDatums dead s
  have hDead : dead.Nodup := (List.nodup_append.1 (hSplit.nodup_iff.2 hList)).1
  obtain ⟨hCounts, hDrops⟩ := freeDatums_spec hDead s
  generalize dead.foldl freeDatum s = t at hFreed hCounts hDrops ⊢
  let u := t.onCore (·.modFlist bin fun b => { b with list := live, count := b.count - dead.length })
  have hTable : ∀ j, u.table j = s.table j :=
    fun j => (by cases j <;> rfl : u.table j = t.table j).trans (hFreed.table j)
  have hFlist : ∀ b, u.flist b = if b = bin then
      { s.flist b with list := live, count := (s.flist b).count - dead.length } else s.flist b := by
    intro b
    have hOwn := congrFun hFreed.flist b
    rw [← hOwn]
    rfl
  have hHere : u.contents (.bin index bin) = live := by
    rw [contents_bin (by rw [hTable]; exact hBin), hFlist, if_pos rfl]
  have hElse : ∀ b, b ≠ bin → u.flist b = s.flist b := by
    intro b hb
    rw [hFlist, if_neg hb]
  have hKeys : ∀ b, (u.flist b).key = (s.flist b).key := by
    intro b
    rw [hFlist]
    split <;> rfl
  refine ⟨⟨dead, ?_, ?_, hCounts, hDrops⟩, ⟨?_, ?_, ?_, ?_, ?_⟩, hTable, hElse, hKeys bin,
    hFreed.next, hFreed.made⟩
  · show (s.contents (.bin index bin)).Perm (dead ++ u.contents (.bin index bin))
    rw [hHere]
    exact hSplit.symm
  · intro c hc
    cases c with
    | owner con => exact congrArg Bucket.Table.values (library_congr hFreed.con con)
    | bin j b =>
      by_cases hb : b = bin
      · subst hb
        have hOutside : b ∉ (s.table j).values := by
          intro hIn
          exact hc (by rw [h.shelved.apart j index b hIn hBin])
        show u.contents (.bin j b) = s.contents (.bin j b)
        rw [contents_of_not_mem hOutside, contents_of_not_mem (by rw [hTable]; exact hOutside)]
      · exact contents_congr (by rw [hTable]) (congrArg Flist.list (hElse b hb))
  · intro j
    rw [hTable]
    exact h.shelved.distinct j
  · intro j e he
    rw [hTable] at he
    rw [hKeys]
    exact h.shelved.keyed j e he
  · intro i j b
    rw [hTable, hTable]
    exact h.shelved.apart i j b
  · intro j b hb
    rw [hTable] at hb
    exact Nat.lt_of_lt_of_le (h.shelved.known j b hb) (le_of_eq hFreed.next.symm)
  · intro j b hb
    rw [hTable] at hb
    have hCounted := h.shelved.counted j b hb
    by_cases hEq : b = bin
    · subst hEq
      have hLength := hSplit.length_eq
      rw [hHeld, List.length_append] at hLength
      rw [hFlist, if_pos rfl]
      show (s.flist b).count - dead.length = live.length
      omega
    · rw [hElse b hEq]
      exact hCounted

/-- A bin that holds nothing any more leaves its index, and nothing else changes. -/
theorem hashRemoveBin_empty (h : Shelved s) (hBin : bin ∈ (s.table index).values)
    (hEmpty : (s.flist bin).list = []) :
    s.hashRemoveBin index (s.flist bin).key =
        s.setTable index ((s.table index).remove (s.flist bin).key) ∧
      (s.table index).values.Perm
        (bin :: ((s.table index).remove (s.flist bin).key).values) := by
  have hLookup := h.lookup_key hBin
  refine ⟨?_, Bucket.Table.values_remove hLookup⟩
  simp only [hashRemoveBin, hLookup, hEmpty, List.foldl_nil]

/-- What a bin without records leaves when it goes. -/
theorem remove_spec (h : Shelved s) (hBin : bin ∈ (s.table index).values)
    (hEmpty : (s.flist bin).list = []) {t : Depot}
    (ht : t = s.setTable index ((s.table index).remove (s.flist bin).key)) :
    Shelved t ∧ t.store = s.store ∧
      ∀ j b, b ∈ (t.table j).values ↔ b ∈ (s.table j).values ∧ (j = index → b ≠ bin) := by
  have hNodup := h.nodup index
  have hPerm := (hashRemoveBin_empty h hBin hEmpty).2
  have hFresh : bin ∉ ((s.table index).remove (s.flist bin).key).values :=
    (List.nodup_cons.1 (hPerm.nodup_iff.1 hNodup)).1
  have hMem : ∀ j b, b ∈ (t.table j).values ↔ b ∈ (s.table j).values ∧ (j = index → b ≠ bin) := by
    intro j b
    rw [ht, table_setTable]
    by_cases hj : j = index
    · subst hj
      rw [if_pos rfl, hPerm.mem_iff, List.mem_cons]
      constructor
      · exact fun hIn => ⟨.inr hIn, fun _ hEq => hFresh (hEq ▸ hIn)⟩
      · rintro ⟨hEq | hIn, hNot⟩
        · exact absurd hEq (hNot rfl)
        · exact hIn
    · simp [hj]
  have hFlist : t.flist = s.flist := by
    rw [ht, flist_setTable]
  have hEntries : ∀ j, ∀ e ∈ (t.table j).entries, e ∈ (s.table j).entries := by
    intro j e he
    rw [ht, table_setTable] at he
    split at he
    · rename_i hj
      rw [hj]
      exact Bucket.Table.mem_entries_of_mem_remove he
    · exact he
  refine ⟨⟨?_, ?_, ?_, ?_, ?_⟩, ?_, hMem⟩
  · intro j
    rw [ht, table_setTable]
    split
    · exact (h.distinct index).remove _
    · exact h.distinct j
  · intro j e he
    rw [hFlist]
    exact h.keyed j e (hEntries j e he)
  · exact fun i j b hi hj => h.apart i j b ((hMem i b).1 hi).1 ((hMem j b).1 hj).1
  · intro j b hb
    rw [ht, next_setTable]
    exact h.known j b ((hMem j b).1 hb).1
  · intro j b hb
    rw [hFlist]
    exact h.counted j b ((hMem j b).1 hb).1
  · have hContents : t.contents = s.contents := by
      funext c
      cases c with
      | owner con =>
        refine congrArg Bucket.Table.values (library_congr ?_ con)
        rw [ht, con_setTable]
      | bin j b =>
        by_cases hHere : j = index ∧ b = bin
        · obtain ⟨rfl, rfl⟩ := hHere
          rw [contents_bin hBin, hEmpty]
          exact contents_of_not_mem fun hIn => ((hMem j b).1 hIn).2 rfl rfl
        · refine contents_congr ?_ (by rw [hFlist])
          rw [hMem]
          constructor
          · exact fun hIn => hIn.1
          · exact fun hIn => ⟨hIn, fun hj hb => hHere ⟨hj, hb⟩⟩
    simp only [store, hContents]
    rw [ht, datum_setTable, freed_setTable]

theorem Kept.collectGarbage (h : Kept most s) (hBin : bin ∈ (s.table index).values) :
    Kept most (collectGarbage index s bin) ∧ ∀ b, b ≠ bin → b ∈ (s.table index).values →
      b ∈ ((collectGarbage index s bin).table index).values := by
  have hReaped := reap_reaped h hBin
  unfold Depot.collectGarbage
  simp only
  generalize s.reap bin = t at hReaped ⊢
  have hBin' : bin ∈ (t.table index).values := by
    rw [hReaped.table]
    exact hBin
  have hCount := hReaped.shelved.counted index bin hBin'
  obtain ⟨l, hDrops⟩ := hReaped.drops
  split
  · rename_i hZero
    have hEmpty : (t.flist bin).list = [] := List.eq_nil_of_length_eq_zero (by omega)
    rw [← hReaped.key]
    obtain ⟨hShelved, hStore, hMem⟩ := remove_spec hReaped.shelved hBin' hEmpty
      (hashRemoveBin_empty hReaped.shelved hBin' hEmpty).1
    have hNext : (t.hashRemoveBin index (t.flist bin).key).next = t.next := by
      rw [(hashRemoveBin_empty hReaped.shelved hBin' hEmpty).1, next_setTable]
    have hMade : (t.hashRemoveBin index (t.flist bin).key).made = t.made := by
      rw [(hashRemoveBin_empty hReaped.shelved hBin' hEmpty).1]
      cases index <;> rfl
    have hFlist : (t.hashRemoveBin index (t.flist bin).key).flist = t.flist := by
      rw [(hashRemoveBin_empty hReaped.shelved hBin' hEmpty).1, flist_setTable]
    generalize t.hashRemoveBin index (t.flist bin).key = u at hShelved hStore hMem hNext hMade hFlist ⊢
    constructor
    · rw [← hStore] at hDrops
      refine h.drops hDrops hShelved ?_ (hNext.trans hReaped.next) (hMade.trans hReaped.made)
      intro j b hb
      obtain ⟨hOld, hNot⟩ := (hMem j b).1 hb
      rw [hReaped.table] at hOld
      have hOther : b ≠ bin := by
        rintro rfl
        exact hNot (h.shelved.apart j index b hOld hBin) rfl
      rw [hFlist, hReaped.flist b hOther]
      exact h.filled j b hOld
    · intro b hb hIn
      exact (hMem index b).2 ⟨by rw [hReaped.table]; exact hIn, fun _ => hb⟩
  · rename_i hSome
    constructor
    · refine h.drops hDrops hReaped.shelved ?_ hReaped.next hReaped.made
      intro j b hb
      by_cases hEq : b = bin
      · subst hEq
        intro hNil
        rw [hNil] at hCount
        exact hSome hCount
      · rw [hReaped.table] at hb
        rw [hReaped.flist b hEq]
        exact h.filled j b hb
    · intro b _ hIn
      rw [hReaped.table]
      exact hIn

theorem Kept.fdbGarbageCollect (h : Kept most s) (index : Index) : Kept most (s.fdbGarbageCollect index) := by
  have hWalk : ∀ (l : List FlistId) (s : Depot), l.Nodup → Kept most s →
      (∀ bin ∈ l, bin ∈ (s.table index).values) → Kept most (l.foldl (Depot.collectGarbage index) s) := by
    intro l
    induction l with
    | nil => exact fun s _ h _ => h
    | cons bin l ih =>
      intro s hNodup h hIn
      obtain ⟨hNew, hRest⟩ := List.nodup_cons.1 hNodup
      obtain ⟨hKept, hStay⟩ := h.collectGarbage (hIn bin (by simp))
      refine ih _ hRest hKept fun b hb => hStay b ?_ (hIn b (by simp [hb]))
      rintro rfl
      exact hNew hb
  exact hWalk _ s (h.shelved.nodup index) h fun _ hb => hb

end

end Depot

end OpenNap
