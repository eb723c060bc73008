import OpenNap.Hotlists
import OpenNap.Sharing

/-! The records of files, the owners' tables and the index by word.  A record that is freed is
marked by its size, and the collector takes out of the index whatever bears the mark.  Apart from the
command that adds a file, a step only takes records out of the tables, and marks those that it takes
out. -/

namespace OpenNap

open CText

namespace Core

/-- The index has a record under a word. -/
def Filed (s : Core) (key : Str) (d : DatumId) : Prop :=
  ∃ e ∈ s.fileTable.entries, byName.norm e.1 = byName.norm key ∧ d ∈ (s.flist e.2).list

/-- A record bears the mark of a freed one. -/
def Marked (s : Core) (d : DatumId) : Prop := (s.datum d).size = invalidSize

end Core

/-- Each bin of the index is where a search for its word finds it, counts what it lists, and lists
nothing twice. -/
structure WordIndex (s : Core) : Prop where
  distinct : s.fileTable.Distinct
  keyed : ∀ e ∈ s.fileTable.entries, (s.flist e.2).key = e.1
  known : ∀ bin ∈ s.fileTable.values, bin < s.next
  counted : ∀ bin ∈ s.fileTable.values, (s.flist bin).count = (s.flist bin).list.length
  once : ∀ bin ∈ s.fileTable.values, (s.flist bin).list.Nodup
  records : ∀ bin ∈ s.fileTable.values, ∀ d ∈ (s.flist bin).list, d < s.next

/-- No record is twice in the tables of files. -/
structure Shelf (s : Core) : Prop where
  once : ∀ con, (s.library con).values.Nodup
  apart : ∀ c c' d, d ∈ (s.library c).values → d ∈ (s.library c').values → c = c'
  known : ∀ con, ∀ d ∈ (s.library con).values, d < s.next
  index : WordIndex s

/-- From `s` to `t` records leave the tables of files and the index and are marked, and the others
stay as they are. -/
structure Keeps (s t : Core) : Prop where
  next : s.next ≤ t.next
  filter : t.filter = s.filter
  tables : ∀ con, (t.library con).values.Subperm (s.library con).values
  owner : ∀ con, (t.library con).values ≠ [] → (t.con con).user = (s.con con).user
  datum : ∀ d, t.datum d = s.datum d ∨ t.Marked d
  stays : ∀ con, ∀ d ∈ (s.library con).values, d ∈ (t.library con).values ∨ t.Marked d
  data : ∀ con, ∀ d ∈ (t.library con).values, ¬ s.Marked d → t.datum d = s.datum d
  index : WordIndex t
  filed : ∀ key d, t.Filed key d → s.Filed key d
  listed : ∀ key d, s.Filed key d → t.Filed key d ∨ t.Marked d

/-- What keeps the records as long as none is twice in the tables. -/
def Tidy (s t : Core) : Prop := Shelf s → Keeps s t

section

variable {s t u : Core}

theorem WordIndex.of_same (h : WordIndex s) (hTable : t.fileTable = s.fileTable)
    (hFlist : t.flist = s.flist) (hNext : s.next ≤ t.next) : WordIndex t where
  distinct := by rw [hTable]; exact h.distinct
  keyed := by rw [hTable, hFlist]; exact h.keyed
  known bin hBin := by
    rw [hTable] at hBin
    exact (h.known bin hBin).trans_le hNext
  counted := by rw [hTable, hFlist]; exact h.counted
  once := by rw [hTable, hFlist]; exact h.once
  records bin hBin d hd := by
    rw [hTable] at hBin
    rw [hFlist] at hd
    exact (h.records bin hBin d hd).trans_le hNext

/-- Two words with the same bin are the same. -/
theorem WordIndex.nodup (h : WordIndex s) : s.fileTable.values.Nodup := by
  have hKeys : (s.fileTable.values.map fun bin => byName.norm (s.flist bin).key) =
      s.fileTable.entries.map fun e => byName.norm e.1 := by
    rw [Bucket.Table.values, List.map_map]
    refine List.map_congr_left fun e he => ?_
    rw [Function.comp_apply, h.keyed e he]
  have hNodup := h.distinct
  rw [Bucket.Table.Distinct, ← hKeys] at hNodup
  exact hNodup.of_map _

/-- A search for the key of a bin finds the bin. -/
theorem WordIndex.lookup_key (h : WordIndex s) {bin : FlistId} (hBin : bin ∈ s.fileTable.values) :
    s.fileTable.lookup (s.flist bin).key = some bin := by
  obtain ⟨key, hIn⟩ := Bucket.Table.mem_values.1 hBin
  exact h.distinct.lookup hIn (congrArg byName.norm (h.keyed _ hIn).symm)

/-- What the index has under a word is what the bin of the word lists. -/
theorem WordIndex.filed_iff (h : WordIndex s) {key : Str} {d : DatumId} :
    s.Filed key d ↔ ∃ bin, s.fileTable.lookup key = some bin ∧ d ∈ (s.flist bin).list := by
  constructor
  · rintro ⟨e, he, hKey, hd⟩
    exact ⟨e.2, h.distinct.lookup he hKey, hd⟩
  · rintro ⟨bin, hBin, hd⟩
    obtain ⟨k, hIn, hKey⟩ := Bucket.Table.lookup_some hBin
    exact ⟨(k, bin), hIn, hKey, hd⟩

theorem filed_of_same (hTable : t.fileTable = s.fileTable) (hFlist : t.flist = s.flist) {key : Str}
    {d : DatumId} : t.Filed key d ↔ s.Filed key d := by
  rw [Core.Filed, hTable, hFlist, Core.Filed]

theorem Keeps.shelf (h : Keeps s t) (hShelf : Shelf s) : Shelf t where
  once con := by
    obtain ⟨l, hPerm, hSub⟩ := h.tables con
    exact hPerm.nodup_iff.1 ((hShelf.once con).sublist hSub)
  apart c c' d hc hc' := hShelf.apart c c' d ((h.tables c).subset hc) ((h.tables c').subset hc')
  known con d hd := (hShelf.known con d ((h.tables con).subset hd)).trans_le h.next
  index := h.index

/-- What is not marked was not marked before, and is as it was. -/
theorem Keeps.unmarked (h : Keeps s t) {d : DatumId} (hd : ¬ t.Marked d) :
    t.datum d = s.datum d ∧ ¬ s.Marked d := by
  have hSame := (h.datum d).resolve_right hd
  refine ⟨hSame, ?_⟩
  rwa [Core.Marked, ← hSame]

end

namespace Tidy

variable {s t u : Core}

theorem refl (s : Core) : Tidy s s := fun hShelf =>
  ⟨Nat.le_refl _, rfl, fun _ => List.Subperm.refl _, fun _ _ => rfl, fun _ => .inl rfl,
    fun _ _ hd => .inl hd, fun _ _ _ _ => rfl, hShelf.index, fun _ _ h => h, fun _ _ h => .inl h⟩

theorem trans (h1 : Tidy s t) (h2 : Tidy t u) : Tidy s u := by
  intro hShelf
  have hFirst := h1 hShelf
  have hLast := h2 (hFirst.shelf hShelf)
  have hMarked {d : DatumId} (hd : t.Marked d) : u.Marked d := by
    rcases hLast.datum d with hSame | hNow
    · rwa [Core.Marked, hSame]
    · exact hNow
  constructor
  · exact hFirst.next.trans hLast.next
  · exact hLast.filter.trans hFirst.filter
  · exact fun con => (hLast.tables con).trans (hFirst.tables con)
  · intro con hSome
    have hBefore : (t.library con).values ≠ [] := by
      intro hNil
      have hNone := hLast.tables con
      rw [hNil, List.subperm_nil] at hNone
      exact hSome hNone
    rw [hLast.owner con hSome, hFirst.owner con hBefore]
  · intro d
    rcases hLast.datum d with hSame | hNow
    · rcases hFirst.datum d with hOld | hThen
      · exact .inl (hSame.trans hOld)
      · exact .inr (hMarked hThen)
    · exact .inr hNow
  · intro con d hd
    rcases hFirst.stays con d hd with hStay | hThen
    · exact hLast.stays con d hStay
    · exact .inr (hMarked hThen)
  · intro con d hd hSize
    have hSame := hFirst.data con d ((hLast.tables con).subset hd) hSize
    rw [hLast.data con d hd (by rw [Core.Marked, hSame]; exact hSize), hSame]
  · exact hLast.index
  · exact fun key d hd => hFirst.filed key d (hLast.filed key d hd)
  · intro key d hd
    rcases hFirst.listed key d hd with hStay | hThen
    · exact hLast.listed key d hStay
    · exact .inr (hMarked hThen)

theorem foldl {α : Type} {f : Core → α → Core} (h : ∀ s a, Tidy s (f s a)) (l : List α) (s : Core) :
    Tidy s (l.foldl f s) := by
  induction l generalizing s with
  | nil => exact refl s
  | cons a l ih => exact (h s a).trans (ih _)

/-- Nothing about files changes, and no connection with files gets another user. -/
theorem of_rest (hNext : s.next ≤ t.next)
    (hLibrary : ∀ con, (t.library con).values = (s.library con).values)
    (hUser : ∀ con, (s.library con).values ≠ [] → (t.con con).user = (s.con con).user)
    (hDatum : t.datum = s.datum) (hTable : t.fileTable = s.fileTable) (hFlist : t.flist = s.flist)
    (hFilter : t.filter = s.filter) : Tidy s t := by
  intro hShelf
  constructor
  · exact hNext
  · exact hFilter
  · exact fun con => by rw [hLibrary con]
  · intro con hSome
    rw [hLibrary con] at hSome
    exact hUser con hSome
  · exact fun d => .inl (congrFun hDatum d)
  · intro con d hd
    rw [hLibrary con]
    exact .inl hd
  · exact fun _ d _ _ => congrFun hDatum d
  · exact hShelf.index.of_same hTable hFlist hNext
  · exact fun key d => (filed_of_same hTable hFlist).1
  · exact fun key d hd => .inl ((filed_of_same hTable hFlist).2 hd)

/-- Neither connections nor files change. -/
theorem of_same (hNext : s.next ≤ t.next) (hCon : t.con = s.con) (hDatum : t.datum = s.datum)
    (hTable : t.fileTable = s.fileTable) (hFlist : t.flist = s.flist) (hFilter : t.filter = s.filter) :
    Tidy s t :=
  of_rest hNext (fun con => by rw [Core.library, Core.files, hCon]; rfl) (fun con _ => by rw [hCon])
    hDatum hTable hFlist hFilter

/-- What is not part of the skeleton makes no difference. -/
theorem skeleton {n : Nat} (hNext : s.next ≤ n)
    (h : t.skeleton = ({ s with next := n } : Core).skeleton) : Tidy s t := by
  have hCon (con : ConId) : (t.con con).bare = (s.con con).bare :=
    congrFun (congrArg Core.con h) con
  refine of_rest ?_ (fun con => ?_) (fun con _ => (congrArg Connection.user (hCon con) :))
    (congrArg Core.datum h :) (congrArg Core.fileTable h :) (congrArg Core.flist h :)
    (congrArg Core.filter h :)
  · have hSame : t.next = n := (congrArg Core.next h :)
    rw [hSame]
    exact hNext
  · have hFiles : (t.con con).uopt.bind (·.files) = (s.con con).uopt.bind (·.files) := by
      have hUopt := congrArg (fun c : Connection => c.uopt.bind (·.files)) (hCon con)
      simpa [Connection.bare, Option.bind_map, Function.comp_def] using hUopt
    rw [Core.library, Core.files, hFiles]
    rfl

/-- A connection changes that keeps its files, and its user if it has files. -/
theorem modCon (s : Core) (con : ConId) {f : Connection → Connection}
    (hFiles : (f (s.con con)).uopt.bind (·.files) = s.files con)
    (hUser : (f (s.con con)).user = (s.con con).user ∨ s.files con = none) :
    Tidy s (s.modCon con f) := by
  refine of_rest (Nat.le_refl _) (fun c => ?_) (fun c hSome => ?_) rfl rfl rfl rfl
  · by_cases hc : c = con
    · subst hc
      simp only [Core.library, Core.files, Core.modCon_con, if_true]
      rw [hFiles]
      rfl
    · simp [Core.library, Core.files, hc]
  · by_cases hc : c = con
    · subst hc
      rcases hUser with hSame | hNone
      · simpa using hSame
      · exact absurd (by simp [Core.library, hNone]) hSome
    · simp [hc]

theorem modUser (s : Core) (user : UserId) (f : User → User) : Tidy s (s.modUser user f) :=
  of_same (Nat.le_refl _) rfl rfl rfl rfl rfl

theorem hashRemoveChannel (s : Core) (name : Str) : Tidy s (s.hashRemoveChannel name) := by
  simp only [Core.hashRemoveChannel]
  split
  · exact refl s
  · have hUsers : ∀ (l : List UserId) (chan : ChanId), Tidy s (l.foldl (fun s user =>
        s.modUser user fun u => { u with invited := u.invited.erase chan }) s) :=
      fun l chan => foldl (fun s user => modUser s user _) l s
    exact (hUsers _ _).trans (of_same (Nat.le_refl _) rfl rfl rfl rfl rfl)

theorem farewell (h : Core.Farewell s t) : Tidy s t := by
  cases h with
  | part | uninvite | uncount | gone => exact of_same (Nat.le_refl _) rfl rfl rfl rfl rfl
  | dropChannel name => exact hashRemoveChannel s name
  | seen nick =>
    simp only [Core.recordLogoff]
    split <;> exact of_same (Nat.le_refl _) rfl rfl rfl rfl rfl

theorem hashRemoveUser (s : Core) (nick : Str) : Tidy s (s.hashRemoveUser nick) :=
  Core.hashRemoveUser_keeps (fun _ _ hStep h => h.trans (farewell hStep)) nick (refl s)

theorem partChannel (s : Core) (chan : ChanId) (user : UserId) :
    Tidy s (s.partChannel chan user) := by
  have hRemove : Tidy s (s.channelRemove chan user) := of_same (Nat.le_refl _) rfl rfl rfl rfl rfl
  simp only [Core.partChannel]
  split
  · exact hRemove.trans (hashRemoveChannel _ _)
  · exact hRemove

end Tidy

/-! ### Files that go -/

theorem datum_freeDatums (l : List DatumId) (d : DatumId) (s : Core) :
    (d ∉ l → (l.foldl Core.freeDatum s).datum d = s.datum d) ∧
      (d ∈ l ∨ s.Marked d → (l.foldl Core.freeDatum s).Marked d) := by
  induction l generalizing s with
  | nil => simp
  | cons a l ih =>
    obtain ⟨hOther, hHere⟩ := ih (s.freeDatum a)
    constructor
    · intro hd
      rw [List.mem_cons, not_or] at hd
      rw [List.foldl_cons, hOther hd.2]
      simp [Core.freeDatum, hd.1]
    · intro hd
      refine hHere ?_
      by_cases ha : d = a
      · exact .inr (by simp [Core.Marked, Core.freeDatum, ha])
      · rcases hd with hd | hd
        · exact .inl ((List.mem_cons.1 hd).resolve_left ha)
        · exact .inr (by simpa [Core.Marked, Core.freeDatum, ha] using hd)

/-- Freeing records changes nothing but the records. -/
theorem freeDatums_rest (l : List DatumId) (s : Core) :
    ∃ datum, l.foldl Core.freeDatum s = { s with datum := datum } := by
  induction l generalizing s with
  | nil => exact ⟨s.datum, rfl⟩
  | cons a l ih =>
    obtain ⟨datum, hRest⟩ := ih (s.freeDatum a)
    exact ⟨datum, hRest⟩

theorem values_setFiles (s : Core) (con : ConId) (files : Option (NameTable DatumId)) :
    ((s.setFiles con files).library con).values =
      if (s.con con).uopt.isSome then (files.elim [] (·.values)) else [] := by
  cases hUopt : (s.con con).uopt <;> cases files <;>
    simp [Core.library, Core.files, Core.setFiles, hUopt]

theorem library_setFiles_of_ne {s : Core} {con other : ConId} (h : other ≠ con)
    (files : Option (NameTable DatumId)) : (s.setFiles con files).library other = s.library other := by
  simp [Core.library, Core.files, Core.setFiles, h]

namespace Tidy

variable {s t u : Core}

/-- Records of one table are freed and leave it. -/
theorem drops {con : ConId} {l : List DatumId} {files : Option (NameTable DatumId)}
    (hPerm : (s.library con).values.Perm (l ++ files.elim [] (·.values))) :
    Tidy s ((l.foldl Core.freeDatum s).setFiles con files) := by
  intro hShelf
  have hDatum (d : DatumId) := datum_freeDatums l d s
  obtain ⟨datum, hRest⟩ := freeDatums_rest l s
  rw [hRest] at hDatum ⊢
  have hApart : ∀ d ∈ files.elim [] (·.values), d ∉ l := fun d hd hl =>
    (List.nodup_append.1 (hPerm.nodup_iff.1 (hShelf.once con))).2.2 d hl d hd rfl
  have hHere : ((({ s with datum := datum } : Core).setFiles con files).library con).values =
      if (s.con con).uopt.isSome then (files.elim [] (·.values)) else [] := values_setFiles _ con files
  have hElse (other : ConId) (hOther : other ≠ con) :
      (({ s with datum := datum } : Core).setFiles con files).library other = s.library other :=
    library_setFiles_of_ne hOther files
  have hSub : ((({ s with datum := datum } : Core).setFiles con files).library con).values.Subperm
      (files.elim [] (·.values)) := by
    rw [hHere]
    split
    · exact List.Subperm.refl _
    · exact List.nil_subperm
  constructor
  · exact Nat.le_refl _
  · rfl
  · intro other
    by_cases hOther : other = con
    · subst hOther
      refine hSub.trans ?_
      exact (List.sublist_append_right l _).subperm.trans hPerm.symm.subperm
    · rw [hElse other hOther]
  · intro other _
    by_cases hOther : other = con <;> simp [Core.setFiles, hOther]
  · intro d
    by_cases hd : d ∈ l
    · exact .inr ((hDatum d).2 (.inl hd))
    · exact .inl ((hDatum d).1 hd)
  · intro other d hd
    by_cases hOther : other = con
    · subst hOther
      rcases List.mem_append.1 (hPerm.mem_iff.1 hd) with hl | hStay
      · exact .inr ((hDatum d).2 (.inl hl))
      · -- a connection with files has options
        have hUopt : (s.con other).uopt.isSome = true := by
          cases hNone : (s.con other).uopt with
          | some => rfl
          | none => simp [Core.library, Core.files, hNone] at hd
        rw [hHere, hUopt]
        exact .inl hStay
    · rw [hElse other hOther]
      exact .inl hd
  · intro other d hd _
    refine (hDatum d).1 fun hl => ?_
    by_cases hOther : other = con
    · subst hOther
      exact hApart d (hSub.subset hd) hl
    · rw [hElse other hOther] at hd
      exact hOther (hShelf.apart other con d hd (hPerm.mem_iff.2 (List.mem_append_left _ hl)))
  · exact hShelf.index.of_same rfl rfl (Nat.le_refl _)
  · exact fun key d hd => hd
  · exact fun key d hd => .inl hd

theorem freeFiles (s : Core) (con : ConId) : Tidy s (s.freeFiles con) := by
  simp only [Core.freeFiles]
  cases hFiles : s.files con with
  | none => exact refl s
  | some table =>
    refine drops ?_
    rw [Core.library, hFiles]
    simp

theorem files_freeFiles (s : Core) (con : ConId) : (s.freeFiles con).files con = none := by
  cases hFiles : s.files con with
  | none => simp [Core.freeFiles, hFiles]
  | some table =>
    obtain ⟨datum, hRest⟩ := freeDatums_rest table.values s
    simp only [Core.freeFiles, hFiles]
    rw [hRest]
    cases hUopt : (s.con con).uopt <;> simp [Core.files, Core.setFiles, hUopt]

theorem freeOptions (s : Core) (con : ConId) : Tidy s (s.freeOptions con) := by
  have hLeave (s : Core) (hot : HotlistId) : Tidy s (s.leaveHotlist con hot) := by
    simp only [Core.leaveHotlist]
    split <;> exact of_same (Nat.le_refl _) rfl rfl rfl rfl rfl
  have hWalk : Tidy s ((s.hotlistsOf con).foldl (fun s hot => s.leaveHotlist con hot) s) :=
    foldl hLeave _ s
  have hFree : s.freeOptions con =
      (((s.hotlistsOf con).foldl (fun s hot => s.leaveHotlist con hot) s).freeFiles con).modCon con
        fun c => { c with uopt := none } := rfl
  rw [hFree]
  generalize (s.hotlistsOf con).foldl (fun s hot => s.leaveHotlist con hot) s = w at hWalk ⊢
  have hNone := files_freeFiles w con
  refine (hWalk.trans (freeFiles w con)).trans ?_
  exact modCon _ con (f := fun c => { c with uopt := none }) hNone.symm (.inl rfl)

theorem files_freeOptions (s : Core) (con : ConId) : (s.freeOptions con).files con = none := by
  simp [Core.freeOptions, Core.files]

theorem removeUser (s : Core) (con : ConId) : Tidy s (s.removeUser con) := by
  simp only [Core.removeUser]
  split
  · exact refl s
  · exact (hashRemoveUser s _).trans (freeOptions _ con)

theorem zapLocalUser (s : Core) {con : ConId} {user : UserId} (hOwner : (s.con con).user = some user) :
    Tidy s (s.zapLocalUser con) := by
  have hKilled : Tidy s (s.modCon con fun c => { c with killed := true }) := modCon s con rfl (.inl rfl)
  refine (hKilled.trans (removeUser _ con)).trans ?_
  have hNone : ((s.modCon con fun c => { c with killed := true }).removeUser con).files con = none := by
    have hUser : ((s.modCon con fun c => { c with killed := true }).con con).user = some user := by
      simpa using hOwner
    rw [Core.removeUser, hUser]
    exact files_freeOptions _ con
  exact modCon _ con
    (f := fun c => { c with cls := .unknown, uopt := none, user := none, destroy := true }) hNone.symm
    (.inr hNone)

/-- A file is taken out of the table of its owner. -/
theorem dropFile (s : Core) (con : ConId) (user : UserId) (d : DatumId) :
    Tidy s (s.dropFile con user d) := by
  have hCount : Tidy s (s.countUnshared user ((s.datum d).size / 1024)) :=
    of_same (Nat.le_refl _) rfl rfl rfl rfl rfl
  refine hCount.trans ?_
  rw [Core.dropFile, Core.hashRemoveFile]
  cases hFile : (s.countUnshared user ((s.datum d).size / 1024)).lookupFile con (s.datum d).filename with
  | none => exact refl _
  | some e =>
    rw [Core.lookupFile, Option.bind_eq_some_iff] at hFile
    obtain ⟨table, hTable, hLookup⟩ := hFile
    refine drops (l := [e]) ?_
    rw [Core.library, hTable]
    exact Bucket.Table.values_remove hLookup

end Tidy

/-! ### The collector -/

/-- What `collect_garbage` leaves in a bin. -/
def Core.live (s : Core) (bin : FlistId) : List DatumId :=
  (s.flist bin).list.filter fun d => (s.datum d).size != invalidSize

section

variable {s : Core} {bin : FlistId}

theorem collectGarbage_eq (h : WordIndex s) (hBin : bin ∈ s.fileTable.values) :
    ∃ datum : DatumId → Datum,
      (∀ d, datum d = s.datum d ∨ s.Marked d ∧ (datum d).size = invalidSize) ∧
      s.collectGarbage bin =
        { ({ s with datum := datum } : Core).modFlist bin fun b =>
            { b with list := s.live bin, count := (s.live bin).length } with
          fileTable := if s.live bin = [] then s.fileTable.remove (s.flist bin).key else s.fileTable } := by
  have hLookup := h.lookup_key hBin
  have hCount := h.counted bin hBin
  have hSplit := (List.filter_append_perm (fun d => (s.datum d).size == invalidSize)
    (s.flist bin).list).length_eq
  have hDatum (d : DatumId) := datum_freeDatums
    ((s.flist bin).list.filter fun d => (s.datum d).size == invalidSize) d s
  obtain ⟨datum, hRest⟩ := freeDatums_rest
    ((s.flist bin).list.filter fun d => (s.datum d).size == invalidSize) s
  rw [hRest] at hDatum
  refine ⟨datum, fun d => ?_, ?_⟩
  · by_cases hd : d ∈ (s.flist bin).list.filter fun d => (s.datum d).size == invalidSize
    · have hMark : s.Marked d := by simpa [Core.Marked] using (List.mem_filter.1 hd).2
      exact .inr ⟨hMark, (hDatum d).2 (.inl hd)⟩
    · exact .inl ((hDatum d).1 hd)
  · have hLive : (s.flist bin).count - ((s.flist bin).list.filter fun d =>
        (s.datum d).size == invalidSize).length = (s.live bin).length := by
      rw [List.length_append] at hSplit
      rw [hCount, Core.live]
      simp only [bne] at hSplit ⊢
      omega
    have hBase : ({ s with datum := datum } : Core).modFlist bin (fun b =>
          { b with
            list := s.live bin
            count := b.count - ((s.flist bin).list.filter fun d =>
              (s.datum d).size == invalidSize).length }) =
        ({ s with datum := datum } : Core).modFlist bin fun b =>
          { b with list := s.live bin, count := (s.live bin).length } := by
      simp only [Core.modFlist]
      congr 1
      funext b
      by_cases hb : b = bin
      · subst hb
        simp only [if_true, hLive]
      · simp only [hb, if_false]
    have hKept : ((s.flist bin).list.filter fun d => (s.datum d).size != invalidSize) = s.live bin :=
      rfl
    simp only [Core.collectGarbage, hRest, hKept, hBase]
    by_cases hEmpty : s.live bin = []
    · simp [Core.hashRemoveBin, hLookup, hEmpty]
    · have hSome : ((s.live bin).length : Int) ≠ 0 := by simpa using hEmpty
      simp only [Core.modFlist_flist, if_true, hSome, if_false, hEmpty]
      rfl

/-- The walk of the collector over one bin. -/
theorem keeps_collectGarbage (hShelf : Shelf s) (hBin : bin ∈ s.fileTable.values) :
    Keeps s (s.collectGarbage bin) ∧
      ∀ other ∈ s.fileTable.values, other ≠ bin → other ∈ (s.collectGarbage bin).fileTable.values := by
  have h := hShelf.index
  obtain ⟨datum, hDatum, hEq⟩ := collectGarbage_eq h hBin
  have hFlist (b : FlistId) : (s.collectGarbage bin).flist b = if b = bin then
      { s.flist b with list := s.live bin, count := (s.live bin).length } else s.flist b := by
    rw [hEq]
    rfl
  have hTable : (s.collectGarbage bin).fileTable =
      if s.live bin = [] then s.fileTable.remove (s.flist bin).key else s.fileTable := by rw [hEq]
  have hSame : (s.collectGarbage bin).datum = datum := by rw [hEq]; rfl
  have hNext : (s.collectGarbage bin).next = s.next := by rw [hEq]; rfl
  have hCon : (s.collectGarbage bin).con = s.con := by rw [hEq]; rfl
  have hFilter : (s.collectGarbage bin).filter = s.filter := by rw [hEq]; rfl
  generalize s.collectGarbage bin = t at *
  have hLibrary (con : ConId) : t.library con = s.library con := by
    simp only [Core.library, Core.files, hCon]
  have hEntries : ∀ e ∈ t.fileTable.entries, e ∈ s.fileTable.entries := by
    intro e he
    rw [hTable] at he
    split at he
    · exact Bucket.Table.mem_entries_of_mem_remove he
    · exact he
  have hValues : ∀ b ∈ t.fileTable.values, b ∈ s.fileTable.values := by
    intro b hb
    obtain ⟨k, hk⟩ := Bucket.Table.mem_values.1 hb
    exact Bucket.Table.mem_values.2 ⟨k, hEntries _ hk⟩
  have hSub (b : FlistId) : (t.flist b).list.Sublist (s.flist b).list := by
    rw [hFlist]
    split
    · rename_i hb
      rw [hb]
      exact List.filter_sublist
    · exact List.Sublist.refl _
  -- an entry that is not for the bin stays
  have hStays : ∀ e ∈ s.fileTable.entries, (e.2 = bin → s.live bin ≠ []) → e ∈ t.fileTable.entries := by
    intro e he hOther
    rw [hTable]
    split
    · rename_i hEmpty
      refine h.distinct.mem_remove.2 ⟨he, fun hKey => hOther ?_ hEmpty⟩
      have hFound := h.distinct.lookup he hKey
      rw [h.lookup_key hBin] at hFound
      exact (Option.some.inj hFound).symm
    · exact he
  refine ⟨⟨le_of_eq hNext.symm, hFilter, fun con => by rw [hLibrary], fun con _ => by rw [hCon], ?_, ?_,
    ?_, ⟨?_, ?_, ?_, ?_, ?_, ?_⟩, ?_, ?_⟩, ?_⟩
  · intro d
    rw [Core.Marked, hSame]
    exact (hDatum d).imp_right And.right
  · intro con d hd
    rw [hLibrary]
    exact .inl hd
  · intro con d _ hMark
    rw [hSame]
    exact (hDatum d).resolve_right fun hFreed => hMark hFreed.1
  · rw [hTable]
    split
    · exact h.distinct.remove _
    · exact h.distinct
  · intro e he
    rw [hFlist, ← h.keyed e (hEntries e he)]
    split <;> rfl
  · intro b hb
    rw [hNext]
    exact h.known b (hValues b hb)
  · intro b hb
    rw [hFlist]
    split
    · rfl
    · exact h.counted b (hValues b hb)
  · exact fun b hb => (h.once b (hValues b hb)).sublist (hSub b)
  · intro b hb d hd
    rw [hNext]
    exact h.records b (hValues b hb) d ((hSub b).subset hd)
  · rintro key d ⟨e, he, hKey, hd⟩
    exact ⟨e, hEntries e he, hKey, (hSub e.2).subset hd⟩
  · rintro key d ⟨e, he, hKey, hd⟩
    by_cases hMark : s.Marked d
    · right
      rw [Core.Marked, hSame]
      rcases hDatum d with hOld | hFreed
      · rw [hOld]
        exact hMark
      · exact hFreed.2
    · left
      by_cases hHere : e.2 = bin
      · have hLive : d ∈ s.live bin := by
          rw [← hHere, Core.live, List.mem_filter]
          exact ⟨hd, by simpa [Core.Marked] using hMark⟩
        refine ⟨e, hStays e he fun _ => List.ne_nil_of_mem hLive, hKey, ?_⟩
        rw [hFlist, if_pos hHere]
        exact hLive
      · refine ⟨e, hStays e he fun h => absurd h hHere, hKey, ?_⟩
        rw [hFlist, if_neg hHere]
        exact hd
  · intro other hOther hNe
    obtain ⟨k, hk⟩ := Bucket.Table.mem_values.1 hOther
    exact Bucket.Table.mem_values.2 ⟨k, hStays _ hk fun h => absurd h hNe⟩

theorem Tidy.fdbGarbageCollect (s : Core) : Tidy s s.fdbGarbageCollect := by
  have hWalk : ∀ (l : List FlistId) (s : Core), l.Nodup →
      (∀ bin ∈ l, bin ∈ s.fileTable.values) → Tidy s (l.foldl Core.collectGarbage s) := by
    intro l
    induction l with
    | nil => exact fun s _ _ => Tidy.refl s
    | cons bin l ih =>
      intro s hNodup hIn hShelf
      obtain ⟨hNew, hRest⟩ := List.nodup_cons.1 hNodup
      obtain ⟨-, hStay⟩ := keeps_collectGarbage hShelf (hIn bin (by simp))
      have hFirst : Tidy s (s.collectGarbage bin) := fun hShelf =>
        (keeps_collectGarbage hShelf (hIn bin (by simp))).1
      refine (hFirst.trans (ih _ hRest fun b hb => hStay b (hIn b (by simp [hb])) ?_)) hShelf
      rintro rfl
      exact hNew hb
  exact fun hShelf => hWalk _ s hShelf.index.nodup (fun _ hb => hb) hShelf

end

/-! ### The operations that add no file -/

namespace Tidy

variable {s t : Core}

/-- The place of a new connection has no files. -/
theorem accept (hReg : Registry s) (h : Hotlists s) (ip : UInt32) (host : Str)
    (port localPort : UInt16) : Tidy s (s.accept ip host port localPort) := by
  have hNot : ¬ s.Client s.next := fun hClient => (hReg.knownCon _ hClient.1).ne rfl
  have hNone : (s.con s.next).uopt = none := by
    rw [← Option.not_isSome_iff_eq_none, h.options]
    exact hNot
  have hNoFiles : s.alloc.files s.next = none := by simp [Core.files, hNone]
  have hAlloc : Tidy s s.alloc := of_same (Nat.le_succ _) rfl rfl rfl rfl rfl
  have hNew : Tidy s.alloc (s.newConnection ip host port localPort) :=
    modCon s.alloc s.next hNoFiles.symm (.inr hNoFiles)
  have hSlot (t : Core) (clients : List (Option ConId)) (n slot : Nat) : Tidy t
      { t.modCon s.next fun c => { c with id := toShort slot } with
        clients := clients, numClients := n } :=
    (modCon t s.next (f := fun c => { c with id := toShort slot }) rfl (.inl rfl)).trans
      (of_same (Nat.le_refl _) rfl rfl rfl rfl rfl)
  rw [Core.accept]
  refine (hAlloc.trans hNew).trans ?_
  simp only [Core.addClient]
  split
  · exact hSlot _ _ _ _
  · split
    · exact hSlot _ _ _ _
    · exact of_same (Nat.le_refl _) rfl rfl rfl rfl rfl

/-- A client that logs in has no files yet. -/
theorem tieLocal (h : Hotlists s) {con : ConId} (u : User) (hClass : (s.con con).cls = .unknown) :
    Tidy s ((s.tieLocal con u).addUser s.next) := by
  have hNone : (s.con con).uopt = none := by
    rw [← Option.not_isSome_iff_eq_none, h.options]
    exact fun hClient => by simp [hClient.2] at hClass
  have hUser : Tidy s (s.alloc.modUser s.next fun _ =>
      { u with isLocal := true, server := s.cfg.serverName }) :=
    of_same (Nat.le_succ _) rfl rfl rfl rfl rfl
  have hNoFiles : (s.alloc.modUser s.next fun _ =>
      { u with isLocal := true, server := s.cfg.serverName }).files con = none := by
    simp [Core.files, hNone]
  have hTie := modCon _ con (f := fun c =>
    { c with uopt := some { usermode := logallMode }, user := some s.next, cls := .user })
    (hNoFiles.symm :) (.inr hNoFiles)
  exact (hUser.trans hTie).trans (of_same (Nat.le_refl _) rfl rfl rfl rfl rfl)

theorem markOperator (chan : ChanId) (nick : Str) (value : Bool) (h : Tidy s t) :
    Tidy s (t.markOperator chan nick value) := by
  simp only [Core.markOperator]
  split
  · exact h.trans (of_same (Nat.le_refl _) rfl rfl rfl rfl rfl)
  · exact h

theorem answerSearch (s : Core) (con : ConId) (id : Str) : Tidy s (s.answerSearch con id) := by
  simp only [Core.answerSearch]
  split
  · exact refl s
  · split <;> exact of_same (Nat.le_refl _) rfl rfl rfl rfl rfl

theorem enterAs (s : Core) (user : UserId) (chan : ChanId) : Tidy s (s.enterAs user chan) := by
  simp only [Core.enterAs]
  split <;> exact of_same (Nat.le_refl _) rfl rfl rfl rfl rfl

/-- An operation keeps the records, or adds a file that the user does not share yet. -/
theorem op {ok : Label → Core → Prop} (hOp : Op ok s t) (hSound : Sound s) (h : Hotlists s) :
    Tidy s t ∨ ∃ con user info, s.Client con ∧ (s.con con).user = some user ∧
      s.lookupFile con info.filename = none ∧ ok (.insert user (info.size / 1024)) s ∧
        t = s.insertDatum con user info := by
  cases hOp with
  | insert hOpen hClass hUser hNew hOk => exact .inr ⟨_, _, _, ⟨hOpen, hClass⟩, hUser, hNew, hOk, rfl⟩
  | quiet hDetail =>
    refine .inl ?_
    exact skeleton (Nat.le_refl _) (Core.skeleton_of_outline (Core.outline_of_detail hDetail))
  | fine hFine =>
    refine .inl ?_
    obtain ⟨n, hNext, hOutline⟩ := hFine.outline
    exact skeleton hNext (Core.skeleton_of_outline hOutline)
  | person hPersonal =>
    refine .inl ?_
    exact skeleton (Nat.le_refl _)
      (Core.skeleton_of_channelOutline (Core.channelOutline_of_personal hPersonal))
  | tick | setRecord | dropRecord | addBan | dropBans | unlinkServer | flagChannel | setTopic | setLevel |
    setLimit | setUserLevel | report | finishSearch | forwardSearch | result | expire | cancel =>
    exact .inl (of_same (Nat.le_refl _) rfl rfl rfl rfl rfl)
  | addRecord | loginRemote => exact .inl (of_same (Nat.le_succ _) rfl rfl rfl rfl rfl)
  | accept => exact .inl (accept hSound.registry h _ _ _ _)
  | @linkServer con =>
    refine .inl ?_
    exact (modCon s con (f := fun c => { c with cls := .server }) rfl (.inl rfl)).trans
      (of_same (Nat.le_refl _) rfl rfl rfl rfl rfl)
  | loginLocal _ hClass => exact .inl (tieLocal h _ hClass)
  | removeRemote => exact .inl (hashRemoveUser s _)
  | zap hOpen hClass =>
    refine .inl ?_
    obtain ⟨user, -, hOwner, -⟩ := hSound.registry.client _ hOpen hClass
    exact zapLocalUser s hOwner
  | @hangUp con =>
    refine .inl ?_
    exact ((removeUser s con).trans (modCon _ con (f := fun c => { c with allocated := false }) rfl
      (.inl rfl))).trans (of_same (Nat.le_refl _) rfl rfl rfl rfl rfl)
  | @close con =>
    refine .inl ?_
    exact (modCon s con (f := fun c => { c with allocated := false }) rfl (.inl rfl)).trans
      (of_same (Nat.le_refl _) rfl rfl rfl rfl rfl)
  | enter => exact .inl (enterAs s _ _)
  | found => exact .inl (of_same (Nat.le_succ _) rfl rfl rfl rfl rfl)
  | @leave user chan =>
    refine .inl ?_
    have hDelete : Tidy s (s.deleteChannel user chan) := of_same (Nat.le_refl _) rfl rfl rfl rfl rfl
    exact hDelete.trans (partChannel _ chan user)
  | dropChannel => exact .inl (hashRemoveChannel s _)
  | addOperator | dropOperator =>
    exact .inl (markOperator _ _ _ (of_same (Nat.le_refl _) rfl rfl rfl rfl rfl))
  | dropFile => exact .inl (dropFile s _ _ _)
  | collect => exact .inl (fdbGarbageCollect s)
  | answer => exact .inl (answerSearch s _ _)

end Tidy

end OpenNap
