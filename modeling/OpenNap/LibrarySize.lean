import OpenNap.Reach

/-! The size of what a user shares.  The server keeps it in 32 bits, next to the table of the user's
files; the two agree as long as no sum is too large for that.  Two of the three commands that add
files see to it. -/

namespace OpenNap

open CText

namespace Core

/-- The table of files of a connection, which is made when the first file comes. -/
def library (s : Core) (con : ConId) : NameTable DatumId :=
  (s.files con).getD (Bucket.Table.empty byName DatumId 257 pos_257)

/-- The size of a file in kB. -/
def kilobytes (s : Core) (d : DatumId) : Nat := ((s.datum d).size / 1024).toNat

/-- The size of the files of the user on a connection. -/
def librarySize (s : Core) (con : ConId) : Nat := ((s.library con).values.map s.kilobytes).sum

theorem lookupFile_eq (s : Core) (con : ConId) (name : Str) :
    s.lookupFile con name = (s.library con).lookup name := by
  simp only [lookupFile, library]
  cases s.files con with
  | some table => rfl
  | none => exact (Bucket.Table.lookup_eq_none.2 (by simp)).symm

/-! ### What a file is -/

/-- From `s` to `t` files are entered in the index, or taken out of it, and keep their data. -/
structure Indexed (s t : Core) : Prop where
  con : t.con = s.con
  user : t.user = s.user
  name : ∀ d, (t.datum d).filename = (s.datum d).filename
  size : ∀ d, (t.datum d).size = (s.datum d).size
  next : s.next ≤ t.next

namespace Indexed

theorem refl (s : Core) : Indexed s s := ⟨rfl, rfl, fun _ => rfl, fun _ => rfl, Nat.le_refl _⟩

theorem trans {s t u : Core} (h1 : Indexed s t) (h2 : Indexed t u) : Indexed s u where
  con := h2.con.trans h1.con
  user := h2.user.trans h1.user
  name d := (h2.name d).trans (h1.name d)
  size d := (h2.size d).trans (h1.size d)
  next := h1.next.trans h2.next

theorem addRef (s : Core) (d : DatumId) : Indexed s (s.addRef d) where
  con := rfl
  user := rfl
  name x := by by_cases hx : x = d <;> simp [Core.addRef, hx]
  size x := by by_cases hx : x = d <;> simp [Core.addRef, hx]
  next := Nat.le_refl _

theorem fdbAdd (s : Core) (d : DatumId) (key : Str) : Indexed s (s.fdbAdd d key) := by
  simp only [Core.fdbAdd]
  split
  · refine trans ?_ (addRef _ d)
    exact ⟨rfl, rfl, fun _ => rfl, fun _ => rfl, Nat.le_refl _⟩
  · refine trans ?_ (addRef _ d)
    exact ⟨rfl, rfl, fun _ => rfl, fun _ => rfl, Nat.le_succ _⟩

theorem fdbAdds (d : DatumId) (keys : List Str) (s : Core) :
    Indexed s (keys.foldl (fun s key => s.fdbAdd d key) s) := by
  induction keys generalizing s with
  | nil => exact refl s
  | cons key keys ih => exact (fdbAdd s d key).trans (ih _)

end Indexed

/-! ### Adding a file -/

theorem library_setFiles {s : Core} {con : ConId} (h : (s.con con).uopt.isSome = true)
    (table : NameTable DatumId) : (s.setFiles con (some table)).library con = table := by
  obtain ⟨o, ho⟩ := Option.isSome_iff_exists.1 h
  simp [library, files, setFiles, ho]

/-- What a new file changes, besides the index and the counters of the server. -/
theorem insertDatum_eq (s : Core) (con : ConId) (user : UserId) (info : Datum) :
    ∃ t u : Core,
      t = (s.alloc.modDatum s.next fun _ => { info with user := some user }).setFiles con
        (some ((s.library con).add info.filename s.next)) ∧
      Indexed t u ∧ s.insertDatum con user info = u.countShared user (info.size / 1024) :=
  ⟨_, _, rfl, (Indexed.addRef _ s.next).trans (Indexed.fdbAdds s.next _ _), rfl⟩

section

variable {s : Core} {con : ConId} {user : UserId} {info : Datum}

theorem library_insertDatum (h : (s.con con).uopt.isSome = true) :
    (s.insertDatum con user info).library con = (s.library con).add info.filename s.next := by
  obtain ⟨t, u, rfl, hIndexed, hEq⟩ := s.insertDatum_eq con user info
  have hLibrary : (u.countShared user (info.size / 1024)).library con = u.library con := rfl
  rw [hEq, hLibrary, library, files, hIndexed.con]
  exact library_setFiles (by simpa using h) _

theorem datum_insertDatum (d : DatumId) :
    ((s.insertDatum con user info).datum d).filename =
        (if d = s.next then info.filename else (s.datum d).filename) ∧
      ((s.insertDatum con user info).datum d).size =
        if d = s.next then info.size else (s.datum d).size := by
  obtain ⟨t, u, rfl, hIndexed, hEq⟩ := s.insertDatum_eq con user info
  have hDatum : (u.countShared user (info.size / 1024)).datum d = u.datum d := rfl
  rw [hEq, hDatum, hIndexed.name, hIndexed.size]
  by_cases hd : d = s.next <;> simp [setFiles, hd]

theorem user_insertDatum :
    ((s.insertDatum con user info).user user).libsize = (s.user user).libsize + info.size / 1024 ∧
      ((s.insertDatum con user info).user user).shared = (s.user user).shared + 1 := by
  obtain ⟨t, u, rfl, hIndexed, hEq⟩ := s.insertDatum_eq con user info
  rw [hEq]
  simp [countShared, hIndexed.user, setFiles]

theorem next_insertDatum : s.next < (s.insertDatum con user info).next := by
  obtain ⟨t, u, rfl, hIndexed, hEq⟩ := s.insertDatum_eq con user info
  rw [hEq]
  exact hIndexed.next

end

/-! ### Taking out a file -/

section

variable {s : Core} {con : ConId} {user : UserId} {d : DatumId}

/-- What taking out a file changes, besides the counters of the server, when the table has it under
its name. -/
theorem dropFile_eq (hFile : (s.library con).lookup (s.datum d).filename = some d) :
    s.dropFile con user d = ((s.countUnshared user ((s.datum d).size / 1024)).freeDatum d).setFiles con
      (some ((s.library con).remove (s.datum d).filename)) := by
  have hTable : ∃ table, s.files con = some table := by
    cases hFiles : s.files con with
    | some table => exact ⟨table, rfl⟩
    | none => simp [← lookupFile_eq, lookupFile, hFiles] at hFile
  obtain ⟨table, hTable⟩ := hTable
  have hCount : (s.countUnshared user ((s.datum d).size / 1024)).files con = some table := hTable
  have hLibrary : s.library con = table := by rw [library, hTable]; rfl
  rw [hLibrary] at hFile ⊢
  rw [dropFile, hashRemoveFile, lookupFile, hCount]
  simp only [Option.bind_some, hFile, Option.map_some]

theorem library_dropFile (hOptions : (s.con con).uopt.isSome = true)
    (hFile : (s.library con).lookup (s.datum d).filename = some d) :
    (s.dropFile con user d).library con = (s.library con).remove (s.datum d).filename := by
  rw [dropFile_eq hFile]
  exact library_setFiles hOptions _

theorem datum_dropFile (hFile : (s.library con).lookup (s.datum d).filename = some d) (x : DatumId) :
    ((s.dropFile con user d).datum x).filename = (s.datum x).filename ∧
      (x ≠ d → ((s.dropFile con user d).datum x).size = (s.datum x).size) := by
  rw [dropFile_eq hFile]
  by_cases hx : x = d <;> simp [setFiles, freeDatum, countUnshared, hx]

theorem user_dropFile (hFile : (s.library con).lookup (s.datum d).filename = some d) :
    ((s.dropFile con user d).user user).libsize = (s.user user).libsize - (s.datum d).size / 1024 := by
  rw [dropFile_eq hFile]
  simp [setFiles, freeDatum, countUnshared]

theorem next_dropFile (hFile : (s.library con).lookup (s.datum d).filename = some d) :
    (s.dropFile con user d).next = s.next := by
  rw [dropFile_eq hFile]
  rfl

end

/-! ### The table of a user and its size -/

/-- A local user whose connection is read, with a table in which each file is under its name. -/
structure Shares (s : Core) (con : ConId) (user : UserId) : Prop where
  reads : Server.reads s con = true
  isUser : s.isUser con = true
  owner : (s.con con).user = some user
  options : (s.con con).uopt.isSome = true
  distinct : (s.library con).Distinct
  named : ∀ e ∈ (s.library con).entries, (s.datum e.2).filename = e.1
  once : (s.library con).values.Nodup
  known : ∀ d ∈ (s.library con).values, d < s.next

namespace Shares

variable {s t : Core} {con : ConId} {user : UserId}

/-- Who has no files yet. -/
theorem start (hReads : Server.reads s con = true) (hUser : s.isUser con = true)
    (hOwner : (s.con con).user = some user) (hOptions : (s.con con).uopt.isSome = true)
    (hNone : s.files con = none) : s.Shares con user ∧ s.librarySize con = 0 := by
  have hEmpty : s.library con = Bucket.Table.empty byName DatumId 257 pos_257 := by
    rw [library, hNone]
    rfl
  refine ⟨⟨hReads, hUser, hOwner, hOptions, ?_, ?_, ?_, ?_⟩, ?_⟩
  · rw [hEmpty]
    exact Bucket.Table.distinct_empty 257 pos_257
  all_goals simp [librarySize, hEmpty]

/-- What happens to files leaves the connection as it is. -/
theorem connection (h : s.Shares con user) (hStep : FileStep s t) :
    Server.reads t con = true ∧ t.isUser con = true ∧ (t.con con).user = some user ∧
      (t.con con).uopt.isSome = true := by
  have hCon : (t.con con).eraseFiles = (s.con con).eraseFiles :=
    congrFun (congrArg Core.con hStep.rest) con
  have hAllocated : (t.con con).allocated = (s.con con).allocated :=
    (congrArg Connection.allocated hCon :)
  have hClass : (t.con con).cls = (s.con con).cls := (congrArg Connection.cls hCon :)
  have hDestroy : (t.con con).destroy = (s.con con).destroy := (congrArg Connection.destroy hCon :)
  have hUser : (t.con con).user = (s.con con).user := (congrArg Connection.user hCon :)
  have hOptions : (t.con con).uopt.isSome = (s.con con).uopt.isSome := by
    simpa [Connection.eraseFiles] using congrArg (fun c : Connection => c.uopt.isSome) hCon
  refine ⟨?_, ?_, hUser.trans h.owner, hOptions.trans h.options⟩
  · rw [Server.reads, isServer, hAllocated, hClass, hDestroy]
    exact h.reads
  · rw [Core.isUser, hClass]
    exact h.isUser

/-- A new file goes into the table and adds its size. -/
theorem insertDatum (h : s.Shares con user) {info : Datum}
    (hNew : s.lookupFile con info.filename = none) :
    (s.insertDatum con user info).Shares con user ∧
      (s.insertDatum con user info).librarySize con =
        s.librarySize con + (info.size / 1024).toNat := by
  have hCon := h.connection (fileStep_insertDatum s con user info)
  have hTable := @library_insertDatum s con user info h.options
  have hEntries := (s.library con).entries_add info.filename s.next
  have hValues := (s.library con).values_add info.filename s.next
  have hFresh : s.next ∉ (s.library con).values := fun hIn => Nat.lt_irrefl _ (h.known _ hIn)
  have hData (d : DatumId) := @datum_insertDatum s con user info d
  have hOld {d : DatumId} (hd : d ∈ (s.library con).values) : d ≠ s.next :=
    fun hEq => hFresh (hEq ▸ hd)
  have hFind : (s.library con).find info.filename = none := by
    rw [lookupFile_eq] at hNew
    exact Option.map_eq_none_iff.1 hNew
  refine ⟨⟨hCon.1, hCon.2.1, hCon.2.2.1, hCon.2.2.2, ?_, fun e he => ?_, ?_, fun d hd => ?_⟩, ?_⟩
  · rw [hTable]
    exact h.distinct.add hFind s.next
  · rw [hTable] at he
    rw [(hData e.2).1]
    rcases List.mem_cons.1 (hEntries.mem_iff.1 he) with rfl | he
    · simp
    · rw [if_neg (hOld (Bucket.Table.mem_values.2 ⟨e.1, he⟩))]
      exact h.named e he
  · rw [hTable]
    exact hValues.nodup_iff.2 (List.nodup_cons.2 ⟨hFresh, h.once⟩)
  · rw [hTable] at hd
    have hNext := @next_insertDatum s con user info
    rcases List.mem_cons.1 (hValues.mem_iff.1 hd) with rfl | hd
    · exact hNext
    · exact (h.known d hd).trans hNext
  · have hHere : (s.insertDatum con user info).kilobytes s.next = (info.size / 1024).toNat := by
      rw [kilobytes, (hData s.next).2, if_pos rfl]
    have hRest : (s.library con).values.map (s.insertDatum con user info).kilobytes =
        (s.library con).values.map s.kilobytes :=
      List.map_congr_left fun d hd => by rw [kilobytes, (hData d).2, if_neg (hOld hd), kilobytes]
    rw [librarySize, hTable, (hValues.map _).sum_nat, List.map_cons, List.sum_cons, hHere, hRest,
      Nat.add_comm]
    rfl

/-- A file that is found leaves the table and takes its size with it. -/
theorem dropFile (h : s.Shares con user) {name : Str} {d : DatumId}
    (hFile : s.lookupFile con name = some d) :
    (s.dropFile con user d).Shares con user ∧
      (s.dropFile con user d).librarySize con + s.kilobytes d = s.librarySize con ∧
      ((s.dropFile con user d).user user).libsize =
        (s.user user).libsize - (s.datum d).size / 1024 := by
  rw [lookupFile_eq] at hFile
  obtain ⟨k, hEntry, hSame⟩ := Bucket.Table.lookup_some hFile
  have hName : (s.library con).lookup (s.datum d).filename = some d := by
    rw [h.named _ hEntry]
    exact h.distinct.lookup hEntry rfl
  have hCon := h.connection (fileStep_dropFile s con user d)
  have hTable := @library_dropFile s con user d h.options hName
  have hData (x : DatumId) := @datum_dropFile s con user d hName x
  have hValues := Bucket.Table.values_remove hName
  have hOnce := hValues.nodup_iff.1 h.once
  refine ⟨⟨hCon.1, hCon.2.1, hCon.2.2.1, hCon.2.2.2, ?_, fun e he => ?_, ?_, fun x hx => ?_⟩, ?_,
    user_dropFile hName⟩
  · rw [hTable]
    exact h.distinct.remove _
  · rw [hTable] at he
    rw [(hData e.2).1]
    exact h.named e (Bucket.Table.mem_entries_of_mem_remove he)
  · rw [hTable]
    exact (List.nodup_cons.1 hOnce).2
  · rw [hTable] at hx
    rw [next_dropFile hName]
    exact h.known x (Bucket.Table.mem_values_of_mem_remove hx)
  · have hRest : ((s.library con).remove (s.datum d).filename).values.map
        (s.dropFile con user d).kilobytes =
        ((s.library con).remove (s.datum d).filename).values.map s.kilobytes := by
      refine List.map_congr_left fun x hx => ?_
      have hOther : x ≠ d := fun hEq => (List.nodup_cons.1 hOnce).1 (hEq ▸ hx)
      rw [kilobytes, (hData x).2 hOther, kilobytes]
    have hSum := (hValues.map s.kilobytes).sum_nat
    rw [List.map_cons, List.sum_cons] at hSum
    rw [librarySize, hTable, hRest, librarySize, hSum, Nat.add_comm]

/-- What the user shares besides plays no part. -/
theorem modUser (h : s.Shares con user) {v : UserId} {f : User → User} :
    (s.modUser v f).Shares con user :=
  ⟨h.reads, h.isUser, h.owner, h.options, h.distinct, h.named, h.once, h.known⟩

end Shares

/-- The size that the server keeps for a user is that of the files in the table. -/
def Exact (s : Core) (con : ConId) (user : UserId) : Prop :=
  (s.user user).libsize.toNat = s.librarySize con

/-- From `s` to `t` files of so many kB in all go into the table of a user. -/
structure Grown (con : ConId) (user : UserId) (s t : Core) (kb : Nat) : Prop where
  shares : t.Shares con user
  table : t.librarySize con = s.librarySize con + kb
  kept : (t.user user).libsize.toNat = ((s.user user).libsize.toNat + kb) % 2 ^ 32

namespace Grown

variable {s t u : Core} {con : ConId} {user : UserId} {m n : Nat}

theorem refl (h : s.Shares con user) : Grown con user s s 0 :=
  ⟨h, rfl, (Nat.mod_eq_of_lt (s.user user).libsize.toNat_lt).symm⟩

theorem trans (h1 : Grown con user s t m) (h2 : Grown con user t u n) :
    Grown con user s u (m + n) where
  shares := h2.shares
  table := by rw [h2.table, h1.table, Nat.add_assoc]
  kept := by rw [h2.kept, h1.kept, Nat.mod_add_mod, Nat.add_assoc]

theorem insertDatum (h : s.Shares con user) {info : Datum}
    (hNew : s.lookupFile con info.filename = none) :
    Grown con user s (s.insertDatum con user info) (info.size / 1024).toNat :=
  have hAll := h.insertDatum hNew
  ⟨hAll.1, hAll.2, by rw [user_insertDatum.1, UInt32.toNat_add]⟩

/-- The size stays exact as long as it fits. -/
theorem exact_iff (h : Grown con user s t n) (hExact : s.Exact con user) :
    t.Exact con user ↔ (s.user user).libsize.toNat + n < 2 ^ 32 := by
  rw [Exact, h.kept, h.table, ← hExact]
  constructor
  · intro hEq
    rw [← hEq]
    exact Nat.mod_lt _ (by decide)
  · exact Nat.mod_eq_of_lt

end Grown

theorem lookupFile_insertDatum {s : Core} {con : ConId} (h : (s.con con).uopt.isSome = true)
    (user : UserId) (info : Datum) (name : Str) :
    ((s.insertDatum con user info).lookupFile con name).isSome =
      ((s.lookupFile con name).isSome || sameText info.filename name) := by
  rw [lookupFile_eq, library_insertDatum h, Bucket.Table.lookup_add, lookupFile_eq, Bool.or_comm]
  by_cases hSame : strlower info.filename = strlower name
  · have hText : sameText info.filename name = true := sameText_iff.2 hSame
    rw [hText]
    exact congrArg Option.isSome (if_pos hSame)
  · have hText : sameText info.filename name = false :=
      Bool.eq_false_iff.2 fun hText => hSame (sameText_iff.1 hText)
    rw [hText]
    exact congrArg Option.isSome (if_neg hSame)

end Core

/-! ### The commands -/

/-- The sizes of the files that an `add_directory` adds: those before `Max_Shared` is exceeded whose
path is new and whose size is positive.  `taken` says which paths there are. -/
def directorySizes (maxShared : Int) (dir : Str) : (Str → Bool) → UInt16 → List Str → List UInt32
  | taken, shared, basename :: _ :: size :: _ :: _ :: _ :: rest =>
    if maxShared ≠ 0 ∧ maxShared < (shared.toNat : Int) then []
    else
      let path := dir ++ basename.take (posixPathMax - 1 - dir.length)
      if taken path = true ∨ atoi size < 1 then directorySizes maxShared dir taken shared rest
      else
        toUint (atoi size) ::
          directorySizes maxShared dir (fun name => taken name || sameText path name) (shared + 1) rest
  | _, _, _ => []

/-- The kB of files of these sizes. -/
def kilobytesOf (sizes : List UInt32) : Nat := (sizes.map fun size => (size / 1024).toNat).sum

namespace Server

open OpenNap.Core

variable {s : Server} {con : ConId} {user : UserId}

theorem overShared_iff : overShared s.toCore user = true ↔
    s.cfg.maxShared ≠ 0 ∧ s.cfg.maxShared < ((s.user user).shared.toNat : Int) := by
  simp [overShared]

/-- A file that is passed over changes nothing; any other one is added. -/
theorem toCore_addDirectoryFile (s : Server) (con : ConId) (user : UserId)
    (dir basename size bitrate freq duration : Str) :
    let path := dir ++ basename.take (posixPathMax - 1 - dir.length)
    let t := s.addDirectoryFile con user dir basename size bitrate freq duration
    if (s.lookupFile con path).isSome = true ∨ atoi size < 1 then t.toCore = s.toCore
    else ∃ info : Datum, info.filename = path ∧ info.size = toUint (atoi size) ∧
      t.toCore = s.toCore.insertDatum con user info := by
  intro path t
  by_cases hTaken : (s.lookupFile con path).isSome = true
  · rw [if_pos (.inl hTaken)]
    simp only [t, addDirectoryFile]
    rw [if_pos hTaken, toCore_sendCmd]
  · by_cases hSize : atoi size < 1
    · rw [if_pos (.inr hSize)]
      simp only [t, addDirectoryFile]
      rw [if_neg hTaken, if_pos hSize, toCore_sendCmd]
    · rw [if_neg (not_or.2 ⟨hTaken, hSize⟩)]
      simp only [t, addDirectoryFile]
      rw [if_neg hTaken, if_neg hSize]
      exact ⟨_, rfl, rfl, toCore_onCore ..⟩

/-- The loop of `add_directory` adds these files, whether their sizes fit or not. -/
theorem grown_addDirectoryLoop (dir : Str) (fields : List Str) {taken : Str → Bool}
    (hTaken : ∀ name, taken name = (s.lookupFile con name).isSome) (h : s.Shares con user) :
    Grown con user s.toCore (s.addDirectoryLoop con user dir fields).toCore
      (kilobytesOf (directorySizes s.cfg.maxShared dir taken (s.user user).shared fields)) := by
  fun_induction addDirectoryLoop s con user dir fields generalizing taken with
  | case1 s => exact .refl h
  | case2 s basename _ size bitrate freq duration rest hOver =>
    rw [directorySizes, if_pos (overShared_iff.1 hOver)]
    exact .refl h
  | case3 s basename _ size bitrate freq duration rest hOver ih =>
    rw [directorySizes, if_neg fun hMany => hOver (overShared_iff.2 hMany)]
    have hFile := s.toCore_addDirectoryFile con user dir basename size bitrate freq duration
    simp only [← hTaken] at hFile
    generalize s.addDirectoryFile con user dir basename size bitrate freq duration = t at hFile ih ⊢
    simp only
    split
    · rename_i hSkip
      rw [if_pos hSkip] at hFile
      rw [hFile] at ih
      exact ih hTaken h
    · rename_i hAdd
      rw [if_neg hAdd] at hFile
      obtain ⟨info, hName, hSize, hCore⟩ := hFile
      have hNew : s.lookupFile con info.filename = none := by
        have hFree := (not_or.1 hAdd).1
        rw [hTaken] at hFree
        rw [hName]
        simpa using hFree
      have hFirst := Grown.insertDatum h hNew
      have hCfg : (s.toCore.insertDatum con user info).cfg = s.cfg :=
        (congrArg Core.cfg (fileStep_insertDatum s.toCore con user info).rest :)
      rw [hCore, hCfg, user_insertDatum.2] at ih
      refine .trans ?_ (ih (fun name => ?_) ?_)
      · rw [← hSize]
        exact hFirst
      · rw [lookupFile_insertDatum h.options, hTaken, hName]
      · exact hFirst.shares
  | case4 fields s hOver hNil hShort =>
    rw [directorySizes]
    · exact .refl h
    · exact hShort
  | case5 fields s hOver hNil hShort =>
    rw [directorySizes]
    · rw [toCore_unparsable]
      exact .refl h
    · exact hShort

/-- What becomes of the size that the server keeps when a file is added whose size in bytes fits. -/
theorem insert_exact (h : s.Shares con user) {info : Datum}
    (hNew : (s.lookupFile con info.filename).isSome = false)
    (hFits : ¬ (s.user user).libsize + info.size < (s.user user).libsize) :
    (s.toCore.insertDatum con user info).Shares con user ∧
      (s.Exact con user → (s.toCore.insertDatum con user info).Exact con user) := by
  have hGrown := Grown.insertDatum h (Option.isNone_iff_eq_none.1 (by simpa using hNew))
  exact ⟨hGrown.shares, fun hExact => (hGrown.exact_iff hExact).2 (kb_fits hFits)⟩

theorem addFile_exact (h : s.Shares con user) (pkt : Str) :
    (s.addFile con pkt).Shares con user ∧
      (s.Exact con user → (s.addFile con pkt).Exact con user) := by
  have hSame : s.Shares con user ∧ (s.Exact con user → s.Exact con user) := ⟨h, id⟩
  simp only [addFile, h.owner]
  split
  · exact hSame
  · split
    · split
      · exact hSame
      · split
        · exact hSame
        · rename_i hFits
          split
          · exact hSame
          · rename_i hNew
            exact insert_exact h (Bool.eq_false_iff.2 hNew) hFits
    · rw [toCore_unparsable]
      exact hSame

theorem shareFile_exact (h : s.Shares con user) (pkt : Str) :
    (s.shareFile con pkt).Shares con user ∧
      (s.Exact con user → (s.shareFile con pkt).Exact con user) := by
  have hSame : s.Shares con user ∧ (s.Exact con user → s.Exact con user) := ⟨h, id⟩
  simp only [shareFile, h.owner]
  split
  · exact hSame
  · split
    · split
      · rw [toCore_sendIfUser]
        exact hSame
      · split
        · exact hSame
        · split
          · exact hSame
          · rename_i hNew
            split
            · exact hSame
            · rename_i hFits
              rw [UInt32.add_comm] at hFits
              exact insert_exact h (Bool.eq_false_iff.2 hNew) hFits
    · rw [toCore_unparsable]
      exact hSame

/-- A file that is taken out is in the table, so that its size was counted. -/
theorem removeFile_exact (h : s.Shares con user) (pkt : Str) :
    (s.removeFile con pkt).Shares con user ∧
      (s.Exact con user → (s.removeFile con pkt).Exact con user) := by
  have hSame : s.Shares con user ∧ (s.Exact con user → s.Exact con user) := ⟨h, id⟩
  simp only [removeFile, h.owner]
  split
  · exact hSame
  · split
    · exact hSame
    · rename_i d hFile
      obtain ⟨hShares, hTable, hKept⟩ := h.dropFile hFile
      refine ⟨hShares, fun hExact => ?_⟩
      have hLess : (s.datum d).size / 1024 ≤ (s.user user).libsize := by
        rw [UInt32.le_iff_toNat_le, hExact, ← hTable]
        exact Nat.le_add_left _ _
      show ((s.toCore.dropFile con user d).user user).libsize.toNat = _
      rw [hKept, UInt32.toNat_sub_of_le _ _ hLess, hExact, ← hTable]
      exact Nat.add_sub_cancel _ _

/-- After an `add_directory` the size is exact when that of the new files fits. -/
theorem addDirectory_exact (h : s.Shares con user) (pkt : Str) :
    (s.addDirectory con pkt).Shares con user ∧
      (s.Exact con user → ((s.addDirectory con pkt).Exact con user ↔
        ∀ dir ∈ directoryPrefix (nextArg pkt).1,
          (s.user user).libsize.toNat + kilobytesOf (directorySizes s.cfg.maxShared dir
            (fun name => (s.lookupFile con name).isSome) (s.user user).shared
              (args (nextArg pkt).2)) < 2 ^ 32)) := by
  simp only [addDirectory, h.owner]
  split
  · rename_i hNone
    refine ⟨h, fun hExact => ⟨fun _ dir hDir => ?_, fun _ => hExact⟩⟩
    rw [hNone] at hDir
    cases hDir
  · rename_i dir hDir
    have hGrown := grown_addDirectoryLoop dir (args (nextArg pkt).2) (fun _ => rfl) h
    refine ⟨hGrown.shares, fun hExact => ?_⟩
    rw [hGrown.exact_iff hExact, hDir]
    constructor
    · intro hFits dir' hDir'
      cases hDir'
      exact hFits
    · exact fun hFits => hFits dir rfl

end Server

/-! ### Any sequence of commands -/

/-- A command of a user about the own files. -/
inductive FileRequest
  | addFile (pkt : Str) (env : Env)
  | shareFile (pkt : Str) (env : Env)
  | addDirectory (pkt : Str) (env : Env)
  | removeFile (pkt : Str) (env : Env)

/-- The command comes in on a connection. -/
def FileRequest.event (con : ConId) : FileRequest → Event
  | addFile pkt env => .packet con .addFile pkt env
  | shareFile pkt env => .packet con .shareFile pkt env
  | addDirectory pkt env => .packet con .addDirectory pkt env
  | removeFile pkt env => .packet con .removeFile pkt env

namespace Server

open OpenNap.Core

variable {s : Server} {con : ConId} {user : UserId}

/-- The server takes a command of the user on a connection. -/
def serve (con : ConId) (s : Server) (request : FileRequest) : Server := s.step (request.event con)

/-- The files that an `add_directory` adds fit into the 32 bits in which the size is kept. -/
def FitsLibrary (con : ConId) (user : UserId) (s : Server) : FileRequest → Prop
  | .addDirectory pkt _ => ∀ dir ∈ directoryPrefix (nextArg pkt).1,
      (s.user user).libsize.toNat + kilobytesOf (directorySizes s.cfg.maxShared dir
        (fun name => (s.lookupFile con name).isSome) (s.user user).shared (args (nextArg pkt).2)) < 2 ^ 32
  | _ => True

/-- The handler runs after the report about what was shared before, which changes no size. -/
theorem serve_eq (h : s.Shares con user) (cmd : Command) (pkt : Str) (env : Env) :
    ∃ r : Server, s.step (.packet con cmd pkt env) = r.dispatch con cmd pkt env ∧
      r.Shares con user ∧ r.isUser con = true ∧ r.librarySize con = s.librarySize con ∧
      (r.user user).libsize = (s.user user).libsize ∧ (r.user user).shared = (s.user user).shared ∧
      r.cfg = s.cfg ∧ ∀ name, r.lookupFile con name = s.lookupFile con name := by
  obtain ⟨v, g, hReport, hg⟩ := s.toCore_reportSharing con cmd
  have hUnknown : s.isUnknown con = false := by
    have hUser := h.isUser
    simp only [Core.isUser, Core.isUnknown, beq_iff_eq] at hUser ⊢
    rw [hUser]
    rfl
  have hUser : { (s.reportSharing con cmd).user user with sharing := false, unsharing := false } =
      { s.user user with sharing := false, unsharing := false } := by
    rw [hReport]
    by_cases hu : user = v
    · simpa [hu] using hg (s.user v)
    · simp [hu]
  refine ⟨s.reportSharing con cmd, ?_, ?_, ?_, ?_, (congrArg User.libsize hUser :),
    (congrArg User.shared hUser :), ?_, fun name => ?_⟩
  · simp only [step, h.reads, if_true, handlePacket, hUnknown, Bool.false_and, Bool.false_eq_true,
      if_false]
  · rw [hReport]
    exact h.modUser
  · rw [hReport]
    exact h.isUser
  · rw [hReport]
    rfl
  · rw [hReport]
    rfl
  · rw [hReport]
    rfl

/-- A command whose handler leaves the size exact leaves it exact. -/
theorem serve_keeps (h : s.Shares con user) (cmd : Command) (pkt : Str) (env : Env)
    (handler : Server → Server)
    (hDispatch : ∀ r : Server, r.isUser con = true → r.dispatch con cmd pkt env = handler r)
    (hDone : ∀ r : Server, r.Shares con user →
      (handler r).Shares con user ∧ (r.Exact con user → (handler r).Exact con user)) :
    (s.step (.packet con cmd pkt env)).Shares con user ∧
      (s.Exact con user → (s.step (.packet con cmd pkt env)).Exact con user) := by
  obtain ⟨r, hStep, hShares, hUser, hTable, hSize, -⟩ := serve_eq h cmd pkt env
  rw [hStep, hDispatch r hUser]
  refine ⟨(hDone r hShares).1, fun hExact => (hDone r hShares).2 ?_⟩
  rw [Exact, hSize, hTable]
  exact hExact

/-- A command leaves the size exact, unless it is an `add_directory` whose files do not fit. -/
theorem serve_exact (h : s.Shares con user) (request : FileRequest) :
    (s.serve con request).Shares con user ∧
      (s.Exact con user →
        ((s.serve con request).Exact con user ↔ s.FitsLibrary con user request)) := by
  cases request with
  | addFile pkt env =>
    have hKeeps := serve_keeps h .addFile pkt env (·.addFile con pkt)
      (fun r hUser => by simp only [dispatch, hUser, if_true]) fun r hShares => addFile_exact hShares pkt
    exact ⟨hKeeps.1, fun hExact => ⟨fun _ => trivial, fun _ => hKeeps.2 hExact⟩⟩
  | shareFile pkt env =>
    have hKeeps := serve_keeps h .shareFile pkt env (·.shareFile con pkt)
      (fun r hUser => by simp only [dispatch, hUser, if_true])
      fun r hShares => shareFile_exact hShares pkt
    exact ⟨hKeeps.1, fun hExact => ⟨fun _ => trivial, fun _ => hKeeps.2 hExact⟩⟩
  | addDirectory pkt env =>
    obtain ⟨r, hStep, hShares, hUser, hTable, hSize, hCount, hCfg, hLookup⟩ :=
      serve_eq h .addDirectory pkt env
    have hDone := addDirectory_exact hShares pkt
    have hEq : s.serve con (.addDirectory pkt env) = r.addDirectory con pkt := by
      rw [serve, FileRequest.event, hStep]
      simp only [dispatch, hUser, if_true]
    rw [hSize, hCount, hCfg] at hDone
    simp only [hLookup] at hDone
    rw [hEq]
    refine ⟨hDone.1, fun hExact => hDone.2 ?_⟩
    rw [Exact, hSize, hTable]
    exact hExact
  | removeFile pkt env =>
    have hKeeps := serve_keeps h .removeFile pkt env (·.removeFile con pkt)
      (fun r hUser => by simp only [dispatch, hUser, if_true])
      fun r hShares => removeFile_exact hShares pkt
    exact ⟨hKeeps.1, fun hExact => ⟨fun _ => trivial, fun _ => hKeeps.2 hExact⟩⟩

/-- From the first file of a local user on, whatever commands about files the user sends, the size
that is kept is that of the files exactly as long as what each `add_directory` adds still fits. -/
theorem libsize_exact_iff (hReads : reads s.toCore con = true) (hUser : s.isUser con = true)
    (hOwner : (s.con con).user = some user) (hOptions : (s.con con).uopt.isSome = true)
    (hNone : s.files con = none) (hZero : (s.user user).libsize = 0) (requests : List FileRequest) :
    (∀ n, (Runs.run (serve con) s (requests.take n)).Exact con user) ↔
      Runs.Meets (serve con) (FitsLibrary con user) s requests := by
  obtain ⟨hShares, hEmpty⟩ := Shares.start hReads hUser hOwner hOptions hNone
  have hExact : s.Exact con user := by rw [Exact, hZero, hEmpty]; rfl
  refine Runs.meets_iff (J := fun s : Server => s.Shares con user)
    (I := fun s : Server => s.Exact con user) ?_ ?_ hShares hExact requests
  · exact fun s request hShares => (serve_exact hShares request).1
  · exact fun s request hShares => (serve_exact hShares request).2

end Server

/-! ### A library that does not fit -/

/-- The arguments of a line of words are the words. -/
theorem args_line {w : Str} {l : List Str} (h : ∀ v ∈ w :: l, Word v) :
    args (some (line (w :: l))) = w :: l := by
  induction l generalizing w with
  | nil =>
    rw [args_some]
    simp [line, nextArg_last (h w (by simp))]
  | cons v l ih =>
    rw [args_some, nextArg_line (h w (by simp)) (h v (by simp)), ih fun u hu => h u (by simp_all)]

/-- The path of the `n`th of a row of files. -/
def filePath (n : Nat) : Str := str "d\\f" ++ showNat n

/-- An `add_directory` with the `n`th of these files, which has the greatest size that an `int` can
be. -/
def newFile (n : Nat) : FileRequest :=
  .addDirectory (line [str "d", 'f' :: showNat n, str "x", str "2147483647", str "128", str "44100",
    str "9"]) {}

/-- The files of the row have different names. -/
theorem filePath_injective {m n : Nat} (h : sameText (filePath m) (filePath n) = true) : m = n := by
  have hDigits (k : Nat) : strlower (showNat k) = showNat k := by
    refine (List.map_congr_left fun c hc => ?_).trans (List.map_id _)
    have hDigit := isDigit_of_mem_showNat hc
    simp only [Char.isDigit, Bool.and_eq_true, decide_eq_true_eq] at hDigit
    have hLow : c.val.toNat ≤ 57 := hDigit.2
    unfold Char.toLower
    split
    · rename_i hUpper
      have hHigh : 65 ≤ c.val.toNat := hUpper.1
      omega
    · rfl
  rw [sameText_iff, filePath, filePath, strlower_append, strlower_append, hDigits, hDigits] at h
  rw [← digitsValue_showNat m, ← digitsValue_showNat n, List.append_cancel_left h]

namespace Server

open OpenNap.Core

variable {s : Server} {con : ConId} {user : UserId}

/-- The files of the row that a user has not sent yet are new, and there is room for 5001. -/
structure Rowing (con : ConId) (user : UserId) (n : Nat) (s : Server) : Prop where
  shares : s.Shares con user
  table : s.librarySize con = n * 2097151
  kept : (s.user user).libsize.toNat = n * 2097151 % 2 ^ 32
  limit : s.cfg.maxShared = 5000
  count : (s.user user).shared.toNat = n
  fresh : ∀ m, n ≤ m → s.lookupFile con (filePath m) = none

/-- The next file of the row is added. -/
theorem Rowing.next {n : Nat} (h : Rowing con user n s) (hRoom : n ≤ 5000) :
    Rowing con user (n + 1) (s.serve con (newFile n)) := by
  obtain ⟨r, hStep, hShares, hUser, hTable, hSize, hCount, hCfg, hLookup⟩ :=
    serve_eq h.shares .addDirectory (line [str "d", 'f' :: showNat n, str "x", str "2147483647",
      str "128", str "44100", str "9"]) {}
  have hName : Word ('f' :: showNat n) := by
    refine ⟨by simp, fun c hc => ?_, by simp⟩
    rcases List.mem_cons.1 hc with rfl | hc
    · decide
    · exact (word_showNat n).plain c hc
  have hFirst : nextArg (line [str "d", 'f' :: showNat n, str "x", str "2147483647", str "128",
      str "44100", str "9"]) = (str "d", some (line ['f' :: showNat n, str "x", str "2147483647",
        str "128", str "44100", str "9"])) := nextArg_line (by decide) hName
  have hRest : args (some (line ['f' :: showNat n, str "x", str "2147483647", str "128",
      str "44100", str "9"])) =
        ['f' :: showNat n, str "x", str "2147483647", str "128", str "44100", str "9"] := by
    refine args_line fun v hv => ?_
    rcases List.mem_cons.1 hv with rfl | hv
    · exact hName
    · have hRest : ∀ w ∈ [str "x", str "2147483647", str "128", str "44100", str "9"], Word w := by
        decide
      exact hRest v hv
  have hLength : (showNat n).length ≤ 4 := showNat_length_le (by omega) (by decide)
  have hPath : str "d\\" ++ ('f' :: showNat n).take (posixPathMax - 1 - (str "d\\").length) =
      filePath n := by
    rw [List.take_of_length_le]
    · rfl
    · have hBound : posixPathMax - 1 - (str "d\\").length = 253 := by decide
      rw [hBound, List.length_cons]
      omega
  have hMany : ¬ overShared r.toCore user = true := by
    rw [overShared_iff, hCfg, hCount, h.limit, h.count]
    omega
  have hNew : r.lookupFile con (filePath n) = none := (hLookup _).trans (h.fresh n (Nat.le_refl n))
  have hEq : s.serve con (newFile n) = r.addDirectoryFile con user (str "d\\") ('f' :: showNat n)
      (str "2147483647") (str "128") (str "44100") (str "9") := by
    have hPrefix : directoryPrefix (str "d") = some (str "d\\") := by decide
    rw [serve, newFile, FileRequest.event, hStep]
    simp only [dispatch, hUser, if_true, addDirectory, hShares.owner, hFirst, hPrefix, hRest]
    rw [addDirectoryLoop, if_neg hMany, addDirectoryLoop]
  have hFile := r.toCore_addDirectoryFile con user (str "d\\") ('f' :: showNat n)
    (str "2147483647") (str "128") (str "44100") (str "9")
  simp only [hPath, hNew, ← hEq] at hFile
  rw [if_neg (by decide)] at hFile
  obtain ⟨info, hInfo, hBytes, hCore⟩ := hFile
  have hKb : (info.size / 1024).toNat = 2097151 := by
    rw [hBytes]
    decide
  rw [← hInfo] at hNew
  have hGrown := Grown.insertDatum hShares hNew
  rw [hKb] at hGrown
  refine ⟨?_, ?_, ?_, ?_, ?_, fun m hm => ?_⟩
  · rw [hCore]
    exact hGrown.shares
  · rw [hCore, hGrown.table, hTable, h.table]
    omega
  · rw [hCore, hGrown.kept, hSize, h.kept]
    omega
  · rw [hCore]
    have hSame : (r.toCore.insertDatum con user info).cfg = r.cfg :=
      (congrArg Core.cfg (fileStep_insertDatum r.toCore con user info).rest :)
    rw [hSame, hCfg, h.limit]
  · rw [hCore, user_insertDatum.2, hCount, UInt16.toNat_add, h.count]
    have hOne : (1 : UInt16).toNat = 1 := rfl
    omega
  · have hOther : sameText info.filename (filePath m) = false := by
      rw [hInfo]
      refine Bool.eq_false_iff.2 fun hSame => ?_
      have hEqual := filePath_injective hSame
      omega
    have hAfter := lookupFile_insertDatum hShares.options user info (filePath m)
    rw [hLookup, h.fresh m (by omega), hOther] at hAfter
    rw [hCore]
    simpa using hAfter

/-- A local user without files, when 5000 of them are allowed, may send the row of files. -/
theorem Rowing.start (hReads : reads s.toCore con = true) (hUser : s.isUser con = true)
    (hOwner : (s.con con).user = some user) (hOptions : (s.con con).uopt.isSome = true)
    (hNone : s.files con = none) (hZero : (s.user user).libsize = 0)
    (hCount : (s.user user).shared = 0) (hLimit : s.cfg.maxShared = 5000) :
    Rowing con user 0 s := by
  obtain ⟨hShares, hEmpty⟩ := Shares.start hReads hUser hOwner hOptions hNone
  refine ⟨hShares, by rw [hEmpty], by rw [hZero]; rfl, hLimit, by rw [hCount]; rfl, fun m _ => ?_⟩
  rw [lookupFile, hNone]
  rfl

theorem Rowing.run (h : Rowing con user 0 s) {n : Nat} (hRoom : n ≤ 5001) :
    Rowing con user n (Runs.run (serve con) s ((List.range n).map newFile)) := by
  induction n with
  | zero => exact h
  | succ n ih =>
    rw [List.range_succ, List.map_append, Runs.run_append]
    exact (ih (by omega)).next (by omega)

/-- The first user of a server. -/
def joeOnline : Server :=
  Server.reach hub [.accept 1 (str "pc") 6699 8888, .packet 0 .login (str "joe pw 6699 \"c\" 3") {}]

theorem joeOnline_shares : reads joeOnline.toCore 0 = true ∧ joeOnline.isUser 0 = true ∧
    (joeOnline.con 0).user = some 1 ∧ (joeOnline.con 0).uopt.isSome = true ∧
    (joeOnline.files 0).isNone = true ∧ (joeOnline.user 1).libsize = 0 ∧
    (joeOnline.user 1).shared = 0 ∧ joeOnline.cfg.maxShared = 5000 := by
  decide +kernel

/-- Joe adds a file, then a directory with one file, and takes out the first one. -/
theorem libsize_exact_iff_joe :
    (Runs.run (serve 0) joeOnline
      [.addFile (str "a.mp3 0 5000 128 44100 9") {}, .addDirectory (str "d b.mp3 0 9000 128 44100 9") {},
        .removeFile (str "a.mp3") {}]).Exact 0 1 := by
  obtain ⟨hReads, hUser, hOwner, hOptions, hNone, hZero, -, -⟩ := joeOnline_shares
  have hFits : FitsLibrary 0 1 (joeOnline.serve 0 (.addFile (str "a.mp3 0 5000 128 44100 9") {}))
      (.addDirectory (str "d b.mp3 0 9000 128 44100 9") {}) := by
    simp only [FitsLibrary]
    decide +kernel
  have hAll := (libsize_exact_iff hReads hUser hOwner hOptions (Option.isNone_iff_eq_none.1 hNone) hZero
    [.addFile (str "a.mp3 0 5000 128 44100 9") {}, .addDirectory (str "d b.mp3 0 9000 128 44100 9") {},
      .removeFile (str "a.mp3") {}]).2 ⟨trivial, hFits, trivial, trivial⟩
  exact hAll 3

/-- With 2049 files of just under 2 GB, which is less than half of what a user may share, the size
that is kept has wrapped around. -/
theorem library_wraps :
    let t := Runs.run (serve 0) joeOnline ((List.range 2049).map newFile)
    t.librarySize 0 = 4297062399 ∧ (t.user 1).libsize = 2095103 ∧ ¬ t.Exact 0 1 := by
  intro t
  obtain ⟨hReads, hUser, hOwner, hOptions, hNone, hZero, hCount, hLimit⟩ := joeOnline_shares
  have hStart : Rowing 0 1 0 joeOnline := Rowing.start hReads hUser hOwner hOptions
    (Option.isNone_iff_eq_none.1 hNone) hZero hCount hLimit
  have hRow : Rowing 0 1 2049 t := hStart.run (by decide)
  have hTable : t.librarySize 0 = 4297062399 := hRow.table.trans (by decide)
  have hKept : (t.user 1).libsize = 2095103 := UInt32.toNat_inj.1 (hRow.kept.trans (by decide))
  refine ⟨hTable, hKept, ?_⟩
  rw [Exact, hKept, hTable]
  decide

end Server

end OpenNap
