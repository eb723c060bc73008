import OpenNap.Lib.RefCount
import OpenNap.LibrarySize
import OpenNap.Lib.Run

/-! The records of shared files and the tables that refer to them: each local user's own table, the
index by word and, in a server built with RESUME, the index by hash.  A record counts its references
in five bits and is released when the count comes to zero.  Here every call of `free_datum` is
written down with the count that it finds. -/

namespace OpenNap

open CText

/-- `File_Table` and, in the RESUME build, `MD5`. -/
inductive Index
  | words
  | hashes
  deriving DecidableEq

/-- The data of a server of either build.  `made` are the records that were entered, and `freed` are
the calls of `free_datum` with the counts found. -/
structure Depot extends Core where
  resume : Bool
  md5 : NameTable FlistId
  made : List DatumId := []
  freed : List (DatumId × BitVec 5) := []

namespace Depot

/-- A change of the data that both builds have. -/
def onCore (s : Depot) (f : Core → Core) : Depot := { s with toCore := f s.toCore }

/-- One of the two indexes. -/
def table (s : Depot) : Index → NameTable FlistId
  | .words => s.fileTable
  | .hashes => s.md5

/-- Replace one of the two indexes. -/
def setTable (s : Depot) (index : Index) (table : NameTable FlistId) : Depot :=
  match index with
  | .words => s.onCore fun c => { c with fileTable := table }
  | .hashes => { s with md5 := table }

/-- `d->refcount++`. -/
def addRef (s : Depot) (d : DatumId) : Depot := s.onCore (·.addRef d)

/-- `fdb_add`. -/
def fdbAdd (s : Depot) (index : Index) (d : DatumId) (key : Str) : Depot :=
  match (s.table index).lookup key with
  | some bin =>
    (s.onCore (·.modFlist bin fun b => { b with list := b.list ++ [d], count := b.count + 1 })).addRef d
  | none =>
    let bin := s.next
    let files := (s.table index).add key bin
    let s := s.onCore (·.alloc.modFlist bin fun _ => { key := key, list := [d], count := 1 })
    (s.setTable index files).addRef d

/-- The part of `insert_datum` that enters a new record in its owner's table. -/
def enterOwner (s : Depot) (con : ConId) (user : UserId) (info : Datum) : Depot :=
  let d := s.next
  let table := (s.library con).add info.filename d
  let s := s.onCore (·.alloc.modDatum d fun _ => { info with user := some user })
  (s.onCore (·.setFiles con (some table))).addRef d

/-- `insert_datum` for a new record of a local user. -/
def insertDatum (s : Depot) (con : ConId) (user : UserId) (info : Datum) (hash : Str) : Depot :=
  let d := s.next
  let keys := Core.indexTokens (s.tokenize info.filename)
  let s := keys.foldl (fun s key => s.fdbAdd .words d key) (s.enterOwner con user info)
  let s := if s.resume then s.fdbAdd .hashes d hash else s
  let s := s.onCore (·.countShared user (info.size / 1024))
  { s with made := d :: s.made }

/-- `free_datum`. -/
def freeDatum (s : Depot) (d : DatumId) : Depot :=
  { s.onCore (·.freeDatum d) with freed := s.freed ++ [(d, (s.datum d).refcount)] }

/-- `hash_remove (con->uopt->files, name)`. -/
def hashRemoveFile (s : Depot) (con : ConId) (name : Str) : Depot :=
  match s.lookupFile con name with
  | none => s
  | some d => (s.freeDatum d).onCore (·.setFiles con ((s.files con).map (·.remove name)))

/-- What `remove_file` does with the file it found. -/
def dropFile (s : Depot) (con : ConId) (user : UserId) (d : DatumId) : Depot :=
  (s.onCore (·.countUnshared user ((s.datum d).size / 1024))).hashRemoveFile con (s.datum d).filename

/-- `free_hash (con->uopt->files)`. -/
def freeFiles (s : Depot) (con : ConId) : Depot :=
  match s.files con with
  | none => s
  | some table => (table.values.foldl freeDatum s).onCore (·.setFiles con none)

/-- `hash_remove (table, key)`: the bin and its references go. -/
def hashRemoveBin (s : Depot) (index : Index) (key : Str) : Depot :=
  match (s.table index).lookup key with
  | none => s
  | some bin =>
    let s := (s.flist bin).list.foldl freeDatum s
    s.setTable index ((s.table index).remove key)

/-- The part of `collect_garbage` that drops the invalid records from a bin. -/
def reap (s : Depot) (bin : FlistId) : Depot :=
  let b := s.flist bin
  let dead := b.list.filter fun d => (s.datum d).size == invalidSize
  let live := b.list.filter fun d => (s.datum d).size != invalidSize
  (dead.foldl freeDatum s).onCore
    (·.modFlist bin fun b => { b with list := live, count := b.count - dead.length })

/-- `collect_garbage`. -/
def collectGarbage (index : Index) (s : Depot) (bin : FlistId) : Depot :=
  let key := (s.flist bin).key
  let s := s.reap bin
  if (s.flist bin).count = 0 then s.hashRemoveBin index key else s

/-- `fdb_garbage_collect`. -/
def fdbGarbageCollect (s : Depot) (index : Index) : Depot :=
  (s.table index).values.foldl (collectGarbage index) s

/-! ### The server without RESUME -/

@[simp] theorem toCore_onCore (s : Depot) (f : Core → Core) : (s.onCore f).toCore = f s.toCore := rfl

@[simp] theorem toCore_freeDatum (s : Depot) (d : DatumId) :
    (s.freeDatum d).toCore = s.toCore.freeDatum d := rfl

theorem toCore_foldl_freeDatum (l : List DatumId) (s : Depot) :
    (l.foldl freeDatum s).toCore = l.foldl Core.freeDatum s.toCore := by
  induction l generalizing s with
  | nil => rfl
  | cons d l ih => exact ih (s.freeDatum d)

@[simp] theorem toCore_fdbAdd (s : Depot) (d : DatumId) (key : Str) :
    (s.fdbAdd .words d key).toCore = s.toCore.fdbAdd d key := by
  simp only [fdbAdd, Core.fdbAdd, table]
  cases s.fileTable.lookup key with
  | none => rfl
  | some bin => rfl

theorem toCore_fdbAdds (d : DatumId) (keys : List Str) (s : Depot) :
    (keys.foldl (fun s key => s.fdbAdd .words d key) s).toCore =
      keys.foldl (fun s key => s.fdbAdd d key) s.toCore := by
  induction keys generalizing s with
  | nil => rfl
  | cons key keys ih =>
    rw [List.foldl_cons, ih, toCore_fdbAdd]
    rfl

/-- What `fdb_add` has nothing to do with. -/
theorem fdbAdd_rest (s : Depot) (index : Index) (d : DatumId) (key : Str) :
    (s.fdbAdd index d key).resume = s.resume ∧ (s.fdbAdd index d key).made = s.made := by
  simp only [fdbAdd]
  split
  · exact ⟨rfl, rfl⟩
  · cases index <;> exact ⟨rfl, rfl⟩

theorem fdbAdds_rest (index : Index) (d : DatumId) (keys : List Str) (s : Depot) :
    (keys.foldl (fun s key => s.fdbAdd index d key) s).resume = s.resume ∧
      (keys.foldl (fun s key => s.fdbAdd index d key) s).made = s.made := by
  induction keys generalizing s with
  | nil => exact ⟨rfl, rfl⟩
  | cons key keys ih =>
    obtain ⟨hResume, hMade⟩ := ih (s.fdbAdd index d key)
    obtain ⟨hResume', hMade'⟩ := fdbAdd_rest s index d key
    exact ⟨hResume.trans hResume', hMade.trans hMade'⟩

/-- Without RESUME, the records and the index by word go as in the model of the server. -/
theorem toCore_insertDatum {s : Depot} (h : s.resume = false) (con : ConId) (user : UserId)
    (info : Datum) (hash : Str) :
    (s.insertDatum con user info hash).toCore = s.toCore.insertDatum con user info := by
  simp only [insertDatum, (fdbAdds_rest _ _ _ _).1]
  rw [if_neg (by simp [enterOwner, onCore, addRef, h]), toCore_onCore, toCore_fdbAdds]
  rfl

theorem made_insertDatum (s : Depot) (con : ConId) (user : UserId) (info : Datum) (hash : Str) :
    (s.insertDatum con user info hash).made = s.next :: s.made := by
  simp only [insertDatum, onCore]
  split
  · rw [(fdbAdd_rest _ _ _ _).2, (fdbAdds_rest _ _ _ _).2]
    rfl
  · rw [(fdbAdds_rest _ _ _ _).2]
    rfl

theorem toCore_hashRemoveFile (s : Depot) (con : ConId) (name : Str) :
    (s.hashRemoveFile con name).toCore = s.toCore.hashRemoveFile con name := by
  simp only [hashRemoveFile, Core.hashRemoveFile]
  cases s.lookupFile con name with
  | none => rfl
  | some d => rfl

theorem toCore_dropFile (s : Depot) (con : ConId) (user : UserId) (d : DatumId) :
    (s.dropFile con user d).toCore = s.toCore.dropFile con user d :=
  toCore_hashRemoveFile _ con _

theorem toCore_freeFiles (s : Depot) (con : ConId) :
    (s.freeFiles con).toCore = s.toCore.freeFiles con := by
  simp only [freeFiles, Core.freeFiles]
  cases s.files con with
  | none => rfl
  | some table => rw [toCore_onCore, toCore_foldl_freeDatum]

theorem toCore_hashRemoveBin (s : Depot) (key : Str) :
    (s.hashRemoveBin .words key).toCore = s.toCore.hashRemoveBin key := by
  simp only [hashRemoveBin, Core.hashRemoveBin, table]
  cases s.fileTable.lookup key with
  | none => rfl
  | some bin => simp only [setTable, toCore_onCore, toCore_foldl_freeDatum]

theorem toCore_collectGarbage (s : Depot) (bin : FlistId) :
    (collectGarbage .words s bin).toCore = s.toCore.collectGarbage bin := by
  simp only [collectGarbage, Core.collectGarbage, reap, toCore_onCore, toCore_foldl_freeDatum]
  split
  · rw [toCore_hashRemoveBin, toCore_onCore, toCore_foldl_freeDatum]
  · rw [toCore_onCore, toCore_foldl_freeDatum]

theorem toCore_fdbGarbageCollect (s : Depot) :
    (s.fdbGarbageCollect .words).toCore = s.toCore.fdbGarbageCollect := by
  have hWalk : ∀ (l : List FlistId) (s : Depot), (l.foldl (collectGarbage .words) s).toCore =
      l.foldl Core.collectGarbage s.toCore := by
    intro l
    induction l with
    | nil => exact fun s => rfl
    | cons bin l ih =>
      intro s
      rw [List.foldl_cons, ih, toCore_collectGarbage]
      rfl
  exact hWalk _ s

end Depot

end OpenNap
