import OpenNap.LibrarySize

/-! The commands that add files: which files, of which sizes, a packet adds.  Nothing else adds any. -/

namespace OpenNap

open CText

/-- From `s` to `t` files of these sizes are added for the user on `con`, one after the other, each
under a name that the user does not share yet. -/
inductive Adds (con : ConId) (owner : UserId) : List UInt32 → Core → Core → Prop
  | none (s : Core) : Adds con owner [] s s
  | more {sizes : List UInt32} {s t : Core} (info : Datum)
      (hNew : s.lookupFile con info.filename = .none)
      (h : Adds con owner sizes (s.insertDatum con owner info) t) :
      Adds con owner (info.size :: sizes) s t

theorem Adds.one {con : ConId} {owner : UserId} {s : Core} {size : UInt32} (info : Datum)
    (hNew : s.lookupFile con info.filename = .none) (hSize : info.size = size) :
    Adds con owner [size] s (s.insertDatum con owner info) := by
  rw [← hSize]
  exact .more info hNew (.none _)

namespace Server

open Core

/-- Whether an `add_file` adds a file. -/
def addsFile (s : Core) (con : ConId) (user : UserId) (pkt : Str) : Bool :=
  !overShared s user &&
    match splitLine 6 pkt with
    | some [name, _, size, _, _, _] =>
      decide (fieldGap pkt ≤ posixPathMax + 2) &&
        decide (¬ (s.user user).libsize + UInt32.ofNat (strtoul size).1 < (s.user user).libsize) &&
          (s.lookupFile con name).isNone
    | _ => false

/-- Whether a `share_file` adds a file. -/
def sharesFile (s : Core) (con : ConId) (user : UserId) (pkt : Str) : Bool :=
  !overShared s user &&
    match splitLine 4 pkt with
    | some [name, size, _, kind] =>
      ((contentTypes.drop 1).findIdx? (sameText · kind)).isSome &&
        decide (fieldGap pkt ≤ posixPathMax + 2) && (s.lookupFile con name).isNone &&
          decide (¬ UInt32.ofNat (strtoul size).1 + (s.user user).libsize < (s.user user).libsize)
    | _ => false

/-- The size in a field of a packet. -/
def sizeField (n i : Nat) (pkt : Str) : UInt32 :=
  ((splitLine n pkt).bind (·[i]?)).elim 0 fun size => UInt32.ofNat (strtoul size).1

/-- The sizes of the files that an `add_directory` adds. -/
def directoryAdded (s : Core) (con : ConId) (user : UserId) (pkt : Str) : List UInt32 :=
  match directoryPrefix (nextArg pkt).1 with
  | none => []
  | some dir =>
    directorySizes s.cfg.maxShared dir (fun name => (s.lookupFile con name).isSome)
      (s.user user).shared (args (nextArg pkt).2)

/-- The sizes of the files that a command of the user on a connection adds. -/
def sizesAdded (s : Core) (con : ConId) (user : UserId) (pkt : Str) : Command → List UInt32
  | .addFile => if addsFile s con user pkt then [sizeField 6 2 pkt] else []
  | .shareFile => if sharesFile s con user pkt then [sizeField 4 1 pkt] else []
  | .addDirectory => directoryAdded s con user pkt
  | _ => []

variable {s : Server} {con : ConId} {user : UserId}

theorem adds_addFile (hOwner : (s.con con).user = some user) (pkt : Str) :
    Adds con user (sizesAdded s.toCore con user pkt .addFile) s.toCore
      (s.addFile con pkt).toCore := by
  have hSkip (h : addsFile s.toCore con user pkt = false) :
      Adds con user (sizesAdded s.toCore con user pkt .addFile) s.toCore s.toCore := by
    simp only [sizesAdded, h]
    exact .none _
  simp only [addFile, hOwner]
  split
  · rename_i hOver
    exact hSkip (by simp [addsFile, hOver])
  · rename_i hOver
    split
    · rename_i name _ size _ _ _ hFields
      split
      · rename_i hLong
        exact hSkip (by simp [addsFile, hFields, Nat.not_le.2 hLong])
      · rename_i hShort
        split
        · rename_i hWraps
          exact hSkip (by simp [addsFile, hFields, hWraps])
        · rename_i hFits
          split
          · rename_i hOld
            exact hSkip (by simp only [addsFile, hFields]; simp [hOld])
          · rename_i hNew
            have hAdds : addsFile s.toCore con user pkt = true := by
              simp only [addsFile, hFields]
              simpa [hOver, hFits] using ⟨Nat.not_lt.1 hShort, by simpa using hNew⟩
            have hSize : sizeField 6 2 pkt = UInt32.ofNat (strtoul size).1 := by
              simp [sizeField, hFields]
            rw [sizesAdded, if_pos hAdds, hSize]
            exact .one _ (Option.not_isSome_iff_eq_none.1 hNew) rfl
    · rename_i hFields
      rw [toCore_unparsable]
      refine hSkip ?_
      simp only [addsFile]
      exact Bool.and_false _

theorem adds_shareFile (hOwner : (s.con con).user = some user) (pkt : Str) :
    Adds con user (sizesAdded s.toCore con user pkt .shareFile) s.toCore
      (s.shareFile con pkt).toCore := by
  have hSkip (h : sharesFile s.toCore con user pkt = false) :
      Adds con user (sizesAdded s.toCore con user pkt .shareFile) s.toCore s.toCore := by
    simp only [sizesAdded, h]
    exact .none _
  simp only [shareFile, hOwner]
  split
  · rename_i hOver
    exact hSkip (by simp [sharesFile, hOver])
  · rename_i hOver
    split
    · rename_i name size _ kind hFields
      split
      · rename_i hKind
        rw [toCore_sendIfUser]
        exact hSkip (by simp only [sharesFile, hFields, hKind]; simp)
      · rename_i i hKind
        split
        · rename_i hLong
          exact hSkip (by simp [sharesFile, hFields, Nat.not_le.2 hLong])
        · rename_i hShort
          split
          · rename_i hOld
            have hTaken : (s.lookupFile con name).isNone = false := Option.isNone_eq_false_iff.2 hOld
            exact hSkip (by simp only [sharesFile, hFields, hTaken, Bool.and_false, Bool.false_and])
          · rename_i hNew
            split
            · rename_i hWraps
              exact hSkip (by simp [sharesFile, hFields, hWraps])
            · rename_i hFits
              have hAdds : sharesFile s.toCore con user pkt = true := by
                simp only [sharesFile, hFields, hKind]
                simpa [hOver, hFits] using ⟨Nat.not_lt.1 hShort, by simpa using hNew⟩
              have hSize : sizeField 4 1 pkt = UInt32.ofNat (strtoul size).1 := by
                simp [sizeField, hFields]
              rw [sizesAdded, if_pos hAdds, hSize]
              exact .one _ (Option.not_isSome_iff_eq_none.1 hNew) rfl
    · rename_i hFields
      rw [toCore_unparsable]
      refine hSkip ?_
      simp only [sharesFile]
      exact Bool.and_false _

theorem adds_addDirectoryLoop (dir : Str) (fields : List Str) {taken : Str → Bool}
    (hTaken : ∀ name, taken name = (s.lookupFile con name).isSome)
    (hOptions : (s.con con).uopt.isSome = true) :
    Adds con user (directorySizes s.cfg.maxShared dir taken (s.user user).shared fields)
      s.toCore (s.addDirectoryLoop con user dir fields).toCore := by
  fun_induction addDirectoryLoop s con user dir fields generalizing taken with
  | case1 s => exact .none _
  | case2 s basename _ size bitrate freq duration rest hOver =>
    rw [directorySizes, if_pos (overShared_iff.1 hOver)]
    exact .none _
  | case3 s basename _ size bitrate freq duration rest hOver ih =>
    rw [directorySizes, if_neg fun hMany => hOver (overShared_iff.2 hMany)]
    have hFile := s.toCore_addDirectoryFile con user dir basename size bitrate freq duration
    simp only [← hTaken] at hFile
    generalize s.addDirectoryFile con user dir basename size bitrate freq duration = t at hFile ih ⊢
    simp only
    split
    · rename_i hSkip
      rw [if_pos hSkip] at hFile
      rw [hFile] at ih
      exact ih hTaken hOptions
    · rename_i hAdd
      rw [if_neg hAdd] at hFile
      obtain ⟨info, hName, hSize, hCore⟩ := hFile
      have hStep := s.toCore.fileStep_insertDatum con user info
      have hCfg : (s.toCore.insertDatum con user info).cfg = s.cfg :=
        (congrArg Core.cfg hStep.rest :)
      have hStay : ((s.toCore.insertDatum con user info).con con).uopt.isSome = true := by
        have hUopt := congrArg (fun c : Connection => c.uopt.isSome)
          (congrFun (congrArg Core.con hStep.rest) con)
        simpa [Core.eraseFile, Connection.eraseFiles, hOptions] using hUopt
      have hNew : s.lookupFile con info.filename = none := by
        have hFree := (not_or.1 hAdd).1
        rw [hTaken] at hFree
        rw [hName]
        simpa using hFree
      rw [hCore, hCfg, user_insertDatum.2] at ih
      rw [← hSize]
      refine .more info hNew (ih (fun name => ?_) hStay)
      rw [lookupFile_insertDatum hOptions, hTaken, hName]
  | case4 fields s hOver hNil hShort =>
    rw [directorySizes]
    · exact .none _
    · exact hShort
  | case5 fields s hOver hNil hShort =>
    rw [directorySizes]
    · rw [toCore_unparsable]
      exact .none _
    · exact hShort

theorem adds_addDirectory (hOwner : (s.con con).user = some user)
    (hOptions : (s.con con).uopt.isSome = true) (pkt : Str) :
    Adds con user (sizesAdded s.toCore con user pkt .addDirectory) s.toCore
      (s.addDirectory con pkt).toCore := by
  simp only [addDirectory, hOwner, sizesAdded, directoryAdded]
  cases directoryPrefix (nextArg pkt).1 with
  | none => exact .none _
  | some dir => exact adds_addDirectoryLoop _ _ (fun _ => rfl) hOptions

/-- The commands of a user on a connection that add files. -/
theorem adds_dispatch (hOwner : (s.con con).user = some user)
    (hOptions : (s.con con).uopt.isSome = true) {cmd : Command}
    (hCmd : cmd = .addFile ∨ cmd = .shareFile ∨ cmd = .addDirectory) (hUser : s.isUser con = true)
    (pkt : Str) (env : Env) :
    Adds con user (sizesAdded s.toCore con user pkt cmd) s.toCore
      (s.dispatch con cmd pkt env).toCore := by
  rcases hCmd with rfl | rfl | rfl <;> simp only [dispatch, hUser, if_true]
  · exact adds_addFile hOwner pkt
  · exact adds_shareFile hOwner pkt
  · exact adds_addDirectory hOwner hOptions pkt

end Server

end OpenNap
