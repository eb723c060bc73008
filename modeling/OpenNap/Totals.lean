import Mathlib.Algebra.BigOperators.Group.List.Basic
import Mathlib.Data.Int.ModEq
import OpenNap.Reach

/-! The counters of shared files.  The server keeps the number of files, their size and the number of
its own users' files in three counters that go up and down with each command; the counts of each user
are kept in fewer bits.  The counters are the sums of the users' counts, but for what was cut off of
those. -/

namespace OpenNap

open CText

/-- The files that a user counts for. -/
def User.files (u : User) : Int := u.shared.toNat

/-- The kB that a user counts for. -/
def User.kilobytes (u : User) : Int := u.libsize.toNat

/-- The files that a user counts for when it is one of this server's own. -/
def User.ownFiles (u : User) : Int := if u.isLocal then u.shared.toNat else 0

/-- What the counts of a user depend on. -/
def User.tally (u : User) : UInt16 × UInt32 × Bool := (u.shared, u.libsize, u.isLocal)

namespace Core

/-- The sum of an amount over the users. -/
def total (s : Core) (amount : User → Int) : Int :=
  (s.users.values.map fun user => amount (s.user user)).sum

/-! ### Sums over the users -/

section

variable {s t : Core} {amount : User → Int} {user : UserId}

/-- The sum is over the users in any order. -/
theorem total_cons {l : List UserId} (h : s.users.values.Perm (user :: l)) :
    s.total amount = amount (s.user user) + (l.map fun u => amount (s.user u)).sum := by
  rw [total, (h.map _).sum_eq, List.map_cons, List.sum_cons]

/-- When one user's amount changes, the sum changes by as much. -/
theorem total_change (hUsers : t.users = s.users) (hNodup : s.users.values.Nodup)
    (hUser : user ∈ s.users.values)
    (hOthers : ∀ u, u ≠ user → amount (t.user u) = amount (s.user u)) :
    t.total amount = s.total amount + (amount (t.user user) - amount (s.user user)) := by
  have hPerm := List.perm_cons_erase hUser
  have hSame : ((s.users.values.erase user).map fun u => amount (t.user u)) =
      (s.users.values.erase user).map fun u => amount (s.user u) := by
    refine List.map_congr_left fun u hu => hOthers u ?_
    rintro rfl
    exact hNodup.not_mem_erase hu
  have hAfter : t.users.values.Perm (user :: s.users.values.erase user) := by
    rw [hUsers]
    exact hPerm
  rw [total_cons hAfter, total_cons hPerm, hSame]
  omega

end

/-! ### What has nothing to do with the counts -/

/-- From `s` to `t` neither the users change, nor their counts, nor the counters. -/
structure SameTally (s t : Core) : Prop where
  users : t.users = s.users
  tally : ∀ u, (t.user u).tally = (s.user u).tally
  numFiles : t.numFiles = s.numFiles
  numGigs : t.numGigs = s.numGigs
  localFiles : t.localFiles = s.localFiles

namespace SameTally

variable {s t u : Core}

theorem refl (s : Core) : SameTally s s := ⟨rfl, fun _ => rfl, rfl, rfl, rfl⟩

theorem trans (h1 : SameTally s t) (h2 : SameTally t u) : SameTally s u where
  users := h2.users.trans h1.users
  tally v := (h2.tally v).trans (h1.tally v)
  numFiles := h2.numFiles.trans h1.numFiles
  numGigs := h2.numGigs.trans h1.numGigs
  localFiles := h2.localFiles.trans h1.localFiles

theorem foldl {α : Type} {f : Core → α → Core} (h : ∀ s a, SameTally s (f s a)) (l : List α)
    (s : Core) : SameTally s (l.foldl f s) := by
  induction l generalizing s with
  | nil => exact refl s
  | cons a l ih => exact (h s a).trans (ih _)

/-- The data of users are the same. -/
theorem of_user (hUsers : t.users = s.users) (hUser : t.user = s.user)
    (hFiles : t.numFiles = s.numFiles) (hGigs : t.numGigs = s.numGigs)
    (hLocal : t.localFiles = s.localFiles) : SameTally s t :=
  ⟨hUsers, by simp [hUser], hFiles, hGigs, hLocal⟩

theorem modUser (s : Core) (user : UserId) {f : User → User}
    (h : (f (s.user user)).tally = (s.user user).tally) : SameTally s (s.modUser user f) where
  users := rfl
  tally u := by
    by_cases hu : u = user
    · subst hu
      simpa using h
    · simp [hu]
  numFiles := rfl
  numGigs := rfl
  localFiles := rfl

theorem outline (h : t.outline = s.outline) : SameTally s t where
  users := (congrArg Core.users h :)
  tally u := (congrArg User.tally (congrFun (congrArg Core.user h) u) :)
  numFiles := (congrArg Core.numFiles h :)
  numGigs := (congrArg Core.numGigs h :)
  localFiles := (congrArg Core.localFiles h :)

theorem personal (h : t.personal = s.personal) : SameTally s t where
  users := (congrArg Core.users h :)
  tally u := (congrArg User.tally (congrFun (congrArg Core.user h) u) :)
  numFiles := (congrArg Core.numFiles h :)
  numGigs := (congrArg Core.numGigs h :)
  localFiles := (congrArg Core.localFiles h :)

theorem chan (h : ChanStep s t) : SameTally s t where
  users := (congrArg Core.users h.rest :)
  tally u := (congrArg User.tally (congrFun (congrArg Core.user h.rest) u) :)
  numFiles := (congrArg Core.numFiles h.rest :)
  numGigs := (congrArg Core.numGigs h.rest :)
  localFiles := (congrArg Core.localFiles h.rest :)

theorem search (h : SearchStep s t) : SameTally s t :=
  of_user (congrArg Core.users h.rest :) (congrArg Core.user h.rest :)
    (congrArg Core.numFiles h.rest :) (congrArg Core.numGigs h.rest :)
    (congrArg Core.localFiles h.rest :)

theorem freeDatum (s : Core) (d : DatumId) : SameTally s (s.freeDatum d) :=
  of_user rfl rfl rfl rfl rfl

theorem freeFiles (s : Core) (con : ConId) : SameTally s (s.freeFiles con) := by
  simp only [Core.freeFiles]
  split
  · exact refl s
  · exact (foldl freeDatum _ s).trans (of_user rfl rfl rfl rfl rfl)

theorem freeOptions (s : Core) (con : ConId) : SameTally s (s.freeOptions con) := by
  refine Core.freeOptions_keeps (fun t hot h => h.trans ?_) (fun t h => h.trans (freeFiles t con))
    (fun t h => h.trans (of_user rfl rfl rfl rfl rfl)) (refl s)
  simp only [Core.leaveHotlist]
  split <;> exact of_user rfl rfl rfl rfl rfl

theorem recordLogoff (s : Core) (nick : Str) : SameTally s (s.recordLogoff nick) := by
  simp only [Core.recordLogoff]
  split <;> exact of_user rfl rfl rfl rfl rfl

theorem collectGarbage (s : Core) (bin : FlistId) : SameTally s (s.collectGarbage bin) := by
  have hBin (t : Core) (key : Str) : SameTally t (t.hashRemoveBin key) := by
    simp only [Core.hashRemoveBin]
    split
    · exact refl t
    · exact (foldl freeDatum _ t).trans (of_user rfl rfl rfl rfl rfl)
  have hDead (l : List DatumId) (f : Flist → Flist) :
      SameTally s ((l.foldl Core.freeDatum s).modFlist bin f) :=
    (foldl freeDatum l s).trans (of_user rfl rfl rfl rfl rfl)
  simp only [Core.collectGarbage]
  split
  · exact (hDead _ _).trans (hBin _ _)
  · exact hDead _ _

theorem fdbGarbageCollect (s : Core) : SameTally s s.fdbGarbageCollect := foldl collectGarbage _ s

theorem accept (s : Core) (ip : UInt32) (host : Str) (port localPort : UInt16) :
    SameTally s (s.accept ip host port localPort) := by
  have hNew : SameTally s (s.newConnection ip host port localPort) := of_user rfl rfl rfl rfl rfl
  simp only [Core.accept, Core.addClient]
  refine hNew.trans ?_
  split
  · exact of_user rfl rfl rfl rfl rfl
  · split <;> exact of_user rfl rfl rfl rfl rfl

theorem total_eq (h : SameTally s t) {amount : User → Int}
    (hAmount : ∀ u v : User, u.tally = v.tally → amount u = amount v) :
    t.total amount = s.total amount := by
  rw [total, total, h.users]
  exact congrArg List.sum (List.map_congr_left fun u _ => hAmount _ _ (h.tally u))

end SameTally

/-! ### What an operation does to the counts -/

/-- A user comes, who shares nothing yet. -/
structure Comes (s t : Core) (user : UserId) : Prop where
  users : t.users.values.Perm (user :: s.users.values)
  others : ∀ u ∈ s.users.values, (t.user u).tally = (s.user u).tally
  shared : (t.user user).shared = 0
  libsize : (t.user user).libsize = 0
  numFiles : t.numFiles = s.numFiles
  numGigs : t.numGigs = s.numGigs
  localFiles : t.localFiles = s.localFiles

/-- A user goes, with all that the user shares. -/
structure Goes (s t : Core) (user : UserId) : Prop where
  users : s.users.values.Perm (user :: t.users.values)
  others : ∀ u, (t.user u).tally = (s.user u).tally
  numFiles : t.numFiles = toInt32 (s.numFiles - (s.user user).files)
  numGigs : t.numGigs = s.numGigs - (s.user user).kilobytes
  localFiles : t.localFiles =
    if (s.user user).isLocal then toInt32 (s.localFiles - (s.user user).files) else s.localFiles

/-- A user shares so many files and so many kB more, or less; the counts of the user are cut off. -/
structure Counts (s t : Core) (user : UserId) (files kb : Int) : Prop where
  users : t.users = s.users
  listed : user ∈ s.users.values
  others : ∀ u, u ≠ user → (t.user u).tally = (s.user u).tally
  isLocal : (t.user user).isLocal = (s.user user).isLocal
  shared : (t.user user).files ≡ (s.user user).files + files [ZMOD 2 ^ 16]
  libsize : (t.user user).kilobytes ≡ (s.user user).kilobytes + kb [ZMOD 2 ^ 32]
  numFiles : t.numFiles = toInt32 (s.numFiles + files)
  numGigs : t.numGigs = s.numGigs + kb

/-- What an operation does to the counts: nothing, a user comes or goes, one of the server's own users
shares more or less, or a peer reports what a user shares. -/
inductive Tallied (ok : Label → Core → Prop) (s t : Core) : Prop
  | same (h : SameTally s t)
  | comes (user : UserId) (h : Comes s t user)
  | goes (user : UserId) (h : Goes s t user)
  | shares (user : UserId) (files kb : Int) (h : Counts s t user files kb)
      (hLocal : (s.user user).isLocal = true) (hOwn : t.localFiles = toInt32 (s.localFiles + files))
  | report (user : UserId) (files kb n : Int) (h : Counts s t user files kb)
      (hOk : ok (.report user n) s) (hOwn : t.localFiles = s.localFiles)

section

variable {s t u : Core} {user : UserId} {files kb : Int}

theorem Comes.after (h : Comes s t user) (hSame : SameTally t u) : Comes s u user where
  users := by
    rw [hSame.users]
    exact h.users
  others v hv := (hSame.tally v).trans (h.others v hv)
  shared := (congrArg Prod.fst (hSame.tally user)).trans h.shared
  libsize := (congrArg (·.2.1) (hSame.tally user)).trans h.libsize
  numFiles := hSame.numFiles.trans h.numFiles
  numGigs := hSame.numGigs.trans h.numGigs
  localFiles := hSame.localFiles.trans h.localFiles

theorem files_congr {a b : User} (h : a.tally = b.tally) : a.files = b.files :=
  congrArg (fun x : UInt16 × UInt32 × Bool => (x.1.toNat : Int)) h

theorem kilobytes_congr {a b : User} (h : a.tally = b.tally) : a.kilobytes = b.kilobytes :=
  congrArg (fun x : UInt16 × UInt32 × Bool => (x.2.1.toNat : Int)) h

theorem isLocal_congr {a b : User} (h : a.tally = b.tally) : a.isLocal = b.isLocal :=
  congrArg (fun x : UInt16 × UInt32 × Bool => x.2.2) h

theorem ownFiles_congr {a b : User} (h : a.tally = b.tally) : a.ownFiles = b.ownFiles := by
  rw [User.ownFiles, User.ownFiles, isLocal_congr h]
  exact congrArg (fun n => if b.isLocal then n else 0) (files_congr h)

theorem Goes.after (h : Goes s t user) (hSame : SameTally t u) : Goes s u user where
  users := by
    rw [hSame.users]
    exact h.users
  others v := (hSame.tally v).trans (h.others v)
  numFiles := hSame.numFiles.trans h.numFiles
  numGigs := hSame.numGigs.trans h.numGigs
  localFiles := hSame.localFiles.trans h.localFiles

theorem Goes.before (hSame : SameTally s t) (h : Goes t u user) : Goes s u user where
  users := by
    rw [← hSame.users]
    exact h.users
  others v := (h.others v).trans (hSame.tally v)
  numFiles := by rw [h.numFiles, hSame.numFiles, files_congr (hSame.tally user)]
  numGigs := by rw [h.numGigs, hSame.numGigs, kilobytes_congr (hSame.tally user)]
  localFiles := by
    rw [h.localFiles, hSame.localFiles, files_congr (hSame.tally user),
      isLocal_congr (hSame.tally user)]

theorem Counts.after (h : Counts s t user files kb) (hSame : SameTally t u) :
    Counts s u user files kb where
  users := hSame.users.trans h.users
  listed := h.listed
  others v hv := (hSame.tally v).trans (h.others v hv)
  isLocal := (isLocal_congr (hSame.tally user)).trans h.isLocal
  shared := by
    rw [files_congr (hSame.tally user)]
    exact h.shared
  libsize := by
    rw [kilobytes_congr (hSame.tally user)]
    exact h.libsize
  numFiles := hSame.numFiles.trans h.numFiles
  numGigs := hSame.numGigs.trans h.numGigs

theorem Counts.before (hSame : SameTally s t) (h : Counts t u user files kb) :
    Counts s u user files kb where
  users := h.users.trans hSame.users
  listed := by
    rw [← hSame.users]
    exact h.listed
  others v hv := (h.others v hv).trans (hSame.tally v)
  isLocal := h.isLocal.trans (isLocal_congr (hSame.tally user))
  shared := by
    rw [← files_congr (hSame.tally user)]
    exact h.shared
  libsize := by
    rw [← kilobytes_congr (hSame.tally user)]
    exact h.libsize
  numFiles := by rw [h.numFiles, hSame.numFiles]
  numGigs := by rw [h.numGigs, hSame.numGigs]

end

/-! ### Users come and go -/

section

variable {s : Core} {user : UserId} {con : ConId} {u : User}

/-- A new user is one that the table does not have yet. -/
theorem comes_addUser {t : Core} (hUsers : t.users = s.users)
    (hOthers : ∀ v ∈ s.users.values, t.user v = s.user v) (hShared : (t.user s.next).shared = 0)
    (hLib : (t.user s.next).libsize = 0) (hFiles : t.numFiles = s.numFiles)
    (hGigs : t.numGigs = s.numGigs) (hLocal : t.localFiles = s.localFiles) :
    Comes s (t.addUser s.next) s.next where
  users := by
    rw [addUser, hUsers]
    exact s.users.values_add _ _
  others v hv := congrArg User.tally (hOthers v hv)
  shared := hShared
  libsize := hLib
  numFiles := hFiles
  numGigs := hGigs
  localFiles := hLocal

/-- A user who is listed goes. -/
theorem goes_hashRemoveUser (h : Registry s) (hUser : user ∈ s.users.values) :
    Goes s (s.hashRemoveUser (s.user user).nick) user := by
  have hChan : ChanStep s ((s.partChannels user).dropInvitations user) :=
    (s.chanStep_partChannels user).trans (chanStep_dropInvitations _ user)
  have hSame := SameTally.chan hChan
  have hTally := hSame.tally user
  have hReg := h.sameUsers (SameUsers.chan hChan)
  have hListed : user ∈ ((s.partChannels user).dropInvitations user).users.values := by
    rwa [hSame.users]
  -- the user counts as one of the server's own if it has a connection of its own
  have hOwn : ((s.partChannels user).dropInvitations user).isUser
      (((s.partChannels user).dropInvitations user).user user).con = (s.user user).isLocal := by
    cases hLocal : (s.user user).isLocal with
    | true =>
      have hHome := hReg.home user hListed (by rw [isLocal_congr hTally, hLocal])
      simp [isUser, hHome.2.1]
    | false =>
      have hBehind := hReg.behind user hListed (by rw [isLocal_congr hTally, hLocal])
      simp [isUser, hBehind.2]
  have hLog := SameTally.recordLogoff (((s.partChannels user).dropInvitations user).uncountUser user)
    (s.user user).nick
  have hFiles := files_congr hTally
  have hLib := kilobytes_congr hTally
  simp only [User.files, User.kilobytes] at hFiles hLib
  simp only [hashRemoveUser, h.lookup_nick hUser, freeUser]
  constructor
  · rw [hLog.users, uncountUser, hSame.users]
    exact Bucket.Table.values_remove (h.lookup_nick hUser)
  · exact fun v => (hLog.tally v).trans (hSame.tally v)
  · refine hLog.numFiles.trans ?_
    simp only [uncountUser, hFiles, hSame.numFiles, User.files]
  · refine hLog.numGigs.trans ?_
    simp only [uncountUser, hLib, hSame.numGigs, User.kilobytes]
  · refine hLog.localFiles.trans ?_
    simp only [uncountUser, hFiles, hSame.localFiles, hOwn, User.files]

/-- The user of a connection goes. -/
theorem goes_removeUser (h : Registry s) (hUser : user ∈ s.users.values)
    (hOwner : (s.con con).user = some user) : Goes s (s.removeUser con) user := by
  simp only [removeUser, hOwner]
  exact (goes_hashRemoveUser h hUser).after (.freeOptions _ con)

end

/-! ### Files come and go -/

section

variable {s : Core} {user : UserId} {con : ConId} {d : DatumId} {kb : UInt32}

/-- A local user's new file is counted. -/
theorem counts_countShared (hUser : user ∈ s.users.values) :
    Counts s (s.countShared user kb) user 1 kb.toNat where
  users := rfl
  listed := hUser
  others v hv := by simp [countShared, hv]
  isLocal := by simp [countShared]
  shared := by
    have hSum : ((s.countShared user kb).user user).shared = (s.user user).shared + 1 := by
      simp [countShared]
    rw [User.files, User.files, hSum, UInt16.toNat_add, Int.ModEq]
    simp
  libsize := by
    have hSum : ((s.countShared user kb).user user).libsize = (s.user user).libsize + kb := by
      simp [countShared]
    rw [User.kilobytes, User.kilobytes, hSum, UInt32.toNat_add, Int.ModEq]
    simp
  numFiles := rfl
  numGigs := rfl

/-- A file of a local user that goes is no longer counted. -/
theorem counts_countUnshared (hUser : user ∈ s.users.values) :
    Counts s (s.countUnshared user kb) user (-1) (-kb.toNat) where
  users := rfl
  listed := hUser
  others v hv := by simp [countUnshared, hv]
  isLocal := by simp [countUnshared]
  shared := by
    have hSum : ((s.countUnshared user kb).user user).shared = (s.user user).shared - 1 := by
      simp [countUnshared]
    rw [User.files, User.files, hSum, UInt16.toNat_sub, Int.ModEq]
    have hBound := (s.user user).shared.toNat_lt
    simp
    omega
  libsize := by
    have hSum : ((s.countUnshared user kb).user user).libsize = (s.user user).libsize - kb := by
      simp [countUnshared]
    rw [User.kilobytes, User.kilobytes, hSum, UInt32.toNat_sub, Int.ModEq]
    have hBound := (s.user user).libsize.toNat_lt
    have hLess := kb.toNat_lt
    simp
    omega
  numFiles := rfl
  numGigs := rfl

/-- What a peer reports of a user takes the place of what was counted. -/
theorem counts_reportShared {shared : UInt16} {libsize : UInt32} {n : Int}
    (hUser : user ∈ s.users.values)
    (hShared : (0 ≤ n ∧ shared = toUshort n) ∨ (n = 0 ∧ shared = 0)) :
    Counts s (s.reportShared user shared libsize n) user (n - (s.user user).files)
      (libsize.toNat - (s.user user).kilobytes) where
  users := rfl
  listed := hUser
  others v hv := by simp [reportShared, hv]
  isLocal := by simp [reportShared]
  shared := by
    have hSame : ((s.reportShared user shared libsize n).user user).shared = shared := by
      simp [reportShared]
    rw [User.files, hSame, add_sub_cancel, Int.ModEq]
    rcases hShared with ⟨-, rfl⟩ | ⟨rfl, rfl⟩
    · simp [toUshort]
      omega
    · rfl
  libsize := by
    have hSame : ((s.reportShared user shared libsize n).user user).libsize = libsize := by
      simp [reportShared]
    rw [User.kilobytes, hSame, add_sub_cancel]
  numFiles := rfl
  numGigs := rfl

theorem sameTally_fdbAdd (s : Core) (d : DatumId) (key : Str) : SameTally s (s.fdbAdd d key) := by
  simp only [fdbAdd]
  split <;> exact .of_user rfl rfl rfl rfl rfl

/-- A new file is put in its place, and counted. -/
theorem sameTally_insertDatum (s : Core) (con : ConId) (user : UserId) (info : Datum) :
    ∃ t, SameTally s t ∧ s.insertDatum con user info = t.countShared user (info.size / 1024) := by
  refine ⟨_, ?_, rfl⟩
  have hPut (table : NameTable DatumId) : SameTally s
      (((s.alloc.modDatum s.next fun _ => { info with user := some user }).setFiles con
        (some table)).addRef s.next) := .of_user rfl rfl rfl rfl rfl
  exact (hPut _).trans (.foldl (fun s key => sameTally_fdbAdd s _ key) _ _)

theorem sameTally_hashRemoveFile (s : Core) (con : ConId) (name : Str) :
    SameTally s (s.hashRemoveFile con name) := by
  simp only [hashRemoveFile]
  split <;> exact .of_user rfl rfl rfl rfl rfl

end

/-! ### All operations -/

/-- What every operation does to the counts. -/
theorem tallied_op {ok : Label → Core → Prop} {s t : Core} (hOp : Op ok s t) (h : Registry s) :
    Tallied ok s t := by
  have hCut (con : ConId) (f : Connection → Connection) : SameTally s (s.modCon con f) :=
    .of_user rfl rfl rfl rfl rfl
  cases hOp with
  | quiet hDetail => exact .same (.outline (outline_of_detail hDetail))
  | fine hFine =>
    obtain ⟨n, -, hOutline⟩ := hFine.outline
    have hNext : SameTally s { s with next := n } := .of_user rfl rfl rfl rfl rfl
    exact .same (hNext.trans (.outline hOutline))
  | person hPersonal => exact .same (.personal hPersonal)
  | setUserLevel => exact .same (.modUser s _ rfl)
  | tick | addRecord | setRecord | dropRecord | addBan | dropBans | linkServer | unlinkServer |
    close | flagChannel | setTopic | setLevel | setLimit =>
    exact .same (.of_user rfl rfl rfl rfl rfl)
  | accept ip host port localPort => exact .same (.accept s ip host port localPort)
  | @loginLocal con u hOpen hClass hNick hCon hChannels hShared hLib =>
    refine .comes _ (comes_addUser rfl (fun v hv => ?_) ?_ ?_ rfl rfl rfl)
    · have hOld := (h.knownUser v hv).ne
      simp [tieLocal, hOld]
    · simp [tieLocal, hShared]
    · simp [tieLocal, hLib]
  | @loginRemote u server hOpen hClass hNick hLocal hChannels hShared hLib =>
    refine .comes _ (comes_addUser rfl (fun v hv => ?_) ?_ ?_ rfl rfl rfl)
    · have hOld := (h.knownUser v hv).ne
      simp [tieRemote, hOld]
    · simp [tieRemote, hShared]
    · simp [tieRemote, hLib]
  | removeRemote hUser => exact .goes _ (goes_hashRemoveUser h hUser)
  | @zap con hOpen hClass =>
    obtain ⟨user, hUser, hOwner, -, -⟩ := h.client con hOpen hClass
    have hReg : Registry (s.modCon con fun c => { c with killed := true }) :=
      h.sameUsers (.quiet (s.skeleton_modCon con rfl))
    have hGoes : Goes (s.modCon con fun c => { c with killed := true })
        ((s.modCon con fun c => { c with killed := true }).removeUser con) user :=
      goes_removeUser hReg hUser (by simpa using hOwner)
    exact .goes user ((Goes.before (hCut con _) hGoes).after (.of_user rfl rfl rfl rfl rfl))
  | @hangUp con hOpen hClass =>
    obtain ⟨user, hUser, hOwner, -, -⟩ := h.client con hOpen hClass
    exact .goes user ((goes_removeUser h hUser hOwner).after (.of_user rfl rfl rfl rfl rfl))
  | enter => exact .same (.chan (s.chanStep_enterAs _ _))
  | found => exact .same (.chan ((s.chanStep_newChannel _).trans (chanStep_enterChannel _ _ _)))
  | leave => exact .same (.chan ((s.chanStep_deleteChannel _ _).trans (chanStep_partChannel _ _ _)))
  | dropChannel => exact .same (.chan (s.chanStep_hashRemoveChannel _))
  | addOperator => exact .same (.chan (s.chanStep_addOperator _ _))
  | dropOperator => exact .same (.chan (s.chanStep_dropOperator _ _))
  | @insert con user info hOpen hClass hUser =>
    obtain ⟨v, hListed, hOwner, -, hLocal⟩ := h.client con hOpen hClass
    obtain rfl : v = user := Option.some.inj (hOwner.symm.trans hUser)
    obtain ⟨u, hSame, hEq⟩ := sameTally_insertDatum s con v info
    rw [hEq]
    exact .shares v 1 _ (.before hSame (counts_countShared (by rwa [hSame.users]))) hLocal
      (congrArg (fun n => toInt32 (n + 1)) hSame.localFiles)
  | @dropFile con user d name hOpen hClass hUser =>
    obtain ⟨v, hListed, hOwner, -, hLocal⟩ := h.client con hOpen hClass
    obtain rfl : v = user := Option.some.inj (hOwner.symm.trans hUser)
    have hRemoved := sameTally_hashRemoveFile (s.countUnshared v ((s.datum d).size / 1024)) con
      (s.datum d).filename
    exact .shares v (-1) _ ((counts_countUnshared hListed).after hRemoved) hLocal hRemoved.localFiles
  | @report user shared libsize n hUser hOk hShared =>
    exact .report user _ _ n (counts_reportShared hUser hShared) hOk rfl
  | collect => exact .same (.fdbGarbageCollect s)
  | finishSearch => exact .same (.search (s.searchStep_finishSearch _ _ _))
  | forwardSearch => exact .same (.search (s.searchStep_forwardSearch _ _ _ _))
  | result => exact .same (.search (s.searchStep_note _))
  | expire => exact .same (.search (s.searchStep_expireSearches _ _))
  | answer => exact .same (.search (s.searchStep_answerSearch _ _))
  | cancel => exact .same (.search ((s.searchStep_note _).trans (searchStep_cancelSearch _ _)))

/-! ### The counters -/

theorem toInt32_modEq (i : Int) : toInt32 i ≡ i [ZMOD 2 ^ 32] := Int.bmod_emod

theorem toInt32_modEq16 (i : Int) : toInt32 i ≡ i [ZMOD 2 ^ 16] :=
  (toInt32_modEq i).of_dvd (by decide)

section

variable {s t : Core} {amount : User → Int} {user : UserId} {files kb : Int}

theorem total_comes (h : Comes s t user)
    (hAmount : ∀ u v : User, u.tally = v.tally → amount u = amount v)
    (hNone : amount (t.user user) = 0) : t.total amount = s.total amount := by
  rw [total_cons h.users, hNone, zero_add, total]
  exact congrArg List.sum (List.map_congr_left fun u hu => hAmount _ _ (h.others u hu))

theorem total_goes (h : Goes s t user)
    (hAmount : ∀ u v : User, u.tally = v.tally → amount u = amount v) :
    t.total amount = s.total amount - amount (s.user user) := by
  rw [total_cons h.users, add_sub_cancel_left, total]
  exact congrArg List.sum (List.map_congr_left fun u _ => hAmount _ _ (h.others u))

theorem total_counts (h : Counts s t user files kb) (hReg : Registry s)
    (hAmount : ∀ u v : User, u.tally = v.tally → amount u = amount v) :
    t.total amount = s.total amount + (amount (t.user user) - amount (s.user user)) :=
  total_change h.users hReg.values_nodup h.listed fun u hu => hAmount _ _ (h.others u hu)

/-- The counters of files and of kB are the sums of the users' counts, up to what these cut off. -/
structure Tied (s : Core) : Prop where
  files : s.numFiles ≡ s.total User.files [ZMOD 2 ^ 16]
  size : s.numGigs ≡ s.total User.kilobytes [ZMOD 2 ^ 32]

theorem Tied.counts (h : Tied s) (hReg : Registry s) (hCounts : Counts s t user files kb) :
    Tied t where
  files := by
    rw [hCounts.numFiles, total_counts hCounts hReg fun _ _ => files_congr]
    refine (toInt32_modEq16 _).trans (h.files.add ?_)
    have hSum := hCounts.shared.sub_right (s.user user).files
    rw [add_sub_cancel_left] at hSum
    exact hSum.symm
  size := by
    rw [hCounts.numGigs, total_counts hCounts hReg fun _ _ => kilobytes_congr]
    refine h.size.add ?_
    have hSum := hCounts.libsize.sub_right (s.user user).kilobytes
    rw [add_sub_cancel_left] at hSum
    exact hSum.symm

/-- Every operation keeps the counters and the sums together. -/
theorem Tied.tallied {ok : Label → Core → Prop} (h : Tied s) (hReg : Registry s)
    (hTallied : Tallied ok s t) : Tied t := by
  cases hTallied with
  | same hSame =>
    refine ⟨?_, ?_⟩
    · rw [hSame.numFiles, hSame.total_eq fun _ _ => files_congr]
      exact h.files
    · rw [hSame.numGigs, hSame.total_eq fun _ _ => kilobytes_congr]
      exact h.size
  | comes user hComes =>
    refine ⟨?_, ?_⟩
    · rw [hComes.numFiles, total_comes hComes (fun _ _ => files_congr) (by
        rw [User.files, hComes.shared]; rfl)]
      exact h.files
    · rw [hComes.numGigs, total_comes hComes (fun _ _ => kilobytes_congr) (by
        rw [User.kilobytes, hComes.libsize]; rfl)]
      exact h.size
  | goes user hGoes =>
    refine ⟨?_, ?_⟩
    · rw [hGoes.numFiles, total_goes hGoes fun _ _ => files_congr]
      exact (toInt32_modEq16 _).trans (h.files.sub_right _)
    · rw [hGoes.numGigs, total_goes hGoes fun _ _ => kilobytes_congr]
      exact h.size.sub_right _
  | shares user files kb hCounts => exact h.counts hReg hCounts
  | report user files kb n hCounts => exact h.counts hReg hCounts

/-- The counter of the own users' files, likewise, as long as peers only report what users of other
servers share. -/
theorem own_tallied {ok : Label → Core → Prop}
    (hOk : ∀ user n, ok (.report user n) s → (s.user user).isLocal = false)
    (h : s.localFiles ≡ s.total User.ownFiles [ZMOD 2 ^ 16]) (hReg : Registry s)
    (hTallied : Tallied ok s t) : t.localFiles ≡ t.total User.ownFiles [ZMOD 2 ^ 16] := by
  cases hTallied with
  | same hSame =>
    rw [hSame.localFiles, hSame.total_eq fun _ _ => ownFiles_congr]
    exact h
  | comes user hComes =>
    rw [hComes.localFiles, total_comes hComes (fun _ _ => ownFiles_congr) (by
      rw [User.ownFiles, hComes.shared]; split <;> rfl)]
    exact h
  | goes user hGoes =>
    rw [hGoes.localFiles, total_goes hGoes fun _ _ => ownFiles_congr]
    cases hLocal : (s.user user).isLocal with
    | true =>
      simp only [if_true, User.ownFiles, hLocal]
      exact (toInt32_modEq16 _).trans (h.sub_right _)
    | false => simpa [User.ownFiles, hLocal] using h
  | shares user files kb hCounts hLocal hOwn =>
    have hAfter : (t.user user).isLocal = true := hCounts.isLocal.trans hLocal
    rw [hOwn, total_counts hCounts hReg fun _ _ => ownFiles_congr]
    refine (toInt32_modEq16 _).trans (h.add ?_)
    have hSum := hCounts.shared.sub_right (s.user user).files
    rw [add_sub_cancel_left] at hSum
    simp only [User.ownFiles, hLocal, hAfter, if_true]
    exact hSum.symm
  | report user files kb n hCounts hAllowed hOwn =>
    have hBefore := hOk user n hAllowed
    have hAfter : (t.user user).isLocal = false := hCounts.isLocal.trans hBefore
    rw [hOwn, total_counts hCounts hReg fun _ _ => ownFiles_congr]
    simpa [User.ownFiles, hBefore, hAfter] using h

end

end Core

/-! ### Runs -/

/-- A report is about a user of another server. -/
def reportsAway : Label → Core → Prop
  | .report user _, s => (s.user user).isLocal = false
  | _, _ => True

namespace Server

/-- Peers report only what users of other servers share. -/
def ReportsAway (s : Server) : Event → Prop
  | .packet _ .userSharing pkt _ => ∀ nick count size user,
      splitLine 3 pkt = some [nick, count, size] → s.users.lookup nick = some user →
      (s.user user).isLocal = false
  | _ => True

/-- Only reports matter where every other operation is allowed. -/
theorem allows_of_report {ok : Label → Core → Prop}
    (h : ∀ l t, (∀ user n, l ≠ .report user n) → ok l t) (s : Server) {e : Event}
    (hReport : ∀ con pkt env, e = .packet con .userSharing pkt env →
      ∀ nick count size user, splitLine 3 pkt = some [nick, count, size] →
      (s.reportSharing con .userSharing).users.lookup nick = some user →
      ok (.report user (max (atoi count) 0)) (s.reportSharing con .userSharing).toCore) :
    s.allows ok e := by
  have hOther {l : Label} (hl : ∀ user n, l ≠ .report user n) (t : Core) : ok l t := h l t hl
  cases e with
  | packet con cmd pkt env =>
    intro _
    cases cmd with
    | userSharing => exact hReport con pkt env rfl
    | addDirectory =>
      exact fun user dir _ _ =>
        allowsDirectory_of (fun _ _ _ => hOther (by simp) _) con user dir _ _
    | addFile | shareFile => exact fun _ _ _ _ => hOther (by simp) _
    | ban | nuke => exact fun _ _ => hOther (by simp) _
    | reginfo => exact fun _ => ⟨fun _ => hOther (by simp) _, fun _ => hOther (by simp) _⟩
    | cloak => exact fun _ _ => hOther (by simp) _
    | join => exact fun _ _ t _ _ => hOther (by simp) t
    | addHotlist | addHotlistSeq => exact fun _ _ => hOther (by simp) _
    | search | remoteSearch => exact fun _ _ => hOther (by simp) _
    | remoteSearchEnd | removeFile => exact hOther (by simp) _
    | login | loginRegister => exact fun _ => ⟨hOther (by simp), hOther (by simp)⟩
    | level | muzzle | unmuzzle => exact ⟨hOther (by simp), hOther (by simp)⟩
    | clientQuit => exact fun _ => hOther (by simp)
    | killUser | serverDisconnect | changeSpeed | changeDataPort | alterPort | alterSpeed
    | changePass | alterPass | registerUser | unban => exact hOther (by simp)
    | _ => trivial
  | drop con => exact fun _ => ⟨hOther (by simp) _, hOther (by simp)⟩
  | accept ip host port localPort => exact hOther (by simp) _
  | expireBans => exact hOther (by simp)
  | dumpState => exact fun _ _ _ _ => hOther (by simp) _
  | _ => trivial

theorem allows_reportsAway {s : Server} {e : Event} (h : s.ReportsAway e) :
    s.allows reportsAway e := by
  refine s.allows_of_report (fun l t hl => ?_) fun con pkt env hEvent nick count size user hFields
    hUser => ?_
  · cases l with
    | report user n => exact absurd rfl (hl user n)
    | _ => trivial
  · subst hEvent
    have hSame := Core.SameTally.outline (s.outline_reportSharing con .userSharing)
    rw [hSame.users] at hUser
    exact (Core.isLocal_congr (hSame.tally user)).trans (h nick count size user hFields hUser)

theorem start_empty_users (f : Startup) : (start f).users.values = [] ∧ (start f).numFiles = 0 ∧
    (start f).numGigs = 0 ∧ (start f).localFiles = 0 := by
  obtain ⟨_, _, _, _, _, _, hLoaded⟩ := Core.loaded_start f
  have hStart : (start f).toCore = Core.start f := rfl
  rw [hStart, hLoaded]
  simp [Core.empty]

/-- In every state that is reached, the number of files and their size are the sums of what the users
count for, up to multiples of 65536 files and of 4 GB of kB: what the users' counts have cut off.  The
number of the own users' files likewise, in a run in which peers only report what users of other servers
share. -/
theorem counters_tied (f : Startup) (events : List Event) :
    ((reach f events).numFiles ≡ (reach f events).total User.files [ZMOD 2 ^ 16] ∧
      (reach f events).numGigs ≡ (reach f events).total User.kilobytes [ZMOD 2 ^ 32]) ∧
    (Runs.Meets step ReportsAway (start f) events →
      (reach f events).localFiles ≡ (reach f events).total User.ownFiles [ZMOD 2 ^ 16]) := by
  obtain ⟨hUsers, hFiles, hGigs, hLocal⟩ := start_empty_users f
  have hNone (amount : User → Int) : (start f).toCore.total amount = 0 := by simp [Core.total, hUsers]
  constructor
  · have hTied : Core.Tied (start f).toCore :=
      ⟨by rw [hFiles, hNone], by rw [hGigs, hNone]⟩
    have hAll := (reach_keeps (fun s t hSound hOp h =>
      h.tallied hSound.registry (Core.tallied_op hOp hSound.registry)) hTied events).2
    exact ⟨hAll.files, hAll.size⟩
  · intro hMeets
    refine (run_keeps (I := fun s => s.localFiles ≡ s.total User.ownFiles [ZMOD 2 ^ 16])
      (fun s e _ _ h => allows_reportsAway h) (fun s t hSound hOp h => ?_) hMeets (start_sound f) ?_).2
    · exact Core.own_tallied (fun _ _ hOk => hOk) h hSound.registry
        (Core.tallied_op hOp hSound.registry)
    · rw [hLocal, hNone]

/-- Joe adds a file, and there is a user of another server, nick. -/
def joeShares : List Event :=
  [.accept 1 (str "other") 8888 8888, .link 0, .accept 2 (str "pc") 6700 8888,
    .packet 1 .login (str "joe pw 6700 \"client\" 3") {},
    .packet 0 .login (str "nick pw 6699 \"client\" 3 unknown 4 5 other 0") {},
    .packet 1 .addFile (str "\"a.mp3\" 0123456789abcdef0123456789abcdef 1048576 128 44100 100") {}]

/-- The peer reports that nick shares three files. -/
theorem counters_tied_joe :
    4 ≡ (reach hub (joeShares ++ [.packet 0 .userSharing (str "nick 3 4000") {}])).total
      User.files [ZMOD 2 ^ 16] ∧
    1 ≡ (reach hub (joeShares ++ [.packet 0 .userSharing (str "nick 3 4000") {}])).total
      User.ownFiles [ZMOD 2 ^ 16] := by
  have hBefore : Runs.Meets step ReportsAway (start hub) joeShares := by
    simp only [joeShares, Runs.Meets, ReportsAway, and_self]
  have hNick : splitLine 3 (str "nick 3 4000") = some [str "nick", str "3", str "4000"] := by
    decide +kernel
  have hKnown : (Runs.run step (start hub) joeShares).users.lookup (str "nick") = some 3 := by
    decide +kernel
  have hAway : ((Runs.run step (start hub) joeShares).user 3).isLocal = false := by decide +kernel
  have hReport : ReportsAway (Runs.run step (start hub) joeShares)
      (.packet 0 .userSharing (str "nick 3 4000") {}) := by
    intro nick count size user hFields hUser
    rw [hNick] at hFields
    cases hFields
    rw [hKnown] at hUser
    cases hUser
    exact hAway
  obtain ⟨⟨hFiles, -⟩, hOwn⟩ :=
    counters_tied hub (joeShares ++ [.packet 0 .userSharing (str "nick 3 4000") {}])
  have hLocal := hOwn (hBefore.append ⟨hReport, trivial⟩)
  have hNumbers : (reach hub (joeShares ++ [.packet 0 .userSharing (str "nick 3 4000") {}])).numFiles =
      4 ∧ (reach hub (joeShares ++
        [.packet 0 .userSharing (str "nick 3 4000") {}])).localFiles = 1 := by decide +kernel
  rw [hNumbers.1] at hFiles
  rw [hNumbers.2] at hLocal
  exact ⟨hFiles, hLocal⟩

end Server

end OpenNap
