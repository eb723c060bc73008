import OpenNap.Authority

/-! What an ordinary user may do to others.  The handlers that are meant for moderators refuse a
sender of a lower level, but `kill_user` and `muzzle` only compare the levels of the two users. -/

namespace OpenNap

open CText

/-- The user is on line as before, and keeps its level, its mark of a muzzled user, its data port and
its speed. -/
structure SameStanding (s t : Core) (user : UserId) : Prop where
  home : (t.user user).con = (s.user user).con
  level : (t.user user).level = (s.user user).level
  muzzled : (t.user user).muzzled = (s.user user).muzzled
  port : (t.user user).port = (s.user user).port
  speed : (t.user user).speed = (s.user user).speed
  mark : (t.con (s.user user).con).destroy = (s.con (s.user user).con).destroy

/-- Who is on line and what is stored of those who are stays the same. -/
structure Peaceful (s t : Core) : Prop where
  users : t.users = s.users
  home : ∀ u, (t.user u).con = (s.user u).con
  level : ∀ u, (t.user u).level = (s.user u).level
  muzzled : ∀ u, (t.user u).muzzled = (s.user u).muzzled
  port : ∀ u, (t.user u).port = (s.user u).port
  speed : ∀ u, (t.user u).speed = (s.user u).speed
  mark : ∀ u ∈ s.users.values, (t.con (s.user u).con).destroy = (s.con (s.user u).con).destroy

namespace Peaceful

variable {s t u : Core}

theorem refl (s : Core) : Peaceful s s :=
  ⟨rfl, fun _ => rfl, fun _ => rfl, fun _ => rfl, fun _ => rfl, fun _ => rfl, fun _ _ => rfl⟩

theorem trans (h1 : Peaceful s t) (h2 : Peaceful t u) : Peaceful s u where
  users := h2.users.trans h1.users
  home v := (h2.home v).trans (h1.home v)
  level v := (h2.level v).trans (h1.level v)
  muzzled v := (h2.muzzled v).trans (h1.muzzled v)
  port v := (h2.port v).trans (h1.port v)
  speed v := (h2.speed v).trans (h1.speed v)
  mark v hv := by
    have hMark := h2.mark v (by rwa [h1.users])
    rw [h1.home] at hMark
    exact hMark.trans (h1.mark v hv)

theorem standing (h : Peaceful s t) {user : UserId} (hUser : user ∈ s.users.values) :
    SameStanding s t user :=
  ⟨h.home user, h.level user, h.muzzled user, h.port user, h.speed user, h.mark user hUser⟩

/-- Users and the marks of connections are as they were. -/
theorem of_eq (hUsers : t.users = s.users) (hUser : t.user = s.user)
    (hMark : ∀ u ∈ s.users.values, (t.con (s.user u).con).destroy = (s.con (s.user u).con).destroy) :
    Peaceful s t where
  users := hUsers
  home _ := by rw [hUser]
  level _ := by rw [hUser]
  muzzled _ := by rw [hUser]
  port _ := by rw [hUser]
  speed _ := by rw [hUser]
  mark := hMark

/-- A user who is on line has a connection of a user or of a server. -/
theorem known (h : Registry s) {user : UserId} (hUser : user ∈ s.users.values) :
    (s.con (s.user user).con).allocated = true ∧ (s.con (s.user user).con).cls ≠ .unknown := by
  cases hLocal : (s.user user).isLocal with
  | true =>
    obtain ⟨hOpen, hClass, -⟩ := h.home user hUser hLocal
    exact ⟨hOpen, by simp [hClass]⟩
  | false =>
    obtain ⟨hOpen, hClass⟩ := h.behind user hUser hLocal
    exact ⟨hOpen, by simp [hClass]⟩

theorem outline (hKnown : ∀ u ∈ s.users.values, (s.con (s.user u).con).cls ≠ .unknown)
    (h : t.outline = s.outline) : Peaceful s t := by
  have hUser (v : UserId) : (t.user v).outline = (s.user v).outline :=
    (congrFun (congrArg Core.user h) v :)
  have hCon (c : ConId) : (t.con c).outline = (s.con c).outline :=
    (congrFun (congrArg Core.con h) c :)
  refine ⟨(congrArg Core.users h :), fun v => (congrArg User.con (hUser v) :),
    fun v => (congrArg User.level (hUser v) :), fun v => (congrArg User.muzzled (hUser v) :),
    fun v => (congrArg User.port (hUser v) :), fun v => (congrArg User.speed (hUser v) :),
    fun v hv => ?_⟩
  have hClass : (t.con (s.user v).con).cls = (s.con (s.user v).con).cls :=
    (congrArg Connection.cls (hCon _) :)
  have hMark := congrArg Connection.destroy (hCon (s.user v).con)
  have hNot : ((s.con (s.user v).con).cls != .unknown) = true := by simpa using hKnown v hv
  simp only [Connection.outline, hClass, hNot, Bool.and_true] at hMark
  exact hMark

theorem chan (h : ChanStep s t) : Peaceful s t := by
  have hUser (v : UserId) := congrFun (congrArg Core.user h.rest) v
  exact ⟨(congrArg Core.users h.rest :), fun v => (congrArg User.con (hUser v) :),
    fun v => (congrArg User.level (hUser v) :), fun v => (congrArg User.muzzled (hUser v) :),
    fun v => (congrArg User.port (hUser v) :), fun v => (congrArg User.speed (hUser v) :),
    fun v _ => congrArg Connection.destroy (congrFun (congrArg Core.con h.rest) (s.user v).con)⟩

theorem file (h : FileStep s t) : Peaceful s t := by
  have hUser (v : UserId) := congrFun (congrArg Core.user h.rest) v
  exact ⟨(congrArg Core.users h.rest :), fun v => (congrArg User.con (hUser v) :),
    fun v => (congrArg User.level (hUser v) :), fun v => (congrArg User.muzzled (hUser v) :),
    fun v => (congrArg User.port (hUser v) :), fun v => (congrArg User.speed (hUser v) :),
    fun v _ => (congrArg Connection.destroy (congrFun (congrArg Core.con h.rest) (s.user v).con) :)⟩

theorem search (h : SearchStep s t) : Peaceful s t :=
  of_eq (congrArg Core.users h.rest :) (congrArg Core.user h.rest :) fun v _ =>
    (congrArg Connection.destroy (congrFun (congrArg Core.con h.rest) (s.user v).con) :)

/-- A connection that no user is on is changed. -/
theorem of_con {con : ConId} (hUsers : t.users = s.users) (hUser : t.user = s.user)
    (hFree : ∀ u ∈ s.users.values, (s.user u).con ≠ con)
    (hCon : ∀ c, c ≠ con → t.con c = s.con c) : Peaceful s t :=
  of_eq hUsers hUser fun v hv => by rw [hCon _ (hFree v hv)]

/-- A new connection is not that of a user who is on line. -/
theorem accept (hReg : Registry s) (ip : UInt32) (host : Str) (port localPort : UInt16) :
    Peaceful s (s.accept ip host port localPort) := by
  have hFree : ∀ u ∈ s.users.values, (s.user u).con ≠ s.next := fun u hu =>
    (hReg.knownCon _ (known hReg hu).1).ne
  simp only [Core.accept, Core.addClient]
  split
  · exact .of_con rfl rfl hFree fun c hc => by simp [Core.newConnection, hc]
  · split
    · exact .of_con rfl rfl hFree fun c hc => by simp [Core.newConnection, hc]
    · exact .of_con rfl rfl hFree fun c hc => by simp [Core.newConnection, hc]

end Peaceful

/-- Where no operation on settings is allowed, no user is affected. -/
theorem Op.peaceful {ok : Label → Core → Prop} {s t : Core} (hOp : Op ok s t) (hSound : Sound s)
    (hOk : ∀ l s, l.isSetting = true → ¬ ok l s) : Peaceful s t := by
  have hReg := hSound.registry
  have hKnown : ∀ u ∈ s.users.values, (s.con (s.user u).con).cls ≠ .unknown := fun u hu =>
    (Peaceful.known hReg hu).2
  cases hOp with
  | quiet h => exact .outline hKnown (Core.outline_of_detail h)
  | fine hFine =>
    obtain ⟨n, -, hOutline⟩ := hFine.outline
    have hRaised : Peaceful s { s with next := n } := .of_eq rfl rfl fun _ _ => rfl
    exact hRaised.trans (.outline hKnown hOutline)
  | tick | unlinkServer => exact .of_eq rfl rfl fun _ _ => rfl
  | close _ _ hUsers => exact .of_con rfl rfl hUsers fun c hc => by simp [Core.freeConnection, Core.note, hc]
  | addRecord _ hNot | setRecord _ _ hNot | dropRecord hNot | person _ hNot | setUserLevel _ hNot
  | addBan hNot | dropBans _ hNot | loginLocal _ _ _ _ _ _ _ hNot | loginRemote _ _ _ _ _ _ _ hNot
  | removeRemote _ _ hNot | zap _ _ hNot | hangUp _ _ _ hNot => exact absurd hNot (hOk _ _ rfl)
  | accept => exact .accept hReg _ _ _ _
  | @linkServer con hOpen hClass =>
    have hFree (u : UserId) (hu : u ∈ s.users.values) : (s.user u).con ≠ con := by
      rintro rfl
      exact hKnown u hu hClass
    exact .of_con rfl rfl hFree fun c hc => by simp [Core.linkServer, hc]
  | enter => exact .chan (s.chanStep_enterAs _ _)
  | found =>
    exact .chan ((s.chanStep_newChannel _).trans (Core.chanStep_enterChannel _ _ _))
  | leave =>
    exact .chan ((s.chanStep_deleteChannel _ _).trans (Core.chanStep_partChannel _ _ _))
  | dropChannel => exact .chan (s.chanStep_hashRemoveChannel _)
  | flagChannel | setTopic | setLevel | setLimit => exact .chan (s.chanStep_modChan _ _)
  | addOperator => exact .chan (s.chanStep_addOperator _ _)
  | dropOperator => exact .chan (s.chanStep_dropOperator _ _)
  | insert => exact .file (s.fileStep_insertDatum _ _ _)
  | dropFile => exact .file (s.fileStep_dropFile _ _ _)
  | report => exact .file (s.fileStep_reportShared _ _ _ _)
  | collect => exact .file s.fileStep_fdbGarbageCollect
  | finishSearch => exact .search (s.searchStep_finishSearch _ _ _)
  | forwardSearch => exact .search (s.searchStep_forwardSearch _ _ _ _)
  | result => exact .search (s.searchStep_note _)
  | expire => exact .search (s.searchStep_expireSearches _ _)
  | answer => exact .search (s.searchStep_answerSearch _ _)
  | cancel => exact .search ((s.searchStep_note _).trans (Core.searchStep_cancelSearch _ _))

theorem Peaceful.path {ok : Label → Core → Prop} {s t : Core} (hSound : Sound s)
    (hPath : Op.Path ok s t) (hOk : ∀ l s, l.isSetting = true → ¬ ok l s) : Peaceful s t :=
  (hPath.invariant (I := fun t => Sound t ∧ Peaceful s t)
    (fun _ _ hOp h => ⟨h.1.op hOp, h.2.trans (hOp.peaceful h.1 hOk)⟩) ⟨hSound, .refl s⟩).2

/-- What a command did not do to anybody but its sender: no other user was taken off line, muzzled,
unmuzzled or banned, or has another level, data port or speed; and no record of another nick says so
of its user. -/
structure LeavesOthers (s t : Core) (own : UserId) : Prop where
  bans : t.bans = s.bans
  online : ∀ nick, sameText nick (s.user own).nick = false →
    t.users.lookup nick = s.users.lookup nick
  user : ∀ nick user, sameText nick (s.user own).nick = false → s.users.lookup nick = some user →
    SameStanding s t user
  record : ∀ nick db, sameText nick (s.user own).nick = false → s.userDb.lookup nick = some db →
    t.userDb.lookup nick = some db ∧ (t.db db).muzzled = (s.db db).muzzled ∧
      (t.db db).level = (s.db db).level

namespace LeavesOthers

variable {s t : Core} {own : UserId}

/-- Of others only records that are new may differ. -/
theorem of_others (hReg : Registry s) (hBans : t.bans = s.bans) (hUsers : t.users = s.users)
    (hCon : ∀ c, (t.con c).destroy = (s.con c).destroy)
    (hUser : ∀ v, v ≠ own → t.user v = s.user v)
    (hRecord : ∀ nick db, sameText nick (s.user own).nick = false → s.userDb.lookup nick = some db →
      t.userDb.lookup nick = some db ∧ (t.db db).muzzled = (s.db db).muzzled ∧
        (t.db db).level = (s.db db).level) : LeavesOthers s t own := by
  refine ⟨hBans, fun _ _ => by rw [hUsers], fun nick user hOther hLookup => ?_, hRecord⟩
  have hNe : user ≠ own := by
    rintro rfl
    obtain ⟨key, hEntry, hKey⟩ := Bucket.Table.lookup_some hLookup
    have hSame := sameText_iff.2 (hKey.symm.trans (hReg.keyed _ hEntry))
    rw [hOther] at hSame
    cases hSame
  exact ⟨by rw [hUser user hNe], by rw [hUser user hNe], by rw [hUser user hNe],
    by rw [hUser user hNe], by rw [hUser user hNe], hCon _⟩

theorem refl (hReg : Registry s) : LeavesOthers s s own :=
  of_others hReg rfl rfl (fun _ => rfl) (fun _ _ => rfl) fun _ _ _ h => ⟨h, rfl, rfl⟩

theorem peaceful (h : Peaceful s t) (hRecords : SameRecords s t) : LeavesOthers s t own where
  bans := hRecords.bans
  online _ _ := by rw [h.users]
  user _ _ _ hLookup := h.standing (Bucket.Table.mem_values_of_lookup hLookup)
  record _ db _ hLookup := ⟨by rwa [hRecords.userDb], (congrArg UserDb.muzzled (hRecords.db db) :),
    (congrArg UserDb.level (hRecords.db db) :)⟩

/-- A record is made for a name that had none. -/
theorem createDb (hReg : Registry s) (hAccounts : Accounts s) {nick : Str} {user : UserId}
    (hUser : s.users.lookup nick = some user) (hNone : s.userDb.lookup nick = none) (random : Str) :
    LeavesOthers s (s.createDb user random) own := by
  have hName := (Core.userDb_lookup_nick hReg hUser).trans hNone
  refine of_others hReg rfl rfl (fun _ => rfl) (fun _ _ => rfl) fun other d _ h => ?_
  have hOld : d ≠ s.next := (hAccounts.known d (Bucket.Table.mem_values_of_lookup h)).ne
  refine ⟨(s.userDb.lookup_add (s.user user).nick s.next other).trans ?_, ?_, ?_⟩
  · split
    · rename_i hSame
      rw [← Bucket.Table.lookup_congr hSame, hName] at h
      cases h
    · exact h
  · simp [Core.createDb, hOld]
  · simp [Core.createDb, hOld]

/-- What users share plays no part. -/
theorem aside {r : Core} (hAside : Core.SharingAside r s)
    (h : LeavesOthers s t own) : LeavesOthers r t own := by
  have hNick := hAside.nick own
  refine ⟨h.bans.trans hAside.bans, fun nick hOther => ?_, fun nick user hOther hLookup => ?_,
    fun nick db hOther hRecord => ?_⟩
  · rw [← hNick] at hOther
    rw [h.online nick hOther, hAside.users]
  · rw [← hNick] at hOther
    rw [← hAside.users] at hLookup
    have hSame := h.user nick user hOther hLookup
    have hUser := hAside.user user
    have hHome : (s.user user).con = (r.user user).con := (congrArg User.con hUser :)
    refine ⟨hSame.home.trans hHome, hSame.level.trans (hAside.level user),
      hSame.muzzled.trans (congrArg User.muzzled hUser :),
      hSame.port.trans (congrArg User.port hUser :), hSame.speed.trans (congrArg User.speed hUser :), ?_⟩
    have hMark := hSame.mark
    rwa [hHome, hAside.con] at hMark
  · rw [← hNick] at hOther
    rw [← hAside.userDb] at hRecord
    have hSame := h.record nick db hOther hRecord
    rwa [hAside.db] at hSame

end LeavesOthers

namespace Server

open OpenNap.Core

/-- A kill of a user of a lower level whose connection is not yet marked for removal. -/
def KillsOther (s : Core) (own : UserId) (pkt : Str) : Prop :=
  ∃ nick more user, splitLine 2 pkt = some (nick :: more) ∧ s.users.lookup nick = some user ∧
    (s.user user).level < (s.user own).level ∧
    ¬ (s.isUser (s.user user).con = true ∧ (s.con (s.user user).con).destroy = true)

/-- A name that no user of the same level is on line with is not the user's own. -/
theorem other_of_level {s : Core} {own : UserId} {nick : Str}
    (hOwn : s.users.lookup (s.user own).nick = some own)
    (hLow : ∀ user, s.users.lookup nick = some user → (s.user user).level < (s.user own).level) :
    sameText nick (s.user own).nick = false := by
  refine Bool.eq_false_iff.2 fun hSame => ?_
  have hLookup := (Bucket.Table.lookup_congr (sameText_iff.1 hSame)).trans hOwn
  exact Nat.lt_irrefl _ (hLow own hLookup)

theorem killUser_leaves_iff {s : Server} {con : ConId} {own : UserId} (h : s.LocalUser con own)
    (hReg : Registry s.toCore) (hOwn : s.users.lookup (s.user own).nick = some own)
    (hLow : (s.user own).level < .moderator) (pkt : Str) :
    LeavesOthers s.toCore (s.killUser con pkt).toCore own ↔ ¬ KillsOther s.toCore own pkt := by
  have hSame {t : Server} (hEq : t.toCore = s.toCore) (hNot : ¬ KillsOther s.toCore own pkt) :
      LeavesOthers s.toCore t.toCore own ↔ ¬ KillsOther s.toCore own pkt := by
    rw [hEq]
    exact ⟨fun _ => hNot, fun _ => .refl hReg⟩
  have hKiller : killerOf s.toCore con pkt = some ((s.user own).nick, some own, pkt) := by
    simp [killerOf, h.isUser, h.owner]
  have hElite : ((s.user own).level != .elite) = true := by
    refine bne_iff_ne.2 fun hEq => ?_
    rw [hEq] at hLow
    exact absurd hLow (by decide)
  simp only [killUser, hKiller, Option.any_some, hElite, Bool.and_true, decide_eq_true_eq]
  split
  · rename_i nick more hFields
    split
    · rename_i hNone
      refine hSame (toCore_nosuchuser ..) ?_
      rintro ⟨name, _, user, hOther, hLookup, -⟩
      rw [hFields] at hOther
      cases hOther
      rw [hNone] at hLookup
      cases hLookup
    · rename_i user hLookup
      split
      · rename_i hDenied
        refine hSame (toCore_permissionDenied ..) ?_
        rintro ⟨name, _, v, hOther, hVictim, hBelow, -⟩
        rw [hFields] at hOther
        cases hOther
        cases hLookup.symm.trans hVictim
        exact Nat.not_le_of_lt hBelow hDenied
      · rename_i hAbove
        have hBelow : (s.user user).level < (s.user own).level := Nat.lt_of_not_le hAbove
        have hName : sameText nick (s.user own).nick = false := by
          refine other_of_level hOwn fun v hVictim => ?_
          cases hLookup.symm.trans hVictim
          exact hBelow
        simp only [toCore_notifyMods, toCore_passMessageArgs]
        split
        · rename_i hClass
          simp only [toCore_sendCmd, toCore_markKilled, toCore_notifyMods, toCore_passMessageArgs]
          refine ⟨?_, fun hNot => ?_⟩
          · rintro hLeaves ⟨name, _, v, hOther, hVictim, -, hNew⟩
            rw [hFields] at hOther
            cases hOther
            cases hLookup.symm.trans hVictim
            have hMark := (hLeaves.user nick user hName hLookup).mark
            exact hNew ⟨hClass, by simpa using hMark.symm⟩
          · have hGone : (s.con (s.user user).con).destroy = true := by
              by_contra hLive
              exact hNot ⟨nick, more, user, hFields, hLookup, hBelow, fun hBoth => hLive hBoth.2⟩
            refine .of_others hReg rfl rfl (fun c => ?_) (fun _ _ => rfl) fun _ _ _ hRecord =>
              ⟨hRecord, rfl, rfl⟩
            by_cases hc : c = (s.user user).con
            · rw [hc, hGone]
              simp
            · simp [hc]
        · rename_i hClass
          simp only [toCore_hashRemoveUser, toCore_notifyMods, toCore_passMessageArgs]
          refine ⟨fun hLeaves => ?_, fun hNot => ?_⟩
          · have hGone := hLeaves.online nick hName
            have hUser := Bucket.Table.mem_values_of_lookup hLookup
            rw [(sameUsers_hashRemoveUser (hReg.lookup_nick hUser)).users,
              lookup_removed hReg hLookup, hLookup] at hGone
            cases hGone
          · refine absurd ⟨nick, more, user, hFields, hLookup, hBelow, fun hBoth => ?_⟩ hNot
            exact hClass hBoth.1
  · rename_i hFields
    refine hSame (toCore_unparsable ..) ?_
    rintro ⟨nick, more, _, hOther, -⟩
    exact hFields nick more hOther

/-- A `muzzle`, or an `unmuzzle`, of a user who is on line or registered, wherever of a lower level,
and who has the other mark. -/
def MuzzlesOther (s : Core) (own : UserId) (value : Bool) (pkt : Str) : Prop :=
  ∃ nick more, splitLine 2 pkt = some (nick :: more) ∧
    (value = true ∧ (s.users.lookup nick).isSome = true ∨ (s.userDb.lookup nick).isSome = true) ∧
    (∀ user, s.users.lookup nick = some user →
      (s.user user).level < (s.user own).level ∧ (s.user user).muzzled = !value) ∧
    ∀ db, s.userDb.lookup nick = some db →
      (s.db db).level < (s.user own).level ∧ (s.db db).muzzled = !value

theorem MuzzlesOther.fields {s : Core} {own : UserId} {value : Bool} {pkt nick : Str} {more : List Str}
    (h : MuzzlesOther s own value pkt) (hFields : splitLine 2 pkt = some (nick :: more)) :
    (value = true ∧ (s.users.lookup nick).isSome = true ∨ (s.userDb.lookup nick).isSome = true) ∧
    (∀ user, s.users.lookup nick = some user →
      (s.user user).level < (s.user own).level ∧ (s.user user).muzzled = !value) ∧
    ∀ db, s.userDb.lookup nick = some db →
      (s.db db).level < (s.user own).level ∧ (s.db db).muzzled = !value := by
  obtain ⟨name, _, hOther, hRest⟩ := h
  rw [hFields] at hOther
  cases hOther
  exact hRest

/-- A user or a record with the mark that is asked for is refused. -/
theorem not_muzzlesOther {s : Core} {own : UserId} {value : Bool} {pkt nick : Str} {more : List Str}
    (hFields : splitLine 2 pkt = some (nick :: more))
    (hMarked : (∃ user, s.users.lookup nick = some user ∧ (s.user user).muzzled = value) ∨
      ∃ db, s.userDb.lookup nick = some db ∧ (s.db db).muzzled = value) :
    ¬ MuzzlesOther s own value pkt := by
  intro h
  obtain ⟨-, hUsers, hRecords⟩ := h.fields hFields
  rcases hMarked with ⟨user, hUser, hMuzzled⟩ | ⟨db, hRecord, hMuzzled⟩
  · rw [(hUsers user hUser).2] at hMuzzled
    cases value <;> cases hMuzzled
  · rw [(hRecords db hRecord).2] at hMuzzled
    cases value <;> cases hMuzzled

/-- A mark that is set where the other one was concerns another user. -/
theorem MuzzlesOther.not_leaves {s : Core} {own : UserId} {value : Bool} {pkt nick : Str}
    {more : List Str} (h : MuzzlesOther s own value pkt)
    (hOwn : s.users.lookup (s.user own).nick = some own)
    (hFields : splitLine 2 pkt = some (nick :: more)) {r : Server} {db : UserDbId} {t : Core}
    (hDb : ∀ d, s.userDb.lookup nick = some d → d = db)
    (hEq : t = (r.markMuzzled (s.users.lookup nick) db value).toCore) : ¬ LeavesOthers s t own := by
  intro hLeaves
  obtain ⟨hSome, hUsers, hRecords⟩ := h.fields hFields
  have hName := other_of_level hOwn fun user hUser => (hUsers user hUser).1
  rw [hEq] at hLeaves
  cases hRecord : s.userDb.lookup nick with
  | some d =>
    have hSame := (hLeaves.record nick d hName hRecord).2.1
    rw [hDb d hRecord] at hSame hRecord
    rw [(hRecords db hRecord).2] at hSame
    simp [markMuzzled, onCore] at hSame
  | none =>
    rw [hRecord] at hSome
    obtain ⟨-, hOnline⟩ := hSome.resolve_right (by simp)
    obtain ⟨user, hUser⟩ := Option.isSome_iff_exists.1 hOnline
    have hSame := (hLeaves.user nick user hName hUser).muzzled
    rw [(hUsers user hUser).2] at hSame
    simp [markMuzzled, onCore, hUser] at hSame

theorem muzzle_leaves_iff {s : Server} {con : ConId} {own : UserId} (h : s.LocalUser con own)
    (hReg : Registry s.toCore) (hAccounts : Accounts s.toCore)
    (hOwn : s.users.lookup (s.user own).nick = some own)
    (hElite : (s.user own).level < .elite) (tag : Nat) (pkt random : Str) :
    LeavesOthers s.toCore (s.muzzle con tag pkt random).toCore own ↔
      ¬ MuzzlesOther s.toCore own (decide (tag = msgClientMuzzle)) pkt := by
  have hSame {value : Bool} {t : Server} (hEq : t.toCore = s.toCore)
      (hNot : ¬ MuzzlesOther s.toCore own value pkt) :
      LeavesOthers s.toCore t.toCore own ↔ ¬ MuzzlesOther s.toCore own value pkt := by
    rw [hEq]
    exact ⟨fun _ => hNot, fun _ => .refl hReg⟩
  simp only [muzzle, h.popUserServer, Option.bind_some, Option.any_some, hElite, decide_true,
    Bool.true_and, Bool.or_eq_true, Option.any_eq_true, decide_eq_true_eq]
  split
  · rename_i nick more hFields
    split
    · rename_i hDenied
      refine hSame (toCore_permissionDenied ..) fun hMuzzles => ?_
      obtain ⟨-, hUsers, hRecords⟩ := hMuzzles.fields hFields
      rcases hDenied with ⟨user, hUser, hLe⟩ | ⟨db, hRecord, hLe⟩
      · exact Nat.not_le_of_lt (hUsers user hUser).1 hLe
      · exact Nat.not_le_of_lt (hRecords db hRecord).1 hLe
    · rename_i hMay
      have hIs {value : Bool} (hSome : value = true ∧ (s.users.lookup nick).isSome = true ∨
            (s.userDb.lookup nick).isSome = true)
          (hUsers : ∀ user, s.users.lookup nick = some user → (s.user user).muzzled = !value)
          (hRecords : ∀ db, s.userDb.lookup nick = some db → (s.db db).muzzled = !value) :
          MuzzlesOther s.toCore own value pkt :=
        ⟨nick, more, hFields, hSome,
          fun user hUser => ⟨Nat.lt_of_not_le fun hLe => hMay (.inl ⟨user, hUser, hLe⟩),
            hUsers user hUser⟩,
          fun db hRecord => ⟨Nat.lt_of_not_le fun hLe => hMay (.inr ⟨db, hRecord, hLe⟩),
            hRecords db hRecord⟩⟩
      split
      · rename_i hNobody
        simp only [Bool.and_eq_true, Option.isNone_iff_eq_none] at hNobody
        refine hSame (toCore_nosuchuser ..) fun hMuzzles => ?_
        have hSome := (hMuzzles.fields hFields).1
        simp [hNobody] at hSome
      · rename_i hSomebody
        split
        · rename_i hTag
          simp only [hTag, decide_true]
          split
          · -- a record is made first
            rename_i user hNone hUser
            simp only [hUser, hNone, Option.getD_none, Option.some.injEq, exists_eq_left']
            have hFresh : ((s.toCore.createDb user random).db s.next).muzzled = false := by
              simp [Core.createDb]
            split
            · rename_i hAlready
              have hMuzzled : (s.user user).muzzled = true :=
                hAlready.resolve_right fun hRecord => by cases hRecord.symm.trans hFresh
              rw [toCore_sendIfUser]
              exact ⟨fun _ => not_muzzlesOther hFields (.inl ⟨user, hUser, hMuzzled⟩),
                fun _ => .createDb hReg hAccounts hUser hNone random⟩
            · rename_i hNew
              have hMuzzles : MuzzlesOther s.toCore own true pkt := by
                refine hIs (.inl ⟨rfl, by rw [hUser]; rfl⟩) (fun v hv => ?_) fun d hd => ?_
                · cases hUser.symm.trans hv
                  exact Bool.eq_false_iff.2 fun hMuzzled => hNew (.inl hMuzzled)
                · cases hNone.symm.trans hd
              refine ⟨fun hLeaves => absurd hLeaves ?_, fun hNot => absurd hMuzzles hNot⟩
              rw [toCore_tellMuzzled, ← hUser]
              exact hMuzzles.not_leaves hOwn hFields (fun d hd => by cases hNone.symm.trans hd) rfl
          · rename_i hThere
            obtain ⟨db, hRecord⟩ : ∃ db, s.userDb.lookup nick = some db := by
              refine Option.ne_none_iff_exists'.1 fun hNone => ?_
              cases hUser : s.users.lookup nick with
              | none => simp [hNone, hUser] at hSomebody
              | some user => exact hThere user hNone hUser
            simp only [hRecord, Option.getD_some]
            split
            · rename_i hAlready
              refine hSame (toCore_sendIfUser ..) (not_muzzlesOther hFields ?_)
              exact hAlready.imp id fun hMuzzled => ⟨db, hRecord, hMuzzled⟩
            · rename_i hNew
              have hMuzzles : MuzzlesOther s.toCore own true pkt := by
                refine hIs (.inr (by rw [hRecord]; rfl)) (fun v hv => ?_) fun d hd => ?_
                · exact Bool.eq_false_iff.2 fun hMuzzled => hNew (.inl ⟨v, hv, hMuzzled⟩)
                · cases hRecord.symm.trans hd
                  exact Bool.eq_false_iff.2 fun hMuzzled => hNew (.inr hMuzzled)
              refine ⟨fun hLeaves => absurd hLeaves ?_, fun hNot => absurd hMuzzles hNot⟩
              rw [toCore_tellMuzzled]
              exact hMuzzles.not_leaves hOwn hFields
                (fun d hd => Option.some.inj (hd.symm.trans hRecord)) rfl
        · rename_i hTag
          simp only [hTag, decide_false]
          split
          · rename_i hNone
            refine hSame (toCore_sendIfUser ..) fun hMuzzles => ?_
            have hSome := (hMuzzles.fields hFields).1
            simp [hNone] at hSome
          · rename_i db hRecord
            simp only [Bool.not_eq_true']
            split
            · rename_i hAlready
              refine hSame (toCore_sendIfUser ..) (not_muzzlesOther hFields ?_)
              exact hAlready.imp id fun hMuzzled => ⟨db, hRecord, hMuzzled⟩
            · rename_i hNew
              have hMuzzles : MuzzlesOther s.toCore own false pkt := by
                refine hIs (.inr (by rw [hRecord]; rfl)) (fun v hv => ?_) fun d hd => ?_
                · exact Bool.eq_true_of_not_eq_false fun hMuzzled => hNew (.inl ⟨v, hv, hMuzzled⟩)
                · cases hRecord.symm.trans hd
                  exact Bool.eq_true_of_not_eq_false fun hMuzzled => hNew (.inr hMuzzled)
              refine ⟨fun hLeaves => absurd hLeaves ?_, fun hNot => absurd hMuzzles hNot⟩
              rw [toCore_tellMuzzled]
              exact hMuzzles.not_leaves hOwn hFields
                (fun d hd => Option.some.inj (hd.symm.trans hRecord)) rfl
  · rename_i hFields
    refine hSame (toCore_unparsable ..) ?_
    rintro ⟨nick, more, hOther, -⟩
    exact hFields nick more hOther

theorem level_leaves {s : Server} {con : ConId} {own : UserId} (h : s.LocalUser con own)
    (hReg : Registry s.toCore) (hAccounts : Accounts s.toCore)
    (hOwn : s.users.lookup (s.user own).nick = some own) (hLow : (s.user own).level < .moderator)
    (tag : Nat) (pkt random : Str) :
    LeavesOthers s.toCore (s.level con tag pkt random).toCore own := by
  have hElite : (s.user own).level < .elite := Nat.lt_trans hLow (by decide)
  -- below a moderator there are only two levels
  have hLevels {a b : Level} (ha : a < (s.user own).level) (hb : b < (s.user own).level) : a = b := by
    revert ha hb hLow
    generalize (s.user own).level = l
    cases l <;> cases a <;> cases b <;> decide
  have hDone := level_done h hElite tag pkt random
  generalize (s.level con tag pkt random).toCore = t at hDone
  cases hDone with
  | same => exact .refl hReg
  | @record nick db level hRecord hNew hBelow hMay =>
    have hUser : s.users.lookup nick = some own :=
      hMay.resolve_right fun hUnder => hNew (hLevels hUnder hBelow)
    rw [hUser]
    refine .of_others hReg rfl rfl (fun _ => rfl) (fun v hv => by
      simp [giveLevel, setDbLevel, Core.setLevel, hv]) fun other d hOther hd => ?_
    have hNe : d ≠ db := by
      rintro rfl
      have hName := (hAccounts.nick_of_lookup hd).symm.trans (hAccounts.nick_of_lookup hRecord)
      have hNick : strlower nick = strlower (s.user own).nick := by
        obtain ⟨key, hEntry, hKey⟩ := Bucket.Table.lookup_some hUser
        exact hKey.symm.trans (hReg.keyed _ hEntry)
      rw [sameText_iff.2 (hName.trans hNick)] at hOther
      cases hOther
    refine ⟨hd, ?_, ?_⟩
    · simp [giveLevel, setDbLevel, Core.setLevel, hNe]
    · simp [giveLevel, setDbLevel, Core.setLevel, hNe]
  | created hUser hNone => exact .createDb hReg hAccounts hUser hNone _
  | @createdRecord nick user random level hUser hNone hNew hBelow hMay =>
    obtain rfl : user = own := hMay.resolve_right fun hUnder => hNew (hLevels hUnder hBelow)
    have hCreated : LeavesOthers s.toCore (s.toCore.createDb user random) user :=
      .createDb hReg hAccounts hUser hNone random
    refine .of_others hReg rfl rfl (fun _ => rfl) (fun v hv => by
      simp [giveLevel, setDbLevel, Core.setLevel, createDb, hv]) fun other d hOther hd => ?_
    have hNe : d ≠ s.next := (hAccounts.known d (Bucket.Table.mem_values_of_lookup hd)).ne
    refine ⟨(hCreated.record other d hOther hd).1, ?_, ?_⟩
    · simp [giveLevel, setDbLevel, Core.setLevel, createDb, hNe]
    · simp [giveLevel, setDbLevel, Core.setLevel, createDb, hNe]

theorem changePass_leaves {s : Server} {con : ConId} {own : UserId} (h : s.LocalUser con own)
    (hReg : Registry s.toCore) (tag : Nat) (pkt random : Str) :
    LeavesOthers s.toCore (s.changePass con tag pkt random).toCore own := by
  have hSame {t : Server} (hEq : t.toCore = s.toCore) : LeavesOthers s.toCore t.toCore own := by
    rw [hEq]
    exact .refl hReg
  simp only [changePass, h.popUser]
  split
  · exact .refl hReg
  · exact hSame (toCore_unparsable ..)
  · exact hSame (toCore_unparsable ..)
  · split
    · exact hSame (toCore_passMessageArgs ..)
    · rename_i db hRecord
      rw [toCore_sendIfUser, toCore_onCore, toCore_passMessageArgs]
      refine .of_others hReg rfl rfl (fun _ => rfl) (fun _ _ => rfl) fun _ d _ hd => ⟨hd, ?_⟩
      by_cases hNe : d = db <;> simp [setPassword, hNe]

/-- A number that a user sets is its own. -/
theorem changeNumber_leaves {s : Server} {con : ConId} {own : UserId} (h : s.LocalUser con own)
    (hReg : Registry s.toCore) (tag : Nat) (pkt : Str) (bound : Int) (set : Int → User → User)
    (invalid : Str) :
    LeavesOthers s.toCore (s.changeNumber con tag pkt bound set invalid).toCore own := by
  simp only [changeNumber, h.popUser]
  split
  · rw [toCore_passMessageArgs, toCore_onCore]
    exact .of_others hReg rfl rfl (fun _ => rfl) (fun v hv => by simp [hv]) fun _ _ _ hd =>
      ⟨hd, rfl, rfl⟩
  · rw [toCore_sendIfUser]
    exact .refl hReg

theorem changeSpeed_leaves {s : Server} {con : ConId} {own : UserId} (h : s.LocalUser con own)
    (hReg : Registry s.toCore) (tag : Nat) (pkt : Str) :
    LeavesOthers s.toCore (s.changeSpeed con tag pkt).toCore own := by
  unfold changeSpeed
  exact changeNumber_leaves h hReg ..

theorem changeDataPort_leaves {s : Server} {con : ConId} {own : UserId} (h : s.LocalUser con own)
    (hReg : Registry s.toCore) (tag : Nat) (pkt : Str) :
    LeavesOthers s.toCore (s.changeDataPort con tag pkt).toCore own := by
  unfold changeDataPort
  exact changeNumber_leaves h hReg ..

/-- The commands that only moderators may give leave everything as it is. -/
theorem toCore_denied {s : Server} {con : ConId} {own : UserId} (h : s.LocalUser con own)
    (hLow : (s.user own).level < .moderator) (tag : Nat) (pkt random : Str) :
    (s.alterPass con tag pkt random).toCore = s.toCore ∧
      (s.registerUser con tag pkt random).toCore = s.toCore ∧
      (s.alterPort con tag pkt).toCore = s.toCore ∧ (s.alterSpeed con tag pkt).toCore = s.toCore ∧
      (s.unban con tag pkt).toCore = s.toCore ∧ (s.serverDisconnect con pkt).toCore = s.toCore := by
  have hAdmin : (s.user own).level < .admin := Nat.lt_trans hLow (by decide)
  simp only [alterPass, registerUser, alterPort, alterSpeed, unban, serverDisconnect, h.popUser, hAdmin,
    hLow, if_true, toCore_permissionDenied, true_and, and_true]
  refine ⟨?_, ?_⟩
  · split
    · exact toCore_permissionDenied ..
    · exact toCore_unparsable ..
  · split
    · exact toCore_permissionDenied ..
    · exact toCore_unparsable ..

/-- Only operations that are not about users, their accounts or bans. -/
def sparesSettings : Label → Core → Prop := fun l _ => l.isSetting = false

/-- The commands that may be about the settings of users, or about bans, for an ordinary user. -/
def settingCommands : List Command :=
  [.level, .muzzle, .unmuzzle, .changePass, .changeSpeed, .changeDataPort, .alterPass, .registerUser,
    .alterPort, .alterSpeed, .unban, .serverDisconnect, .killUser]

theorem allows_sparesSettings {s : Server} {con : ConId} {own : UserId} (h : s.LocalUser con own)
    (hLow : (s.user own).level < .moderator) (pkt : Str) (env : Env) {cmd : Command}
    (hCmd : cmd ∉ settingCommands) : allowsPacket sparesSettings s con pkt env cmd := by
  have hLink {p : Prop} (hTrue : s.isServer con = true) : p := by
    rw [h.isServer] at hTrue
    cases hTrue
  cases cmd with
  | level | muzzle | unmuzzle | changePass | changeSpeed | changeDataPort | alterPass | registerUser
  | alterPort | alterSpeed | unban | serverDisconnect | killUser => exact absurd (by decide) hCmd
  | login | loginRegister =>
    intro hFalse
    rw [h.isUser] at hFalse
    cases hFalse
  | reginfo | clientQuit => exact fun hTrue => hLink hTrue
  | nuke =>
    intro db hNuke
    simp [nukeOf, h.popUser, hLow] at hNuke
  | ban =>
    intro b hBan
    simp [banOf, h.popUserServer, hLow] at hBan
  | cloak =>
    intro hCloak
    have hNot : ¬ Level.moderator ≤ (s.user own).level := Nat.not_le_of_lt hLow
    simp [misplacesCloak, h.popUser, hNot] at hCloak
  | addDirectory =>
    exact fun user dir _ _ => allowsDirectory_of (fun _ _ _ => rfl) con user dir _ _
  | addFile | shareFile => exact fun _ _ _ _ => rfl
  | userSharing => exact fun _ _ _ _ _ _ => rfl
  | search | remoteSearch | addHotlist | addHotlistSeq => exact fun _ _ => rfl
  | join => exact fun _ _ _ _ _ => rfl
  | remoteSearchEnd => exact (rfl :)
  | _ => trivial

/-- What of the commands of an ordinary user is about others. -/
def HarmsOther (s : Core) (own : UserId) (cmd : Command) (pkt : Str) : Prop :=
  cmd = .killUser ∧ KillsOther s own pkt ∨ cmd = .muzzle ∧ MuzzlesOther s own true pkt ∨
    cmd = .unmuzzle ∧ MuzzlesOther s own false pkt

theorem dispatch_leaves_iff {s : Server} {con : ConId} {own : UserId} (h : s.LocalUser con own)
    (hSound : Sound s.toCore) (hAccounts : Accounts s.toCore)
    (hOpen : (s.con con).allocated = true) (hLow : (s.user own).level < .moderator) (cmd : Command)
    (pkt : Str) (env : Env) :
    LeavesOthers s.toCore (s.dispatch con cmd pkt env).toCore own ↔
      ¬ HarmsOther s.toCore own cmd pkt := by
  have hReg := hSound.registry
  have hOwn := h.lookup hReg hOpen
  have hElite : (s.user own).level < .elite := Nat.lt_trans hLow (by decide)
  have hOther (hNot : cmd ≠ .killUser ∧ cmd ≠ .muzzle ∧ cmd ≠ .unmuzzle)
      (hLeaves : LeavesOthers s.toCore (s.dispatch con cmd pkt env).toCore own) :
      LeavesOthers s.toCore (s.dispatch con cmd pkt env).toCore own ↔
        ¬ HarmsOther s.toCore own cmd pkt := by
    refine ⟨fun _ => ?_, fun _ => hLeaves⟩
    rintro (⟨hKill, -⟩ | ⟨hMuzzle, -⟩ | ⟨hUnmuzzle, -⟩)
    · exact hNot.1 hKill
    · exact hNot.2.1 hMuzzle
    · exact hNot.2.2 hUnmuzzle
  have hSame (hNot : cmd ≠ .killUser ∧ cmd ≠ .muzzle ∧ cmd ≠ .unmuzzle)
      (hEq : (s.dispatch con cmd pkt env).toCore = s.toCore) :
      LeavesOthers s.toCore (s.dispatch con cmd pkt env).toCore own ↔
        ¬ HarmsOther s.toCore own cmd pkt := by
    refine hOther hNot ?_
    rw [hEq]
    exact .refl hReg
  by_cases hCmd : cmd ∈ settingCommands
  · cases cmd with
    | killUser =>
      refine (killUser_leaves_iff h hReg hOwn hLow pkt).trans (not_congr ?_)
      simp [HarmsOther]
    | muzzle =>
      refine (muzzle_leaves_iff h hReg hAccounts hOwn hElite _ pkt env.random).trans (not_congr ?_)
      simp [HarmsOther, Command.tag]
    | unmuzzle =>
      refine (muzzle_leaves_iff h hReg hAccounts hOwn hElite _ pkt env.random).trans (not_congr ?_)
      simp [HarmsOther, Command.tag, msgClientUnmuzzle, msgClientMuzzle]
    | level => exact hOther (by decide) (level_leaves h hReg hAccounts hOwn hLow _ _ _)
    | changePass => exact hOther (by decide) (changePass_leaves h hReg _ _ _)
    | changeSpeed => exact hOther (by decide) (changeSpeed_leaves h hReg _ _)
    | changeDataPort => exact hOther (by decide) (changeDataPort_leaves h hReg _ _)
    | alterPass => exact hSame (by decide) (toCore_denied h hLow _ pkt env.random).1
    | registerUser => exact hSame (by decide) (toCore_denied h hLow _ pkt env.random).2.1
    | alterPort => exact hSame (by decide) (toCore_denied h hLow _ pkt env.random).2.2.1
    | alterSpeed => exact hSame (by decide) (toCore_denied h hLow _ pkt env.random).2.2.2.1
    | unban => exact hSame (by decide) (toCore_denied h hLow _ pkt env.random).2.2.2.2.1
    | serverDisconnect => exact hSame (by decide) (toCore_denied h hLow 0 pkt env.random).2.2.2.2.2
    | _ => exact absurd hCmd (by decide)
  · have hClass : (s.con con).cls ≠ .unknown := by
      have hUnknown := h.isUnknown
      simpa [Core.isUnknown] using hUnknown
    have hPath := dispatch_path hSound cmd pkt env hOpen (.inr (.inr hClass))
      (allows_sparesSettings h hLow pkt env hCmd)
    have hNever (l : Label) (t : Core) (hSetting : l.isSetting = true) : ¬ sparesSettings l t := by
      intro hOk
      cases hOk.symm.trans hSetting
    refine hOther ⟨?_, ?_, ?_⟩ (.peaceful (.path hSound hPath hNever) (.path hPath hNever))
    all_goals
      rintro rfl
      exact hCmd (by decide)

/-! What users share plays no part. -/

theorem KillsOther.aside {s t : Core} {own : UserId} {pkt : Str} (hAside : SharingAside s t)
    (h : KillsOther s own pkt) : KillsOther t own pkt := by
  obtain ⟨nick, more, user, hFields, hLookup, hLow, hNew⟩ := h
  have hHome : (t.user user).con = (s.user user).con := (congrArg User.con (hAside.user user) :)
  refine ⟨nick, more, user, hFields, by rwa [hAside.users], ?_, ?_⟩
  · rwa [hAside.level, hAside.level]
  · rwa [Core.isUser, hHome, hAside.con]

theorem MuzzlesOther.aside {s t : Core} {own : UserId} {value : Bool} {pkt : Str}
    (hAside : SharingAside s t) (h : MuzzlesOther s own value pkt) : MuzzlesOther t own value pkt := by
  obtain ⟨nick, more, hFields, hSome, hUsers, hRecords⟩ := h
  have hMuzzled (u : UserId) : (t.user u).muzzled = (s.user u).muzzled :=
    (congrArg User.muzzled (hAside.user u) :)
  refine ⟨nick, more, hFields, ?_, ?_, ?_⟩
  · rwa [hAside.users, hAside.userDb]
  · simpa only [hAside.users, hAside.level, hMuzzled] using hUsers
  · simpa only [hAside.userDb, hAside.db, hAside.level] using hRecords

theorem HarmsOther.aside {s t : Core} {own : UserId} {cmd : Command} {pkt : Str}
    (hAside : SharingAside s t) (h : HarmsOther s own cmd pkt) : HarmsOther t own cmd pkt :=
  h.imp (And.imp_right (·.aside hAside))
    (Or.imp (And.imp_right (·.aside hAside)) (And.imp_right (·.aside hAside)))

/-- In every state that is reached, a command of a local user below a moderator does nothing to
others, exactly when it is no kill and no muzzle of somebody of a lower level. -/
theorem bystanders_left_iff (f : Startup) (events : List Event) {con : ConId} {own : UserId}
    (hReads : reads (Server.reach f events).toCore con = true)
    (hLocal : (Server.reach f events).LocalUser con own)
    (hLow : ((Server.reach f events).user own).level < .moderator) (cmd : Command) (pkt : Str)
    (env : Env) :
    let s := Server.reach f events
    LeavesOthers s.toCore (s.step (.packet con cmd pkt env)).toCore own ↔
      ¬ HarmsOther s.toCore own cmd pkt := by
  intro s
  have hAside := s.aside_reportSharing con cmd
  have hOpen : ((s.reportSharing con cmd).con con).allocated = true := by
    rw [hAside.con]
    exact (Bool.and_eq_true_iff.1 hReads).1
  have hQuiet := Core.skeleton_of_outline (s.outline_reportSharing con cmd)
  have hDone := dispatch_leaves_iff (hAside.localUser hLocal) ((reach_sound f events).quiet hQuiet)
    ((reach_accounts f events).same (.outline (s.outline_reportSharing con cmd))) hOpen
    (by rwa [hAside.level]) cmd pkt env
  rw [step_command hLocal hReads]
  exact ⟨fun h hHarms => hDone.1 (h.aside hAside.symm) (hHarms.aside hAside),
    fun hNot => (hDone.2 fun hHarms => hNot (hHarms.aside hAside.symm)).aside hAside⟩

/-- A server with the accounts of an ordinary user and of a leech. -/
def leechServed : Startup where
  cfg := { serverName := str "hub", md5 := id }
  accounts :=
    [{ nick := str "joe", password := generatePass id (str "AAAAAAAA") (str "pw"), level := .user },
      { nick := str "ann", password := generatePass id (str "AAAAAAAA") (str "pw"), level := .leech }]

/-- Both log in. -/
def leechOnline : List Event :=
  [.accept 2 (str "client") 6699 8888, .packet 2 .login (str "joe pw 6699 \"client\" 3") {},
    .accept 3 (str "other") 6699 8888, .packet 4 .login (str "ann pw 6699 \"client\" 3") {}]

theorem bystanders_left_iff_ban :
    let s := Server.reach leechServed leechOnline
    LeavesOthers s.toCore (s.step (.packet 2 .ban (str "ann") {})).toCore 3 := by
  have hReads : reads (Server.reach leechServed leechOnline).toCore 2 = true := by decide +kernel
  have hLocal : (Server.reach leechServed leechOnline).LocalUser 2 3 :=
    ⟨by decide +kernel, by decide +kernel⟩
  have hLow : ((Server.reach leechServed leechOnline).user 3).level < .moderator := by decide +kernel
  have hIff := bystanders_left_iff leechServed leechOnline hReads hLocal hLow .ban (str "ann") {}
  refine hIff.2 ?_
  rintro (⟨hKill, -⟩ | ⟨hMuzzle, -⟩ | ⟨hUnmuzzle, -⟩)
  · cases hKill
  · cases hMuzzle
  · cases hUnmuzzle

/-- An ordinary user kills a leech. -/
theorem leech_killed :
    let s := Server.reach leechServed leechOnline
    s.LocalUser 2 3 ∧ (s.user 3).level = .user ∧ s.users.lookup (str "ann") = some 5 ∧
      ¬ LeavesOthers s.toCore (s.step (.packet 2 .killUser (str "ann") {})).toCore 3 := by
  intro s
  have hLookup : s.users.lookup (str "ann") = some 5 := by decide +kernel
  refine ⟨⟨by decide +kernel, by decide +kernel⟩, by decide +kernel, hLookup, fun h => ?_⟩
  have hMark := (h.user (str "ann") 5 (by decide +kernel) hLookup).mark
  exact absurd hMark (by decide +kernel)

end Server

end OpenNap
