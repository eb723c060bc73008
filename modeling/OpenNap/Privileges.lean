import OpenNap.Reach

/-! Levels and cloaks.  The level of a user is kept with the user who is on line and in the record of
the account, and so is the mark of a cloaked user; they are changed by different handlers. -/

namespace OpenNap

open CText

/-- From `s` to `t` nobody comes on line, and levels and cloaks stay as they are. -/
structure SamePrivileges (s t : Core) : Prop where
  users : ∀ user ∈ t.users.values, user ∈ s.users.values
  nick : ∀ user, (t.user user).nick = (s.user user).nick
  level : ∀ user, (t.user user).level = (s.user user).level
  cloaked : ∀ user, (t.user user).cloaked = (s.user user).cloaked
  userDb : t.userDb = s.userDb
  rank : ∀ db, (t.db db).level = (s.db db).level
  mark : ∀ db, (t.db db).cloaked = (s.db db).cloaked

namespace SamePrivileges

theorem refl (s : Core) : SamePrivileges s s :=
  ⟨fun _ h => h, fun _ => rfl, fun _ => rfl, fun _ => rfl, rfl, fun _ => rfl, fun _ => rfl⟩

theorem trans {s t u : Core} (h1 : SamePrivileges s t) (h2 : SamePrivileges t u) :
    SamePrivileges s u where
  users user h := h1.users user (h2.users user h)
  nick user := (h2.nick user).trans (h1.nick user)
  level user := (h2.level user).trans (h1.level user)
  cloaked user := (h2.cloaked user).trans (h1.cloaked user)
  userDb := h2.userDb.trans h1.userDb
  rank db := (h2.rank db).trans (h1.rank db)
  mark db := (h2.mark db).trans (h1.mark db)

theorem foldl {α : Type} {f : Core → α → Core} (h : ∀ s a, SamePrivileges s (f s a)) (l : List α)
    (s : Core) : SamePrivileges s (l.foldl f s) := by
  induction l generalizing s with
  | nil => exact refl s
  | cons a l ih => exact (h s a).trans (ih _)

/-- Users and records are as they were. -/
theorem of_eq {s t : Core} (hUsers : t.users = s.users) (hUser : t.user = s.user)
    (hUserDb : t.userDb = s.userDb) (hDb : t.db = s.db) : SamePrivileges s t where
  users user h := by rwa [hUsers] at h
  nick _ := by rw [hUser]
  level _ := by rw [hUser]
  cloaked _ := by rw [hUser]
  userDb := hUserDb
  rank _ := by rw [hDb]
  mark _ := by rw [hDb]

theorem details {s t : Core} (hUsers : t.users = s.users) (hUserDb : t.userDb = s.userDb)
    (hUser : ∀ u, { (t.user u).detail with muzzled := false, port := 0, speed := 0 } =
      { (s.user u).detail with muzzled := false, port := 0, speed := 0 })
    (hDb : ∀ d, (t.db d).detail = (s.db d).detail) : SamePrivileges s t where
  users user h := by rwa [hUsers] at h
  nick u := (congrArg User.nick (hUser u) :)
  level u := (congrArg User.level (hUser u) :)
  cloaked u := (congrArg User.cloaked (hUser u) :)
  userDb := hUserDb
  rank d := (congrArg UserDb.level (hDb d) :)
  mark d := (congrArg UserDb.cloaked (hDb d) :)

theorem detail {s t : Core} (h : t.detail = s.detail) : SamePrivileges s t := by
  apply details
  · exact (congrArg Core.users h :)
  · exact (congrArg Core.userDb h :)
  · intro u
    rw [show (t.user u).detail = (s.user u).detail from congrFun (congrArg Core.user h) u]
  · exact fun d => congrFun (congrArg Core.db h) d

theorem personal {s t : Core} (h : t.personal = s.personal) : SamePrivileges s t := by
  apply details
  · exact (congrArg Core.users h :)
  · exact (congrArg Core.userDb h :)
  · exact fun u => congrFun (congrArg Core.user h) u
  · exact fun d => congrFun (congrArg Core.db h) d

theorem chan {s t : Core} (h : ChanStep s t) : SamePrivileges s t where
  users user hUser := by rwa [(SameUsers.chan h).users] at hUser
  nick := (SameUsers.chan h).nick
  level u := by
    simpa [Core.eraseChan] using congrArg User.level (congrFun (congrArg Core.user h.rest) u)
  cloaked u := by
    simpa [Core.eraseChan] using congrArg User.cloaked (congrFun (congrArg Core.user h.rest) u)
  userDb := (congrArg Core.userDb h.rest :)
  rank d := (congrArg UserDb.level (congrFun (congrArg Core.db h.rest) d) :)
  mark d := (congrArg UserDb.cloaked (congrFun (congrArg Core.db h.rest) d) :)

theorem file {s t : Core} (h : FileStep s t) : SamePrivileges s t where
  users user hUser := by rwa [(SameUsers.file h).users] at hUser
  nick := (SameUsers.file h).nick
  level u := by
    simpa [Core.eraseFile] using congrArg User.level (congrFun (congrArg Core.user h.rest) u)
  cloaked u := by
    simpa [Core.eraseFile] using congrArg User.cloaked (congrFun (congrArg Core.user h.rest) u)
  userDb := (congrArg Core.userDb h.rest :)
  rank d := (congrArg UserDb.level (congrFun (congrArg Core.db h.rest) d) :)
  mark d := (congrArg UserDb.cloaked (congrFun (congrArg Core.db h.rest) d) :)

theorem search {s t : Core} (h : SearchStep s t) : SamePrivileges s t :=
  of_eq (congrArg Core.users h.rest :) (congrArg Core.user h.rest :)
    (congrArg Core.userDb h.rest :) (congrArg Core.db h.rest :)

theorem modUser (s : Core) (user : UserId) {f : User → User}
    (hNick : (f (s.user user)).nick = (s.user user).nick)
    (hLevel : (f (s.user user)).level = (s.user user).level)
    (hCloaked : (f (s.user user)).cloaked = (s.user user).cloaked) :
    SamePrivileges s (s.modUser user f) := by
  refine ⟨fun _ h => h, fun u => ?_, fun u => ?_, fun u => ?_, rfl, fun _ => rfl, fun _ => rfl⟩
  · by_cases hu : u = user <;> simp [hu, hNick]
  · by_cases hu : u = user <;> simp [hu, hLevel]
  · by_cases hu : u = user <;> simp [hu, hCloaked]

theorem modDb (s : Core) (db : UserDbId) {f : UserDb → UserDb}
    (hLevel : (f (s.db db)).level = (s.db db).level)
    (hCloaked : (f (s.db db)).cloaked = (s.db db).cloaked) : SamePrivileges s (s.modDb db f) := by
  refine ⟨fun _ h => h, fun _ => rfl, fun _ => rfl, fun _ => rfl, rfl, fun d => ?_, fun d => ?_⟩
  · by_cases hd : d = db <;> simp [hd, hLevel]
  · by_cases hd : d = db <;> simp [hd, hCloaked]

theorem farewell {s t : Core} (h : Core.Farewell s t) : SamePrivileges s t := by
  cases h with
  | part | uninvite | uncount => exact of_eq rfl rfl rfl rfl
  | dropChannel name => exact chan (s.chanStep_hashRemoveChannel name)
  | seen nick =>
    simp only [Core.recordLogoff]
    split
    · exact modDb s _ rfl rfl
    · exact refl s
  | gone nick =>
    exact { refl s with users := fun user h => Bucket.Table.mem_values_of_mem_remove h }

theorem hashRemoveUser (s : Core) (nick : Str) : SamePrivileges s (s.hashRemoveUser nick) :=
  Core.hashRemoveUser_keeps (fun _ _ hStep h => h.trans (farewell hStep)) nick (refl s)

theorem removeUser (s : Core) (con : ConId) : SamePrivileges s (s.removeUser con) := by
  simp only [Core.removeUser]
  split
  · exact refl s
  · rename_i user _
    refine (hashRemoveUser s (s.user user).nick).trans ?_
    refine Core.freeOptions_keeps (fun t hot h => h.trans ?_) (fun t h => h.trans ?_)
      (fun t h => h.trans ?_) (refl _)
    · simp only [Core.leaveHotlist]
      split <;> exact of_eq rfl rfl rfl rfl
    · exact file (Core.fileStep_freeFiles t con)
    · exact of_eq rfl rfl rfl rfl

theorem accept (s : Core) (ip : UInt32) (host : Str) (port localPort : UInt16) :
    SamePrivileges s (s.accept ip host port localPort) := by
  simp only [Core.accept, Core.addClient]
  split
  · exact of_eq rfl rfl rfl rfl
  · split <;> exact of_eq rfl rfl rfl rfl

end SamePrivileges

/-- An operation as levels and cloaks see it. -/
inductive PrivilegeOp (ok : Label → Core → Prop) : Core → Core → Prop
  | same {s t : Core} (h : SamePrivileges s t) : PrivilegeOp ok s t
  | login {s t : Core} (hUsers : ∀ user ∈ t.users.values, user = s.next ∨ user ∈ s.users.values)
      (hLevel : (t.user s.next).level = .user) (hCloaked : (t.user s.next).cloaked = false)
      (hOld : ∀ user, user ≠ s.next → t.user user = s.user user) (hUserDb : t.userDb = s.userDb)
      (hDb : t.db = s.db) : PrivilegeOp ok s t
  | setUserLevel {s : Core} {user : UserId} {level : Level}
      (hRecord : level = .user ∨ ∃ db, s.userDb.lookup (s.user user).nick = some db) :
      PrivilegeOp ok s (s.setLevel user level)
  | uncloak (s : Core) (user : UserId) :
      PrivilegeOp ok s (s.modUser user fun u => { u with cloaked := false })
  | cloak {s : Core} {user : UserId} (hMay : Level.moderator ≤ (s.user user).level ∨
        ∃ db, s.userDb.lookup (s.user user).nick = some db ∧ (s.db db).cloaked = true ∧
          (s.db db).level = (s.user user).level) :
      PrivilegeOp ok s (s.modUser user fun u => { u with cloaked := true })
  | addRecord {s : Core} {r : UserDb} (hCloak : r.cloaked = false) :
      PrivilegeOp ok s (s.addRecord r)
  | setRecord {s : Core} {db : UserDbId} {f : UserDb → UserDb}
      (hCloak : (f (s.db db)).cloaked = true → Level.moderator ≤ (f (s.db db)).level ∨
        (s.db db).cloaked = true ∧ (f (s.db db)).level = (s.db db).level ∨ ok .indiscreet s) :
      PrivilegeOp ok s (s.modDb db f)
  | dropRecord {s : Core} {db : UserDbId} (hOk : ok (.drop db) s) : PrivilegeOp ok s (s.removeDb db)

/-- Every operation is one of these. -/
theorem Op.privilegeOp {ok : Label → Core → Prop} {s t : Core} (hOp : Op ok s t) :
    PrivilegeOp ok s t := by
  have hMem (nick : Str) (user : UserId) (h : user ∈ (s.users.add nick s.next).values) :
      user = s.next ∨ user ∈ s.users.values :=
    List.mem_cons.1 ((s.users.values_add nick s.next).mem_iff.1 h)
  cases hOp with
  | quiet hDetail => exact .same (.detail hDetail)
  | fine hFine =>
    cases hFine with
    | uncloak user => exact .uncloak s user
    | cloak hMay => exact .cloak hMay
    | cloakRecord hOk =>
      apply PrivilegeOp.setRecord
      intro hValue
      exact (hOk hValue).imp id .inr
    | invite => exact .same (.chan (s.chanStep_invite _ _))
    | uninvite user chan => exact .same (.chan (s.chanStep_uninvite user chan))
    | wait | waitNew => exact .same (.of_eq rfl rfl rfl rfl)
    | unlist =>
      simp only [Core.unlistHotlist, Core.leaveHotlist]
      split <;> exact .same (.of_eq rfl rfl rfl rfl)
  | person hPersonal => exact .same (.personal hPersonal)
  | setUserLevel hRecord => exact .setUserLevel hRecord
  | addRecord hCloak => exact .addRecord hCloak
  | setRecord _ hCloak => exact .setRecord hCloak
  | dropRecord hOk => exact .dropRecord hOk
  | tick | addBan | dropBans | linkServer | unlinkServer | close =>
    exact .same (.of_eq rfl rfl rfl rfl)
  | accept => exact .same (.accept s _ _ _ _)
  | loginLocal _ _ _ _ _ _ _ _ hFresh | loginRemote _ _ _ _ _ _ _ _ hFresh =>
    refine .login (hMem _) ?_ ?_ (fun u hu => ?_) rfl rfl
    · simpa [Core.addUser, Core.tieLocal, Core.tieRemote] using hFresh.level
    · simpa [Core.addUser, Core.tieLocal, Core.tieRemote] using hFresh.cloaked
    · simp [Core.addUser, Core.tieLocal, Core.tieRemote, hu]
  | removeRemote => exact .same (.hashRemoveUser s _)
  | @zap con =>
    have hKilled : SamePrivileges s (s.modCon con fun c => { c with killed := true }) :=
      .of_eq rfl rfl rfl rfl
    exact .same ((hKilled.trans (.removeUser _ con)).trans (.of_eq rfl rfl rfl rfl))
  | @hangUp con =>
    exact .same ((SamePrivileges.removeUser s con).trans (.of_eq rfl rfl rfl rfl))
  | enter => exact .same (.chan (s.chanStep_enterAs _ _))
  | found =>
    exact .same (.chan ((s.chanStep_newChannel _).trans (Core.chanStep_enterChannel _ _ _)))
  | leave =>
    exact .same (.chan ((s.chanStep_deleteChannel _ _).trans (Core.chanStep_partChannel _ _ _)))
  | dropChannel => exact .same (.chan (s.chanStep_hashRemoveChannel _))
  | flagChannel | setTopic | setLevel | setLimit => exact .same (.chan (s.chanStep_modChan _ _))
  | addOperator => exact .same (.chan (s.chanStep_addOperator _ _))
  | dropOperator => exact .same (.chan (s.chanStep_dropOperator _ _))
  | insert => exact .same (.file (s.fileStep_insertDatum _ _ _))
  | dropFile => exact .same (.file (s.fileStep_dropFile _ _ _))
  | report => exact .same (.file (s.fileStep_reportShared _ _ _ _))
  | collect => exact .same (.file s.fileStep_fdbGarbageCollect)
  | finishSearch => exact .same (.search (s.searchStep_finishSearch _ _ _))
  | forwardSearch => exact .same (.search (s.searchStep_forwardSearch _ _ _ _))
  | result => exact .same (.search (s.searchStep_note _))
  | expire => exact .same (.search (s.searchStep_expireSearches _ _))
  | answer => exact .same (.search (s.searchStep_answerSearch _ _))
  | cancel =>
    exact .same (.search ((s.searchStep_note _).trans (Core.searchStep_cancelSearch _ _)))

/-! ### Privileged users are registered -/

/-- A user who is more than an ordinary user has an account. -/
def Registered (s : Core) : Prop :=
  ∀ user ∈ s.users.values, (s.user user).level ≠ .user →
    ∃ db, s.userDb.lookup (s.user user).nick = some db

/-- The account of a privileged user who is on line is not dropped. -/
def sparesPrivileged : Label → Core → Prop
  | .drop db, s => ∀ user, s.users.lookup (s.db db).nick = some user → (s.user user).level = .user
  | _, _ => True

theorem Registered.op {s t : Core} (hOp : Op sparesPrivileged s t) (hSound : Sound s)
    (h : Registered s) : Registered t := by
  cases hOp.privilegeOp with
  | same hSame =>
    intro user hUser hLevel
    rw [hSame.level] at hLevel
    rw [hSame.userDb, hSame.nick]
    exact h user (hSame.users user hUser) hLevel
  | login hUsers hNew _ hOld hUserDb =>
    intro user hUser hLevel
    have hNe : user ≠ s.next := by
      rintro rfl
      exact hLevel hNew
    rw [hOld user hNe] at hLevel ⊢
    rw [hUserDb]
    exact h user ((hUsers user hUser).resolve_left hNe) hLevel
  | @setUserLevel other level hRecord =>
    intro user hUser hLevel
    by_cases hEq : user = other
    · subst hEq
      have hSet : level ≠ .user := by simpa [Core.setLevel] using hLevel
      simpa [Core.setLevel] using hRecord.resolve_left hSet
    · simp only [Core.setLevel, Core.modUser_user, hEq, if_false] at hLevel ⊢
      exact h user hUser hLevel
  | uncloak other | @cloak other =>
    intro user hUser hLevel
    by_cases hEq : user = other
    · subst hEq
      simp only [Core.modUser_user, if_true] at hLevel ⊢
      exact h user hUser hLevel
    · simp only [Core.modUser_user, hEq, if_false] at hLevel ⊢
      exact h user hUser hLevel
  | @addRecord r =>
    intro user hUser hLevel
    obtain ⟨db, hDb⟩ := h user hUser hLevel
    have hAdd := s.userDb.lookup_add r.nick s.next (s.user user).nick
    by_cases hEq : byName.norm r.nick = byName.norm (s.user user).nick
    · exact ⟨s.next, by rw [if_pos hEq] at hAdd; exact hAdd⟩
    · exact ⟨db, by rw [if_neg hEq, hDb] at hAdd; exact hAdd⟩
  | setRecord => exact h
  | @dropRecord db hOk =>
    intro user hUser hLevel
    obtain ⟨d, hFound⟩ := h user hUser hLevel
    refine ⟨d, (s.userDb.lookup_remove_of_ne fun hKey => hLevel ?_).trans hFound⟩
    apply hOk
    rw [← hSound.registry.lookup_nick hUser]
    exact Bucket.Table.lookup_congr hKey

/-- Which message a packet is read as does not depend on what users share. -/
theorem Core.popUser_modUser (s : Core) (user : UserId) {f : User → User}
    (hLocal : (f (s.user user)).isLocal = (s.user user).isLocal) (con : ConId) (pkt : Str) :
    (s.modUser user f).popUser con pkt = s.popUser con pkt := by
  have hSame (u : UserId) : ((s.modUser user f).user u).isLocal = (s.user u).isLocal := by
    by_cases hu : u = user <;> simp [hu, hLocal]
  simp only [popUser, hSame]
  rfl

theorem nukeOf_reportSharing (s : Server) (con other : ConId) (cmd : Command) (pkt : Str) :
    Server.nukeOf (s.reportSharing con cmd).toCore other pkt = Server.nukeOf s.toCore other pkt := by
  obtain ⟨user, f, hEq, hf⟩ := s.toCore_reportSharing con cmd
  have hLevel (u : UserId) : ((s.toCore.modUser user f).user u).level = (s.user u).level := by
    by_cases hu : u = user
    · simpa [hu] using congrArg User.level (hf (s.user user))
    · simp [hu]
  rw [hEq]
  simp only [Server.nukeOf, Core.popUser_modUser s.toCore user (congrArg User.isLocal (hf _) :), hLevel]
  rfl

namespace Server

/-- No account of a privileged user who is on line is dropped, whether it is nuked or has expired. -/
def SparesPrivileged (s : Server) : Event → Prop
  | .packet con .nuke pkt _ => ∀ db user, nukeOf s.toCore con pkt = some db →
      s.users.lookup (s.db db).nick = some user → (s.user user).level = .user
  | .dumpState => ∀ db ∈ s.userDb.values, s.stale (s.db db) = true →
      ∀ user, s.users.lookup (s.db db).nick = some user → (s.user user).level = .user
  | _ => True

theorem allows_sparesPrivileged {s : Server} {e : Event} (h : SparesPrivileged s e) :
    s.allows sparesPrivileged e := by
  have hSame (con : ConId) (cmd : Command) : SamePrivileges s.toCore (s.reportSharing con cmd).toCore :=
    .detail (detail_reportSharing s con cmd)
  refine s.allows_of (fun l t hl => ?_) (fun _ _ _ _ _ => trivial) (fun _ _ _ _ _ _ => trivial) ?_ ?_
    (fun _ _ _ _ _ _ => trivial) fun _ _ _ _ _ _ => trivial
  · cases l with
    | drop => cases hl
    | _ => trivial
  · rintro con pkt env db rfl hNuke user hUser
    have hDetail := detail_reportSharing s con .nuke
    have hUsers : (s.reportSharing con .nuke).users = s.users := (congrArg Core.users hDetail :)
    have hNick : ((s.reportSharing con .nuke).db db).nick = (s.db db).nick :=
      (congrArg UserDb.nick (congrFun (congrArg Core.db hDetail) db) :)
    rw [nukeOf_reportSharing] at hNuke
    rw [hUsers, hNick] at hUser
    rw [(hSame con .nuke).level]
    exact h db user hNuke hUser
  · rintro rfl db hDb hStale table user hUser
    exact h db hDb hStale user hUser

/-- In every run in which the account of no privileged user who is on line is dropped, every such user
has one. -/
theorem run_registered (f : Startup) (events : List Event)
    (hMeets : Runs.Meets step SparesPrivileged (Server.start f) events) :
    let s := Server.reach f events
    ∀ user ∈ s.users.values, (s.user user).level ≠ .user →
      ∃ db, s.userDb.lookup (s.user user).nick = some db := by
  have hStart : Registered (Server.start f).toCore := by
    obtain ⟨_, _, _, _, _, _, hLoaded⟩ := Core.loaded_start f
    intro user hUser
    simp [Server.start, hLoaded, Core.empty] at hUser
  exact (run_keeps (fun _ _ _ _ hCond => allows_sparesPrivileged hCond)
    (fun _ _ hSound hOp h => Registered.op hOp hSound h) hMeets (start_sound f) hStart).2

/-- A server with the account of a user of a level. -/
def accountOf (level : Level) (cloaked : Bool) : Startup where
  cfg := { serverName := str "hub", md5 := id }
  accounts :=
    [{ nick := str "joe", password := generatePass id (str "AAAAAAAA") (str "pw")
       level := level, cloaked := cloaked }]

/-- An elite user logs in. -/
def eliteOnline : List Event :=
  [.accept 2 (str "client") 6699 8888, .packet 1 .login (str "joe pw 6699 \"client\" 3") {}]

theorem run_registered_elite :
    let s := Server.reach (accountOf .elite false) eliteOnline
    (s.user 2).level = .elite ∧ 2 ∈ s.users.values ∧
      ∃ db, s.userDb.lookup (s.user 2).nick = some db :=
  ⟨by decide +kernel, by decide +kernel,
    run_registered (accountOf .elite false) eliteOnline ⟨trivial, trivial, trivial⟩ 2
      (by decide +kernel) (by decide +kernel)⟩

/-- The elite user nukes the own account. -/
theorem elite_nuked :
    let s := Server.reach (accountOf .elite false) (eliteOnline ++ [.packet 1 .nuke (str "joe") {}])
    2 ∈ s.users.values ∧ (s.user 2).level = .elite ∧ s.userDb.lookup (s.user 2).nick = none := by
  decide +kernel

end Server

/-! ### Only moderators are cloaked -/

/-- Who is cloaked is a moderator, on line and in the accounts. -/
structure Discreet (s : Core) : Prop where
  users : ∀ user ∈ s.users.values, (s.user user).cloaked = true →
    Level.moderator ≤ (s.user user).level
  records : ∀ db ∈ s.userDb.values, (s.db db).cloaked = true → Level.moderator ≤ (s.db db).level

/-- No record of who is no moderator is marked as that of a cloaked user. -/
def keepsDiscretion : Label → Core → Prop
  | .indiscreet, _ => False
  | _, _ => True

theorem Discreet.op {s t : Core} (hOp : Op keepsDiscretion s t) (h : Discreet s) :
    Discreet t := by
  cases hOp.privilegeOp with
  | same hSame =>
    refine ⟨fun user hUser => ?_, fun db hDb => ?_⟩
    · rw [hSame.cloaked, hSame.level]
      exact h.users user (hSame.users user hUser)
    · rw [hSame.userDb] at hDb
      rw [hSame.mark, hSame.rank]
      exact h.records db hDb
  | login hUsers _ hCloaked hOld hUserDb hRecords =>
    refine ⟨fun user hUser hMark => ?_, fun db hDb => ?_⟩
    · have hNe : user ≠ s.next := by
        rintro rfl
        rw [hCloaked] at hMark
        cases hMark
      rw [hOld user hNe] at hMark ⊢
      exact h.users user ((hUsers user hUser).resolve_left hNe) hMark
    · rw [hUserDb] at hDb
      rw [hRecords]
      exact h.records db hDb
  | @setUserLevel other level hRecord =>
    refine ⟨fun user hUser hMark => ?_, h.records⟩
    by_cases hEq : user = other
    · subst hEq
      have hBoth : (s.user user).cloaked = true ∧ Level.moderator ≤ level := by
        simpa [Core.setLevel] using hMark
      simpa [Core.setLevel] using hBoth.2
    · simp only [Core.setLevel, Core.modUser_user, hEq, if_false] at hMark ⊢
      exact h.users user hUser hMark
  | uncloak other =>
    refine ⟨fun user hUser hMark => ?_, h.records⟩
    by_cases hEq : user = other
    · simp [hEq] at hMark
    · simp only [Core.modUser_user, hEq, if_false] at hMark ⊢
      exact h.users user hUser hMark
  | @cloak other hMay =>
    refine ⟨fun user hUser hMark => ?_, h.records⟩
    by_cases hEq : user = other
    · subst hEq
      simp only [Core.modUser_user, if_true]
      rcases hMay with hLevel | ⟨db, hFound, hCloaked, hSame⟩
      · exact hLevel
      · rw [← hSame]
        exact h.records db (Bucket.Table.mem_values_of_lookup hFound) hCloaked
    · simp only [Core.modUser_user, hEq, if_false] at hMark ⊢
      exact h.users user hUser hMark
  | @addRecord r hCloak =>
    refine ⟨h.users, fun db hDb hMark => ?_⟩
    by_cases hEq : db = s.next
    · simp [Core.addRecord, hEq, hCloak] at hMark
    · have hOld : db ∈ s.userDb.values :=
        (List.mem_cons.1 ((s.userDb.values_add _ _).mem_iff.1 hDb)).resolve_left hEq
      simp only [Core.addRecord, Core.modDb_db, Core.alloc_db, hEq, if_false] at hMark ⊢
      exact h.records db hOld hMark
  | @setRecord other f hCloak =>
    refine ⟨h.users, fun db hDb hMark => ?_⟩
    by_cases hEq : db = other
    · subst hEq
      simp only [Core.modDb_db, if_true] at hMark ⊢
      rcases hCloak hMark with hLevel | ⟨hOld, hSame⟩ | hNot
      · exact hLevel
      · rw [hSame]
        exact h.records db hDb hOld
      · exact absurd hNot id
    · simp only [Core.modDb_db, hEq, if_false] at hMark ⊢
      exact h.records db hDb hMark
  | dropRecord =>
    exact ⟨h.users, fun db hDb => h.records db (Bucket.Table.mem_values_of_mem_remove hDb)⟩

namespace Server

theorem demotesCloaked_reportSharing (s : Server) (con : ConId) (cmd : Command) (pkt : Str) :
    demotesCloaked (s.reportSharing con cmd).toCore pkt = demotesCloaked s.toCore pkt := by
  obtain ⟨user, f, hEq, -⟩ := s.toCore_reportSharing con cmd
  rw [hEq]
  rfl

theorem misplacesCloak_reportSharing (s : Server) (con other : ConId) (cmd : Command) (pkt : Str) :
    misplacesCloak (s.reportSharing con cmd).toCore other pkt = misplacesCloak s.toCore other pkt := by
  obtain ⟨user, f, hEq, hf⟩ := s.toCore_reportSharing con cmd
  have hSame : SamePrivileges s.toCore (s.toCore.modUser user f) :=
    .modUser s.toCore user (congrArg User.nick (hf _) :) (congrArg User.level (hf _) :)
      (congrArg User.cloaked (hf _) :)
  rw [hEq]
  simp only [misplacesCloak, Core.popUser_modUser s.toCore user (congrArg User.isLocal (hf _) :),
    hSame.nick, hSame.level, hSame.cloaked]
  rfl

/-- No record of who is no moderator is marked as that of a cloaked user, whether a peer lowers the
level that is in the record or the user cloaks. -/
def KeepsDiscretion (s : Server) : Event → Prop
  | .packet con .reginfo pkt _ => s.isServer con = true → demotesCloaked s.toCore pkt = false
  | .packet con .cloak pkt _ => misplacesCloak s.toCore con pkt = false
  | _ => True

theorem allows_keepsDiscretion {s : Server} {e : Event} (h : KeepsDiscretion s e) :
    s.allows keepsDiscretion e := by
  refine s.allows_of (fun l t hl => ?_) (fun _ _ _ _ _ => trivial) (fun _ _ _ _ _ _ => trivial)
    (fun _ _ _ _ _ _ => trivial) (fun _ _ _ _ _ => trivial) ?_ ?_
  · cases l with
    | indiscreet => cases hl
    | _ => trivial
  · rintro con pkt env rfl hServer hDemotes
    have hClass : s.isServer con = true := by
      have hCon : ((s.reportSharing con .reginfo).con con).cls = (s.con con).cls :=
        (congrArg Connection.cls
          (congrFun (congrArg Core.con (detail_reportSharing s con .reginfo)) con) :)
      simpa only [Core.isServer, hCon] using hServer
    rw [demotesCloaked_reportSharing, h hClass] at hDemotes
    cases hDemotes
  · rintro con pkt env rfl hMisplaces
    rw [misplacesCloak_reportSharing, show misplacesCloak s.toCore con pkt = false from h] at hMisplaces
    cases hMisplaces

/-- The accounts that are loaded are the records of the table at the start. -/
theorem start_records (f : Startup) :
    ∀ db ∈ (Core.start f).userDb.values, (Core.start f).db db ∈ f.accounts := by
  have hLoad (l : List UserDb) (hl : ∀ r ∈ l, r ∈ f.accounts) (s : Core)
      (h : ∀ d ∈ s.userDb.values, d < s.next ∧ s.db d ∈ f.accounts) :
      ∀ d ∈ (l.foldl Core.loadAccount s).userDb.values,
        d < (l.foldl Core.loadAccount s).next ∧ (l.foldl Core.loadAccount s).db d ∈ f.accounts := by
    induction l generalizing s with
    | nil => exact h
    | cons r l ih =>
      refine ih (fun r hr => hl r (List.mem_cons_of_mem _ hr)) _ fun d hd => ?_
      rcases List.mem_cons.1 ((s.userDb.values_add r.nick s.next).mem_iff.1 hd) with rfl | hd
      · simpa [Core.loadAccount] using hl r (by simp)
      · have hNe : d ≠ s.next := (h d hd).1.ne
        refine ⟨(h d hd).1.trans (Nat.lt_succ_self _), ?_⟩
        simpa [Core.loadAccount, hNe] using (h d hd).2
  have hChannels (l : List LoadedChannel) (s : Core) : (l.foldl Core.loadChannel s).userDb = s.userDb ∧
      (l.foldl Core.loadChannel s).db = s.db := by
    induction l generalizing s with
    | nil => exact ⟨rfl, rfl⟩
    | cons c l ih => exact ih _
  have hFilter (l : List Str) (s : Core) : (l.foldl Core.loadFilter s).userDb = s.userDb ∧
      (l.foldl Core.loadFilter s).db = s.db := by
    induction l generalizing s with
    | nil => exact ⟨rfl, rfl⟩
    | cons word l ih => exact ih _
  intro db hDb
  rw [Core.start, (hFilter _ _).1, (hChannels _ _).1] at hDb
  rw [Core.start, (hFilter _ _).2, (hChannels _ _).2]
  exact (hLoad f.accounts (fun _ h => h) _ (by simp [Core.empty]) db hDb).2

/-- In every run in which no such record comes about, and none is loaded, every cloaked user is a
moderator. -/
theorem run_discreet (f : Startup) (hLoaded : ∀ r ∈ f.accounts, r.cloaked = true →
      Level.moderator ≤ r.level) (events : List Event)
    (hMeets : Runs.Meets step KeepsDiscretion (Server.start f) events) :
    let s := Server.reach f events
    ∀ user ∈ s.users.values, (s.user user).cloaked = true →
      Level.moderator ≤ (s.user user).level := by
  have hStart : Discreet (Server.start f).toCore := by
    refine ⟨fun user hUser => ?_, fun db hDb => hLoaded _ (start_records f db hDb)⟩
    obtain ⟨_, _, _, _, _, _, hCore⟩ := Core.loaded_start f
    simp [Server.start, hCore, Core.empty] at hUser
  exact (run_keeps (fun _ _ _ _ hCond => allows_keepsDiscretion hCond)
    (fun _ _ _ hOp h => h.op hOp) hMeets (start_sound f) hStart).2.users

/-- A moderator who quit while cloaked logs in. -/
theorem run_discreet_moderator :
    let s := Server.reach (accountOf .moderator true) eliteOnline
    2 ∈ s.users.values ∧ (s.user 2).cloaked = true ∧ Level.moderator ≤ (s.user 2).level :=
  ⟨by decide +kernel, by decide +kernel,
    run_discreet (accountOf .moderator true)
      (by simp only [accountOf, List.mem_singleton]; rintro _ rfl _; decide) eliteOnline
      ⟨trivial, trivial, trivial⟩ 2 (by decide +kernel) (by decide +kernel)⟩

/-- A peer takes the level of a cloaked moderator away before the user logs in. -/
theorem cloaked_demoted :
    let s := Server.reach (accountOf .moderator true)
      [.accept 1 (str "peer") 0 0, .link 1,
        .packet 1 .reginfo (str ":peer joe " ++ generatePass id (str "AAAAAAAA") (str "pw") ++
          str " unknown User 0 0") {},
        .accept 2 (str "client") 6699 8888, .packet 2 .login (str "joe pw 6699 \"client\" 3") {}]
    3 ∈ s.users.values ∧ (s.user 3).cloaked = true ∧ (s.user 3).level = .user := by
  decide +kernel

end Server

end OpenNap
