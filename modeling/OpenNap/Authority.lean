import OpenNap.Records
import OpenNap.Reach

/-! What the commands of a local user do to the accounts of others.  The handlers that write to the
records of registered users each check the level of the sender in their own way, against the level
of the user on line or against that of the record. -/

namespace OpenNap

open CText

namespace Core

/-- The user is on line, on the connection of a client. -/
structure LocalUser (s : Core) (con : ConId) (own : UserId) : Prop where
  isUser : s.isUser con = true
  owner : (s.con con).user = some own

namespace LocalUser

variable {s : Core} {con : ConId} {own : UserId}

theorem isServer (h : s.LocalUser con own) : s.isServer con = false := by
  have hUser := h.isUser
  simp only [Core.isUser, Core.isServer, beq_iff_eq] at hUser ⊢
  rw [hUser]
  rfl

theorem isUnknown (h : s.LocalUser con own) : s.isUnknown con = false := by
  have hUser := h.isUser
  simp only [Core.isUser, Core.isUnknown, beq_iff_eq] at hUser ⊢
  rw [hUser]
  rfl

theorem popUser (h : s.LocalUser con own) (pkt : Str) :
    s.popUser con pkt = some (own, some pkt) := by
  simp [Core.popUser, h.isServer, h.owner]

theorem popUserServer (h : s.LocalUser con own) (pkt : Str) :
    s.popUserServer con pkt = some ((s.user own).nick, some own, some pkt) := by
  simp [Core.popUserServer, h.isServer, h.owner]

/-- The user is in the table under its name. -/
theorem lookup (h : s.LocalUser con own) (hReg : Registry s) (hOpen : (s.con con).allocated = true) :
    s.users.lookup (s.user own).nick = some own := by
  have hClass : (s.con con).cls = .user := by simpa [Core.isUser] using h.isUser
  obtain ⟨user, hUser, hOwner, -, -⟩ := hReg.client con hOpen hClass
  cases h.owner.symm.trans hOwner
  exact hReg.lookup_nick hUser

end LocalUser

/-- A user who is on line has its record under the name that it is looked for. -/
theorem userDb_lookup_nick {s : Core} (h : Registry s) {nick : Str} {user : UserId}
    (hUser : s.users.lookup nick = some user) :
    s.userDb.lookup (s.user user).nick = s.userDb.lookup nick := by
  obtain ⟨key, hEntry, hKey⟩ := Bucket.Table.lookup_some hUser
  exact Bucket.Table.lookup_congr ((h.keyed _ hEntry).symm.trans hKey)

/-- The same but for the marks that users share, as the report about them leaves it. -/
structure SharingAside (s t : Core) : Prop where
  cfg : t.cfg = s.cfg
  con : t.con = s.con
  users : t.users = s.users
  userDb : t.userDb = s.userDb
  db : t.db = s.db
  bans : t.bans = s.bans
  user : ∀ u, { t.user u with sharing := false, unsharing := false } =
    { s.user u with sharing := false, unsharing := false }

namespace SharingAside

variable {s t : Core}

theorem symm (h : SharingAside s t) : SharingAside t s :=
  ⟨h.cfg.symm, h.con.symm, h.users.symm, h.userDb.symm, h.db.symm, h.bans.symm,
    fun u => (h.user u).symm⟩

theorem nick (h : SharingAside s t) (u : UserId) : (t.user u).nick = (s.user u).nick :=
  (congrArg User.nick (h.user u) :)

theorem level (h : SharingAside s t) (u : UserId) : (t.user u).level = (s.user u).level :=
  (congrArg User.level (h.user u) :)

theorem localUser (h : SharingAside s t) {con : ConId} {own : UserId} (hLocal : s.LocalUser con own) :
    t.LocalUser con own := by
  refine ⟨?_, ?_⟩
  · rw [Core.isUser, h.con]
    exact hLocal.isUser
  · rw [h.con]
    exact hLocal.owner

end SharingAside

/-- A record under `nick` whose level the user is not above, and which is not the user's own. -/
structure Shielded (s : Core) (own : UserId) (nick : Str) (db : UserDbId) : Prop where
  record : s.userDb.lookup nick = some db
  level : (s.user own).level ≤ (s.db db).level
  other : sameText nick (s.user own).nick = false

/-- The records that are shielded from the user are still there, with the same password and the same
level. -/
def KeepsAccounts (s t : Core) (own : UserId) : Prop :=
  ∀ nick db, s.Shielded own nick db → t.userDb.lookup nick = some db ∧
    (t.db db).password = (s.db db).password ∧ (t.db db).level = (s.db db).level

variable {s t : Core} {own : UserId} {db : UserDbId} {nick : Str}

theorem SharingAside.shielded (h : SharingAside s t) (hShielded : s.Shielded own nick db) :
    t.Shielded own nick db := by
  refine ⟨?_, ?_, ?_⟩
  · rw [h.userDb]
    exact hShielded.record
  · rw [h.level, h.db]
    exact hShielded.level
  · rw [h.nick]
    exact hShielded.other

/-- The user's own record is not shielded. -/
theorem not_shielded_own (hAccounts : Accounts s) (hSame : sameText nick (s.user own).nick = true)
    (hRecord : s.userDb.lookup nick = some db) (other : Str) : ¬ s.Shielded own other db := by
  intro h
  have hNick := hAccounts.nick_of_lookup h.record
  rw [hAccounts.nick_of_lookup hRecord, sameText_iff.1 hSame] at hNick
  have hOther : sameText other (s.user own).nick = true := sameText_iff.2 hNick.symm
  rw [h.other] at hOther
  cases hOther

/-- A record is not shielded from a user of a higher level. -/
theorem not_shielded_low (hLow : (s.db db).level < (s.user own).level) (other : Str) :
    ¬ s.Shielded own other db := fun h => Nat.not_le_of_lt hLow h.level

/-- Records may be added, and those that are not shielded may be changed. -/
theorem keepsAccounts_of
    (hLookup : ∀ nick db, s.userDb.lookup nick = some db → t.userDb.lookup nick = some db)
    (hDb : ∀ nick db, s.Shielded own nick db →
      (t.db db).password = (s.db db).password ∧ (t.db db).level = (s.db db).level) :
    KeepsAccounts s t own := fun nick db h => ⟨hLookup nick db h.record, hDb nick db h⟩

theorem KeepsAccounts.same (hTable : t.userDb = s.userDb) (hDb : t.db = s.db) :
    KeepsAccounts s t own :=
  keepsAccounts_of (fun _ _ h => by rwa [hTable]) fun _ _ _ => by rw [hDb]; exact ⟨rfl, rfl⟩

theorem KeepsAccounts.records (h : SameRecords s t) : KeepsAccounts s t own :=
  keepsAccounts_of (fun _ _ hRecord => by rwa [h.userDb]) fun _ db _ =>
    ⟨(congrArg UserDb.password (h.db db) :), (congrArg UserDb.level (h.db db) :)⟩

/-- A record that is not shielded is changed. -/
theorem KeepsAccounts.set {f : UserDb → UserDb} (hTable : t.userDb = s.userDb)
    (hDb : t.db = (s.modDb db f).db) (hFree : ∀ nick, ¬ s.Shielded own nick db) :
    KeepsAccounts s t own := by
  refine keepsAccounts_of (fun _ _ h => by rwa [hTable]) fun nick d h => ?_
  have hOther : d ≠ db := fun hEq => hFree nick (hEq ▸ h)
  rw [hDb]
  simp [hOther]

/-- A record is made for a name that had none, and may be changed after that. -/
theorem KeepsAccounts.add (hAccounts : Accounts s)
    (hNone : s.userDb.lookup nick = none) (hTable : t.userDb = s.userDb.add nick s.next)
    (hDb : ∀ d, d ≠ s.next → t.db d = s.db d) : KeepsAccounts s t own := by
  refine keepsAccounts_of (fun other d h => ?_) fun other d h => ?_
  · rw [hTable, s.userDb.lookup_add]
    split
    · rename_i hSame
      rw [← Bucket.Table.lookup_congr hSame, hNone] at h
      cases h
    · exact h
  · rw [hDb d (hAccounts.known d (Bucket.Table.mem_values_of_lookup h.record)).ne]
    exact ⟨rfl, rfl⟩

/-- The record gets the level, and so does the user when on line. -/
def giveLevel (s : Core) (db : UserDbId) (user : Option UserId) (level : Level) : Core :=
  match user with
  | none => s.setDbLevel db level
  | some user => (s.setDbLevel db level).setLevel user level

@[simp] theorem userDb_giveLevel (s : Core) (db : UserDbId) (user : Option UserId) (level : Level) :
    (s.giveLevel db user level).userDb = s.userDb := by
  cases user <;> rfl

@[simp] theorem db_giveLevel (s : Core) (db : UserDbId) (user : Option UserId) (level : Level) :
    (s.giveLevel db user level).db = (s.setDbLevel db level).db := by
  cases user <;> rfl

/-- What `level` does for a user who is not of the highest level. -/
inductive LevelDone (s : Core) (own : UserId) : Core → Prop
  | same : LevelDone s own s
  | record {nick : Str} {db : UserDbId} {level : Level}
      (hRecord : s.userDb.lookup nick = some db) (hNew : (s.db db).level ≠ level)
      (hBelow : level < (s.user own).level)
      (hMay : s.users.lookup nick = some own ∨ (s.db db).level < (s.user own).level) :
      LevelDone s own (s.giveLevel db (s.users.lookup nick) level)
  | created {nick : Str} {user : UserId} {random : Str} (hUser : s.users.lookup nick = some user)
      (hNone : s.userDb.lookup nick = none) : LevelDone s own (s.createDb user random)
  | createdRecord {nick : Str} {user : UserId} {random : Str} {level : Level}
      (hUser : s.users.lookup nick = some user) (hNone : s.userDb.lookup nick = none)
      (hNew : (s.user user).level ≠ level) (hBelow : level < (s.user own).level)
      (hMay : user = own ∨ (s.user user).level < (s.user own).level) :
      LevelDone s own ((s.createDb user random).giveLevel s.next (some user) level)

end Core

namespace Server

open OpenNap.Core

theorem changeLevel_eq (s : Server) (con : ConId) (tag : Nat) (sender : Str)
    (senderUser : Option UserId) (db : UserDbId) (user : Option UserId) (level : Level) :
    (s.changeLevel con tag sender senderUser db user level).toCore =
      s.toCore.giveLevel db user level := by
  cases user with
  | none => simp only [changeLevel, toCore_notifyMods, toCore_passMessageArgs, toCore_onCore, giveLevel]
  | some user =>
    simp only [changeLevel, giveLevel]
    rw [toCore_levelDropCloak, toCore_sendIfUser, toCore_notifyMods, toCore_passMessageArgs,
      toCore_onCore]

/-- Of a request of a local user the time is not read. -/
theorem stampLevel_eq (s : Server) {con : ConId} (hLink : s.isServer con = false) (tag : Nat)
    (sender : Str) (own : UserId) (stamp : Option Str) (db : UserDbId) (user : Option UserId)
    (level : Level) :
    (s.stampLevel con tag sender (some own) stamp db user level).toCore =
      if some own ≠ user ∧ (s.user own).level < .elite ∧ (s.user own).level ≤ (s.db db).level then
        s.toCore
      else s.toCore.giveLevel db user level := by
  have hStamp : peerStamp s.toCore con stamp = none := by simp [peerStamp, hLink]
  simp only [stampLevel, hStamp, Option.any_none, Bool.false_eq_true, if_false, setStamp, onCore,
    Option.any_some, Bool.and_eq_true, bne_iff_ne, decide_eq_true_eq, and_assoc]
  split
  · exact toCore_permissionDenied ..
  · exact changeLevel_eq ..

theorem level_done {s : Server} {con : ConId} {own : UserId} (h : s.LocalUser con own)
    (hElite : (s.user own).level < .elite) (tag : Nat) (pkt random : Str) :
    LevelDone s.toCore own (s.level con tag pkt random).toCore := by
  have hSame {t : Server} (hEq : t.toCore = s.toCore) : LevelDone s.toCore own t.toCore := by
    rw [hEq]
    exact .same
  simp only [level, h.popUserServer, h.owner, Option.bind_some, Option.any_some, h.isUser,
    Bool.true_and, hElite, decide_true, decide_eq_true_eq]
  split
  · rename_i nick text more hFields
    split
    · exact hSame (toCore_sendIfUser ..)
    · rename_i level hLevel
      split
      · exact hSame (toCore_permissionDenied ..)
      · rename_i hAbove
        have hBelow : level < (s.user own).level := Nat.lt_of_not_le hAbove
        split
        · rename_i db hRecord
          split
          · exact .same
          · rename_i hNew
            split
            · exact .same
            · rw [stampLevel_eq s h.isServer]
              split
              · exact .same
              · rename_i hMay
                refine .record hRecord hNew hBelow ?_
                by_cases hOwn : s.users.lookup nick = some own
                · exact .inl hOwn
                · exact .inr (Nat.lt_of_not_le fun hLe => hMay ⟨fun hEq => hOwn hEq.symm, hElite, hLe⟩)
        · rename_i hNone
          split
          · exact hSame (toCore_sendIfUser ..)
          · rename_i user hUser
            split
            · exact .same
            · rename_i hNew
              have hLink : (s.onCore (·.createDb user random)).isServer con = false := h.isServer
              rw [hUser, stampLevel_eq _ hLink]
              split
              · exact .created hUser hNone
              · rename_i hMay
                refine .createdRecord hUser hNone hNew hBelow ?_
                by_cases hOwn : user = own
                · exact .inl hOwn
                · refine .inr (Nat.lt_of_not_le fun hLe => hMay ⟨?_, hElite, ?_⟩)
                  · exact fun hEq => hOwn (Option.some.inj hEq).symm
                  · have hLevel : ((s.onCore (·.createDb user random)).db s.next).level =
                        (s.user user).level := by simp [onCore, createDb]
                    rw [hLevel]
                    exact hLe
  · exact hSame (toCore_unparsable ..)

theorem level_keeps {s : Server} {con : ConId} {own : UserId} (h : s.LocalUser con own)
    (hReg : Registry s.toCore) (hAccounts : Accounts s.toCore) (hElite : (s.user own).level < .elite) (tag : Nat)
    (pkt random : Str) : KeepsAccounts s.toCore (s.level con tag pkt random).toCore own := by
  have hDone := level_done h hElite tag pkt random
  generalize (s.level con tag pkt random).toCore = t at hDone
  cases hDone with
  | same => exact .same rfl rfl
  | @record nick db level hRecord _ _ hMay =>
    refine .set (userDb_giveLevel ..) (db_giveLevel ..) fun other => ?_
    rcases hMay with hOwn | hLow
    · have hName := (userDb_lookup_nick hReg hOwn).trans hRecord
      exact not_shielded_own hAccounts (sameText_iff.2 rfl) hName other
    · exact not_shielded_low hLow other
  | @created nick user random hUser hNone =>
    exact .add hAccounts ((userDb_lookup_nick hReg hUser).trans hNone) rfl fun d hd => by
      simp [createDb, hd]
  | @createdRecord nick user random level hUser hNone =>
    refine .add hAccounts ((userDb_lookup_nick hReg hUser).trans hNone) (userDb_giveLevel ..)
      fun d hd => ?_
    rw [db_giveLevel]
    simp [setDbLevel, createDb, hd]

theorem muzzle_keeps {s : Server} {con : ConId} {own : UserId} (h : s.LocalUser con own)
    (hReg : Registry s.toCore) (hAccounts : Accounts s.toCore) (tag : Nat) (pkt random : Str) :
    KeepsAccounts s.toCore (s.muzzle con tag pkt random).toCore own := by
  have hSame {t : Server} (hEq : t.toCore = s.toCore) : KeepsAccounts s.toCore t.toCore own := by
    rw [hEq]
    exact .same rfl rfl
  have hMark (t : Server) (user : Option UserId) (db : UserDbId) (value : Bool) :
      (t.markMuzzled user db value).userDb = t.userDb ∧ (t.markMuzzled user db value).db =
        (t.modDb db fun r => { r with muzzled := value }).db := by
    cases user <;> exact ⟨rfl, rfl⟩
  -- a record that was there before keeps all but the mark
  have hOld {t : Server} (user : Option UserId) (db : UserDbId) (value : Bool)
      (hEq : t.toCore = (s.markMuzzled user db value).toCore) :
      KeepsAccounts s.toCore t.toCore own := by
    rw [hEq]
    refine keepsAccounts_of (fun _ _ hRecord => by rwa [(hMark s user db value).1]) fun _ d _ => ?_
    rw [(hMark s user db value).2]
    by_cases hd : d = db <;> simp [hd]
  simp only [muzzle, h.popUserServer, Option.bind_some, Option.any_some]
  split
  · rename_i nick more hFields
    split
    · exact hSame (toCore_permissionDenied ..)
    · split
      · exact hSame (toCore_nosuchuser ..)
      · split
        · split
          · rename_i user hNone hUser
            have hLookup : s.userDb.lookup (s.user user).nick = none :=
              (userDb_lookup_nick hReg hUser).trans hNone
            split
            · rw [toCore_sendIfUser]
              exact .add hAccounts hLookup rfl fun d hd => by simp [onCore, createDb, hd]
            · rw [toCore_tellMuzzled]
              refine .add hAccounts hLookup (hMark _ _ _ _).1 fun d hd => ?_
              rw [(hMark _ _ _ _).2, hNone]
              simp [onCore, createDb, hd]
          · split
            · exact hSame (toCore_sendIfUser ..)
            · exact hOld _ _ _ (toCore_tellMuzzled ..)
        · split
          · exact hSame (toCore_sendIfUser ..)
          · split
            · exact hSame (toCore_sendIfUser ..)
            · exact hOld _ _ _ (toCore_tellMuzzled ..)
  · exact hSame (toCore_unparsable ..)

theorem changePass_keeps {s : Server} {con : ConId} {own : UserId} (h : s.LocalUser con own)
    (hAccounts : Accounts s.toCore) (tag : Nat) (pkt random : Str) :
    KeepsAccounts s.toCore (s.changePass con tag pkt random).toCore own := by
  have hSame {t : Server} (hEq : t.toCore = s.toCore) : KeepsAccounts s.toCore t.toCore own := by
    rw [hEq]
    exact .same rfl rfl
  simp only [changePass, h.popUser]
  split
  · exact .same rfl rfl
  · exact hSame (toCore_unparsable ..)
  · exact hSame (toCore_unparsable ..)
  · rename_i user c cs hPop
    cases hPop
    split
    · exact hSame (toCore_passMessageArgs ..)
    · rename_i db hRecord
      rw [toCore_passMessageArgs] at hRecord
      rw [toCore_sendIfUser, toCore_onCore, toCore_passMessageArgs]
      exact .set rfl rfl (not_shielded_own hAccounts (sameText_iff.2 rfl) hRecord)

theorem nuke_keeps {s : Server} {con : ConId} {own : UserId} (h : s.LocalUser con own)
    (hAccounts : Accounts s.toCore) (hElite : (s.user own).level < .elite) (tag : Nat) (pkt : Str) :
    KeepsAccounts s.toCore (s.nuke con tag pkt).toCore own := by
  have hSame {t : Server} (hEq : t.toCore = s.toCore) : KeepsAccounts s.toCore t.toCore own := by
    rw [hEq]
    exact .same rfl rfl
  simp only [nuke, h.popUser]
  split
  · exact hSame (toCore_permissionDenied ..)
  · split
    · exact hSame (toCore_unparsable ..)
    · rename_i nick reason hFields
      split
      · exact hSame (toCore_invalidNickMsg ..)
      · split
        · rename_i db hRecord
          rw [toCore_passMessageArgs] at hRecord
          split
          · exact hSame (by rw [toCore_permissionDenied, toCore_passMessageArgs])
          · rename_i hAbove
            rw [toCore_passMessageArgs] at hAbove
            have hLow : (s.db db).level < (s.user own).level :=
              Nat.lt_of_not_le fun hLe => hAbove ⟨hElite, hLe⟩
            rw [toCore_notifyMods, toCore_onCore, toCore_passMessageArgs]
            intro other d hShielded
            refine ⟨(s.userDb.lookup_remove_of_ne fun hKey => ?_).trans hShielded.record, rfl, rfl⟩
            have hName : strlower other = strlower nick :=
              hKey.symm.trans (hAccounts.nick_of_lookup hRecord)
            have hSameDb := (Bucket.Table.lookup_congr hName).symm.trans hShielded.record
            cases hRecord.symm.trans hSameDb
            exact not_shielded_low hLow other hShielded
        · exact hSame (by rw [toCore_notifyMods, toCore_passMessageArgs])

theorem registerUser_keeps {s : Server} {con : ConId} {own : UserId} (h : s.LocalUser con own)
    (hAccounts : Accounts s.toCore) (tag : Nat) (pkt random : Str) :
    KeepsAccounts s.toCore (s.registerUser con tag pkt random).toCore own := by
  have hSame {t : Server} (hEq : t.toCore = s.toCore) : KeepsAccounts s.toCore t.toCore own := by
    rw [hEq]
    exact .same rfl rfl
  simp only [registerUser, h.popUser]
  split
  · exact hSame (toCore_permissionDenied ..)
  · split
    · split
      · exact hSame (toCore_invalidNickMsg ..)
      · split
        · exact hSame (toCore_sendIfUser ..)
        · split
          · exact hSame (toCore_permissionDenied ..)
          · split
            · exact hSame (toCore_sendUser ..)
            · rename_i nick pass email more hFields _ _ level hLevel _ hTaken
              rw [toCore_notifyMods, toCore_onCore, toCore_passMessageArgs]
              have hNone : s.userDb.lookup nick = none := by simpa using hTaken
              exact .add hAccounts hNone rfl fun d hd => by simp [registerDb, hd]
    · exact hSame (toCore_unparsable ..)

/-- An `alter_pass` that gives a new password to a record that is shielded from the sender. -/
def OverridesPassword (s : Core) (own : UserId) (pkt random : Str) : Prop :=
  ∃ nick pass reason db, splitLine 3 pkt = some [nick, pass, reason] ∧
    Level.admin ≤ (s.user own).level ∧ invalidNick s.cfg nick = false ∧ s.Shielded own nick db ∧
    generatePass s.cfg.md5 random pass ≠ (s.db db).password

theorem alterPass_keeps {s : Server} {con : ConId} {own : UserId} (h : s.LocalUser con own)
    (hAccounts : Accounts s.toCore) (tag : Nat) (pkt random : Str) :
    KeepsAccounts s.toCore (s.alterPass con tag pkt random).toCore own ↔
      ¬ OverridesPassword s.toCore own pkt random := by
  have hSame {t : Server} (hEq : t.toCore = s.toCore)
      (hNot : ¬ OverridesPassword s.toCore own pkt random) :
      KeepsAccounts s.toCore t.toCore own ↔ ¬ OverridesPassword s.toCore own pkt random := by
    rw [hEq]
    exact ⟨fun _ => hNot, fun _ => .same rfl rfl⟩
  simp only [alterPass, h.popUser, Option.bind_some]
  split
  · rename_i hDenied
    refine hSame (toCore_permissionDenied ..) ?_
    rintro ⟨_, _, _, _, -, hAdmin, -⟩
    exact Nat.not_le_of_lt hDenied hAdmin
  · rename_i hAdmin
    split
    · rename_i nick pass reason hFields
      split
      · rename_i hInvalid
        refine hSame (toCore_invalidNickMsg ..) ?_
        rintro ⟨name, _, _, _, hOther, -, hValid, -⟩
        rw [hFields] at hOther
        cases hOther
        rw [hInvalid] at hValid
        cases hValid
      · rename_i hValid
        rw [toCore_notifyMods]
        split
        · rename_i db hRecord
          rw [toCore_passMessageArgs] at hRecord
          rw [toCore_onCore, toCore_passMessageArgs]
          refine ⟨?_, fun hNot => ?_⟩
          · rintro hKeeps ⟨name, word, _, d, hOther, -, -, hShielded, hNew⟩
            rw [hFields] at hOther
            cases hOther
            cases hRecord.symm.trans hShielded.record
            obtain ⟨-, hPassword, -⟩ := hKeeps nick db hShielded
            refine hNew (Eq.trans ?_ hPassword)
            simp [setPassword]
          · refine keepsAccounts_of (fun _ _ hOther => hOther) fun other d hShielded => ?_
            by_cases hd : d = db
            · subst hd
              have hName := (hAccounts.nick_of_lookup hShielded.record).symm.trans
                (hAccounts.nick_of_lookup hRecord)
              have hSelf : s.Shielded own nick d := by
                refine ⟨hRecord, hShielded.level, Bool.eq_false_iff.2 fun hOwn => ?_⟩
                have hOther := sameText_iff.2 (hName.trans (sameText_iff.1 hOwn))
                rw [hShielded.other] at hOther
                cases hOther
              have hPassword : generatePass s.cfg.md5 random pass = (s.db d).password := by
                by_contra hNew
                exact hNot ⟨nick, pass, reason, d, hFields, Nat.le_of_not_lt hAdmin,
                  Bool.eq_false_iff.2 hValid, hSelf, hNew⟩
              simp [setPassword, hPassword]
            · simp [setPassword, hd]
        · rename_i hNone
          rw [toCore_passMessageArgs] at hNone
          refine hSame (toCore_passMessageArgs ..) ?_
          rintro ⟨name, _, _, d, hOther, -, -, hShielded, -⟩
          rw [hFields] at hOther
          cases hOther
          have hRecord := hShielded.record
          rw [hNone] at hRecord
          cases hRecord
    · rename_i hFields
      refine hSame (toCore_unparsable ..) ?_
      rintro ⟨nick, pass, reason, _, hOther, -⟩
      exact hFields nick pass reason hOther

/-! ### Whole commands -/

/-- No record of a registered user is made, changed or dropped. -/
def sparesAccounts : Label → Core → Prop
  | .account, _ | .drop _, _ => False
  | _, _ => True

theorem accounts_path {s t : Core} (hPath : Op.Path sparesAccounts s t) :
    t.userDb = s.userDb ∧ ∀ d, (t.db d).outline = (s.db d).outline := by
  refine hPath.invariant (I := fun t : Core => t.userDb = s.userDb ∧
    ∀ d, (t.db d).outline = (s.db d).outline) (fun t u hOp h => ?_) ⟨rfl, fun _ => rfl⟩
  cases hOp.recordOp with
  | same hSame => exact ⟨hSame.userDb.trans h.1, fun d => (hSame.db d).trans (h.2 d)⟩
  | addBan | dropBans => exact h
  | add _ hNot | set _ hNot | drop _ hNot => exact hNot.elim

/-- The commands with which records are written. -/
def accountCommands : List Command :=
  [.level, .muzzle, .unmuzzle, .changePass, .nuke, .registerUser, .alterPass]

/-- The other commands of a local user write to no record. -/
theorem allows_sparesAccounts {s : Server} {con : ConId} {own : UserId} (h : s.LocalUser con own)
    (pkt : Str) (env : Env) {cmd : Command} (hCmd : cmd ∉ accountCommands) :
    allowsPacket sparesAccounts s con pkt env cmd := by
  have hLink {p : Prop} (hTrue : s.isServer con = true) : p := by
    rw [h.isServer] at hTrue
    cases hTrue
  cases cmd with
  | level | muzzle | unmuzzle | changePass | nuke | registerUser | alterPass =>
    exact absurd (by decide) hCmd
  | login | loginRegister =>
    intro hFalse
    rw [h.isUser] at hFalse
    cases hFalse
  | reginfo | clientQuit => exact fun hTrue => hLink hTrue
  | addDirectory =>
    exact fun user dir _ _ => allowsDirectory_of (fun _ _ _ => trivial) con user dir _ _
  | addFile | shareFile => exact fun _ _ _ _ => trivial
  | userSharing => exact fun _ _ _ _ _ _ => trivial
  | search | remoteSearch | ban | cloak | addHotlist | addHotlistSeq => exact fun _ _ => trivial
  | join => exact fun _ _ _ _ _ => trivial
  | killUser | serverDisconnect | changeSpeed | changeDataPort | alterPort | alterSpeed | unban =>
    exact fun _ => trivial
  | _ => trivial

/-- The command of a local user is dispatched after the report about what was shared before. -/
theorem step_command {s : Server} {con : ConId} {own : UserId} (h : s.LocalUser con own)
    (hReads : reads s.toCore con = true) (cmd : Command) (pkt : Str) (env : Env) :
    s.step (.packet con cmd pkt env) = (s.reportSharing con cmd).dispatch con cmd pkt env := by
  simp only [step, hReads, if_true, handlePacket, h.isUnknown, Bool.false_and, Bool.false_eq_true,
    if_false]

theorem aside_reportSharing (s : Server) (con : ConId) (cmd : Command) :
    SharingAside s.toCore (s.reportSharing con cmd).toCore := by
  obtain ⟨v, f, hReport, hf⟩ := s.toCore_reportSharing con cmd
  rw [hReport]
  refine ⟨rfl, rfl, rfl, rfl, rfl, rfl, fun u => ?_⟩
  by_cases hu : u = v
  · simpa [hu] using hf (s.user v)
  · simp [hu]

/-- A command of a local user below the highest level leaves the password and the level of every
record that is shielded from the user, unless it is an `alter_pass` that is granted. -/
theorem dispatch_keepsAccounts {s : Server} {con : ConId} {own : UserId} (h : s.LocalUser con own)
    (hSound : Sound s.toCore) (hAccounts : Accounts s.toCore)
    (hOpen : (s.con con).allocated = true) (hElite : (s.user own).level < .elite) (cmd : Command)
    (pkt : Str) (env : Env) :
    KeepsAccounts s.toCore (s.dispatch con cmd pkt env).toCore own ↔
      ¬ (cmd = .alterPass ∧ OverridesPassword s.toCore own pkt env.random) := by
  have hOther (hNot : cmd ≠ .alterPass)
      (hKeeps : KeepsAccounts s.toCore (s.dispatch con cmd pkt env).toCore own) :
      KeepsAccounts s.toCore (s.dispatch con cmd pkt env).toCore own ↔
        ¬ (cmd = .alterPass ∧ OverridesPassword s.toCore own pkt env.random) :=
    ⟨fun _ hBoth => hNot hBoth.1, fun _ => hKeeps⟩
  by_cases hCmd : cmd ∈ accountCommands
  · cases cmd with
    | level => exact hOther (by decide) (level_keeps h hSound.registry hAccounts hElite _ _ _)
    | muzzle | unmuzzle =>
      exact hOther (by decide) (muzzle_keeps h hSound.registry hAccounts _ _ _)
    | changePass => exact hOther (by decide) (changePass_keeps h hAccounts _ _ _)
    | nuke => exact hOther (by decide) (nuke_keeps h hAccounts hElite _ _)
    | registerUser => exact hOther (by decide) (registerUser_keeps h hAccounts _ _ _)
    | alterPass =>
      have hKeeps := alterPass_keeps h hAccounts Command.alterPass.tag pkt env.random
      exact hKeeps.trans (by simp)
    | _ => exact absurd hCmd (by decide)
  · have hNot : cmd ≠ .alterPass := by
      rintro rfl
      exact hCmd (by decide)
    have hClass : (s.con con).cls ≠ .unknown := by
      have hUnknown := h.isUnknown
      simpa [Core.isUnknown] using hUnknown
    obtain ⟨hTable, hDb⟩ := accounts_path (dispatch_path hSound cmd pkt env hOpen (.inr (.inr hClass))
      (allows_sparesAccounts h pkt env hCmd))
    refine hOther hNot (keepsAccounts_of (fun _ _ hRecord => by rwa [hTable]) fun _ d _ => ?_)
    exact ⟨(congrArg UserDb.password (hDb d) :), (congrArg UserDb.level (hDb d) :)⟩

theorem reach_accounts (f : Startup) (events : List Event) : Accounts (Server.reach f events).toCore :=
  (reach_keeps (fun _ _ _ hOp h => h.op hOp) (Accounts.start f) events).2

/-- In every state that is reached, a command of a local user below the highest level leaves the
accounts of those whom the user is not above as they are, exactly when it is no `alter_pass` that
gives one of them a new password. -/
theorem accounts_protected_iff (f : Startup) (events : List Event) {con : ConId} {own : UserId}
    (hReads : reads (Server.reach f events).toCore con = true)
    (hLocal : (Server.reach f events).LocalUser con own)
    (hElite : ((Server.reach f events).user own).level < .elite) (cmd : Command) (pkt : Str)
    (env : Env) :
    let s := Server.reach f events
    KeepsAccounts s.toCore (s.step (.packet con cmd pkt env)).toCore own ↔
      ¬ (cmd = .alterPass ∧ OverridesPassword s.toCore own pkt env.random) := by
  intro s
  have hAside := s.aside_reportSharing con cmd
  have hShielded {nick : Str} {db : UserDbId} :
      (s.reportSharing con cmd).Shielded own nick db ↔ s.Shielded own nick db :=
    ⟨hAside.symm.shielded, hAside.shielded⟩
  have hOpen : ((s.reportSharing con cmd).con con).allocated = true := by
    rw [hAside.con]
    exact (Bool.and_eq_true_iff.1 hReads).1
  have hQuiet := Core.skeleton_of_outline (s.outline_reportSharing con cmd)
  have hDone := dispatch_keepsAccounts (hAside.localUser hLocal) ((reach_sound f events).quiet hQuiet)
    ((reach_accounts f events).same (.outline (s.outline_reportSharing con cmd))) hOpen
    (by rwa [hAside.level]) cmd pkt env
  rw [step_command hLocal hReads]
  simp only [KeepsAccounts, OverridesPassword, hShielded, hAside.db, hAside.level, hAside.cfg]
    at hDone ⊢
  exact hDone

/-- A server with the accounts of an administrator and of an elite user. -/
def staffed : Startup where
  cfg := { serverName := str "hub", md5 := id }
  accounts :=
    [{ nick := str "joe", password := generatePass id (str "AAAAAAAA") (str "pw"), level := .admin },
      { nick := str "boss", password := generatePass id (str "AAAAAAAA") (str "secret")
        level := .elite }]

/-- The administrator logs in. -/
def adminOnline : List Event :=
  [.accept 2 (str "client") 6699 8888, .packet 2 .login (str "joe pw 6699 \"client\" 3") {}]

theorem accounts_protected_iff_nuke :
    let s := Server.reach staffed adminOnline
    KeepsAccounts s.toCore (s.step (.packet 2 .nuke (str "boss") {})).toCore 3 := by
  have hReads : reads (Server.reach staffed adminOnline).toCore 2 = true := by decide +kernel
  have hLocal : (Server.reach staffed adminOnline).LocalUser 2 3 :=
    ⟨by decide +kernel, by decide +kernel⟩
  have hElite : ((Server.reach staffed adminOnline).user 3).level < .elite := by decide +kernel
  have hIff := accounts_protected_iff staffed adminOnline hReads hLocal hElite .nuke (str "boss") {}
  exact hIff.2 fun h => by cases h.1

/-- An administrator sets the password of an elite user. -/
theorem elite_password_altered :
    let s := Server.reach staffed adminOnline
    s.LocalUser 2 3 ∧ (s.user 3).level = .admin ∧ s.Shielded 3 (str "boss") 1 ∧
      ¬ KeepsAccounts s.toCore
        (s.step (.packet 2 .alterPass (str "boss mine \"\"") {})).toCore 3 := by
  intro s
  have hShielded : s.Shielded 3 (str "boss") 1 :=
    ⟨by decide +kernel, by decide +kernel, by decide +kernel⟩
  refine ⟨⟨by decide +kernel, by decide +kernel⟩, by decide +kernel, hShielded, fun hKeeps => ?_⟩
  have hPassword := (hKeeps (str "boss") 1 hShielded).2.1
  exact absurd hPassword (by decide +kernel)

end Server

end OpenNap
