import OpenNap.Authority

/-! What a level command that is refused leaves behind.  The record of a user who has none, and the
time that a peer gives, are written before the last look at what the sender may do. -/

namespace OpenNap

open CText Core

/-- How a level command ends. -/
inductive LevelEnd
  /-- the sender of a peer's packet is not known -/
  | nobody
  | unparsable
  /-- "invalid level" -/
  | invalid
  /-- "permission denied" -/
  | denied
  /-- "user is is not registered" -/
  | unregistered
  /-- the user has the level already -/
  | already
  /-- a peer's time is later than that of the record -/
  | disputed
  | changed
deriving DecidableEq

/-- The ends with a refusal. -/
def LevelEnd.refused : LevelEnd → Bool
  | invalid | denied | unregistered => true
  | _ => false

namespace Server

/-- `stampLevel` with its end. -/
def stampLevelEnd (s : Server) (con : ConId) (tag : Nat) (sender : Str) (senderUser : Option UserId)
    (stamp : Option Str) (db : UserDbId) (user : Option UserId) (level : Level) : Server × LevelEnd :=
  let stamp := peerStamp s.toCore con stamp
  if stamp.any fun ts => decide ((s.db db).timestamp < ts) then
    let r := s.db db
    (s.sendCmd con msgClientSetUserLevel
      (str ":" ++ s.cfg.serverName ++ str " " ++ r.nick ++ str " " ++ r.level.text ++ str " " ++
        showNat (toUint r.timestamp).toNat), .disputed)
  else
    let s := s.onCore (·.setStamp db stamp)
    let denied := senderUser.any fun su =>
      some su != user && decide ((s.user su).level < .elite) &&
        decide ((s.user su).level ≤ (s.db db).level)
    if denied then (s.permissionDenied con, .denied)
    else (s.changeLevel con tag sender senderUser db user level, .changed)

/-- The test of a local user's request against the user's own level. -/
def levelTooHigh (s : Core) (con : ConId) (level : Level) : Bool :=
  (s.con con).user.any fun u =>
    s.isUser con && decide ((s.user u).level < .elite) && decide ((s.user u).level ≤ level)

/-- `level` with its end. -/
def levelEnd (s : Server) (con : ConId) (tag : Nat) (pkt random : Str) : Server × LevelEnd :=
  match s.popUserServer con pkt with
  | none => (s, .nobody)
  | some (sender, senderUser, rest) =>
    match rest.bind (splitLine 3) with
    | some (nick :: newLevel :: more) =>
      match getLevel newLevel with
      | none => (s.sendIfUser con msgServerNosuch (str "invalid level"), .invalid)
      | some newLevel =>
        if levelTooHigh s.toCore con newLevel then (s.permissionDenied con, .denied)
        else
          let user := s.users.lookup nick
          match s.userDb.lookup nick with
          | some db =>
            if (s.db db).level = newLevel then (s, .already)
            else if user.any fun u => (s.user u).level == newLevel then (s, .already)
            else s.stampLevelEnd con tag sender senderUser more.head? db user newLevel
          | none =>
            match user with
            | none =>
              (s.sendIfUser con msgServerNosuch (str "user is is not registered"), .unregistered)
            | some u =>
              if (s.user u).level = newLevel then (s, .already)
              else
                let db := s.next
                (s.onCore (·.createDb u random)).stampLevelEnd con tag sender senderUser more.head?
                  db user newLevel
    | _ => (s.unparsable con, .unparsable)

/-- What a refusal must not change: the records, and the levels and cloaks of the users on line. -/
structure SameRanks (s t : Core) : Prop where
  userDb : t.userDb = s.userDb
  record : ∀ db ∈ s.userDb.values, t.db db = s.db db
  level : ∀ user ∈ s.users.values, (t.user user).level = (s.user user).level
  cloaked : ∀ user ∈ s.users.values, (t.user user).cloaked = (s.user user).cloaked

/-- Nothing is written before the request is refused: the level is none, a local user asks for no
level below the user's own, the user is neither registered nor on line, or is registered and no
peer gives another time than the record's. -/
def WritesNothing (s : Core) (con : ConId) (pkt : Str) : Prop :=
  match s.popUserServer con pkt with
  | none => True
  | some (_, _, rest) =>
    match rest.bind (splitLine 3) with
    | some (nick :: newLevel :: more) =>
      match getLevel newLevel with
      | none => True
      | some level =>
        levelTooHigh s con level = true ∨
          match s.userDb.lookup nick with
          | some db => ∀ ts ∈ peerStamp s con more.head?, ts = (s.db db).timestamp
          | none => s.users.lookup nick = none
    | _ => True

variable {s : Server} {con : ConId}

theorem stampLevelEnd_fst (s : Server) (con : ConId) (tag : Nat) (sender : Str)
    (senderUser : Option UserId) (stamp : Option Str) (db : UserDbId) (user : Option UserId)
    (level : Level) :
    (s.stampLevelEnd con tag sender senderUser stamp db user level).1 =
      s.stampLevel con tag sender senderUser stamp db user level := by
  simp only [stampLevelEnd, stampLevel]
  split
  · rfl
  · split <;> rfl

theorem SameRanks.of_eq {s t : Core} (h : t = s) : SameRanks s t := by
  subst h
  exact ⟨rfl, fun _ _ => rfl, fun _ _ => rfl, fun _ _ => rfl⟩

/-- The last refusal comes after the time of the record is set. -/
theorem stampLevelEnd_refused {tag : Nat} {sender : Str} {senderUser : Option UserId}
    {stamp : Option Str} {db : UserDbId} {user : Option UserId} {level : Level}
    (h : (s.stampLevelEnd con tag sender senderUser stamp db user level).2.refused = true) :
    (s.stampLevelEnd con tag sender senderUser stamp db user level).1.toCore =
      s.toCore.setStamp db (peerStamp s.toCore con stamp) := by
  simp only [stampLevelEnd] at h ⊢
  split at h
  · cases h
  · rename_i hTime
    split at h
    · rename_i hDenied
      rw [if_neg hTime, if_pos hDenied, toCore_permissionDenied, toCore_onCore]
    · cases h

/-- A record of which only the time is set. -/
theorem sameRanks_setStamp {s : Core} {db : UserDbId} (hDb : db ∈ s.userDb.values)
    (stamp : Option Int) :
    SameRanks s (s.setStamp db stamp) ↔ ∀ ts ∈ stamp, ts = (s.db db).timestamp := by
  cases stamp with
  | none => exact ⟨fun _ ts hts => (by cases hts), fun _ => .of_eq rfl⟩
  | some ts =>
    constructor
    · intro h ts' hts
      cases hts
      have hSame := congrArg UserDb.timestamp (h.record db hDb)
      simpa [setStamp] using hSame
    · intro h
      refine ⟨rfl, fun d _ => ?_, fun _ _ => rfl, fun _ _ => rfl⟩
      by_cases hd : d = db
      · subst hd
        simp [setStamp, h ts rfl]
      · simp [setStamp, hd]

/-- A new record is one more. -/
theorem not_sameRanks_createDb (s : Core) (user : UserId) (random : Str) (db : UserDbId)
    (stamp : Option Int) : ¬ SameRanks s ((s.createDb user random).setStamp db stamp) := by
  intro h
  have hTable : ((s.createDb user random).setStamp db stamp).userDb =
      s.userDb.add (s.user user).nick s.next := by
    cases stamp <;> rfl
  have hLen := (s.userDb.entries_add (s.user user).nick s.next).length_eq
  rw [← hTable, h.userDb, List.length_cons] at hLen
  omega

/-- The end belongs to the command as it is, and a refused command changes nothing exactly when it
writes nothing before. -/
theorem levelEnd_spec (s : Server) (con : ConId) (tag : Nat) (pkt random : Str) :
    (s.levelEnd con tag pkt random).1 = s.level con tag pkt random ∧
      ((s.levelEnd con tag pkt random).2.refused = true →
        (SameRanks s.toCore (s.levelEnd con tag pkt random).1.toCore ↔
          WritesNothing s.toCore con pkt)) := by
  have hSame {t : Server} {P : Prop} (hEq : t.toCore = s.toCore) (hP : P) :
      SameRanks s.toCore t.toCore ↔ P := ⟨fun _ => hP, fun _ => .of_eq hEq⟩
  simp only [levelEnd, level, WritesNothing, levelTooHigh]
  cases hPop : s.popUserServer con pkt with
  | none => exact ⟨rfl, fun h => by cases h⟩
  | some sent =>
    obtain ⟨sender, senderUser, rest⟩ := sent
    simp only
    rcases hFields : rest.bind (splitLine 3) with _ | _ | ⟨nick, _ | ⟨newLevel, more⟩⟩
    · exact ⟨rfl, fun h => by cases h⟩
    · exact ⟨rfl, fun h => by cases h⟩
    · exact ⟨rfl, fun h => by cases h⟩
    simp only
    cases hLevel : getLevel newLevel with
    | none => exact ⟨rfl, fun _ => hSame (toCore_sendIfUser ..) trivial⟩
    | some level =>
      simp only
      split
      · rename_i hHigh
        exact ⟨rfl, fun _ => hSame (toCore_permissionDenied ..) (.inl hHigh)⟩
      · rename_i hLow
        simp only [hLow, Bool.false_eq_true, false_or]
        cases hRecord : s.userDb.lookup nick with
        | some db =>
          simp only
          split
          · exact ⟨rfl, fun h => by cases h⟩
          · split
            · exact ⟨rfl, fun h => by cases h⟩
            · refine ⟨stampLevelEnd_fst .., fun hEnd => ?_⟩
              rw [stampLevelEnd_refused hEnd]
              exact sameRanks_setStamp (Bucket.Table.mem_values_of_lookup hRecord) _
        | none =>
          cases hUser : s.users.lookup nick with
          | none => exact ⟨rfl, fun _ => hSame (toCore_sendIfUser ..) rfl⟩
          | some user =>
            simp only
            split
            · exact ⟨rfl, fun h => by cases h⟩
            · refine ⟨stampLevelEnd_fst .., fun hEnd => ?_⟩
              rw [stampLevelEnd_refused hEnd]
              have hMore := not_sameRanks_createDb s.toCore user random s.next
                (peerStamp (s.onCore (·.createDb user random)).toCore con more.head?)
              exact ⟨fun h => (hMore h).elim, fun h => by cases h⟩

/-- In every state that is reached, a level command that is refused leaves the records, the levels and
the cloaks as they were exactly when it writes nothing before it is refused. -/
theorem level_refused_iff (f : Startup) (events : List Event) (con : ConId) (tag : Nat)
    (pkt random : Str) :
    let s := Server.reach f events
    (s.levelEnd con tag pkt random).2.refused = true →
      (SameRanks s.toCore (s.level con tag pkt random).toCore ↔ WritesNothing s.toCore con pkt) := by
  intro s hRefused
  have hSpec := levelEnd_spec s con tag pkt random
  rw [← hSpec.1]
  exact hSpec.2 hRefused

/-- Two users log in, neither of whom is registered. -/
def twoGuests : List Event :=
  [.accept 1 (str "a") 6699 8888, .packet 0 .login (str "joe pw 6699 \"client\" 3") {},
    .accept 2 (str "b") 6699 8888, .packet 2 .login (str "bob pw 6699 \"client\" 3") {}]

theorem level_refused_iff_guests :
    SameRanks (Server.reach hub twoGuests).toCore
      ((Server.reach hub twoGuests).level 2 msgClientSetUserLevel (str "joe Leech") []).toCore ↔
        WritesNothing (Server.reach hub twoGuests).toCore 2 (str "joe Leech") := by
  have hRefused : ((Server.reach hub twoGuests).levelEnd 2 msgClientSetUserLevel (str "joe Leech")
      []).2.refused = true := by decide +kernel
  exact level_refused_iff hub twoGuests 2 msgClientSetUserLevel _ [] hRefused

/-- The one has no right to change the level of the other, who is registered by the request. -/
theorem level_refused_registers :
    let s := Server.reach hub twoGuests
    let done := s.levelEnd 2 msgClientSetUserLevel (str "joe Leech") []
    done.2 = .denied ∧ s.userDb.lookup (str "joe") = none ∧
      (s.level 2 msgClientSetUserLevel (str "joe Leech") []).userDb.lookup (str "joe") ≠ none := by
  decide +kernel

end Server

end OpenNap
