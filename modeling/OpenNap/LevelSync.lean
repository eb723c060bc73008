import OpenNap.Link

/-! Two linked servers that hold records of different levels for a user tell each other the levels,
and settle on one of them when one of the two prevails. -/

namespace OpenNap

open CText

/-- What a server holds for a nick: the level in the record and the time of the record, and the
level of the user who is on line. -/
structure LevelView where
  record : Level
  online : Level
  timestamp : Int
deriving DecidableEq

def Core.levelsOf (s : Core) (nick : Str) : Option LevelView :=
  match s.userDb.lookup nick, s.users.lookup nick with
  | some db, some user => some ⟨(s.db db).level, (s.user user).level, (s.db db).timestamp⟩
  | _, _ => none

/-- The message about a level that carries the time of the record. -/
def levelText (me nick : Str) (level : Level) (timestamp : Str) : Str :=
  str ":" ++ me ++ str " " ++ nick ++ str " " ++ level.text ++ str " " ++ timestamp

/-- A message from a server about the level of a nick. -/
structure SaysLevel (peer nick : Str) (level : Level) (ts : Int) (m : Message) : Prop where
  tag : m.tag = msgClientSetUserLevel
  body : ∃ name stamp, m.body = levelText peer name level stamp ∧ Word name ∧
    sameText name nick = true ∧ Word stamp ∧ atoi stamp = ts

theorem levelText_line (me nick : Str) (level : Level) (timestamp : Str) :
    levelText me nick level timestamp = ':' :: line [me, nick, level.text, timestamp] := by
  simp [levelText, line, str]

theorem Core.levelsOf_some {s : Core} {nick : Str} {v : LevelView} (h : s.levelsOf nick = some v) :
    ∃ db user, s.userDb.lookup nick = some db ∧ s.users.lookup nick = some user ∧
      (s.db db).level = v.record ∧ (s.user user).level = v.online ∧
      (s.db db).timestamp = v.timestamp := by
  unfold levelsOf at h
  split at h
  · rename_i db user hDb hUser
    cases h
    exact ⟨db, user, hDb, hUser, rfl, rfl, rfl⟩
  · cases h

namespace Server

theorem toCore_dropCloak (s : Server) (user : UserId) (level : Level) :
    ∃ f : User → User, (∀ u, (f u).level = u.level) ∧
      (s.dropCloak user level).toCore = s.toCore.modUser user f := by
  unfold dropCloak
  split
  · exact ⟨fun u => { u with cloaked := false }, fun _ => rfl, by simp⟩
  · exact ⟨id, fun _ => rfl, (Core.modUser_id s.toCore user).symm⟩

theorem queued_dropCloak {s : Server} {con : ConId} (h : s.isUser con = false) (user : UserId)
    (level : Level) : (s.dropCloak user level).queued con = s.queued con := by
  unfold dropCloak
  split
  · have hUser : (s.toCore.modUser user fun u => { u with cloaked := false }).isUser con = false := h
    rw [queued_sendIfUser (by simpa using hUser), queued_notifyMods (by simpa using hUser),
      queued_onCore]
  · rfl

/-- The end of `level` for a user who is on line. -/
theorem toCore_changeLevel (s : Server) (con : ConId) (tag : Nat) (sender : Str)
    (senderUser : Option UserId) (db : UserDbId) (user : UserId) (level : Level) :
    ∃ f : User → User, (∀ u, (f u).level = level) ∧
      (s.changeLevel con tag sender senderUser db (some user) level).toCore =
        (s.toCore.setDbLevel db level).modUser user f := by
  simp only [changeLevel]
  obtain ⟨f, hLevel, hCore⟩ := toCore_dropCloak (Server.onCore _ _) user level
  rw [hCore]
  refine ⟨fun u => f { u with level := level }, fun u => hLevel _, ?_⟩
  simp only [toCore_sendIfUser, toCore_notifyMods, toCore_onCore, toCore_passMessageArgs]
  exact Core.modUser_modUser ..

theorem queued_changeLevel {s : Server} {con : ConId} (h : s.isUser con = false) (tag : Nat)
    (sender : Str) (senderUser : Option UserId) (db : UserDbId) (user : UserId) (level : Level) :
    (s.changeLevel con tag sender senderUser db (some user) level).queued con = s.queued con := by
  have hUser : (s.toCore.setDbLevel db level).isUser con = false := h
  have hUser' : ((s.toCore.setDbLevel db level).modUser user fun u =>
      { u with level := level }).isUser con = false := h
  simp only [changeLevel]
  rw [queued_dropCloak (by simpa using hUser'), queued_onCore,
    queued_sendIfUser (by simpa using hUser), queued_notifyMods (by simpa using hUser),
    queued_passMessageArgs_except, queued_onCore]

/-- A level that a peer gives: one that the server already holds is ignored, one with a later time
than that of the record is answered with the server's own, any other is taken over. -/
theorem level_told {s : Server} {link : ConId} {peer nick : Str} (h : LinkedTo s.toCore link peer)
    (hPeer : Word peer) {v : LevelView} (hView : s.levelsOf nick = some v) {level : Level} {ts : Int}
    {m : Message} (hSays : SaysLevel peer nick level ts m) (random : Str) :
    if v.record = level ∨ v.online = level then s.level link m.tag m.body random = s
    else if v.timestamp < ts then
      ∃ db, s.userDb.lookup nick = some db ∧ s.level link m.tag m.body random =
        s.sendCmd link msgClientSetUserLevel
          (levelText s.cfg.serverName (s.db db).nick v.record
            (showNat (toUint v.timestamp).toNat))
    else
      (s.level link m.tag m.body random).queued link = s.queued link ∧
        LinkedTo (s.level link m.tag m.body random).toCore link peer ∧
        ∃ now, (s.level link m.tag m.body random).levelsOf nick = some ⟨level, level, now⟩ := by
  obtain ⟨db, user, hDb, hUser, hRecord, hOnline, hTime⟩ := Core.levelsOf_some hView
  obtain ⟨hTag, name, stamp, hBody, hWord, hName, hStamp, hTs⟩ := hSays
  have hPop : s.popUserServer link m.body =
      some (peer, none, some (line [name, level.text, stamp])) := by
    rw [hBody, levelText_line]
    simp only [Core.popUserServer, h.isServer, if_true, nextArg_line hPeer hWord, h.isServerName]
  have hSplit : splitLine 3 (line [name, level.text, stamp]) = some [name, level.text, stamp] :=
    splitLine_line (by simp [hWord, hStamp, word_level])
  have hDb' : s.userDb.lookup name = some db :=
    (Bucket.Table.lookup_congr (sameText_iff.1 hName)).trans hDb
  have hUser' : s.users.lookup name = some user :=
    (Bucket.Table.lookup_congr (sameText_iff.1 hName)).trans hUser
  have hLevel : s.level link m.tag m.body random =
      if (s.db db).level = level then s
      else if (s.user user).level = level then s
      else s.stampLevel link m.tag peer none (some stamp) db (some user) level := by
    simp only [Server.level, hPop, Option.bind_some, hSplit, getLevel_text, h.isUser, Bool.false_and,
      Option.any_false, Bool.false_eq_true, if_false, hDb', hUser', Option.any_some, beq_iff_eq,
      List.head?_cons]
  have hStamp : s.stampLevel link m.tag peer none (some stamp) db (some user) level =
      if v.timestamp < ts then
        s.sendCmd link msgClientSetUserLevel
          (levelText s.cfg.serverName (s.db db).nick v.record
            (showNat (toUint v.timestamp).toNat))
      else
        (s.onCore (·.modDb db fun r => { r with timestamp := ts })).changeLevel link m.tag peer none
          db (some user) level := by
    simp only [stampLevel, peerStamp, h.isServer, if_true, Option.map_some, hTs, Option.any_some,
      hTime, hRecord, decide_eq_true_eq, Option.any_none, Bool.false_eq_true, if_false]
    rfl
  split
  · rename_i hSame
    rw [hLevel, hRecord, hOnline]
    rcases hSame with hSame | hSame <;> simp [hSame]
  · rename_i hOther
    obtain ⟨hOther, hOther'⟩ := not_or.1 hOther
    rw [hLevel, hRecord, hOnline, if_neg hOther, if_neg hOther', hStamp]
    split
    · exact ⟨db, hDb, rfl⟩
    · generalize hStored : s.onCore (·.modDb db fun r => { r with timestamp := ts }) = t
      have hCore : t.toCore = s.toCore.modDb db fun r => { r with timestamp := ts } := by
        rw [← hStored, toCore_onCore]
      obtain ⟨f, hNew, hChanged⟩ := toCore_changeLevel t link m.tag peer none db user level
      refine ⟨?_, ?_, s.now, ?_⟩
      · rw [queued_changeLevel (by rw [hCore]; exact h.isUser), ← hStored, queued_onCore]
      · rw [hChanged, hCore]
        exact { h with }
      · rw [hChanged, hCore]
        have hDb2 : (((s.toCore.modDb db fun r => { r with timestamp := ts }).setDbLevel db
          level).modUser user f).userDb.lookup nick = some db := hDb
        have hUser2 : (((s.toCore.modDb db fun r => { r with timestamp := ts }).setDbLevel db
          level).modUser user f).users.lookup nick = some user := hUser
        simp only [Core.levelsOf, hDb2, hUser2]
        simp [Core.setDbLevel, hNew]

/-- The condition under which the level that one server holds prevails over that of the other. -/
structure LevelPrevails (winner loser : LevelView) : Prop where
  /-- the user on line has the level of the record -/
  online : winner.online = winner.record
  /-- the other server holds another level -/
  record_ne : loser.record ≠ winner.record
  online_ne : loser.online ≠ winner.record
  /-- the other server takes the level over -/
  taken : toInt32 winner.timestamp ≤ loser.timestamp
  /-- what the other server sends is answered -/
  refused : winner.timestamp < toInt32 loser.timestamp

instance (winner loser : LevelView) : Decidable (LevelPrevails winner loser) :=
  decidable_of_iff
    (winner.online = winner.record ∧ loser.record ≠ winner.record ∧
      loser.online ≠ winner.record ∧ toInt32 winner.timestamp ≤ loser.timestamp ∧
      winner.timestamp < toInt32 loser.timestamp)
    ⟨fun ⟨h, h', h'', hTaken, hRefused⟩ => ⟨h, h', h'', hTaken, hRefused⟩,
      fun h => ⟨h.online, h.record_ne, h.online_ne, h.taken, h.refused⟩⟩

/-- A server whose level prevails, on its link to a peer; `name` is the nick in the record. -/
structure HasLevel (nick name : Str) (v : LevelView) (link : ConId) (me peer : Str) (s : Server) :
    Prop where
  linked : LinkedTo s.toCore link peer
  called : s.cfg.serverName = me
  view : s.levelsOf nick = some v
  record : ∃ db, s.userDb.lookup nick = some db ∧ (s.db db).nick = name

/-- A server that the other level reaches. -/
structure HasLevels (nick : Str) (link : ConId) (peer : Str) (ok : LevelView → Prop) (s : Server) :
    Prop where
  linked : LinkedTo s.toCore link peer
  view : ∃ v, s.levelsOf nick = some v ∧ ok v

/-- A message about a level goes to `level`. -/
theorem party_level {s t : Server} {link : ConId} {peer : Str} (h : LinkedTo s.toCore link peer)
    {m : Message} {out : List Message} (hParty : party link s m t out)
    (hTag : m.tag = msgClientSetUserLevel) : ∃ seconds random,
      t = (s.reading seconds).level link m.tag m.body random ∧ out = t.queued link := by
  obtain ⟨seconds, env, hStep, hOut⟩ := party_linked h hParty .level hTag
  refine ⟨seconds, env.random, ?_, hOut⟩
  rw [hStep, hTag]
  rfl

/-- The answer of a server names its own level and the time of its record. -/
theorem reply_told {me nick name : Str} {level : Level} {timestamp : Int} (hName : Word name)
    (hSame : sameText name nick = true)
    (hFits : (levelText me name level (showNat (toUint timestamp).toNat)).length ≤ 2043)
    (con : ConId) : SaysLevel me nick level (toInt32 timestamp)
      ⟨con, msgClientSetUserLevel,
        clip (levelText me name level (showNat (toUint timestamp).toNat))⟩ := by
  refine ⟨rfl, name, _, clip_of_fits hFits, hName, hSame, word_showNat _, ?_⟩
  exact atoi_showUint timestamp

theorem level_prevails {nick name me peer : Str} {winner loser : LevelView} (la lb : ConId)
    (h : LevelPrevails winner loser) (hMe : Word me) (hPeer : Word peer) (hName : Word name)
    (hSame : sameText name nick = true)
    (hFits : (levelText me name winner.record
      (showNat (toUint winner.timestamp).toNat)).length ≤ 2043) :
    Duplex.Prevails (party la) (party lb) (HasLevel nick name winner la me peer)
      (HasLevels nick lb me fun v => v.record = winner.record ∧ v.online = winner.record)
      (HasLevels nick lb me (· = loser))
      (SaysLevel me nick winner.record (toInt32 winner.timestamp))
      (fun m => ∃ level ts, SaysLevel peer nick level ts m ∧
        (winner.record = level ∨ winner.timestamp < ts))
      (fun _ => False) where
  keeps := by
    rintro s m t out ⟨hLinked, hMyName, hView, db, hDb, hNick⟩ ⟨level, ts, hSays, hVain⟩ hParty
    obtain ⟨seconds, random, rfl, rfl⟩ := party_level hLinked hParty hSays.tag
    have hReading := linkedTo_reading hLinked seconds
    have hSpec := level_told hReading hPeer hView hSays random
    simp only [h.online, or_self] at hSpec
    by_cases hEqual : winner.record = level
    · rw [if_pos hEqual] at hSpec
      rw [hSpec]
      exact ⟨⟨hReading, hMyName, hView, db, hDb, hNick⟩, by simp, by simp, False.elim⟩
    · rw [if_neg hEqual, if_pos (hVain.resolve_left hEqual)] at hSpec
      obtain ⟨db', hDb', hReply⟩ := hSpec
      obtain rfl : db' = db := by
        have hBoth : some db' = some db := hDb'.symm.trans hDb
        exact Option.some.inj hBoth
      have hText : levelText (s.reading seconds).cfg.serverName ((s.reading seconds).db db').nick =
          levelText me name := by
        rw [← hMyName, ← hNick]
        rfl
      rw [hReply, hText, queued_sendCmd, queued_reading]
      refine ⟨⟨hReading, hMyName, hView, db', hDb, hNick⟩, by simp, fun o ho => ?_, False.elim⟩
      obtain rfl := List.mem_singleton.1 ho
      exact reply_told hName hSame hFits la
  takes := by
    rintro s m t out hHas hSays hParty
    have hView : ∃ v, s.levelsOf nick = some v ∧
        ((v.record = winner.record ∧ v.online = winner.record) ∨ v = loser) := by
      rcases hHas with hHas | hHas
      · exact hHas.view.imp fun _ hv => ⟨hv.1, .inl hv.2⟩
      · exact hHas.view.imp fun _ hv => ⟨hv.1, .inr hv.2⟩
    have hLinked : LinkedTo s.toCore lb me := hHas.elim HasLevels.linked HasLevels.linked
    obtain ⟨seconds, random, rfl, rfl⟩ := party_level hLinked hParty hSays.tag
    have hReading := linkedTo_reading hLinked seconds
    obtain ⟨v, hView, hKind⟩ := hView
    have hSpec := level_told (s := s.reading seconds) hReading hMe hView hSays random
    rcases hKind with ⟨hRecord, hOnline⟩ | rfl
    · rw [if_pos (.inl hRecord)] at hSpec
      rw [hSpec]
      exact ⟨⟨hReading, v, hView, hRecord, hOnline⟩, rfl⟩
    · rw [if_neg (not_or.2 ⟨h.record_ne, h.online_ne⟩), if_neg (not_lt.2 h.taken)] at hSpec
      obtain ⟨hQueued, hNext, now, hTaken⟩ := hSpec
      exact ⟨⟨hNext, _, hTaken, rfl, rfl⟩, by rw [hQueued, queued_reading]⟩
  left_total := fun s m _ ⟨_, _, hSays, _⟩ => party_total la s .level hSays.tag
  right_total := fun s m _ hSays => party_total lb s .level hSays.tag

/-- The message about the level of a user who is on line. -/
def levelMessage (s : Server) (link : ConId) (db : UserDbId) (user : UserId) (level : Level) :
    Message :=
  ⟨link, msgClientSetUserLevel, clip (levelText s.cfg.serverName (s.user user).nick level
    (showInt (toInt32 (s.db db).timestamp)))⟩

theorem queued_sendCmds {α : Type} (tag : Nat) (f : Server → α → Str) (con : ConId) (l : List α)
    (s : Server) : s.queued con <+: (l.foldl (fun s a => s.sendCmd con tag (f s a)) s).queued con := by
  induction l generalizing s with
  | nil => exact List.prefix_refl _
  | cons a l ih =>
    rw [List.foldl_cons]
    exact (List.prefix_append _ _).trans (queued_sendCmd (s := s) tag (f s a) ▸ ih _)

/-- `sync_user` sends this message about a user of another level than the usual one. -/
theorem levelMessage_syncUser {s : Server} {con : ConId} {user : UserId} {db : UserDbId}
    (hCon : (s.user user).con ≠ con) (hLevel : (s.user user).level ≠ .user)
    (hDb : s.userDb.lookup (s.user user).nick = some db) :
    s.levelMessage con db user (s.user user).level ∈ (s.syncUser con user).queued con := by
  have hIf (c : Prop) [Decidable c] (t : Server) (tag : Nat) (body : Str) :
      t.queued con <+: (if c then t.sendCmd con tag body else t).queued con := by
    split
    · rw [queued_sendCmd]
      exact List.prefix_append _ _
    · exact List.prefix_refl _
  have hIfNot (c : Prop) [Decidable c] (t : Server) (tag : Nat) (body : Str) :
      t.queued con <+: (if c then t else t.sendCmd con tag body).queued con := by
    split
    · exact List.prefix_refl _
    · rw [queued_sendCmd]
      exact List.prefix_append _ _
  simp only [syncUser, if_neg hCon, if_neg hLevel, toCore_sendCmd, hDb]
  refine List.IsPrefix.mem ?_ (hIf _ _ _ _)
  refine List.IsPrefix.mem ?_ (queued_sendCmds msgClientJoin _ con _ _)
  refine List.IsPrefix.mem ?_ (hIfNot _ _ _ _)
  refine List.IsPrefix.mem ?_ (hIf _ _ _ _)
  rw [queued_sendCmd]
  exact List.mem_append_right _ (List.mem_singleton.2 rfl)

/-- So does `login` for a registered user of another level. -/
theorem levelMessage_applyLevel {s : Server} {link : ConId} {peer : Str}
    (h : LinkedTo s.toCore link peer) (con : ConId) {user : UserId} {db : UserDbId}
    (hLevel : (s.db db).level ≠ .user) :
    s.levelMessage link db user (s.db db).level ∈ (s.applyLevel con user (s.db db)).queued link := by
  simp only [applyLevel, if_pos hLevel]
  rw [queued_passMessageArgs]
  refine List.mem_append_right _ (List.mem_replicate.2 ⟨?_, rfl⟩)
  simp only [toCore_sendIfUser, toCore_onCore, toCore_notifyMods]
  show s.servers.count link ≠ 0
  rw [h.listed]
  decide

/-- What a server holds under two pointers. -/
def levelView (s : Server) (db : UserDbId) (user : UserId) : LevelView :=
  ⟨(s.db db).level, (s.user user).level, (s.db db).timestamp⟩

/-- A server that has a record for a nick and the user on line, on its link to a peer, and sends the
level of one of them.  Names are single words, and the lines it may send fit the buffer. -/
structure TellsLevel (s : Server) (link : ConId) (peer nick : Str) (db : UserDbId) (user : UserId)
    (level : Level) : Prop where
  linked : LinkedTo s.toCore link peer
  me : Word s.cfg.serverName
  registered : s.userDb.lookup nick = some db
  onLine : s.users.lookup nick = some user
  recordNick : Word (s.db db).nick
  recordName : sameText (s.db db).nick nick = true
  userNick : Word (s.user user).nick
  userName : sameText (s.user user).nick nick = true
  sent : level = (s.user user).level ∨ level = (s.db db).level
  fits : (levelText s.cfg.serverName (s.user user).nick level
    (showInt (toInt32 (s.db db).timestamp))).length ≤ 2043
  replyFits : (levelText s.cfg.serverName (s.db db).nick (s.db db).level
    (showNat (toUint (s.db db).timestamp).toNat)).length ≤ 2043

instance (s : Server) (link : ConId) (peer nick : Str) (db : UserDbId) (user : UserId)
    (level : Level) : Decidable (TellsLevel s link peer nick db user level) :=
  decidable_of_iff
    (LinkedTo s.toCore link peer ∧ Word s.cfg.serverName ∧
      (s.userDb.lookup nick = some db ∧ s.users.lookup nick = some user) ∧
      (Word (s.db db).nick ∧ sameText (s.db db).nick nick = true) ∧
      (Word (s.user user).nick ∧ sameText (s.user user).nick nick = true) ∧
      (level = (s.user user).level ∨ level = (s.db db).level) ∧
      (levelText s.cfg.serverName (s.user user).nick level
        (showInt (toInt32 (s.db db).timestamp))).length ≤ 2043 ∧
      (levelText s.cfg.serverName (s.db db).nick (s.db db).level
        (showNat (toUint (s.db db).timestamp).toNat)).length ≤ 2043)
    ⟨fun ⟨hLink, hMe, ⟨hDb, hUser⟩, ⟨hNick, hName⟩, ⟨hNick', hName'⟩, hSent, hFits, hReply⟩ =>
        ⟨hLink, hMe, hDb, hUser, hNick, hName, hNick', hName', hSent, hFits, hReply⟩,
      fun h => ⟨h.linked, h.me, ⟨h.registered, h.onLine⟩, ⟨h.recordNick, h.recordName⟩,
        ⟨h.userNick, h.userName⟩, h.sent, h.fits, h.replyFits⟩⟩

namespace TellsLevel

variable {s : Server} {link : ConId} {peer nick : Str} {db : UserDbId} {user : UserId}
  {level : Level}

theorem view (h : TellsLevel s link peer nick db user level) :
    s.levelsOf nick = some (s.levelView db user) := by
  simp only [Core.levelsOf, h.registered, h.onLine, levelView]

theorem told (h : TellsLevel s link peer nick db user level) :
    SaysLevel s.cfg.serverName nick level (toInt32 (s.db db).timestamp)
      (s.levelMessage link db user level) :=
  ⟨rfl, _, _, clip_of_fits h.fits, h.userNick, h.userName, word_showInt _, atoi_showInt32 _⟩

end TellsLevel

/-- Both servers hold the level for the nick, in the record and for the user on line. -/
def SameLevel (nick : Str) (level : Level) (a b : Server) : Prop :=
  (∃ t, a.levelsOf nick = some ⟨level, level, t⟩) ∧ ∃ t, b.levelsOf nick = some ⟨level, level, t⟩

theorem winner_settles {a b : Server} {la lb : ConId} {nick : Str} {dbA dbB : UserDbId}
    {userA userB : UserId} {levelA levelB : Level}
    (hA : TellsLevel a la b.cfg.serverName nick dbA userA levelA)
    (hB : TellsLevel b lb a.cfg.serverName nick dbB userB levelB)
    (h : LevelPrevails (a.levelView dbA userA) (b.levelView dbB userB)) (inOrder : Prop) :
    Duplex.Settles (party la) (party lb) inOrder (SameLevel nick (a.db dbA).level)
      { left := a.reading 0, right := b.reading 0
        toLeft := [b.levelMessage lb dbB userB levelB]
        toRight := [a.levelMessage la dbA userA levelA] } := by
  have hPrevails := level_prevails la lb h hA.me hB.me hA.recordNick hA.recordName hA.replyFits
  have hOnline : (a.user userA).level = (a.db dbA).level := h.online
  have hLevel : levelA = (a.db dbA).level := hA.sent.elim (·.trans hOnline) id
  refine (hPrevails.settles ⟨⟨linkedTo_reading hA.linked 0, rfl, hA.view, dbA, hA.registered, rfl⟩,
    .inr ⟨linkedTo_reading hB.linked 0, _, hB.view, rfl⟩, ?_, ?_, .inr (.inl (by simp))⟩).imp ?_
  · intro m hm
    obtain rfl := List.mem_singleton.1 hm
    exact ⟨levelB, _, hB.told, .inr h.refused⟩
  · intro m hm
    obtain rfl := List.mem_singleton.1 hm
    have hSays := hA.told
    rw [hLevel] at hSays ⊢
    exact hSays
  · rintro s t ⟨hHas, hTaken⟩
    obtain ⟨v, hView, hRecord, hUser⟩ := hTaken.view
    obtain ⟨record, online, timestamp⟩ := v
    obtain rfl : record = (a.db dbA).level := hRecord
    obtain rfl : online = (a.db dbA).level := hUser
    refine ⟨⟨(a.db dbA).timestamp, hHas.view.trans ?_⟩, timestamp, hView⟩
    simp only [levelView, hOnline]

/-- The servers settle on one level when the level of one of them prevails, in whatever order the
messages are processed. -/
theorem level_settles {a b : Server} {la lb : ConId} {nick : Str} {dbA dbB : UserDbId}
    {userA userB : UserId} {levelA levelB : Level}
    (hA : TellsLevel a la b.cfg.serverName nick dbA userA levelA)
    (hB : TellsLevel b lb a.cfg.serverName nick dbB userB levelB)
    (h : LevelPrevails (a.levelView dbA userA) (b.levelView dbB userB) ∨
      LevelPrevails (b.levelView dbB userB) (a.levelView dbA userA)) (inOrder : Prop) :
    Duplex.Settles (party la) (party lb) inOrder (fun a b => ∃ level, SameLevel nick level a b)
      { left := a.reading 0, right := b.reading 0
        toLeft := [b.levelMessage lb dbB userB levelB]
        toRight := [a.levelMessage la dbA userA levelA] } := by
  rcases h with h | h
  · exact (winner_settles hA hB h inOrder).imp fun _ _ hSame => ⟨_, hSame⟩
  · have hSwapped := (winner_settles hB hA h inOrder).swap
    exact hSwapped.imp fun _ _ hSame => ⟨_, hSame.2, hSame.1⟩

/-- A server with a record of a level for a nick, which is linked to a peer that has the user. -/
def levelKeeper (me peer : String) (level : Level) (timestamp : Int) : Server :=
  reach
    { cfg := { serverName := str me, md5 := id }
      accounts :=
        [{ nick := str "nick", password := generatePass id (str "AAAAAAAA") (str "pw")
           level := level, timestamp := timestamp }] }
    [.accept 1 (str peer) 8888 8888, .link 1,
      .packet 1 .login (str "nick pw 0 \"client\" 3 unknown 4 5 other 0") {}]

/-- The record of time 5 prevails over that of time 7. -/
theorem level_settles_older :
    Duplex.Settles (party 1) (party 1) False (fun a b => ∃ level, SameLevel (str "nick") level a b)
      { left := (levelKeeper "a" "b" .admin 5).reading 0
        right := (levelKeeper "b" "a" .elite 7).reading 0
        toLeft := [(levelKeeper "b" "a" .elite 7).levelMessage 1 0 2 .elite]
        toRight := [(levelKeeper "a" "b" .admin 5).levelMessage 1 0 2 .admin] } := by
  have hA : TellsLevel (levelKeeper "a" "b" .admin 5) 1
      (levelKeeper "b" "a" .elite 7).cfg.serverName (str "nick") 0 2 .admin := by decide +kernel
  have hB : TellsLevel (levelKeeper "b" "a" .elite 7) 1
      (levelKeeper "a" "b" .admin 5).cfg.serverName (str "nick") 0 2 .elite := by decide +kernel
  exact level_settles hA hB (.inl (by decide +kernel)) False

/-- When both records are of one time, each server takes over the level of the other. -/
theorem levels_swap :
    ¬ Duplex.Settles (party 1) (party 1) True (fun a b => ∃ level, SameLevel (str "nick") level a b)
      { left := (levelKeeper "a" "b" .admin 5).reading 0
        right := (levelKeeper "b" "a" .elite 5).reading 0
        toLeft := [(levelKeeper "b" "a" .elite 5).levelMessage 1 0 2 .elite]
        toRight := [(levelKeeper "a" "b" .admin 5).levelMessage 1 0 2 .admin] } := by
  intro hSettles
  have hRight := hSettles.firstRight rfl ⟨0, .level, {}, rfl, rfl, rfl⟩
  have hLeft := hRight.firstLeft rfl ⟨0, .level, {}, rfl, rfl, rfl⟩
  obtain ⟨level, ⟨t, hA⟩, ⟨t', hB⟩⟩ := hLeft.good ⟨by decide +kernel, by decide +kernel⟩
  have hRecordA := congrArg (Option.map LevelView.record) hA
  have hRecordB := congrArg (Option.map LevelView.record) hB
  exact absurd (hRecordA.trans hRecordB.symm) (by decide +kernel)

end Server

end OpenNap
