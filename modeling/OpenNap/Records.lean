import OpenNap.Frames

/-! The records of registered users and the list of bans.  Only the operations with a label change
them, and `Op.records` says which change each of them makes. -/

namespace OpenNap

open CText

/-- From `s` to `t` neither the bans nor the records of registered users change. -/
structure SameRecords (s t : Core) : Prop where
  cfg : t.cfg = s.cfg
  next : s.next ≤ t.next
  bans : t.bans = s.bans
  userDb : t.userDb = s.userDb
  db : ∀ d, (t.db d).outline = (s.db d).outline

namespace SameRecords

theorem refl (s : Core) : SameRecords s s := ⟨rfl, le_refl _, rfl, rfl, fun _ => rfl⟩

theorem trans {s t u : Core} (h1 : SameRecords s t) (h2 : SameRecords t u) : SameRecords s u where
  cfg := h2.cfg.trans h1.cfg
  next := h1.next.trans h2.next
  bans := h2.bans.trans h1.bans
  userDb := h2.userDb.trans h1.userDb
  db d := (h2.db d).trans (h1.db d)

theorem foldl {α : Type} {f : Core → α → Core} (h : ∀ s a, SameRecords s (f s a)) (l : List α)
    (s : Core) : SameRecords s (l.foldl f s) := by
  induction l generalizing s with
  | nil => exact refl s
  | cons a l ih => exact (h s a).trans (ih _)

theorem outline {s t : Core} (h : t.outline = s.outline) : SameRecords s t where
  cfg := (congrArg Core.cfg h :)
  next := (congrArg Core.next h).ge
  bans := (congrArg Core.bans h :)
  userDb := (congrArg Core.userDb h :)
  db d := (congrFun (congrArg Core.db h) d :)

theorem channelOutline {s t : Core} (h : t.channelOutline = s.channelOutline) :
    SameRecords s t where
  cfg := (congrArg Core.cfg h :)
  next := (congrArg Core.next h).ge
  bans := (congrArg Core.bans h :)
  userDb := (congrArg Core.userDb h :)
  db d := (congrFun (congrArg Core.db h) d :)

/-- Records are neither channels nor files nor searches. -/
theorem chan {s t : Core} (h : ChanStep s t) : SameRecords s t where
  cfg := (congrArg Core.cfg h.rest :)
  next := h.next
  bans := (congrArg Core.bans h.rest :)
  userDb := (congrArg Core.userDb h.rest :)
  db d := congrArg UserDb.outline (congrFun (congrArg Core.db h.rest) d)

theorem file {s t : Core} (h : FileStep s t) : SameRecords s t where
  cfg := (congrArg Core.cfg h.rest :)
  next := h.next
  bans := (congrArg Core.bans h.rest :)
  userDb := (congrArg Core.userDb h.rest :)
  db d := congrArg UserDb.outline (congrFun (congrArg Core.db h.rest) d)

theorem search {s t : Core} (h : SearchStep s t) : SameRecords s t where
  cfg := (congrArg Core.cfg h.rest :)
  next := (congrArg Core.next h.rest).ge
  bans := (congrArg Core.bans h.rest :)
  userDb := (congrArg Core.userDb h.rest :)
  db d := congrArg UserDb.outline (congrFun (congrArg Core.db h.rest) d)

/-- The time of the last visit is not what a record says about the user. -/
theorem recordLogoff (s : Core) (nick : Str) : SameRecords s (s.recordLogoff nick) := by
  simp only [Core.recordLogoff]
  split
  · exact outline (s.outline_modDb _ rfl)
  · exact refl s

theorem hashRemoveUser (s : Core) (nick : Str) : SameRecords s (s.hashRemoveUser nick) := by
  simp only [Core.hashRemoveUser]
  split
  · exact refl s
  · rename_i user _
    have hChan : ChanStep s ((s.partChannels user).dropInvitations user) :=
      (s.chanStep_partChannels user).trans (Core.chanStep_dropInvitations _ user)
    have hCount : FileStep ((s.partChannels user).dropInvitations user)
        (((s.partChannels user).dropInvitations user).uncountUser user) := ⟨rfl, le_refl _⟩
    have hFree : SameRecords s (s.freeUser user) :=
      ((chan hChan).trans (file hCount)).trans (recordLogoff _ _)
    exact { hFree with }

theorem freeOptions (s : Core) (con : ConId) : SameRecords s (s.freeOptions con) := by
  have hHot (s : Core) (hot : HotlistId) : SameRecords s (s.leaveHotlist con hot) := by
    simp only [Core.leaveHotlist]
    split <;> exact { refl s with }
  exact (foldl hHot _ s).trans { file (Core.fileStep_freeFiles _ con) with }

theorem removeUser (s : Core) (con : ConId) : SameRecords s (s.removeUser con) := by
  simp only [Core.removeUser]
  split
  · exact refl s
  · exact (hashRemoveUser s _).trans (freeOptions _ con)

theorem zap (s : Core) (con : ConId) : SameRecords s (s.zapLocalUser con) := by
  have hKilled : SameRecords s (s.modCon con fun c => { c with killed := true }) :=
    { refl s with }
  exact { hKilled.trans (removeUser _ con) with }

theorem accept (s : Core) (ip : UInt32) (host : Str) (port localPort : UInt16) :
    SameRecords s (s.accept ip host port localPort) := by
  have hNew : SameRecords s (s.newConnection ip host port localPort) :=
    ⟨rfl, Nat.le_succ _, rfl, rfl, fun _ => rfl⟩
  have hSlot (s : Core) (con : ConId) : SameRecords s (s.addClient con) := by
    simp only [Core.addClient]
    split
    · exact { refl s with }
    · split <;> exact { refl s with }
  exact hNew.trans (hSlot _ _)

end SameRecords

/-- An operation as the bans and the records of registered users see it. -/
inductive RecordOp (ok : Label → Core → Prop) : Core → Core → Prop
  | same {s t : Core} (h : SameRecords s t) : RecordOp ok s t
  | add {s : Core} (r : UserDb) (hOk : ok .account s) : RecordOp ok s (s.addRecord r)
  | set {s : Core} {db : UserDbId} {f : UserDb → UserDb} (hNick : (f (s.db db)).nick = (s.db db).nick)
      (hOk : ok .account s) : RecordOp ok s (s.modDb db f)
  | drop {s : Core} (db : UserDbId) (hOk : ok (.drop db) s) : RecordOp ok s (s.removeDb db)
  | addBan {s : Core} {b : Ban} (hOk : ok (.ban b) s) : RecordOp ok s (s.addBan b)
  | dropBans {s : Core} {bans : List Ban} (hBans : bans.Sublist s.bans) (hOk : ok .unban s) :
      RecordOp ok s { s with bans := bans }

/-- Every operation is one of these. -/
theorem Op.recordOp {ok : Label → Core → Prop} {s t : Core} (hOp : Op ok s t) : RecordOp ok s t := by
  have hUser {u : Core} (hNext : u.next = s.next + 1) (hCfg : u.cfg = s.cfg)
      (hBans : u.bans = s.bans) (hDb : u.userDb = s.userDb) (hRec : u.db = s.db) :
      SameRecords s (u.addUser s.next) :=
    ⟨hCfg, by rw [Core.addUser, hNext]; exact Nat.le_succ _, hBans, hDb,
      fun d => by rw [Core.addUser, hRec]⟩
  cases hOp with
  | quiet h => exact .same (.outline (Core.outline_of_detail h))
  | fine hFine =>
    obtain ⟨n, hNext, hOutline⟩ := hFine.outline
    have hRaised : SameRecords s { s with next := n } := { SameRecords.refl s with next := hNext }
    exact .same (hRaised.trans (.outline hOutline))
  | tick => exact .same { SameRecords.refl s with }
  | addRecord _ hOk => exact .add _ hOk
  | setRecord hNick _ hOk => exact .set hNick hOk
  | dropRecord hOk => exact .drop _ hOk
  | person h => exact .same (.channelOutline (Core.channelOutline_of_personal h))
  | setUserLevel => exact .same { SameRecords.refl s with }
  | addBan hOk => exact .addBan hOk
  | dropBans hBans hOk => exact .dropBans hBans hOk
  | accept => exact .same (.accept s _ _ _ _)
  | linkServer | unlinkServer | close => exact .same { SameRecords.refl s with }
  | loginLocal | loginRemote => exact .same (hUser rfl rfl rfl rfl rfl)
  | removeRemote => exact .same (.hashRemoveUser s _)
  | @zap con => exact .same (.zap s con)
  | @hangUp con => exact .same { SameRecords.removeUser s con with }
  | enter => exact .same (.chan (s.chanStep_enterAs _ _))
  | found =>
    exact .same (.chan ((s.chanStep_newChannel _).trans (Core.chanStep_enterChannel _ _ _)))
  | leave =>
    exact .same (.chan ((s.chanStep_deleteChannel _ _).trans (Core.chanStep_partChannel _ _ _)))
  | dropChannel => exact .same (.chan (s.chanStep_hashRemoveChannel _))
  | flagChannel | setTopic | setLevel | setLimit => exact .same (.chan (s.chanStep_modChan _ _))
  | addOperator => exact .same (.chan (s.chanStep_addOperator _ _))
  | dropOperator => exact .same (.chan (s.chanStep_dropOperator _ _))
  | insert => exact .same (.file (s.fileStep_insertDatum _ _ _))
  | dropFile => exact .same (.file (s.fileStep_dropFile _ _ _))
  | report => exact .same (.file (s.fileStep_reportShared _ _ _ _))
  | collect => exact .same (.file s.fileStep_fdbGarbageCollect)
  | finishSearch => exact .same (.search (s.searchStep_finishSearch _ _ _))
  | forwardSearch => exact .same (.search (s.searchStep_forwardSearch _ _ _ _))
  | result => exact .same (.search (s.searchStep_note _))
  | expire => exact .same (.search (s.searchStep_expireSearches _ _))
  | answer => exact .same (.search (s.searchStep_answerSearch _ _))
  | cancel =>
    exact .same (.search ((s.searchStep_note _).trans (Core.searchStep_cancelSearch _ _)))

/-- Where no operation on settings is allowed, nothing changes. -/
theorem SameRecords.path {ok : Label → Core → Prop} {s t : Core} (hPath : Op.Path ok s t)
    (hOk : ∀ l s, l.isSetting = true → ¬ ok l s) : SameRecords s t := by
  refine hPath.invariant (I := fun t => SameRecords s t) (fun t u hOp h => ?_) (refl s)
  cases hOp.recordOp with
  | same hSame => exact h.trans hSame
  | add _ hNot | set _ hNot | drop _ hNot | addBan hNot | dropBans _ hNot =>
    exact absurd hNot (hOk _ _ rfl)

/-- Every record is in the table under its name. -/
structure Accounts (s : Core) : Prop where
  keyed : ∀ e ∈ s.userDb.entries, strlower e.1 = strlower (s.db e.2).nick
  known : ∀ d ∈ s.userDb.values, d < s.next

namespace Accounts

variable {s t : Core}

theorem same (h : Accounts s) (hSame : SameRecords s t) : Accounts t where
  keyed e he := by
    have hNick : (t.db e.2).nick = (s.db e.2).nick := (congrArg UserDb.nick (hSame.db e.2) :)
    rw [hSame.userDb] at he
    rw [hNick]
    exact h.keyed e he
  known d hd := by
    rw [hSame.userDb] at hd
    exact (h.known d hd).trans_le hSame.next

theorem add (h : Accounts s) (r : UserDb) : Accounts (s.addRecord r) where
  keyed e he := by
    rcases List.mem_cons.1 ((s.userDb.entries_add _ _).mem_iff.1 he) with rfl | he
    · simp [Core.addRecord]
    · have hOld : e.2 ≠ s.next := (h.known _ (Bucket.Table.mem_values.2 ⟨e.1, he⟩)).ne
      simpa [Core.addRecord, hOld] using h.keyed e he
  known d hd := by
    rcases List.mem_cons.1 ((s.userDb.values_add _ _).mem_iff.1 hd) with rfl | hd
    · exact Nat.lt_succ_self _
    · exact (h.known d hd).trans (Nat.lt_succ_self _)

theorem op {ok : Label → Core → Prop} (hOp : Op ok s t) (h : Accounts s) : Accounts t := by
  cases hOp.recordOp with
  | same hSame => exact h.same hSame
  | add r => exact h.add r
  | @set db f hNick =>
    refine ⟨fun e he => ?_, h.known⟩
    by_cases hEq : e.2 = db
    · simpa [hEq, hNick] using hEq ▸ h.keyed e he
    · simpa [hEq] using h.keyed e he
  | drop db =>
    exact ⟨fun e he => h.keyed e (Bucket.Table.mem_entries_of_mem_remove he),
      fun d hd => h.known d (Bucket.Table.mem_values_of_mem_remove hd)⟩
  | addBan | dropBans => exact ⟨h.keyed, h.known⟩

theorem start (f : Startup) : Accounts (Core.start f) := by
  have hChannel (s : Core) (c : LoadedChannel) : SameRecords s (s.loadChannel c) :=
    ⟨rfl, Nat.le_succ _, rfl, rfl, fun _ => rfl⟩
  have hWord (s : Core) (word : Str) : SameRecords s (s.loadFilter word) :=
    { SameRecords.refl s with }
  have hEmpty : Accounts { Core.empty f.cfg f.now with bans := f.bans } :=
    ⟨by simp [Core.empty], by simp [Core.empty]⟩
  have hLoaded : Accounts
      (f.accounts.foldl Core.loadAccount { Core.empty f.cfg f.now with bans := f.bans }) :=
    Runs.run_invariant (fun s r h => h.add r) hEmpty f.accounts
  exact (hLoaded.same (.foldl hChannel f.channels _)).same (.foldl hWord f.filter _)

/-- A record that is found has the name that was looked for. -/
theorem nick_of_lookup (h : Accounts s) {nick : Str} {d : UserDbId}
    (hLookup : s.userDb.lookup nick = some d) : strlower (s.db d).nick = strlower nick := by
  obtain ⟨key, hEntry, hKey⟩ := Bucket.Table.lookup_some hLookup
  exact (h.keyed _ hEntry).symm.trans hKey

end Accounts

end OpenNap
