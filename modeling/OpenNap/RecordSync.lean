import OpenNap.Link

/-! Two linked servers that hold records for one nick tell each other their records, and settle on
the older one. -/

namespace OpenNap

open CText

/-- The fields of a record that servers have to agree on. -/
structure RecordView where
  password : Str
  level : Level
  timestamp : Int
deriving DecidableEq

def UserDb.view (r : UserDb) : RecordView := ⟨r.password, r.level, r.timestamp⟩

/-- What a server holds for a nick. -/
def Core.recordOf (s : Core) (nick : Str) : Option RecordView :=
  (s.userDb.lookup nick).map fun db => (s.db db).view

/-- The message that `sync_reginfo` sends. -/
def reginfoText (me : Str) (r : UserDb) : Str :=
  str ":" ++ me ++ str " " ++ r.nick ++ str " " ++ r.password ++ str " unknown " ++ r.level.text ++
    str " " ++ showInt (toInt32 r.timestamp) ++ str " " ++ showInt (toInt32 r.lastSeen)

/-- What `reginfo` reads in a packet: what the record is looked up under, and what it should hold. -/
def readReginfo (pkt : Str) : Option (Str × RecordView) :=
  match pkt with
  | ':' :: rest =>
    match nextArg rest with
    | (_, some rest) =>
      match splitLine 6 rest with
      | some [nick, pass, _, level, timestamp, _] =>
        some (Server.reginfoKey rest nick, ⟨pass, (getLevel level).getD .user, (strtol timestamp).1⟩)
      | _ => none
    | _ => none
  | _ => none

/-- The packet is read as one about the nick, which gives these fields. -/
def Tells (nick pkt : Str) (v : RecordView) : Prop :=
  ∃ key, readReginfo pkt = some (key, v) ∧ sameText key nick = true

theorem reginfoText_line (me : Str) (r : UserDb) :
    reginfoText me r = ':' :: line [me, r.nick, r.password, str "unknown", r.level.text,
      showInt (toInt32 r.timestamp), showInt (toInt32 r.lastSeen)] := by
  simp [reginfoText, line, str]

/-- The message of a record of plain words is read back, with the time that `%d` has printed. -/
theorem tells_reginfoText {nick me : Str} {r : UserDb} (hMe : Word me) (hNick : Word r.nick)
    (hPass : Word r.password) (hFits : (reginfoText me r).length ≤ 2043)
    (hName : sameText r.nick nick = true) :
    Tells nick (clip (reginfoText me r)) ⟨r.password, r.level, toInt32 r.timestamp⟩ := by
  rw [clip_of_fits hFits, reginfoText_line]
  have hUnknown : Word (str "unknown") := by decide
  have hWords : ∀ w ∈ [r.nick, r.password, str "unknown", r.level.text,
      showInt (toInt32 r.timestamp), showInt (toInt32 r.lastSeen)], Word w := by
    simp [hNick, hPass, hUnknown, word_level, word_showInt]
  refine ⟨r.nick, ?_, hName⟩
  have hKey (w : Str) (l : List Str) :
      Server.reginfoKey (line (r.nick :: w :: l)) r.nick = r.nick := by
    obtain ⟨c, cs, hCons⟩ := List.exists_cons_of_ne_nil hNick.nonempty
    have hPlain := hNick.unquoted
    rw [hCons] at hPlain ⊢
    exact if_neg (by simpa [line] using hPlain)
  simp only [readReginfo, nextArg_line hMe hNick, splitLine_line hWords, List.take_succ_cons,
    List.take_nil, hKey, getLevel_text, Option.getD_some, strtol_showInt32]

namespace Server

/-- A record that is younger than that of the server is answered, any other is stored. -/
theorem reginfo_tells {s : Server} (con : ConId) {nick pkt : Str} {v : RecordView} {db : UserDbId}
    (hTells : Tells nick pkt v) (hLookup : s.userDb.lookup nick = some db) (tag : Nat) :
    if (s.db db).timestamp < v.timestamp then s.reginfo con tag pkt = s.syncReginfo db
    else (s.reginfo con tag pkt).queued con = s.queued con ∧
      ∃ lastSeen, (s.reginfo con tag pkt).toCore =
        s.toCore.modDb db fun r =>
          { r with password := v.password, level := v.level, timestamp := v.timestamp
                   lastSeen := lastSeen } := by
  obtain ⟨key, hRead, hKey⟩ := hTells
  unfold readReginfo at hRead
  split at hRead
  · split at hRead
    · rename_i rest _ rest' hArg
      split at hRead
      · rename_i nick' _ _ _ _ lastSeen hFields
        obtain ⟨rfl, rfl⟩ : _ ∧ _ := by simpa using hRead
        have hFound : s.userDb.lookup (reginfoKey rest' nick') = some db :=
          (Bucket.Table.lookup_congr (sameText_iff.1 hKey)).trans hLookup
        simp only [reginfo, hArg, hFields, hFound]
        split
        · rfl
        · refine ⟨?_, (strtol lastSeen).1, ?_⟩
          · simp only [storeReginfo, queued_onCore, queued_passMessageArgs_except]
          · simp only [storeReginfo, toCore_onCore, toCore_passMessageArgs]
      · cases hRead
    · cases hRead
  · cases hRead

/-- The message of a record is queued for each peer. -/
theorem queued_syncReginfo {s : Server} {link : ConId} {peer : Str}
    (h : LinkedTo s.toCore link peer) (db : UserDbId) :
    (s.syncReginfo db).queued link =
      s.queued link ++ [⟨link, msgServerReginfo, clip (reginfoText s.cfg.serverName (s.db db))⟩] := by
  show (s.passMessageArgs none msgServerReginfo _).queued link = _
  rw [queued_passMessageArgs, h.listed]
  rfl

/-- The condition under which the record of a server called `me` prevails over that of a peer. -/
structure Outlasts (nick me peer : Str) (older newer : UserDb) : Prop where
  /-- `sync_reginfo`'s message of the older record is read back unchanged -/
  kept : Tells nick (clip (reginfoText me older)) older.view
  /-- that of the newer record is read as one of a later time -/
  refused : ∃ v, Tells nick (clip (reginfoText peer newer)) v ∧ older.timestamp < v.timestamp
  /-- the older record was there before the newer one -/
  first : older.timestamp < newer.timestamp

/-- Between records of plain words the one made first outlasts the other, when its time fits an
`int` and the other's, as far as an `int` holds it, is later. -/
theorem outlasts_of_plain {nick me peer : Str} {older newer : UserDb} (hMe : Word me)
    (hPeer : Word peer) (hNick : Word older.nick) (hNick' : Word newer.nick)
    (hPass : Word older.password) (hPass' : Word newer.password)
    (hFits : (reginfoText me older).length ≤ 2043) (hFits' : (reginfoText peer newer).length ≤ 2043)
    (hName : sameText older.nick nick = true) (hName' : sameText newer.nick nick = true)
    (hFirst : older.timestamp < newer.timestamp) (hTime : toInt32 older.timestamp = older.timestamp)
    (hLater : older.timestamp < toInt32 newer.timestamp) : Outlasts nick me peer older newer where
  kept := by
    have hTells := tells_reginfoText hMe hNick hPass hFits hName
    rwa [hTime] at hTells
  refused := ⟨_, tells_reginfoText hPeer hNick' hPass' hFits' hName', hLater⟩
  first := hFirst

/-- A server whose record prevails, on its link to a peer. -/
structure HasOlder (nick : Str) (older : UserDb) (link : ConId) (me peer : Str) (s : Server) :
    Prop where
  linked : LinkedTo s.toCore link peer
  name : s.cfg.serverName = me
  record : ∃ db, s.userDb.lookup nick = some db ∧ s.db db = older

/-- A server with a record that gives way, on its link to a peer. -/
structure HasRecord (nick : Str) (link : ConId) (peer : Str) (ok : RecordView → Prop) (s : Server) :
    Prop where
  linked : LinkedTo s.toCore link peer
  record : ∃ db, s.userDb.lookup nick = some db ∧ ok (s.db db).view

theorem HasRecord.imp {nick peer : Str} {link : ConId} {ok ok' : RecordView → Prop} {s : Server}
    (h : HasRecord nick link peer ok s) (hOk : ∀ v, ok v → ok' v) : HasRecord nick link peer ok' s :=
  ⟨h.linked, h.record.imp fun _ hDb => ⟨hDb.1, hOk _ hDb.2⟩⟩

/-- A message about a record goes to `reginfo`. -/
theorem party_reginfo {s t : Server} {link : ConId} {peer : Str} (h : LinkedTo s.toCore link peer)
    {m : Message} {out : List Message} (hParty : party link s m t out)
    (hTag : m.tag = msgServerReginfo) : ∃ seconds,
      t = (s.reading seconds).reginfo link m.tag m.body ∧ out = t.queued link := by
  obtain ⟨seconds, env, hStep, hOut⟩ := party_linked h hParty .reginfo hTag
  refine ⟨seconds, ?_, hOut⟩
  have hServer := (linkedTo_reading h seconds).isServer
  rw [hStep, hTag]
  simp only [dispatch, hServer, if_true]
  rfl

/-- The older record prevails. -/
theorem older_prevails {nick me peer : Str} {older newer : UserDb} (la lb : ConId)
    (h : Outlasts nick me peer older newer) :
    Duplex.Prevails (party la) (party lb) (HasOlder nick older la me peer)
      (HasRecord nick lb me (· = older.view)) (HasRecord nick lb me (older.timestamp < ·.timestamp))
      (fun m => m.tag = msgServerReginfo ∧ Tells nick m.body older.view)
      (fun m => m.tag = msgServerReginfo ∧
        ∃ v, Tells nick m.body v ∧ older.timestamp < v.timestamp)
      (fun _ => True) where
  keeps := by
    rintro s m t out ⟨hLinked, hName, db, hLookup, hDb⟩ ⟨hTag, v, hTells, hNewer⟩ hParty
    obtain ⟨seconds, hStep, rfl⟩ := party_reginfo hLinked hParty hTag
    have hSpec := reginfo_tells (s := s.reading seconds) la hTells hLookup m.tag
    have hLess : ((s.reading seconds).db db).timestamp < v.timestamp := by
      show (s.db db).timestamp < _
      rw [hDb]
      exact hNewer
    rw [if_pos hLess, ← hStep] at hSpec
    rw [hSpec, queued_syncReginfo (linkedTo_reading hLinked seconds), queued_reading]
    have hCore : ((s.reading seconds).syncReginfo db).toCore = (s.reading seconds).toCore := by
      simp
    refine ⟨⟨?_, ?_, db, ?_, ?_⟩, by simp, ?_, by simp⟩
    · rw [hCore]
      exact linkedTo_reading hLinked seconds
    · rw [hCore]
      exact hName
    · rw [hCore]
      exact hLookup
    · rw [hCore]
      exact hDb
    · intro o ho
      obtain rfl := List.mem_singleton.1 ho
      refine ⟨rfl, ?_⟩
      show Tells nick (clip (reginfoText s.cfg.serverName (s.db db))) older.view
      rw [hName, hDb]
      exact h.kept
  takes := by
    rintro s m t out hHas ⟨hTag, hTells⟩ hParty
    obtain ⟨hLinked, db, hLookup, hAge⟩ : HasRecord nick lb me (older.timestamp ≤ ·.timestamp) s := by
      rcases hHas with hHas | hHas
      · exact hHas.imp fun v hv => by simp [hv, UserDb.view]
      · exact hHas.imp fun v hv => hv.le
    obtain ⟨seconds, hStep, rfl⟩ := party_reginfo hLinked hParty hTag
    have hSpec := reginfo_tells (s := s.reading seconds) lb hTells hLookup m.tag
    have hLess : ¬ ((s.reading seconds).db db).timestamp < older.view.timestamp := by
      show ¬ (s.db db).timestamp < older.timestamp
      exact not_lt.2 hAge
    rw [if_neg hLess, ← hStep] at hSpec
    obtain ⟨hQueued, lastSeen, hCore⟩ := hSpec
    refine ⟨⟨?_, db, ?_, ?_⟩, by rw [hQueued, queued_reading]⟩
    · rw [hCore]
      exact { linkedTo_reading hLinked seconds with }
    · rw [hCore]
      exact hLookup
    · rw [hCore]
      simp [UserDb.view]
  left_total := fun s m _ hTold => party_total la s .reginfo hTold.1
  right_total := fun s m _ hTold => party_total lb s .reginfo hTold.1

/-- Two servers on one link, each of which has sent its record a number of times. -/
def exchange (a b : Server) (la lb : ConId) (dbA dbB : UserDbId) (n m : Nat) :
    Duplex.Net Server Server Message :=
  let a := (fun s : Server => s.syncReginfo dbA)^[n] (a.reading 0)
  let b := (fun s : Server => s.syncReginfo dbB)^[m] (b.reading 0)
  { left := a, right := b, toLeft := b.queued lb, toRight := a.queued la }

theorem exchange_sent {s : Server} {link : ConId} {peer : Str} (h : LinkedTo s.toCore link peer)
    (db : UserDbId) (n : Nat) :
    let t := (fun s : Server => s.syncReginfo db)^[n] (s.reading 0)
    t.toCore = (s.reading 0).toCore ∧
      t.queued link =
        List.replicate n ⟨link, msgServerReginfo, clip (reginfoText s.cfg.serverName (s.db db))⟩ := by
  induction n with
  | zero => exact ⟨rfl, rfl⟩
  | succ n ih =>
    simp only [Function.iterate_succ', Function.comp_apply] at ih ⊢
    obtain ⟨hCore, hQueued⟩ := ih
    refine ⟨by rw [toCore_syncReginfo, hCore], ?_⟩
    rw [queued_syncReginfo (by rw [hCore]; exact linkedTo_reading h 0), hQueued, hCore,
      List.replicate_succ']
    rfl

/-- Both servers hold this for the nick. -/
def AgreeOn (nick : Str) (v : RecordView) (a b : Server) : Prop :=
  a.recordOf nick = some v ∧ b.recordOf nick = some v

theorem older_settles {a b : Server} {la lb : ConId} {nick : Str} {dbA dbB : UserDbId}
    (hA : LinkedTo a.toCore la b.cfg.serverName) (hB : LinkedTo b.toCore lb a.cfg.serverName)
    (hRecA : a.userDb.lookup nick = some dbA) (hRecB : b.userDb.lookup nick = some dbB)
    (hOlder : Outlasts nick a.cfg.serverName b.cfg.serverName (a.db dbA) (b.db dbB)) {n m : Nat}
    (hSome : 0 < n + m) (inOrder : Prop) :
    Duplex.Settles (party la) (party lb) inOrder (AgreeOn nick (a.db dbA).view)
      (exchange a b la lb dbA dbB n m) := by
  obtain ⟨hCoreA, hSentA⟩ := exchange_sent hA dbA n
  obtain ⟨hCoreB, hSentB⟩ := exchange_sent hB dbB m
  refine ((older_prevails la lb hOlder).settles ⟨⟨?_, ?_, dbA, ?_, ?_⟩, .inr ⟨?_, dbB, ?_, ?_⟩,
    fun o ho => ?_, fun o ho => ?_, .inr ?_⟩).imp fun s t hGood => ?_
  · rw [exchange, hCoreA]
    exact linkedTo_reading hA 0
  · rw [exchange, hCoreA]
    rfl
  · rw [exchange, hCoreA]
    exact hRecA
  · rw [exchange, hCoreA]
    rfl
  · rw [exchange, hCoreB]
    exact linkedTo_reading hB 0
  · rw [exchange, hCoreB]
    exact hRecB
  · rw [exchange, hCoreB]
    exact hOlder.first
  · rw [exchange, hSentB] at ho
    obtain rfl := List.eq_of_mem_replicate ho
    exact ⟨rfl, hOlder.refused⟩
  · rw [exchange, hSentA] at ho
    obtain rfl := List.eq_of_mem_replicate ho
    exact ⟨rfl, hOlder.kept⟩
  · simp only [exchange, hSentA, hSentB]
    rcases Nat.eq_zero_or_pos n with rfl | hn
    · exact .inr ⟨_, List.mem_replicate.2 ⟨by omega, rfl⟩, trivial⟩
    · exact .inl (by simpa using hn.ne')
  · obtain ⟨⟨-, -, db, hLookup, hDb⟩, -, db', hLookup', hView⟩ := hGood
    exact ⟨by simp [Core.recordOf, hLookup, hDb], by simp [Core.recordOf, hLookup', hView]⟩

/-- The record of two that was made first. -/
def olderOf (r r' : UserDb) : UserDb := if r.timestamp < r'.timestamp then r else r'

/-- The servers settle on the older record, however many messages were sent at first and in
whatever order they are processed. -/
theorem reginfo_settles {a b : Server} {la lb : ConId} {nick : Str} {dbA dbB : UserDbId}
    (hA : LinkedTo a.toCore la b.cfg.serverName) (hB : LinkedTo b.toCore lb a.cfg.serverName)
    (hRecA : a.userDb.lookup nick = some dbA) (hRecB : b.userDb.lookup nick = some dbB)
    (hOlder : Outlasts nick a.cfg.serverName b.cfg.serverName (a.db dbA) (b.db dbB) ∨
      Outlasts nick b.cfg.serverName a.cfg.serverName (b.db dbB) (a.db dbA)) {n m : Nat}
    (hSome : 0 < n + m) (inOrder : Prop) :
    Duplex.Settles (party la) (party lb) inOrder
      (AgreeOn nick (olderOf (a.db dbA) (b.db dbB)).view) (exchange a b la lb dbA dbB n m) := by
  rcases hOlder with hOlder | hOlder
  · rw [olderOf, if_pos hOlder.first]
    exact older_settles hA hB hRecA hRecB hOlder hSome inOrder
  · rw [olderOf, if_neg hOlder.first.not_gt]
    have hSwapped := older_settles hB hA hRecB hRecA hOlder (n := m) (m := n) (by omega) inOrder
    exact hSwapped.swap.imp fun _ _ hGood => ⟨hGood.2, hGood.1⟩

/-- A server that holds one record, made at a time, and is linked to a peer. -/
def keeper (me peer password : String) (timestamp : Int) : Server :=
  reach
    { cfg := { serverName := str me, md5 := id }
      accounts := [{ nick := str "nick", password := str password, level := .elite
                     timestamp := timestamp }] }
    [.accept 1 (str peer) 8888 8888, .link 1]

/-- The records were made at 5 and at 7; the first server has sent its own twice, the other once. -/
theorem reginfo_settles_crossed :
    Duplex.Settles (party 1) (party 1) False (AgreeOn (str "nick") ⟨str "one", .elite, 5⟩)
      (exchange (keeper "a" "b" "one" 5) (keeper "b" "a" "two" 7) 1 1 0 0 2 1) := by
  have hOlder : Outlasts (str "nick") (keeper "a" "b" "one" 5).cfg.serverName
      (keeper "b" "a" "two" 7).cfg.serverName ((keeper "a" "b" "one" 5).db 0)
      ((keeper "b" "a" "two" 7).db 0) := by
    apply outlasts_of_plain <;> decide +kernel
  have hView : (olderOf ((keeper "a" "b" "one" 5).db 0) ((keeper "b" "a" "two" 7).db 0)).view =
      ⟨str "one", .elite, 5⟩ := by
    decide +kernel
  have hA : LinkedTo (keeper "a" "b" "one" 5).toCore 1 (keeper "b" "a" "two" 7).cfg.serverName :=
    ⟨by decide +kernel, by decide +kernel, by decide +kernel, by decide +kernel⟩
  have hB : LinkedTo (keeper "b" "a" "two" 7).toCore 1 (keeper "a" "b" "one" 5).cfg.serverName :=
    ⟨by decide +kernel, by decide +kernel, by decide +kernel, by decide +kernel⟩
  have hRecA : (keeper "a" "b" "one" 5).userDb.lookup (str "nick") = some 0 := by decide +kernel
  have hRecB : (keeper "b" "a" "two" 7).userDb.lookup (str "nick") = some 0 := by decide +kernel
  rw [← hView]
  exact reginfo_settles hA hB hRecA hRecB (.inl hOlder) (by decide) False

/-- A time that does not fit an `int` comes out as another one, so that the older record is not
stored as it is. -/
theorem reginfo_wraps :
    ¬ Duplex.Settles (party 1) (party 1) True
      (AgreeOn (str "nick")
        (olderOf ((keeper "a" "b" "one" (2 ^ 31)).db 0) ((keeper "b" "a" "two" (2 ^ 31 + 1)).db 0)).view)
      (exchange (keeper "a" "b" "one" (2 ^ 31)) (keeper "b" "a" "two" (2 ^ 31 + 1)) 1 1 0 0 1 0) := by
  intro hSettles
  have hSent : (exchange (keeper "a" "b" "one" (2 ^ 31)) (keeper "b" "a" "two" (2 ^ 31 + 1))
      1 1 0 0 1 0).toRight =
        [⟨1, msgServerReginfo, str ":a nick one unknown Elite -2147483648 0"⟩] := by
    decide +kernel
  have hNext := hSettles.firstRight hSent ⟨0, .reginfo, {}, rfl, rfl, rfl⟩
  have hGood := hNext.good ⟨by decide +kernel, rfl⟩
  exact absurd hGood.2 (by decide +kernel)

end Server

end OpenNap
