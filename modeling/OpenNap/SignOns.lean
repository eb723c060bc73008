import OpenNap.Hotlists
import OpenNap.Sent

/-! Sign-on messages.  A login tells those who wait for the nick, each of them once, and nobody
else. -/

namespace OpenNap

open CText

/-- A message that does not tell of a sign-on. -/
def Message.Other (m : Message) : Prop := m.tag ≠ msgServerUserSignon

theorem Message.other {con : ConId} {tag : Nat} {body : Str} (h : tag ≠ msgServerUserSignon) :
    Message.Other ⟨con, tag, body⟩ := h

namespace Server

open Message (other)

/-- The sign-on messages that are queued for a connection, in order. -/
def signOns (s : Server) (con : ConId) : List Message :=
  s.sent.filter fun m => m.con == con && m.tag == msgServerUserSignon

theorem signOns_eq {s t : Server} (h : Says Message.Other s t) (con : ConId) :
    t.signOns con = s.signOns con := by
  apply h.filter_eq
  intro m hOther
  have hTag : (m.tag == msgServerUserSignon) = false := beq_eq_false_iff_ne.2 hOther
  rw [hTag, Bool.and_false]

/-! ### The removal of a user -/

theorem other_partChannel {s t : Server} (h : Says Message.Other s t) (chan : ChanId)
    (user : UserId) : Says Message.Other s (t.partChannel chan user) := by
  simp only [partChannel]
  split
  · split
    · exact h.onCore.onCore
    · exact h.onCore
  · exact h.onCore.tellMembers fun _ => other (by decide)

theorem other_freeUser {s t : Server} (h : Says Message.Other s t) (user : UserId) :
    Says Message.Other s (t.freeUser user) := by
  have hQuit : Says Message.Other s (t.sayQuit user) := by
    simp only [sayQuit]
    split
    · exact h.passMessageArgs fun _ _ => other (by decide)
    · exact h
  have hPart : Says Message.Other s ((t.sayQuit user).partChannels user) :=
    hQuit.foldl (fun u chan => other_partChannel (.refl u) chan user) _
  simp only [freeUser]
  exact (hPart.onCore.tellHotlist fun _ => other (by decide)).onCore

theorem other_hashRemoveUser {s t : Server} (h : Says Message.Other s t) (nick : Str) :
    Says Message.Other s (t.hashRemoveUser nick) := by
  simp only [hashRemoveUser]
  split
  · exact h
  · exact (other_freeUser h _).onCore

theorem other_zapLocalUser {s t : Server} (h : Says Message.Other s t) (con : ConId) (reason : Str) :
    Says Message.Other s (t.zapLocalUser con reason) := by
  have hRemove {t : Server} (h : Says Message.Other s t) : Says Message.Other s (t.removeUser con) := by
    simp only [removeUser]
    split
    · exact h
    · exact (other_hashRemoveUser h _).onCore
  simp only [zapLocalUser]
  apply Says.onCore
  apply hRemove
  exact ((h.sendCmd (other (by decide))).sendCmd (other (by decide))).onCore

theorem other_killClient {s t : Server} (h : Says Message.Other s t) (nick reason : Str) :
    Says Message.Other s (t.killClient nick reason) := by
  simp only [killClient]
  exact (h.passMessageArgs fun _ _ => other (by decide)).notifyMods fun _ _ => other (by decide)

/-! ### The checks at login -/

theorem other_refuse {s t : Server} (h : Says Message.Other s t) (con : ConId) {tag : Nat}
    (text : Str) (hTag : tag ≠ msgServerUserSignon) : Says Message.Other s (t.refuse con tag text) := by
  simp only [refuse, markDestroy]
  exact (h.sendCmd (other hTag)).onCore

theorem other_readLogin {s t : Server} {con : ConId} {pkt : Str}
    (h : s.readLogin con pkt = .error t) : Says Message.Other s t := by
  simp only [readLogin] at h
  split at h
  · split at h
    · cases h
    · cases h
      simp only [unparsable, markDestroy]
      exact ((Says.refl s).sendIfUser fun _ => other (by decide)).onCore
  · split at h
    · cases h
    · cases h
      exact other_killClient (.refl s) _ _
    · cases h
      exact .refl s

theorem other_checkNick {s t : Server} {con : ConId} {r : LoginRequest}
    (h : s.checkNick con r = .error t) : Says Message.Other s t := by
  simp only [checkNick] at h
  split at h
  · split at h
    · cases h
      exact other_refuse (.refl s) con _ (by decide)
    · cases h
      exact other_killClient (.refl s) _ _
  · cases h

theorem other_ejectClient {s t : Server} {con : ConId} (h : s.ejectClient con = some t) :
    Says Message.Other s t := by
  simp only [ejectClient, Option.map_eq_some_iff] at h
  obtain ⟨loser, -, rfl⟩ := h
  simp only [markKilled]
  apply Says.onCore
  apply Says.sendCmd _ (other (by decide))
  apply Says.sendCmd _ (other (by decide))
  exact other_killClient (.refl s) _ _

theorem other_refuseBanned (s : Server) (con : ConId) (nick host : Str) (ban : Ban) :
    Says Message.Other s (s.refuseBanned con nick host ban) := by
  have hNotice {t : Server} (h : Says Message.Other s t) (mode : Nat) (body : Str) :
      Says Message.Other s (t.notifyMods mode body) := h.notifyMods fun _ _ => other (by decide)
  simp only [refuseBanned]
  split
  · apply Says.passMessageArgs _ fun _ _ => other (by decide)
    apply Says.onCore
    exact (hNotice (.refl s) _ _).sendCmd (other (by decide))
  · split
    · apply hNotice
      exact (hNotice (.refl s) _ _).passMessageArgs fun _ _ => other (by decide)
    · exact hNotice (.refl s) _ _

theorem other_checkRestrictions {s t : Server} {con : ConId} {r : LoginRequest}
    (h : s.checkRestrictions con r = .error t ∨ s.checkRestrictions con r = .ok t) :
    Says Message.Other s t := by
  simp only [checkRestrictions] at h
  split at h
  · rcases h with h | h <;> cases h
    exact other_refuseBanned s con _ _ _
  · split at h
    · split at h
      · rcases h with h | h <;> cases h
        exact other_refuse (.refl s) con _ (by decide)
      · split at h
        · split at h
          · rename_i hEject
            split at hEject
            · rcases h with h | h <;> cases h
              exact other_ejectClient hEject
            · cases hEject
          · rcases h with h | h <;> cases h
            exact other_refuse (.refl s) con _ (by decide)
        · rcases h with h | h <;> cases h
          exact .refl s
    · rcases h with h | h <;> cases h
      exact .refl s

theorem other_checkNumber {s t : Server} {con : ConId} {r : LoginRequest} {what text : Str}
    {bound : Int} (h : s.checkNumber con r what text bound = .error t ∨
      ∃ n, s.checkNumber con r what text bound = .ok (t, n)) : Says Message.Other s t := by
  simp only [checkNumber] at h
  split at h
  · split at h
    · rcases h with h | ⟨n, h⟩ <;> cases h
      exact other_refuse (.refl s) con _ (by decide)
    · rcases h with h | ⟨n, h⟩ <;> cases h
      exact (Says.refl s).notifyMods fun _ _ => other (by decide)
  · rcases h with h | ⟨n, h⟩ <;> cases h
    exact .refl s

theorem other_checkAccount {s t : Server} {con : ConId} {tag : Nat} {r : LoginRequest}
    {db : Option UserDbId} (h : s.checkAccount con tag r db = .error t) : Says Message.Other s t := by
  have hSync {u : Server} (h : Says Message.Other s u) (d : UserDbId) :
      Says Message.Other s (u.syncReginfo d) := by
    simp only [syncReginfo]
    exact h.passMessageArgs fun _ _ => other (by decide)
  have hTell (d : UserDb) : Says Message.Other s (s.tellBadPass r d) := by
    simp only [tellBadPass]
    split
    · apply Says.passMessageArgs _ fun _ _ => other (by decide)
      exact (Says.refl s).notifyMods fun _ _ => other (by decide)
    · exact .refl s
  simp only [checkAccount] at h
  split at h
  · split at h
    · split at h
      · cases h
        exact other_refuse (.refl s) con _ (by decide)
      · cases h
    · cases h
  · split at h
    · split at h
      · cases h
        exact other_refuse (.refl s) con _ (by decide)
      · cases h
        exact hSync (other_killClient (.refl s) _ _) _
    · split at h
      · split at h
        · cases h
          exact other_refuse (hTell _) con _ (by decide)
        · cases h
          exact hSync (other_killClient (hTell _) _ _) _
      · cases h

theorem other_checkCollision {s t : Server} {con : ConId} {r : LoginRequest}
    (h : s.checkCollision con r = .error t ∨ s.checkCollision con r = .ok t) :
    Says Message.Other s t := by
  simp only [checkCollision] at h
  split at h
  · rcases h with h | h <;> cases h
    exact .refl s
  · split at h
    · split at h
      · split at h
        · rcases h with h | h <;> cases h
          apply other_zapLocalUser
          apply Says.sendCmd _ (other (by decide))
          exact other_killClient (.refl s) _ _
        · rcases h with h | h <;> cases h
          exact other_hashRemoveUser (other_killClient (.refl s) _ _) _
      · rcases h with h | h <;> cases h
        exact other_refuse (.refl s) con _ (by decide)
    · split at h
      · have hTold (body notice : Str) : Says Message.Other s
            ((s.passMessageArgs (some con) msgClientKill body).notifyMods killlogMode notice) := by
          apply Says.notifyMods _ fun _ _ => other (by decide)
          exact (Says.refl s).passMessageArgs fun _ _ => other (by decide)
        split at h
        · rcases h with h | h <;> cases h
          exact other_zapLocalUser (hTold _ _) _ _
        · rcases h with h | h <;> cases h
          exact other_hashRemoveUser (hTold _ _) _
      · rcases h with h | h <;> cases h
        exact .refl s

/-- The user of that nick goes, if one does, and no number is given out. -/
theorem checkCollision_users {s t : Server} {con : ConId} {r : LoginRequest}
    (h : s.checkCollision con r = .ok t) :
    s.next ≤ t.next ∧ ∀ user ∈ t.users.values, user ∈ s.users.values := by
  have hRemove (c : Core) (nick : Str) : c.next ≤ (c.hashRemoveUser nick).next ∧
      ∀ user ∈ (c.hashRemoveUser nick).users.values, user ∈ c.users.values := by
    refine ⟨(SameHotlists.hashRemoveUser c nick).next, ?_⟩
    simp only [Core.hashRemoveUser]
    split
    · exact fun _ h => h
    · rw [(c.sameUsers_freeUser _).users]
      exact fun _ h => Bucket.Table.mem_values_of_mem_remove h
  have hZap (c : Core) (con : ConId) : c.next ≤ (c.zapLocalUser con).next ∧
      ∀ user ∈ (c.zapLocalUser con).users.values, user ∈ c.users.values := by
    simp only [Core.zapLocalUser, Core.removeUser]
    split
    · exact ⟨Nat.le_refl _, fun _ h => h⟩
    · rename_i user _
      have hUser := hRemove (c.modCon con fun c => { c with killed := true })
        ((c.modCon con fun c => { c with killed := true }).user user).nick
      have hFree := Core.sameUsers_freeOptions ((c.modCon con fun c => { c with killed := true }).hashRemoveUser
        ((c.modCon con fun c => { c with killed := true }).user user).nick) con
      refine ⟨hUser.1.trans hFree.next, fun v hv => hUser.2 v ?_⟩
      rwa [← hFree.users]
  simp only [checkCollision] at h
  split at h
  · cases h
    exact ⟨Nat.le_refl _, fun _ h => h⟩
  · split at h
    · split at h
      · split at h
        · cases h
          rw [toCore_zapLocalUser, toCore_sendCmd, toCore_killClient]
          exact hZap _ _
        · cases h
          rw [toCore_hashRemoveUser, toCore_killClient]
          exact hRemove _ _
      · cases h
    · split at h
      · split at h
        · cases h
          rw [toCore_zapLocalUser, toCore_notifyMods, toCore_passMessageArgs]
          exact hZap _ _
        · cases h
          rw [toCore_hashRemoveUser, toCore_notifyMods, toCore_passMessageArgs]
          exact hRemove _ _
      · cases h

/-! ### The login -/

/-- From `s` to `t` users stay under their names, and keep their speed. -/
structure SameNames (s t : Core) : Prop where
  users : t.users = s.users
  nick : ∀ user, (t.user user).nick = (s.user user).nick
  speed : ∀ user, (t.user user).speed = (s.user user).speed

theorem SameNames.trans {s t u : Core} (h1 : SameNames s t) (h2 : SameNames t u) : SameNames s u :=
  ⟨h2.users.trans h1.users, fun x => (h2.nick x).trans (h1.nick x),
    fun x => (h2.speed x).trans (h1.speed x)⟩

theorem SameNames.modUser (s : Core) (user : UserId) {f : User → User}
    (hNick : (f (s.user user)).nick = (s.user user).nick)
    (hSpeed : (f (s.user user)).speed = (s.user user).speed) : SameNames s (s.modUser user f) where
  users := rfl
  nick u := by by_cases hu : u = user <;> simp [hu, hNick]
  speed u := by by_cases hu : u = user <;> simp [hu, hSpeed]

theorem sameNames_applyRecord (s : Server) (con : ConId) (user : UserId) (db : UserDbId) :
    SameNames s.toCore (s.applyRecord con user db).toCore := by
  have hLevel (t : Server) (d : UserDb) : SameNames t.toCore (t.applyLevel con user d).toCore := by
    simp only [applyLevel]
    split
    · simp only [toCore_passMessageArgs, toCore_sendIfUser, toCore_onCore, toCore_notifyMods]
      exact .modUser _ user rfl rfl
    · exact ⟨rfl, fun _ => rfl, fun _ => rfl⟩
  have hMuzzle (t : Server) (d : UserDb) : SameNames t.toCore (t.applyMuzzle con user d).toCore := by
    rw [toCore_applyMuzzle]
    split
    · exact .modUser _ user rfl rfl
    · exact ⟨rfl, fun _ => rfl, fun _ => rfl⟩
  have hCloak (t : Server) (d : UserDb) : SameNames t.toCore (t.applyCloak con user d).toCore := by
    rw [toCore_applyCloak]
    split
    · exact .modUser _ user rfl rfl
    · exact ⟨rfl, fun _ => rfl, fun _ => rfl⟩
  have hSeen : SameNames s.toCore
      (s.onCore (·.modDb db fun r => { r with lastSeen := s.now })).toCore :=
    ⟨rfl, fun _ => rfl, fun _ => rfl⟩
  simp only [applyRecord]
  exact hSeen.trans ((hLevel _ _).trans ((hMuzzle _ _).trans (hCloak _ _)))

theorem other_applyRecord {s t : Server} (h : Says Message.Other s t) (con : ConId) (user : UserId)
    (db : UserDbId) : Says Message.Other s (t.applyRecord con user db) := by
  have hLevel {t : Server} (h : Says Message.Other s t) (d : UserDb) :
      Says Message.Other s (t.applyLevel con user d) := by
    simp only [applyLevel]
    split
    · apply Says.passMessageArgs _ fun _ _ => other (by decide)
      apply Says.sendIfUser _ fun _ => other (by decide)
      exact (h.notifyMods fun _ _ => other (by decide)).onCore
    · exact h
  have hMuzzle {t : Server} (h : Says Message.Other s t) (d : UserDb) :
      Says Message.Other s (t.applyMuzzle con user d) := by
    simp only [applyMuzzle]
    split
    · apply Says.notifyMods _ fun _ _ => other (by decide)
      apply Says.sendIfUser _ fun _ => other (by decide)
      exact h.onCore.passMessageArgs fun _ _ => other (by decide)
    · exact h
  have hCloak {t : Server} (h : Says Message.Other s t) (d : UserDb) :
      Says Message.Other s (t.applyCloak con user d) := by
    simp only [applyCloak]
    split
    · apply Says.passMessageArgs _ fun _ _ => other (by decide)
      apply Says.notifyMods _ fun _ _ => other (by decide)
      exact h.onCore.sendIfUser fun _ => other (by decide)
    · exact h
  simp only [applyRecord]
  exact hCloak (hMuzzle (hLevel h.onCore _) _) _

theorem other_welcome {s t : Server} (h : Says Message.Other s t) (con : ConId) :
    Says Message.Other s (t.welcome con) := by
  simp only [welcome]
  apply Says.sendCmd _ (other (by decide))
  apply Says.foldl _ fun u line => (Says.refl u).queueData (other (by decide))
  exact (h.sendCmd (other (by decide))).sendCmd (other (by decide))

/-- What a login leads to that goes through: a new user `user`, of whom those who wait are told
last. -/
structure SignedOn (s t : Server) (user : UserId) : Prop where
  online : user ∈ t.users.values
  fresh : s.next ≤ user
  only : ∀ v ∈ t.users.values, v ≠ user → v ∈ s.users.values
  told : ∃ w, Says Message.Other s w ∧ t = w.tellHotlist (t.user user).nick msgServerUserSignon
    ((t.user user).nick ++ str " " ++ showNat (t.user user).speed)

theorem signedOn_acceptLogin (s : Server) (con : ConId) (r : LoginRequest) (speed port : Nat)
    (db : Option UserDbId) : SignedOn s (s.acceptLogin con r speed port db) s.next := by
  generalize hEntered : (if s.isUnknown con then
      (s.onCore (·.tieLocal con (Core.newUser s.cfg con r speed port))).welcome con
    else s.onCore (·.tieRemote (Core.newUser s.cfg con r speed port) r.server)).onCore
      (·.addUser s.next) = t
  have hQuiet : Says Message.Other s t := by
    rw [← hEntered]
    apply Says.onCore
    split
    · exact other_welcome (Says.refl s).onCore con
    · exact (Says.refl s).onCore
  have hUser : (∀ v, v ∈ t.users.values ↔ v = s.next ∨ v ∈ s.users.values) ∧
      (t.user s.next).nick = r.nick ∧ (t.user s.next).speed = speed := by
    have hMem (nick : Str) (v : UserId) : v ∈ (s.users.add nick s.next).values ↔
        v = s.next ∨ v ∈ s.users.values := by
      rw [← List.mem_cons]
      exact (s.users.values_add nick s.next).mem_iff
    rw [← hEntered]
    split
    · rw [toCore_onCore, toCore_welcome, toCore_onCore]
      exact ⟨hMem _, by simp [Core.addUser, Core.tieLocal, Core.newUser]⟩
    · rw [toCore_onCore, toCore_onCore]
      exact ⟨hMem _, by simp [Core.addUser, Core.tieRemote, Core.newUser]⟩
  obtain ⟨hMem, hNick, hSpeed⟩ := hUser
  have hTold : Says Message.Other s
      (t.passMessageArgs (some con) msgClientLogin (loginText (t.user s.next) r)) :=
    hQuiet.passMessageArgs fun _ _ => other (by decide)
  -- what the record changes comes after the peers were told
  obtain ⟨w, hSays, hSame, hEnd⟩ : ∃ w, Says Message.Other s w ∧ SameNames t.toCore w.toCore ∧
      s.acceptLogin con r speed port db =
        w.tellHotlist r.nick msgServerUserSignon (r.nick ++ str " " ++ showNat speed) := by
    simp only [acceptLogin, hEntered]
    cases db with
    | none =>
      refine ⟨_, hTold, ?_, rfl⟩
      rw [toCore_passMessageArgs]
      exact ⟨rfl, fun _ => rfl, fun _ => rfl⟩
    | some d =>
      refine ⟨_, other_applyRecord hTold con s.next d, ?_, rfl⟩
      have hRecord := sameNames_applyRecord
        (t.passMessageArgs (some con) msgClientLogin (loginText (t.user s.next) r)) con s.next d
      rwa [toCore_passMessageArgs] at hRecord
  have hNick' : (w.user s.next).nick = r.nick := (hSame.nick _).trans hNick
  have hSpeed' : (w.user s.next).speed = speed := (hSame.speed _).trans hSpeed
  rw [hEnd]
  refine ⟨?_, Nat.le_refl _, ?_, w, hSays, ?_⟩
  · rw [toCore_tellHotlist, hSame.users]
    exact (hMem s.next).2 (.inl rfl)
  · rw [toCore_tellHotlist, hSame.users]
    exact fun v hv hNe => ((hMem v).1 hv).resolve_left hNe
  · rw [toCore_tellHotlist, hNick', hSpeed']

/-- A login is refused, with nobody told of a sign-on, or it goes through. -/
theorem login_signedOn (s : Server) (con : ConId) (tag : Nat) (pkt random : Str) :
    ((s.login con tag pkt random).users = s.users ∧
      Says Message.Other s (s.login con tag pkt random)) ∨
    ∃ user, SignedOn s (s.login con tag pkt random) user := by
  have hUsers {s t : Server} (h : t.toCore.personal = s.toCore.personal) : t.users = s.users :=
    (congrArg Core.users h :)
  have hNext {s t : Server} (h : t.toCore.personal = s.toCore.personal) : t.next = s.next :=
    (congrArg Core.next h :)
  simp only [login]
  split
  · refine .inl ⟨by rw [toCore_sendCmd], ?_⟩
    exact (Says.refl s).sendCmd (other (by decide))
  split
  · rename_i hError
    exact .inl ⟨hUsers (readLogin_error hError), other_readLogin hError⟩
  simp only [loginRequest]
  split
  · rename_i hError
    exact .inl ⟨hUsers (checkNick_error hError), other_checkNick hError⟩
  rename_i r _ _ s' hNick
  obtain ⟨rfl, -⟩ := checkNick_ok hNick
  split
  · rename_i hError
    split at hError
    · cases hError
    · exact .inl ⟨hUsers (checkRestrictions_error hError), other_checkRestrictions (.inl hError)⟩
  rename_i t hPass
  have hFirst : t.toCore.personal = s'.toCore.personal ∧ Says Message.Other s' t := by
    split at hPass
    · cases hPass
      exact ⟨rfl, .refl s'⟩
    · exact ⟨checkRestrictions_ok hPass, other_checkRestrictions (.inr hPass)⟩
  obtain ⟨hPersonal, hSays⟩ := hFirst
  split
  · rename_i hError
    exact .inl ⟨(hUsers (checkNumber_error hError)).trans (hUsers hPersonal),
      hSays.trans (other_checkNumber (.inl hError))⟩
  rename_i t1 speed hSpeed
  have hCore1 := checkNumber_ok hSpeed
  replace hSays := hSays.trans (other_checkNumber (.inr ⟨speed, hSpeed⟩))
  split
  · rename_i hError
    have hSame := checkNumber_error hError
    rw [hCore1] at hSame
    exact .inl ⟨hUsers (hSame.trans hPersonal), hSays.trans (other_checkNumber (.inl hError))⟩
  rename_i t2 port hPort
  have hCore2 := checkNumber_ok hPort
  replace hSays := hSays.trans (other_checkNumber (.inr ⟨port, hPort⟩))
  rw [hCore1] at hCore2
  split
  · rename_i hError
    have hSame := checkAccount_error hError
    rw [hCore2] at hSame
    exact .inl ⟨hUsers (hSame.trans hPersonal), hSays.trans (other_checkAccount hError)⟩
  rename_i registers hAccount
  simp only [enterUser]
  split
  · rename_i hError
    have hSame := checkCollision_error hError
    rw [hCore2] at hSame
    exact .inl ⟨hUsers (hSame.trans hPersonal), hSays.trans (other_checkCollision (.inl hError))⟩
  rename_i u hFree
  replace hSays := hSays.trans (other_checkCollision (.inr hFree))
  have hLe : s'.next ≤ u.next ∧ ∀ user ∈ u.users.values, user ∈ s'.users.values := by
    rw [← hNext hPersonal, ← hUsers hPersonal, ← hCore2]
    exact checkCollision_users hFree
  have hAccept {v : Server} (hSays : Says Message.Other s' v)
      (hLe : s'.next ≤ v.next ∧ ∀ user ∈ v.users.values, user ∈ s'.users.values)
      (db : Option UserDbId) : ∃ user, SignedOn s' (v.acceptLogin con r speed port db) user := by
    obtain ⟨hIn, -, hOnly, w, hQuiet, hTold⟩ := signedOn_acceptLogin v con r speed port db
    exact ⟨v.next, hIn, hLe.1, fun x hx hNe => hLe.2 x (hOnly x hx hNe), w, hSays.trans hQuiet, hTold⟩
  split
  · have hSaysNew : Says Message.Other s' (u.register r random) := hSays.onCore
    exact .inr (hAccept hSaysNew ⟨hLe.1.trans (Nat.le_succ u.next), hLe.2⟩ _)
  · exact .inr (hAccept hSays hLe _)

/-- What a walk over a list of connections sends to one of them. -/
theorem signOns_foldl (l : List ConId) (body : Str) (c : ConId) (s : Server) :
    (l.foldl (fun s con => s.sendCmd con msgServerUserSignon body) s).signOns c =
      s.signOns c ++ List.replicate (l.count c) ⟨c, msgServerUserSignon, clip body⟩ := by
  induction l generalizing s with
  | nil => simp
  | cons con l ih =>
    rw [List.foldl_cons, ih]
    have hOne : (s.sendCmd con msgServerUserSignon body).signOns c =
        s.signOns c ++ if con = c then [⟨c, msgServerUserSignon, clip body⟩] else [] := by
      by_cases hc : con = c
      · simp [signOns, sendCmd, queueData, hc]
      · simp [signOns, sendCmd, queueData, hc]
    rw [hOne]
    by_cases hc : con = c
    · subst hc
      simp [List.replicate_succ]
    · simp [hc]

/-- Those who wait for a nick are told once each, and nobody else is told. -/
theorem signOns_tellHotlist {s : Server} (h : Hotlists s.toCore) (nick body : Str) (c : ConId) :
    (s.tellHotlist nick msgServerUserSignon body).signOns c = s.signOns c ++
      if ∃ hot ∈ s.hotlistsOf c, strlower (s.hot hot).nick = strlower nick then
        [⟨c, msgServerUserSignon, clip body⟩]
      else [] := by
  simp only [tellHotlist]
  split
  · rename_i hot hFound
    have hIn : hot ∈ s.hotlists.values := Bucket.Table.mem_values_of_lookup hFound
    have hNick : strlower (s.hot hot).nick = strlower nick := by
      obtain ⟨key, hEntry, hKey⟩ := Bucket.Table.lookup_some hFound
      rw [h.waiting.named _ hEntry]
      exact hKey
    have hWaits : (∃ other ∈ s.hotlistsOf c, strlower (s.hot other).nick = strlower nick) ↔
        c ∈ (s.hot hot).users := by
      constructor
      · rintro ⟨other, hOn, hOther⟩
        obtain ⟨hOtherIn, hBack⟩ := h.waiting.mirror.left c trivial other hOn
        have hSame : s.hotlists.lookup (s.hot other).nick = s.hotlists.lookup nick :=
          Bucket.Table.lookup_congr hOther
        rw [h.waiting.lookup_nick hOtherIn, hFound] at hSame
        rwa [← Option.some.inj hSame]
      · exact fun hBack => ⟨hot, (h.waiting.mirror.right hot hIn c hBack).2, hNick⟩
    rw [signOns_foldl]
    by_cases hOn : c ∈ (s.hot hot).users
    · rw [if_pos (hWaits.2 hOn), List.count_eq_one_of_mem (h.waiting.mirror.onceRight hot hIn) hOn]
      rfl
    · rw [if_neg fun hSome => hOn (hWaits.1 hSome), List.count_eq_zero_of_not_mem hOn]
      rfl
  · rename_i hNone
    rw [if_neg, List.append_nil]
    rintro ⟨other, hOn, hOther⟩
    obtain ⟨hOtherIn, -⟩ := h.waiting.mirror.left c trivial other hOn
    have hSame : s.hotlists.lookup (s.hot other).nick = s.hotlists.lookup nick :=
      Bucket.Table.lookup_congr hOther
    rw [h.waiting.lookup_nick hOtherIn, hNone] at hSame
    cases hSame

theorem SignedOn.signOns_eq {s t : Server} {user : UserId} (h : SignedOn s t user)
    (hHotlists : Hotlists t.toCore) (c : ConId) :
    t.signOns c = s.signOns c ++
      if ∃ hot ∈ t.hotlistsOf c, strlower (t.hot hot).nick = strlower (t.user user).nick then
        [⟨c, msgServerUserSignon, clip ((t.user user).nick ++ str " " ++ showNat (t.user user).speed)⟩]
      else [] := by
  obtain ⟨w, hQuiet, hTold⟩ := h.told
  have hCore : t.toCore = w.toCore := (congrArg Server.toCore hTold).trans (toCore_tellHotlist ..)
  have hWaiting : Hotlists w.toCore := by rwa [← hCore]
  have hSent := signOns_tellHotlist hWaiting (t.user user).nick
    ((t.user user).nick ++ str " " ++ showNat (t.user user).speed) c
  rw [← hTold, ← hCore, Server.signOns_eq hQuiet] at hSent
  exact hSent

theorem other_reportSharing (s : Server) (con : ConId) (cmd : Command) :
    Says Message.Other s (s.reportSharing con cmd) := by
  have hTell (user : UserId) (body : Str) (f : User → User) : Says Message.Other s
      ((s.passMessageArgs (some con) msgServerUserSharing body).onCore (·.modUser user f)) :=
    ((Says.refl s).passMessageArgs fun _ _ => other (by decide)).onCore
  simp only [reportSharing]
  split
  · exact .refl s
  · split
    · exact .refl s
    · split
      · split
        · exact .refl s
        · exact hTell _ _ _
      · split
        · split
          · exact .refl s
          · exact hTell _ _ _
        · exact .refl s

/-- A login that is read leads to a new user, of whom those who wait are told, or to no message of the
kind. -/
theorem step_login (s : Server) (con : ConId) {cmd : Command} (hCmd : cmd = .login ∨ cmd = .loginRegister)
    (pkt : Str) (env : Env) :
    ((s.step (.packet con cmd pkt env)).users = s.users ∧
      Says Message.Other s (s.step (.packet con cmd pkt env))) ∨
    ∃ user, SignedOn s (s.step (.packet con cmd pkt env)) user := by
  simp only [step]
  split
  · have hKnown : (s.isUnknown con && cmd != .login && cmd != .loginRegister) = false := by
      rcases hCmd with rfl | rfl <;> simp
    have hDispatch (u : Server) : u.dispatch con cmd pkt env = u.login con cmd.tag pkt env.random := by
      rcases hCmd with rfl | rfl <;> rfl
    have hDetail : (s.reportSharing con cmd).toCore.detail = s.toCore.detail := detail_reportSharing ..
    have hUsers : (s.reportSharing con cmd).users = s.users := (congrArg Core.users hDetail :)
    have hNext : (s.reportSharing con cmd).next = s.next := (congrArg Core.next hDetail :)
    have hSays := other_reportSharing s con cmd
    simp only [handlePacket, hKnown, hDispatch]
    rcases login_signedOn (s.reportSharing con cmd) con cmd.tag pkt env.random with hNone | hSome
    · exact .inl ⟨hNone.1.trans hUsers, hSays.trans hNone.2⟩
    · obtain ⟨user, hIn, hFresh, hOnly, w, hQuiet, hTold⟩ := hSome
      rw [hUsers] at hOnly
      rw [hNext] at hFresh
      exact .inr ⟨user, hIn, hFresh, hOnly, w, hSays.trans hQuiet, hTold⟩
  · exact .inl ⟨rfl, .refl s⟩

theorem reach_waiting (f : Startup) (events : List Event) :
    Sound (Server.reach f events).toCore ∧ Hotlists (Server.reach f events).toCore :=
  reach_keeps (fun _ _ hSound hOp h => h.op hOp hSound) (Hotlists.start f) events

/-- In every state that is reached a connection is on a hotlist, once, exactly when the hotlist is on
the connection's own list; every such hotlist is in the table under its nick, and somebody waits on
each hotlist of the table.  A login tells each connection that waits for the new user once, and no
other. -/
theorem reach_hotlists (f : Startup) (events : List Event) :
    let s := Server.reach f events
    (∀ con, ∀ hot ∈ s.hotlists.values,
      ((s.hot hot).users.count con = 1 ↔ (s.hotlistsOf con).count hot = 1) ∧
      (s.hot hot).users.count con ≤ 1 ∧ (s.hotlistsOf con).count hot ≤ 1) ∧
    (∀ con, ∀ hot ∈ s.hotlistsOf con,
      s.Client con ∧ s.hotlists.lookup (s.hot hot).nick = some hot) ∧
    (∀ hot ∈ s.hotlists.values, s.hotlists.lookup (s.hot hot).nick = some hot ∧
      (s.hot hot).users ≠ [] ∧ ∀ con ∈ (s.hot hot).users, s.Client con) ∧
    ∀ con, ∀ cmd ∈ [Command.login, Command.loginRegister], ∀ pkt env,
      let t := s.step (.packet con cmd pkt env)
      ((∀ user ∈ t.users.values, user ∈ s.users.values) ∧ ∀ c, t.signOns c = s.signOns c) ∨
      ∃ user ∈ t.users.values, user ∉ s.users.values ∧
        (∀ v ∈ t.users.values, v ≠ user → v ∈ s.users.values) ∧
        ∀ c, t.signOns c = s.signOns c ++
          if ∃ hot ∈ t.hotlistsOf c, strlower (t.hot hot).nick = strlower (t.user user).nick then
            [⟨c, msgServerUserSignon,
              clip ((t.user user).nick ++ str " " ++ showNat (t.user user).speed)⟩]
          else [] := by
  intro s
  have h : Hotlists s.toCore := (reach_waiting f events).2
  have hClient (con : ConId) (hot : HotlistId) (hOn : hot ∈ s.hotlistsOf con) : s.Client con := by
    by_contra hNot
    rw [h.idle hNot] at hOn
    cases hOn
  refine ⟨fun con hot hIn => ?_, fun con hot hOn => ?_, fun hot hIn => ?_, fun con cmd hCmd pkt env => ?_⟩
  · obtain ⟨hSame, hMost⟩ := h.waiting.mirror.count (a := con) trivial hIn
    rw [← hSame]
    exact ⟨Iff.rfl, hMost, hMost⟩
  · refine ⟨hClient con hot hOn, h.waiting.lookup_nick ?_⟩
    exact (h.waiting.mirror.left con trivial hot hOn).1
  · refine ⟨h.waiting.lookup_nick hIn, h.waiting.waited hot hIn, fun con hOn => ?_⟩
    exact hClient con hot (h.waiting.mirror.right hot hIn con hOn).2
  · intro t
    have hReached : t = Server.reach f (events ++ [.packet con cmd pkt env]) := by
      simp [t, s, Server.reach, run, Runs.run]
    have hNext : Hotlists t.toCore := by
      rw [hReached]
      exact (reach_waiting f _).2
    rcases step_login s con (by simpa using hCmd) pkt env with hNone | hSome
    · refine .inl ⟨fun user hUser => ?_, signOns_eq hNone.2⟩
      rwa [← hNone.1]
    · obtain ⟨user, hSome⟩ := hSome
      have hNew : user ∉ s.users.values := fun hOld =>
        absurd ((reach_waiting f events).1.registry.knownUser user hOld) (Nat.not_lt.2 hSome.fresh)
      exact .inr ⟨user, hSome.online, hNew, hSome.only, hSome.signOns_eq hNext⟩

end Server

end OpenNap
