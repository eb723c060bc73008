import OpenNap.Paths
import OpenNap.People

/-! Two servers are linked while each has a local user of one nick.  What the burst of a server says
about its user begins with the login of the user, and what the peer makes of the login decides which
of the two users stays. -/

namespace OpenNap

open CText

/-! ### A user of this server goes -/

/-- From `s` to `t` the links stay, and nobody new waits for a user. -/
structure SameLinks (s t : Core) : Prop where
  cfg : t.cfg = s.cfg
  servers : t.servers = s.servers
  host : ∀ c, (t.con c).host = (s.con c).host
  waiting : ∀ h ∈ t.hotlists.values, h ∈ s.hotlists.values ∧
    ∀ c ∈ (t.hot h).users, c ∈ (s.hot h).users

namespace SameLinks

theorem refl (s : Core) : SameLinks s s := ⟨rfl, rfl, fun _ => rfl, fun _ h => ⟨h, fun _ => id⟩⟩

theorem trans {s t u : Core} (h1 : SameLinks s t) (h2 : SameLinks t u) : SameLinks s u where
  cfg := h2.cfg.trans h1.cfg
  servers := h2.servers.trans h1.servers
  host c := (h2.host c).trans (h1.host c)
  waiting h hh := by
    obtain ⟨hIn, hUsers⟩ := h2.waiting h hh
    obtain ⟨hIn', hUsers'⟩ := h1.waiting h hIn
    exact ⟨hIn', fun c hc => hUsers' c (hUsers c hc)⟩

theorem chan {s t : Core} (h : ChanStep s t) : SameLinks s t where
  cfg := (congrArg Core.cfg h.rest :)
  servers := (congrArg Core.servers h.rest :)
  host c := (congrArg Connection.host (congrFun (congrArg Core.con h.rest) c) :)
  waiting x hx := by
    have hHot : t.hot = s.hot := (congrArg Core.hot h.rest :)
    have hTable : t.hotlists = s.hotlists := (congrArg Core.hotlists h.rest :)
    rw [hHot, ← hTable]
    exact ⟨hx, fun _ => id⟩

theorem file {s t : Core} (h : FileStep s t) : SameLinks s t where
  cfg := (congrArg Core.cfg h.rest :)
  servers := (congrArg Core.servers h.rest :)
  host c := (congrArg Connection.host (congrFun (congrArg Core.con h.rest) c) :)
  waiting x hx := by
    have hHot : t.hot = s.hot := (congrArg Core.hot h.rest :)
    have hTable : t.hotlists = s.hotlists := (congrArg Core.hotlists h.rest :)
    rw [hHot, ← hTable]
    exact ⟨hx, fun _ => id⟩

theorem modCon (s : Core) (con : ConId) {f : Connection → Connection} (h : ∀ c, (f c).host = c.host) :
    SameLinks s (s.modCon con f) := by
  refine { refl s with host := fun c => ?_ }
  by_cases hc : c = con
  · simp [hc, h]
  · simp [hc]

theorem freeUser (s : Core) (user : UserId) : SameLinks s (s.freeUser user) := by
  have hChan : ChanStep s ((s.partChannels user).dropInvitations user) :=
    (s.chanStep_partChannels user).trans (Core.chanStep_dropInvitations _ user)
  have hCount : FileStep ((s.partChannels user).dropInvitations user)
      (((s.partChannels user).dropInvitations user).uncountUser user) := ⟨rfl, le_refl _⟩
  have hLogoff (t : Core) (nick : Str) : SameLinks t (t.recordLogoff nick) := by
    simp only [Core.recordLogoff]
    split
    · exact { refl t with }
    · exact refl t
  exact ((chan hChan).trans (file hCount)).trans (hLogoff _ _)

theorem hashRemoveUser (s : Core) (nick : Str) : SameLinks s (s.hashRemoveUser nick) := by
  simp only [Core.hashRemoveUser]
  split
  · exact refl s
  · rename_i user _
    exact { freeUser s user with }

theorem leaveHotlist (s : Core) (con : ConId) (hot : HotlistId) :
    SameLinks s (s.leaveHotlist con hot) := by
  have hErase : SameLinks s (s.modHot hot fun h => { h with users := h.users.erase con }) := by
    refine { refl s with waiting := fun h hh => ⟨hh, fun c hc => ?_⟩ }
    by_cases hEq : h = hot
    · subst hEq
      simp only [Core.modHot_hot, if_true] at hc
      exact List.mem_of_mem_erase hc
    · simpa [hEq] using hc
  simp only [Core.leaveHotlist]
  split
  · refine { hErase with waiting := fun h hh => hErase.waiting h ?_ }
    obtain ⟨key, hEntry⟩ := Bucket.Table.mem_values.1 hh
    exact Bucket.Table.mem_values.2 ⟨key, Bucket.Table.mem_entries_of_mem_remove hEntry⟩
  · exact hErase

theorem freeOptions (s : Core) (con : ConId) : SameLinks s (s.freeOptions con) := by
  have hHot (l : List HotlistId) (s : Core) :
      SameLinks s (l.foldl (fun s hot => s.leaveHotlist con hot) s) := by
    induction l generalizing s with
    | nil => exact refl s
    | cons hot l ih => exact (leaveHotlist s con hot).trans (ih _)
  have hLast (t : Core) : SameLinks t (t.modCon con fun c => { c with uopt := none }) :=
    modCon t con fun _ => rfl
  exact ((hHot _ s).trans (file (Core.fileStep_freeFiles _ con))).trans (hLast _)

theorem zapLocalUser (s : Core) (con : ConId) : SameLinks s (s.zapLocalUser con) := by
  have hRemove (t : Core) : SameLinks t (t.removeUser con) := by
    simp only [Core.removeUser]
    split
    · exact refl t
    · exact (hashRemoveUser t _).trans (freeOptions _ con)
  have hKilled : SameLinks s (s.modCon con fun c => { c with killed := true }) :=
    modCon s con fun _ => rfl
  refine (hKilled.trans (hRemove _)).trans ?_
  simp only [Core.zapLocalUser]
  exact modCon _ con fun _ => rfl

end SameLinks

/-- From `s` to `t` nothing is queued for the link, and connections and hotlists stay. -/
structure Unheard (link : ConId) (s t : Server) : Prop where
  con : t.con = s.con
  hot : t.hot = s.hot
  hotlists : t.hotlists = s.hotlists
  queued : t.queued link = s.queued link

theorem Unheard.trans {link : ConId} {s t u : Server} (h1 : Unheard link s t) (h2 : Unheard link t u) :
    Unheard link s u :=
  ⟨h2.con.trans h1.con, h2.hot.trans h1.hot, h2.hotlists.trans h1.hotlists, h2.queued.trans h1.queued⟩

namespace Server

variable {s : Server} {link : ConId}

theorem unheard_onCore {f : Core → Core} (hCon : (f s.toCore).con = s.con)
    (hHot : (f s.toCore).hot = s.hot) (hTable : (f s.toCore).hotlists = s.hotlists) :
    Unheard link s (s.onCore f) := ⟨hCon, hHot, hTable, rfl⟩

theorem unheard_chan {f : Core → Core} (h : ChanStep s.toCore (f s.toCore)) :
    Unheard link s (s.onCore f) :=
  unheard_onCore (congrArg Core.con h.rest :) (congrArg Core.hot h.rest :)
    (congrArg Core.hotlists h.rest :)

theorem unheard_partChannel (hUser : s.isUser link = false) (chan : ChanId) (user : UserId) :
    Unheard link s (s.partChannel chan user) := by
  have hRemove : Unheard link s (s.onCore (·.channelRemove chan user)) :=
    unheard_chan (s.toCore.chanStep_modChan chan _)
  simp only [partChannel]
  split
  · split
    · exact hRemove.trans (unheard_chan (Core.chanStep_hashRemoveChannel _ _))
    · exact hRemove
  · refine hRemove.trans
      ⟨by rw [toCore_tellMembers], by rw [toCore_tellMembers], by rw [toCore_tellMembers], ?_⟩
    exact queued_tellMembers (s := s.onCore (·.channelRemove chan user)) hUser _ _ _ _

theorem unheard_partChannels (hUser : s.isUser link = false) (user : UserId) :
    Unheard link s (s.partChannels user) := by
  have hWalk (l : List ChanId) (t : Server) (hCon : t.con = s.con) :
      Unheard link t (l.foldl (fun s chan => s.partChannel chan user) t) := by
    induction l generalizing t with
    | nil => exact ⟨rfl, rfl, rfl, rfl⟩
    | cons chan l ih =>
      have hPart := @unheard_partChannel t link
        (by simpa only [Core.isUser, hCon] using hUser) chan user
      exact hPart.trans (ih _ (hPart.con.trans hCon))
  exact hWalk _ s rfl

/-- A message to those who wait for a user is nothing for a link, which waits for nobody. -/
theorem unheard_tellHotlist (hHot : ∀ h ∈ s.hotlists.values, link ∉ (s.hot h).users) (nick : Str) (tag : Nat) (body : Str) :
    Unheard link s (s.tellHotlist nick tag body) := by
  refine ⟨by rw [toCore_tellHotlist], by rw [toCore_tellHotlist], by rw [toCore_tellHotlist], ?_⟩
  have hWalk (l : List ConId) (h : link ∉ l) (t : Server) :
      (l.foldl (fun s con => s.sendCmd con tag body) t).queued link = t.queued link := by
    induction l generalizing t with
    | nil => rfl
    | cons con l ih =>
      obtain ⟨hNe, hRest⟩ := not_or.1 (fun hIs => h (List.mem_cons.2 hIs))
      rw [List.foldl_cons, ih hRest, sendCmd, queued_queueData, if_neg (Ne.symm hNe), List.append_nil]
  unfold tellHotlist
  split
  · rename_i hot hFound
    exact hWalk _ (hHot hot (Bucket.Table.mem_values_of_lookup hFound)) s
  · rfl

/-- A user who was killed goes without a word to the peers. -/
theorem unheard_freeUser (hUser : s.isUser link = false) (hHot : ∀ h ∈ s.hotlists.values, link ∉ (s.hot h).users)
    {user : UserId} (hKilled : (s.con (s.user user).con).killed = true) :
    Unheard link s (s.freeUser user) := by
  have hQuit : s.sayQuit user = s := by simp [sayQuit, hKilled]
  have hPart := unheard_partChannels hUser user
  have hCount : Unheard link (s.partChannels user)
      ((s.partChannels user).onCore fun s => (s.dropInvitations user).uncountUser user) := by
    have hDrop := Core.chanStep_dropInvitations (s.partChannels user).toCore user
    exact unheard_onCore (congrArg Core.con hDrop.rest :) (congrArg Core.hot hDrop.rest :)
      (congrArg Core.hotlists hDrop.rest :)
  have hGone := hPart.trans hCount
  have hHot' : ∀ h ∈ ((s.partChannels user).onCore fun s =>
      (s.dropInvitations user).uncountUser user).hotlists.values,
      link ∉ (((s.partChannels user).onCore fun s =>
        (s.dropInvitations user).uncountUser user).hot h).users := by
    rw [hGone.hot, hGone.hotlists]
    exact hHot
  simp only [freeUser, hQuit]
  refine (hGone.trans (unheard_tellHotlist hHot' _ _ _)).trans (unheard_onCore ?_ ?_ ?_) <;>
  · simp only [Core.recordLogoff]
    split <;> rfl

/-- The user of a connection is put out; only the peers other than the one on the link may hear. -/
theorem queued_zapLocalUser (hUser : s.isUser link = false) (hHot : ∀ h ∈ s.hotlists.values, link ∉ (s.hot h).users)
    {con : ConId} (user : UserId) (hOwner : (s.con con).user = some user)
    (hCon : (s.user user).con = con) (hLookup : s.users.lookup (s.user user).nick = some user)
    (hNe : con ≠ link) (reason : Str) :
    (s.zapLocalUser con reason).queued link = s.queued link := by
  have hSend (t : Server) (tag : Nat) (body : Str) :
      (t.sendCmd con tag body).queued link = t.queued link := by
    rw [sendCmd, queued_queueData, if_neg hNe, List.append_nil]
  have hRemove (t : Server) (hSame : t.toCore = s.toCore.modCon con fun c => { c with killed := true }) :
      (t.removeUser con).queued link = t.queued link := by
    have hOwner' : (t.con con).user = some user := by simp [hSame, hOwner]
    have hFree : Unheard link t (t.freeUser user) := by
      refine unheard_freeUser ?_ ?_ ?_
      · simp only [hSame, Core.isUser, Core.modCon_con, if_neg hNe.symm]
        exact hUser
      · rw [hSame]
        exact hHot
      · simp [hSame, hCon]
    have hFound : t.users.lookup (t.user user).nick = some user := by
      rw [hSame]
      exact hLookup
    simp only [removeUser, hOwner', queued_onCore, hashRemoveUser, hFound]
    exact hFree.queued
  simp only [zapLocalUser, queued_onCore]
  rw [hRemove _ rfl, queued_onCore, hSend, hSend]

end Server

/-! ### What a login from a peer meets -/

/-- What a login message from a peer says, when it has all of its fields. -/
def peerLogin (pkt : Str) : Option LoginRequest :=
  match splitLine 10 pkt with
  | some [nick, pass, port, client, speed, _, ts, ip, server, conport] =>
    let ip := UInt32.ofNat (strtoul ip).1
    some
      { nick := nick, pass := pass, port := port, client := client, speed := speed
        ip := ip, host := myNtoa ip
        connected := atoi ts, server := server, conport := toUshort (atoi conport) }
  | _ => none

namespace Core

/-- A ban covers the user, whose account is not privileged. -/
def bansLogin (s : Core) (r : LoginRequest) : Bool :=
  !((s.userDb.lookup r.nick).any fun d => decide (Level.moderator ≤ (s.db d).level)) &&
    (s.banFor r.nick r.host).isSome

/-- The account of that nick has another password. -/
def wrongAccount (s : Core) (r : LoginRequest) : Bool :=
  (s.userDb.lookup r.nick).any fun d => checkPass s.cfg.md5 (s.db d).password r.pass

/-- The account is good, or there is none and none is asked for. -/
def rightAccount (s : Core) (r : LoginRequest) : Bool :=
  match s.userDb.lookup r.nick with
  | some d => !checkPass s.cfg.md5 (s.db d).password r.pass
  | none => !s.cfg.registeredOnly

/-- A login from a peer makes the server give up its own user. -/
structure Yields (s : Core) (user : UserId) (r : LoginRequest) : Prop where
  nick : invalidNick s.cfg r.nick = false
  free : s.bansLogin r = false
  account : s.rightAccount r = true
  younger : r.connected < (s.user user).connected

instance (s : Core) (user : UserId) (r : LoginRequest) : Decidable (s.Yields user r) :=
  decidable_of_iff
    (invalidNick s.cfg r.nick = false ∧ s.bansLogin r = false ∧ s.rightAccount r = true ∧
      r.connected < (s.user user).connected)
    ⟨fun ⟨hNick, hFree, hAccount, hYounger⟩ => ⟨hNick, hFree, hAccount, hYounger⟩,
      fun h => ⟨h.nick, h.free, h.account, h.younger⟩⟩

/-- A login from a peer is turned down without a word. -/
structure Keeps (s : Core) (user : UserId) (r : LoginRequest) : Prop where
  nick : invalidNick s.cfg r.nick = false
  stays : s.bansLogin r = true ∨
    s.rightAccount r = true ∧ ¬ r.connected < (s.user user).connected

instance (s : Core) (user : UserId) (r : LoginRequest) : Decidable (s.Keeps user r) :=
  decidable_of_iff
    (invalidNick s.cfg r.nick = false ∧ (s.bansLogin r = true ∨
      s.rightAccount r = true ∧ ¬ r.connected < (s.user user).connected))
    ⟨fun ⟨hNick, hStays⟩ => ⟨hNick, hStays⟩, fun h => ⟨h.nick, h.stays⟩⟩

/-- A login from a peer is answered with a kill: the message cannot be read, or the nick or the
account is not right. -/
structure Kills (s : Core) (nick pkt : Str) : Prop where
  named : ∃ name rest, splitLine 10 pkt = some (name :: rest) ∧ sameText name nick = true ∧
    Word name ∧ s.cfg.serverName.length + name.length ≤ 2000
  wrong : ∀ r, peerLogin pkt = some r → invalidNick s.cfg r.nick = true ∨
    s.bansLogin r = false ∧ s.wrongAccount r = true

end Core

namespace Server

variable {s : Server} {link : ConId} {peer : Str} {r : LoginRequest}

theorem readLogin_peer (h : s.isUnknown link = false) {pkt : Str} (hRead : peerLogin pkt = some r) :
    s.readLogin link pkt = .ok r := by
  unfold peerLogin at hRead
  split at hRead
  · rename_i hFields
    cases hRead
    simp only [readLogin, h, hFields, Bool.false_eq_true, if_false]
  · cases hRead

theorem readLogin_unreadable (h : s.isUnknown link = false) {pkt name : Str} {rest : List Str}
    (hRead : peerLogin pkt = none) (hFields : splitLine 10 pkt = some (name :: rest)) :
    s.readLogin link pkt =
      .error (s.killClient name (str "bad login message from server")) := by
  unfold peerLogin at hRead
  simp only [readLogin, h, hFields, Bool.false_eq_true, if_false] at hRead ⊢
  split
  · rename_i hTen
    rw [hTen] at hRead
    cases hRead
  · rename_i hSome
    cases hSome
    rfl
  · rename_i hNot
    exact absurd rfl (hNot name rest)

/-- A number that is out of range does not stop a login from a peer. -/
theorem checkNumber_peer (h : LinkedTo s.toCore link peer) (r : LoginRequest) (what text : Str)
    (bound : Int) : ∃ t n, s.checkNumber link r what text bound = .ok (t, n) ∧
      t.toCore = s.toCore ∧ t.queued link = s.queued link := by
  have hUnknown : s.isUnknown link = false := by simp [Core.isUnknown, h.cls]
  simp only [checkNumber, hUnknown, Bool.false_eq_true, if_false]
  split
  · exact ⟨_, 0, rfl, by simp, queued_notifyMods h.isUser _ _⟩
  · exact ⟨s, _, rfl, rfl, rfl⟩

/-- A login from a peer that no ban stops comes to the check of the account. -/
theorem loginRequest_peer (h : LinkedTo s.toCore link peer) (hNick : invalidNick s.cfg r.nick = false)
    (hFree : s.bansLogin r = false) (tag : Nat) (random : Str) :
    ∃ (t : Server) (speed port : Nat), t.toCore = s.toCore ∧ t.queued link = s.queued link ∧
      (∀ u, t.checkAccount link tag r (s.userDb.lookup r.nick) = .error u →
        s.loginRequest link tag r random = u) ∧
      ∀ registers, t.checkAccount link tag r (s.userDb.lookup r.nick) = .ok registers →
        s.loginRequest link tag r random =
          t.enterUser link r speed port (s.userDb.lookup r.nick) registers random := by
  have hUnknown : s.isUnknown link = false := by simp [Core.isUnknown, h.cls]
  obtain ⟨t, speed, hSpeed, hCore, hQueued⟩ := checkNumber_peer h r (str "speed") r.speed 10
  have hLinked : LinkedTo t.toCore link peer := by rw [hCore]; exact h
  obtain ⟨u, port, hPort, hCore', hQueued'⟩ := checkNumber_peer hLinked r (str "port") r.port 65535
  have hFreely : (if ((s.userDb.lookup r.nick).any fun d =>
      decide (Level.moderator ≤ (s.db d).level)) then (Except.ok s : Except Server Server)
      else s.checkRestrictions link r) = .ok s := by
    split
    · rfl
    · rename_i hPlain
      have hNoBan : s.banFor r.nick r.host = none := by
        simpa [Core.bansLogin, hPlain] using hFree
      simp only [checkRestrictions, hNoBan, hUnknown, Bool.false_eq_true, if_false]
  refine ⟨u, speed, port, hCore'.trans hCore, hQueued'.trans hQueued, fun v hAccount => ?_,
    fun registers hAccount => ?_⟩
  · simp only [loginRequest, checkNick, hNick, Bool.false_eq_true, if_false, hFreely, hSpeed, hPort,
      hAccount]
  · simp only [loginRequest, checkNick, hNick, Bool.false_eq_true, if_false, hFreely, hSpeed, hPort,
      hAccount]

/-- A login that a ban stops is not answered to the peer it came from. -/
theorem loginRequest_banned (h : LinkedTo s.toCore link peer)
    (hNick : invalidNick s.cfg r.nick = false) (hBan : s.bansLogin r = true) (tag : Nat)
    (random : Str) : (s.loginRequest link tag r random).toCore = s.toCore ∧
      (s.loginRequest link tag r random).queued link = s.queued link := by
  have hUnknown : s.isUnknown link = false := by simp [Core.isUnknown, h.cls]
  simp only [Core.bansLogin, Bool.and_eq_true, Bool.not_eq_true'] at hBan
  obtain ⟨hPlain, hSome⟩ := hBan
  obtain ⟨ban, hFor⟩ := Option.isSome_iff_exists.1 hSome
  simp only [loginRequest, checkNick, hNick, hPlain, checkRestrictions, hFor, refuseBanned,
    Bool.false_eq_true, if_false]
  have hMods (t : Server) (hSame : t.toCore = s.toCore) (mode : Nat) (text : Str) :
      (t.notifyMods mode text).queued link = t.queued link :=
    queued_notifyMods (by rw [hSame]; exact h.isUser) _ _
  constructor
  · simp [hUnknown, h.isServer]
  · simp only [toCore_notifyMods, hUnknown, h.isServer, Bool.false_eq_true, if_false, if_true]
    rw [hMods _ (by simp), queued_passMessageArgs_except, hMods _ rfl]

theorem checkAccount_right (link : ConId) (h : s.rightAccount r = true) :
    ∃ registers, s.checkAccount link msgClientLogin r (s.userDb.lookup r.nick) = .ok registers := by
  simp only [Core.rightAccount, checkAccount] at h ⊢
  split at h
  · rename_i d hDb
    have hPass : checkPass s.cfg.md5 (s.db d).password r.pass = false := by simpa using h
    simp [hDb, hPass, msgClientLogin, msgClientLoginRegister]
  · rename_i hNone
    have hOpen : s.cfg.registeredOnly = false := by simpa using h
    simp [hNone, hOpen]

/-- A login that is turned down without a word. -/
theorem login_keeps (h : LinkedTo s.toCore link peer) {pkt : Str} {user : UserId}
    (hRead : peerLogin pkt = some r) (hUser : s.users.lookup r.nick = some user)
    (hKeeps : s.Keeps user r) (random : Str) :
    (s.login link msgClientLogin pkt random).toCore = s.toCore ∧
      (s.login link msgClientLogin pkt random).queued link = s.queued link := by
  have hUnknown : s.isUnknown link = false := by simp [Core.isUnknown, h.cls]
  simp only [login, h.isUser, readLogin_peer hUnknown hRead, Bool.false_eq_true, if_false]
  by_cases hBan : s.bansLogin r = true
  · exact loginRequest_banned h hKeeps.nick hBan _ _
  · obtain ⟨hRight, hOlder⟩ := hKeeps.stays.resolve_left hBan
    obtain ⟨t, speed, port, hCore, hQueued, -, hRequest⟩ :=
      loginRequest_peer h hKeeps.nick (by simpa using hBan) msgClientLogin random
    obtain ⟨registers, hAccount⟩ := checkAccount_right (s := t) link
      (by rw [hCore]; exact hRight)
    rw [hCore] at hAccount
    have hCollision : t.checkCollision link r = .error t := by
      simp only [checkCollision, hCore, hUser, hUnknown, hOlder, Bool.false_eq_true, if_false]
    rw [hRequest registers hAccount]
    simp only [enterUser, hCollision]
    exact ⟨hCore, hQueued⟩

/-- The kill that a server called `me` sends. -/
def killText (me name reason : Str) : Str :=
  str ":" ++ me ++ str " " ++ name ++ str " \"" ++ reason ++ str "\""

/-- A kill from `peer` of the user of a nick. -/
structure SaysKill (peer nick : Str) (m : Message) : Prop where
  tag : m.tag = msgClientKill
  body : ∃ body name reason, m.body = ':' :: body ∧ nextArg body = (peer, some (name ++ reason)) ∧
    (∃ more, splitLine 2 (name ++ reason) = some (name :: more)) ∧ sameText name nick = true

/-- The kills that `login` sends can be read. -/
theorem saysKill {me name nick reason : Str} (hMe : Word me) (hName : Word name)
    (hSame : sameText name nick = true) (hFits : me.length + name.length ≤ 2000)
    (hReason : ∀ d ∈ reason, isQuote d = false) (hShort : reason.length ≤ 30) (con : ConId) :
    SaysKill me nick ⟨con, msgClientKill, clip (killText me name reason)⟩ := by
  have hLength : (killText me name reason).length ≤ 2043 := by
    simp only [killText, str, List.length_append]
    simp
    omega
  refine ⟨rfl, me ++ ' ' :: (name ++ (' ' :: '"' :: (reason ++ ['"']))), name,
    ' ' :: '"' :: (reason ++ ['"']), ?_, ?_, ⟨[reason], ?_⟩, hSame⟩
  · rw [clip_of_fits hLength]
    simp [killText, str]
  · have hSkip := hName.skipSpace (' ' :: '"' :: (reason ++ ['"']))
    rw [nextArg_word hMe, hSkip]
    rw [hSkip]
    exact List.append_ne_nil_of_left_ne_nil hName.nonempty _
  · rw [splitLine, hName.skipSpace, splitFields_word_blank hName]
    have hQuote : skipSpace ('"' :: (reason ++ ['"'])) = '"' :: (reason ++ ['"']) :=
      skipSpace_cons_of_not (by decide)
    rw [hQuote, splitFields_quoted_end hReason]
    rfl

theorem queued_killClient (h : LinkedTo s.toCore link peer) (name reason : Str) :
    (s.killClient name reason).queued link =
      s.queued link ++
        [⟨link, msgClientKill, clip (killText s.cfg.serverName name (reason.take 1023))⟩] := by
  have hUser (t : Server) (hSame : t.toCore = s.toCore) : t.isUser link = false := by
    rw [hSame]
    exact h.isUser
  simp only [killClient]
  rw [queued_notifyMods (hUser _ (toCore_passMessageArgs ..)), queued_passMessageArgs, h.listed]
  rfl

theorem nick_of_peerLogin {pkt name : Str} {rest : List Str} (hRead : peerLogin pkt = some r)
    (hFields : splitLine 10 pkt = some (name :: rest)) : r.nick = name := by
  unfold peerLogin at hRead
  split at hRead
  · rename_i hTen
    rw [hFields] at hTen
    cases hRead
    cases hTen
    rfl
  · cases hRead

/-- What a server queues for the peer when it refuses the login of a user of the nick. -/
structure Killed (link : ConId) (nick : Str) (s t : Server) : Prop where
  same : t.toCore = s.toCore
  told : ∀ m ∈ t.queued link, m ∈ s.queued link ∨ Minor m ∨ SaysKill s.cfg.serverName nick m
  kill : ∃ m ∈ t.queued link, SaysKill s.cfg.serverName nick m

theorem killed_killClient (h : LinkedTo s.toCore link peer) {name nick reason : Str}
    (hMe : Word s.cfg.serverName) (hName : Word name) (hSame : sameText name nick = true)
    (hFits : s.cfg.serverName.length + name.length ≤ 2000)
    (hReason : reason.any isQuote = false) (hShort : reason.length ≤ 30) :
    Killed link nick s (s.killClient name reason) := by
  have hUnquoted : ∀ d ∈ reason, isQuote d = false := by simpa using hReason
  have hKill := saysKill hMe hName hSame hFits hUnquoted hShort link
  have hQueued := queued_killClient h name reason
  rw [List.take_of_length_le (by omega)] at hQueued
  refine ⟨toCore_killClient .., fun m hm => ?_, ⟨_, ?_, hKill⟩⟩
  · rw [hQueued] at hm
    rcases List.mem_append.1 hm with hm | hm
    · exact .inl hm
    · obtain rfl := List.mem_singleton.1 hm
      exact .inr (.inr hKill)
  · rw [hQueued]
    exact List.mem_append_right _ (List.mem_singleton.2 rfl)

/-- What is said before or after a kill does not matter. -/
theorem Killed.trans {t u v : Server} {nick : Str} (h : Killed link nick t u) (hBefore : t.toCore = s.toCore)
    (hTold : ∀ m ∈ t.queued link, m ∈ s.queued link ∨ Minor m) (hAfter : v.toCore = u.toCore)
    (hQueued : ∃ out, v.queued link = u.queued link ++ out ∧ ∀ m ∈ out, Minor m) :
    Killed link nick s v := by
  obtain ⟨out, hOut, hMinor⟩ := hQueued
  obtain ⟨m, hm, hKill⟩ := h.kill
  have hName : t.cfg.serverName = s.cfg.serverName := by rw [hBefore]
  rw [hName] at hKill
  refine ⟨hAfter.trans (h.same.trans hBefore), fun m hm => ?_, ⟨m, ?_, hKill⟩⟩
  · rw [hOut] at hm
    rcases List.mem_append.1 hm with hm | hm
    · rcases h.told m hm with hm | hm | hm
      · exact (hTold m hm).imp_right .inl
      · exact .inr (.inl hm)
      · rw [hName] at hm
        exact .inr (.inr hm)
    · exact .inr (.inl (hMinor m hm))
  · rw [hOut]
    exact List.mem_append_left _ hm

theorem tellBadPass_mild (h : LinkedTo s.toCore link peer) (r : LoginRequest) (d : UserDb) :
    Mild link s (s.tellBadPass r d) := by
  simp only [tellBadPass]
  split
  · exact ((Mild.refl link s).notifyMods h.isUser _ _).passAll .notifyMods (by decide) _
  · exact .refl link s

/-- A login that is answered with a kill. -/
theorem login_kills (h : LinkedTo s.toCore link peer) (hMe : Word s.cfg.serverName) {nick pkt : Str}
    (hKills : s.Kills nick pkt) (random : Str) :
    Killed link nick s (s.login link msgClientLogin pkt random) := by
  have hUnknown : s.isUnknown link = false := by simp [Core.isUnknown, h.cls]
  obtain ⟨⟨name, rest, hFields, hSame, hName, hFits⟩, hWrong⟩ := hKills
  simp only [login, h.isUser, Bool.false_eq_true, if_false]
  cases hRead : peerLogin pkt with
  | none =>
    rw [readLogin_unreadable hUnknown hRead hFields]
    exact killed_killClient h hMe hName hSame hFits (by decide) (by decide)
  | some r =>
    obtain rfl := nick_of_peerLogin hRead hFields
    rw [readLogin_peer hUnknown hRead]
    by_cases hNick : invalidNick s.cfg r.nick = true
    · simp only [loginRequest, checkNick, hNick, hUnknown, Bool.false_eq_true, if_false, if_true]
      exact killed_killClient h hMe hName hSame hFits (by decide) (by decide)
    · obtain ⟨hFree, hWrong⟩ := (hWrong r hRead).resolve_left hNick
      obtain ⟨t, speed, port, hCore, hQueued, hRequest, -⟩ :=
        loginRequest_peer h (by simpa using hNick) hFree msgClientLogin random
      simp only [Core.wrongAccount, Option.any_eq_true] at hWrong
      obtain ⟨d, hDb, hPass⟩ := hWrong
      have hLinked : LinkedTo t.toCore link peer := by rw [hCore]; exact h
      have hMild := tellBadPass_mild hLinked r (s.db d)
      have hBad := toCore_tellBadPass t r (s.db d)
      have hLinked' : LinkedTo (t.tellBadPass r (s.db d)).toCore link peer := by
        rw [hBad]
        exact hLinked
      have hKilled : Killed link nick (t.tellBadPass r (s.db d))
          ((t.tellBadPass r (s.db d)).killClient r.nick (str "invalid password")) := by
        refine killed_killClient hLinked' ?_ hName hSame ?_ (by decide) (by decide)
        · rw [hBad, hCore]
          exact hMe
        · rw [hBad, hCore]
          exact hFits
      have hAccount : t.checkAccount link msgClientLogin r (s.userDb.lookup r.nick) =
          .error (((t.tellBadPass r (s.db d)).killClient r.nick (str "invalid password")).syncReginfo
            d) := by
        simp only [checkAccount, hDb, hCore, hPass, if_true]
        rw [if_neg (by decide)]
        simp only [hBad, hCore, hUnknown, Bool.false_eq_true, if_false]
      simp only [hRequest _ hAccount]
      refine hKilled.trans (hBad.trans hCore) (fun m hm => ?_) (toCore_syncReginfo ..) ?_
      · rw [← hQueued]
        exact hMild.told m hm
      · refine ⟨_, queued_passMessageArgs msgServerReginfo _, fun m hm => ⟨.reginfo, by decide, ?_⟩⟩
        rw [(List.mem_replicate.1 hm).2]
        rfl

/-! ### A login that is let in -/

/-- Who is listed under a nick: the home server of the user, whose name is known in any case, and
the time of the login. -/
structure Listing where
  server : Str
  connected : Int
deriving DecidableEq

end Server

def Core.listed (s : Core) (nick : Str) : Option Server.Listing :=
  (s.users.lookup nick).map fun user => ⟨strlower (s.user user).server, (s.user user).connected⟩

/-- A user behind the link is listed under the nick. -/
structure Taken (s : Core) (link : ConId) (peer nick : Str) (v : Server.Listing) : Prop where
  linked : LinkedTo s link peer
  behind : ∃ user, s.users.lookup nick = some user ∧ (s.user user).con = link
  listed : s.listed nick = some v

theorem Core.findServer_same (s : Core) (name : Str) :
    strlower (s.findServer name).1 = strlower name := by
  unfold findServer
  split
  · rename_i known hKnown
    have hSame := List.find?_some hKnown
    exact (sameText_iff.1 hSame).symm
  · rfl

namespace Server

variable {s : Server} {link : ConId} {peer : Str} {r : LoginRequest}

theorem taken_enter (h : LinkedTo s.toCore link peer) {nick : Str} (hNick : sameText r.nick nick = true)
    (speed port : Nat) :
    Taken ((s.toCore.tieRemote (Core.newUser s.cfg link r speed port) r.server).addUser s.next) link peer
      nick ⟨strlower r.server, r.connected⟩ := by
  have hFound : ((s.toCore.tieRemote (Core.newUser s.cfg link r speed port) r.server).addUser
      s.next).users.lookup nick = some s.next := by
    simp only [Core.addUser, Core.tieRemote, Core.newUser, Core.modUser_user, if_true]
    rw [Bucket.Table.lookup_add]
    exact if_pos (sameText_iff.1 hNick)
  refine ⟨{ h with }, ⟨s.next, hFound, by simp [Core.addUser, Core.tieRemote, Core.newUser]⟩, ?_⟩
  simp only [Core.listed, hFound, Option.map_some, Option.some.injEq, Listing.mk.injEq]
  constructor
  · simp only [Core.addUser, Core.tieRemote, Core.modUser_user, if_true]
    exact Core.findServer_same _ r.server
  · simp [Core.addUser, Core.tieRemote, Core.newUser]

theorem applyRecord_mild {t : Server} (hUser : s.isUser link = false) (h : Mild link s t) (con : ConId)
    (user : UserId) (db : UserDbId) : Mild link s (t.applyRecord con user db) := by
  have hLevel {t : Server} (h : Mild link s t) (d : UserDb) : Mild link s (t.applyLevel con user d) := by
    unfold applyLevel
    simp only
    split
    · have hNotice (body : Str) := (h.notifyMods hUser levellogMode body).modUser user
        (f := fun u => { u with level := d.level }) fun _ => rfl
      exact ((hNotice _).sendIfUser hUser _ _ _).passAll .level (by decide) _
    · exact h
  have hMuzzle {t : Server} (h : Mild link s t) (d : UserDb) :
      Mild link s (t.applyMuzzle con user d) := by
    unfold applyMuzzle
    simp only
    split
    · have hMarked := h.modUser user (f := fun u => { u with muzzled := true }) fun _ => rfl
      exact ((hMarked.passAll .muzzle (by decide) _).sendIfUser hUser _ _ _).notifyMods hUser _ _
    · exact h
  have hCloak {t : Server} (h : Mild link s t) (d : UserDb) : Mild link s (t.applyCloak con user d) := by
    unfold applyCloak
    simp only
    split
    · have hMarked := h.modUser user (f := fun u => { u with cloaked := true }) fun _ => rfl
      exact ((hMarked.sendIfUser hUser _ _ _).notifyMods hUser _ _).passAll .cloak (by decide) _
    · exact h
  exact hCloak (hMuzzle (hLevel (h.modDb db _) _) _) _

/-- A user behind a peer is let in. -/
theorem acceptLogin_taken (h : LinkedTo s.toCore link peer)
    (hHot : ∀ h ∈ s.hotlists.values, link ∉ (s.hot h).users)
    {nick : Str} (hNick : sameText r.nick nick = true) (speed port : Nat) (db : Option UserDbId) :
    (∃ x, Taken x link peer nick ⟨strlower r.server, r.connected⟩ ∧
      SamePeople x (s.acceptLogin link r speed port db).toCore) ∧
    ∀ m ∈ (s.acceptLogin link r speed port db).queued link, m ∈ s.queued link ∨ Minor m := by
  have hUnknown : s.isUnknown link = false := by simp [Core.isUnknown, h.cls]
  have hTaken := taken_enter h hNick speed port
  have hUser : ((s.onCore (·.tieRemote (Core.newUser s.cfg link r speed port) r.server)).onCore
      (·.addUser s.next)).isUser link = false := h.isUser
  have hMild : Mild link ((s.onCore (·.tieRemote (Core.newUser s.cfg link r speed port) r.server)).onCore
      (·.addUser s.next)) (s.acceptLogin link r speed port db) := by
    have hPassed (body : Str) := (Mild.refl link ((s.onCore (·.tieRemote (Core.newUser s.cfg link r speed
      port) r.server)).onCore (·.addUser s.next))).passOthers msgClientLogin body
    have hTell {t : Server} (h : Mild link ((s.onCore (·.tieRemote (Core.newUser s.cfg link r speed port)
        r.server)).onCore (·.addUser s.next)) t) (tag : Nat) (body : Str) :
        Mild link ((s.onCore (·.tieRemote (Core.newUser s.cfg link r speed port) r.server)).onCore
          (·.addUser s.next)) (t.tellHotlist r.nick tag body) := by
      refine h.silent (by rw [toCore_tellHotlist]; exact .refl _) ?_
      refine (unheard_tellHotlist ?_ _ _ _).queued
      rw [h.people.hot, h.people.hotlists]
      exact hHot
    simp only [acceptLogin, hUnknown, Bool.false_eq_true, if_false]
    refine hTell ?_ _ _
    cases db with
    | none => exact hPassed _
    | some db => exact applyRecord_mild hUser (hPassed _) _ _ _
  exact ⟨⟨_, hTaken, hMild.people⟩, hMild.told⟩

/-- A login that makes the server give up its own user. -/
theorem login_yields (h : LinkedTo s.toCore link peer) (hReg : Registry s.toCore)
    (hHot : ∀ h ∈ s.hotlists.values, link ∉ (s.hot h).users) {nick pkt : Str} {user : UserId}
    (hRead : peerLogin pkt = some r) (hNick : sameText r.nick nick = true)
    (hUser : s.users.lookup nick = some user) (hLocal : (s.user user).isLocal = true)
    (hYields : s.Yields user r) (random : Str) :
    (∃ x, Taken x link peer nick ⟨strlower r.server, r.connected⟩ ∧
      SamePeople x (s.login link msgClientLogin pkt random).toCore) ∧
    ∀ m ∈ (s.login link msgClientLogin pkt random).queued link, m ∈ s.queued link ∨ Minor m := by
  have hUnknown : s.isUnknown link = false := by simp [Core.isUnknown, h.cls]
  obtain ⟨t, speed, port, hCore, hQueued, -, hRequest⟩ :=
    loginRequest_peer h hYields.nick hYields.free msgClientLogin random
  obtain ⟨registers, hAccount⟩ := checkAccount_right (s := t) link
    (by rw [hCore]; exact hYields.account)
  rw [hCore] at hAccount
  simp only [login, h.isUser, readLogin_peer hUnknown hRead, Bool.false_eq_true, if_false,
    hRequest registers hAccount]
  -- the user of this server, on a connection of its own
  have hIn : user ∈ s.users.values := Bucket.Table.mem_values_of_lookup hUser
  obtain ⟨hOpen, hClass, hOwner⟩ := hReg.home user hIn hLocal
  have hNe : (s.user user).con ≠ link := by
    intro hEq
    rw [hEq, h.cls] at hClass
    cases hClass
  have hIs : s.isUser (s.user user).con = true := by simp [Core.isUser, hClass]
  have hFound : s.users.lookup r.nick = some user := by
    rw [← hUser]
    exact Bucket.Table.lookup_congr (sameText_iff.1 hNick)
  -- what the collision leaves
  obtain ⟨u, hCollision, hGone, hHeard⟩ : ∃ u, t.checkCollision link r = .ok u ∧
      u.toCore = s.toCore.zapLocalUser (s.user user).con ∧ u.queued link = s.queued link := by
    simp only [checkCollision, hCore, hFound, hUnknown, hYields.younger, Bool.false_eq_true, if_false,
      if_true, toCore_notifyMods, toCore_passMessageArgs, hIs]
    refine ⟨_, rfl, by simp [hCore], ?_⟩
    have hKilled (x : Server) (hSame : x.toCore = s.toCore) :
        (x.zapLocalUser (s.user user).con (str "nick collision")).queued link = x.queued link := by
      refine queued_zapLocalUser ?_ ?_ user ?_ ?_ ?_ hNe _
      · rw [hSame]
        exact h.isUser
      · rw [hSame]
        exact hHot
      · rw [hSame]
        exact hOwner
      · rw [hSame]
      · rw [hSame]
        exact hReg.lookup_nick hIn
    rw [hKilled _ (by simp [hCore]), queued_notifyMods (by simpa [hCore] using h.isUser),
      queued_passMessageArgs_except, hQueued]
  have hLinks : SameLinks s.toCore u.toCore := by
    rw [hGone]
    exact .zapLocalUser _ _
  obtain ⟨-, hOther⟩ := hReg.zap_rest hIn hOwner
  have hLinked : LinkedTo u.toCore link peer := by
    obtain ⟨hAllocated, hCls⟩ := hOther link hNe.symm
    rw [← hGone] at hAllocated hCls
    exact ⟨hAllocated.trans h.opened, hCls.trans h.cls, by rw [hLinks.servers]; exact h.listed,
      by rw [hLinks.host]; exact h.host⟩
  have hNobody : ∀ x ∈ u.hotlists.values, link ∉ (u.hot x).users := fun x hx hIn =>
    hHot x (hLinks.waiting x hx).1 ((hLinks.waiting x hx).2 link hIn)
  simp only [enterUser, hCollision]
  rw [← hHeard]
  split
  · exact acceptLogin_taken (s := u.register r random) { hLinked with } hNobody hNick _ _ _
  · exact acceptLogin_taken hLinked hNobody hNick _ _ _

/-! ### A kill that comes in -/

/-- What `kill_user` does to a user of this server. -/
def killMark (s : Core) (con : ConId) : Core :=
  s.modCon con fun c => { c with destroy := true, killed := true }

/-- A server obeys the kill of a user of its own that a peer sends. -/
theorem killUser_obeys (user : UserId) (h : LinkedTo s.toCore link peer) {nick : Str} {m : Message}
    (hKill : SaysKill peer nick m) (hUser : s.users.lookup nick = some user)
    (hIs : s.isUser (s.user user).con = true) :
    (s.killUser link m.body).toCore = killMark s.toCore (s.user user).con ∧
      (s.killUser link m.body).queued link = s.queued link := by
  obtain ⟨-, body, name, reason, hBody, hArg, ⟨more, hSplit⟩, hName⟩ := hKill
  have hNe : (s.user user).con ≠ link := by
    intro hEq
    rw [hEq, h.isUser] at hIs
    cases hIs
  have hFound : s.users.lookup name = some user := by
    rw [← hUser]
    exact Bucket.Table.lookup_congr (sameText_iff.1 hName)
  have hKiller : killerOf s.toCore link m.body = some (peer, none, name ++ reason) := by
    simp only [killerOf, h.isUser, Bool.false_eq_true, if_false, hBody, hArg, h.isServerName, if_true]
  have hSend (t : Server) (tag : Nat) (text : Str) :
      (t.sendCmd (s.user user).con tag text).queued link = t.queued link := by
    rw [sendCmd, queued_queueData, if_neg hNe, List.append_nil]
  simp only [killUser, hKiller, hSplit, hFound, Option.any_none, Bool.false_eq_true, if_false,
    toCore_notifyMods, toCore_passMessageArgs, hIs, if_true]
  constructor
  · simp [killMark]
  · rw [hSend, hSend, markKilled, queued_onCore, queued_notifyMods (by simpa using h.isUser),
      queued_passMessageArgs_except]

/-! ### The two servers -/

/-- The user is a local one, on a server that is linked to a peer which has not been told of the
user yet. -/
structure HasUser (s : Server) (link : ConId) (peer nick : Str) (user : UserId) : Prop where
  registry : Registry s.toCore
  linked : LinkedTo s.toCore link peer
  me : Word s.cfg.serverName
  /-- those who wait for a user are users -/
  hotlists : ∀ h ∈ s.hotlists.values, link ∉ (s.hot h).users
  onLine : s.users.lookup nick = some user
  isLocal : (s.user user).isLocal = true

/-- The login in what `sync_user` sends of a user. -/
def syncText (u : User) : Str :=
  u.nick ++ str " " ++ u.pass ++ str " " ++ showNat u.port.toNat ++ str " \"" ++ u.clientinfo ++
    str "\" " ++ showNat u.speed ++ str " unknown " ++ showInt (toInt32 u.connected) ++ str " " ++
    showNat u.ip.toNat ++ str " " ++ u.server ++ str " " ++ showNat u.conport.toNat

/-- The message that the burst about a user begins with. -/
def loginMessage (s : Server) (link : ConId) (user : UserId) : Message :=
  ⟨link, msgClientLogin, clip (syncText (s.user user))⟩

/-- What a server says about a user of its own to a new peer. -/
def burst (s : Server) (link : ConId) (user : UserId) : List Message :=
  ((s.reading 0).syncUser link user).queued link

/-- A message, and then messages that leave alone who is on line, are queued for the link. -/
def Opens (link : ConId) (m : Message) (s : Server) : Prop :=
  ∃ rest, s.queued link = m :: rest ∧ ∀ o ∈ rest, Minor o

theorem Opens.sendCmd {m : Message} (h : Opens link m s) (cmd : Command) (hMinor : cmd ∈ minorCommands)
    (body : Str) : Opens link m (s.sendCmd link cmd.tag body) := by
  obtain ⟨rest, hQueued, hRest⟩ := h
  refine ⟨rest ++ [⟨link, cmd.tag, clip body⟩], by rw [queued_sendCmd, hQueued, List.cons_append], ?_⟩
  intro o ho
  rcases List.mem_append.1 ho with ho | ho
  · exact hRest o ho
  · rw [List.mem_singleton.1 ho]
    exact ⟨cmd, hMinor, rfl⟩

/-- The burst about a user is the login, and then messages that leave alone who is on line. -/
theorem burst_eq {user : UserId} (hCon : (s.user user).con ≠ link) :
    ∃ rest, s.burst link user = s.loginMessage link user :: rest ∧ ∀ m ∈ rest, Minor m := by
  have hMore {c : Prop} [Decidable c] {t : Server} {m : Message} (h : Opens link m t) (cmd : Command)
      (hMinor : cmd ∈ minorCommands) (body : Str) :
      Opens link m (if c then t.sendCmd link cmd.tag body else t) := by
    split
    · exact h.sendCmd cmd hMinor body
    · exact h
  have hUnless {c : Prop} [Decidable c] {t : Server} {m : Message} (h : Opens link m t) (cmd : Command)
      (hMinor : cmd ∈ minorCommands) (body : Str) :
      Opens link m (if c then t else t.sendCmd link cmd.tag body) := by
    split
    · exact h
    · exact h.sendCmd cmd hMinor body
  have hJoins {m : Message} (l : List ChanId) (f : Server → ChanId → Str) (t : Server)
      (h : Opens link m t) :
      Opens link m (l.foldl (fun s chan => s.sendCmd link msgClientJoin (f s chan)) t) := by
    induction l generalizing t with
    | nil => exact h
    | cons chan l ih => exact ih _ (h.sendCmd .join (by decide) _)
  have hLogin : Opens link (s.loginMessage link user)
      ((s.reading 0).sendCmd link msgClientLogin (syncText (s.user user))) :=
    ⟨[], by rw [queued_sendCmd]; rfl, by simp⟩
  have hCon' : ((s.reading 0).user user).con ≠ link := hCon
  show Opens link (s.loginMessage link user) ((s.reading 0).syncUser link user)
  have hMuzzle : Command.muzzle ∈ minorCommands := by decide
  have hSharing : Command.userSharing ∈ minorCommands := by decide
  have hCloak : Command.cloak ∈ minorCommands := by decide
  simp only [syncUser, if_neg hCon']
  refine hMore (hJoins _ _ _ (hUnless (hMore ?_ _ hCloak _) _ hSharing _)) _ hMuzzle _
  split
  · exact hLogin.sendCmd .level (by decide) _
  · exact hLogin

theorem samePeople_reading (s : Server) (seconds : Nat) :
    SamePeople s.toCore (s.reading seconds).toCore := { SamePeople.refl _ with }

/-- Since a server was in one of these states, nobody came or went. -/
def Since (states : Core → Prop) (s : Server) : Prop := ∃ x, states x ∧ SamePeople x s.toCore

theorem Since.people {states : Core → Prop} {s t : Server} (h : Since states s)
    (hPeople : SamePeople s.toCore t.toCore) : Since states t := by
  obtain ⟨x, hx, hSame⟩ := h
  exact ⟨x, hx, hSame.trans hPeople⟩

/-- A message that is a login goes to `login`. -/
theorem party_login {t : Server} (h : LinkedTo s.toCore link peer) {m : Message} {out : List Message}
    (hParty : party link (s.reading 0) m t out) (hTag : m.tag = msgClientLogin) : ∃ seconds random,
      t = (s.reading seconds).login link msgClientLogin m.body random ∧ out = t.queued link := by
  obtain ⟨seconds, env, rfl, rfl⟩ := party_linked (linkedTo_reading h 0) hParty .login hTag
  refine ⟨seconds, env.random, ?_, rfl⟩
  have hReading : (s.reading 0).reading seconds = s.reading seconds := by simp [reading]
  rw [hReading]
  rfl

/-- A party that is only told of users, once it has read a login that settles what becomes of its
own user. -/
theorem decides_alone (h : LinkedTo s.toCore link peer) {lead : Message} {states : Core → Prop}
    (hLead : lead.tag = msgClientLogin) (hStates : ∀ x, states x → LinkedTo x link peer)
    (hFirst : ∀ seconds random,
      Since states ((s.reading seconds).login link msgClientLogin lead.body random) ∧
        ∀ m ∈ ((s.reading seconds).login link msgClientLogin lead.body random).queued link, Minor m) :
    Duplex.Decides (party link) (· = s.reading 0) (Since states) (fun _ => True) lead Minor
      (fun _ => False) (fun _ => False) False where
  first := by
    rintro a t out rfl hParty
    obtain ⟨seconds, random, rfl, rfl⟩ := party_login h hParty hLead
    obtain ⟨hSince, hTold⟩ := hFirst seconds random
    exact ⟨hSince, fun o ho => .inl (hTold o ho), False.elim⟩
  minor := by
    rintro a m t out ⟨x, hx, hSame⟩ hMinor hParty
    obtain ⟨hPeople, hOut⟩ := party_minor (hSame.linkedTo (hStates x hx)) hParty hMinor
    exact ⟨⟨x, hx, hSame.trans hPeople⟩, id, fun o ho => .inl (hOut o ho)⟩
  order := fun _ _ _ _ _ hOrder => hOrder.elim
  first_total := fun a _ => party_total link a .login hLead
  total := by
    rintro a m - (⟨cmd, -, hTag⟩ | hOrder)
    · exact party_total link a cmd hTag
    · exact hOrder.elim

theorem killMark_people {x y : Core} (h : SamePeople x y) (con : ConId) :
    SamePeople (killMark x con) (killMark y con) :=
  { h with con := by simp only [killMark, Core.modCon, h.con] }

theorem killMark_twice (x : Core) (con : ConId) :
    SamePeople (killMark x con) (killMark (killMark x con) con) := by
  refine { SamePeople.refl _ with con := ?_ }
  funext c
  by_cases hc : c = con <;> simp [killMark, hc]

theorem killMark_linkedTo {x : Core} (h : LinkedTo x link peer) {con : ConId} (hNe : con ≠ link) :
    LinkedTo (killMark x con) link peer := by
  have hCon : (killMark x con).con link = x.con link := by simp [killMark, hNe.symm]
  exact ⟨by rw [hCon]; exact h.opened, by rw [hCon]; exact h.cls, h.listed, by rw [hCon]; exact h.host⟩

/-- A party that answers the login of its peer's user with a kill, and is sent one for its own. -/
theorem decides_killing {nick : Str} {user : UserId} (h : HasUser s link peer nick user) (lead : Message)
    (hLead : lead.tag = msgClientLogin)
    (hKills : ∀ seconds, (s.reading seconds).Kills nick lead.body) :
    Duplex.Decides (party link) (· = s.reading 0)
      (Since fun x => x = s.toCore ∨ x = killMark s.toCore (s.user user).con)
      (Since (· = killMark s.toCore (s.user user).con)) lead Minor (SaysKill peer nick)
      (SaysKill s.cfg.serverName nick) True := by
  have hIn : user ∈ s.users.values := Bucket.Table.mem_values_of_lookup h.onLine
  obtain ⟨-, hClass, -⟩ := h.registry.home user hIn h.isLocal
  have hNe : (s.user user).con ≠ link := by
    intro hEq
    rw [hEq, h.linked.cls] at hClass
    cases hClass
  have hLinked (x : Core) (hx : x = s.toCore ∨ x = killMark s.toCore (s.user user).con) :
      LinkedTo x link peer := by
    rcases hx with rfl | rfl
    · exact h.linked
    · exact killMark_linkedTo h.linked hNe
  refine ⟨?_, ?_, ?_, fun a _ => party_total link a .login hLead, ?_⟩
  · rintro a t out rfl hParty
    obtain ⟨seconds, random, rfl, rfl⟩ := party_login h.linked hParty hLead
    have hKilled := login_kills (linkedTo_reading h.linked seconds) h.me (hKills seconds) random
    refine ⟨⟨s.toCore, .inl rfl, ?_⟩, fun o ho => (hKilled.told o ho).resolve_left (by simp),
      fun _ => hKilled.kill⟩
    rw [hKilled.same]
    exact samePeople_reading s seconds
  · rintro a m t out ⟨x, hx, hSame⟩ hMinor hParty
    obtain ⟨hPeople, hOut⟩ := party_minor (hSame.linkedTo (hLinked x hx)) hParty hMinor
    exact ⟨⟨x, hx, hSame.trans hPeople⟩, fun hDone => hDone.people hPeople,
      fun o ho => .inl (hOut o ho)⟩
  · rintro a m t out ⟨x, hx, hSame⟩ hKill hParty
    have hThere := hSame.linkedTo (hLinked x hx)
    obtain ⟨seconds, env, rfl, rfl⟩ := party_linked hThere hParty .killUser hKill.tag
    have hFacts : x.users = s.users ∧ (x.user user).con = (s.user user).con ∧
        x.isUser (s.user user).con = true := by
      rcases hx with rfl | rfl <;> simp [killMark, Core.isUser, hClass]
    obtain ⟨hUsers, hHome, hIs⟩ := hFacts
    have hCon : (a.user user).con = (s.user user).con := by
      have hWho : (a.user user).con = (x.user user).con := (congrArg User.con (hSame.who user) :)
      rw [hWho, hHome]
    obtain ⟨hCore, hQueued⟩ := killUser_obeys (s := a.reading seconds)
      user (linkedTo_reading hThere seconds) hKill
      (by show a.users.lookup nick = _; rw [hSame.users, hUsers]; exact h.onLine)
      (by show a.isUser (a.user user).con = _; rw [hCon, hSame.isUser]; exact hIs)
    have hMarked : SamePeople (killMark s.toCore (s.user user).con)
        ((a.reading seconds).killUser link m.body).toCore := by
      have hReading := killMark_people (hSame.trans (samePeople_reading a seconds)) (s.user user).con
      rw [hCore]
      show SamePeople _ (killMark (a.reading seconds).toCore (a.user user).con)
      rw [hCon]
      refine SamePeople.trans ?_ hReading
      rcases hx with rfl | rfl
      · exact .refl _
      · exact killMark_twice _ _
    refine ⟨⟨_, .inr rfl, hMarked⟩, ⟨_, rfl, hMarked⟩, fun o ho => ?_⟩
    have hNone : ((a.reading seconds).killUser link m.body).queued link = [] := by
      rw [hQueued, queued_reading]
    have hDispatch : (a.reading seconds).dispatch link .killUser m.body env =
        (a.reading seconds).killUser link m.body := rfl
    rw [hDispatch, hNone] at ho
    cases ho
  · rintro a m - (⟨cmd, -, hTag⟩ | hKill)
    · exact party_total link a cmd hTag
    · exact party_total link a .killUser hKill.tag

/-! ### What the servers agree on -/

/-- The end of a turn of the main loop, for the user of a nick: the connection of a user who was
killed is removed. -/
def endTurn (s : Server) (nick : Str) : Server :=
  match s.users.lookup nick with
  | some user =>
    let con := (s.user user).con
    if s.isUser con && (s.con con).destroy then s.step (.drop con) else s
  | none => s

/-- Both servers list the same user under the nick, or neither lists one. -/
def SameListing (nick : Str) (a b : Server) : Prop :=
  (a.endTurn nick).listed nick = (b.endTurn nick).listed nick

/-- The user of the first server is the older one for both servers: the second one gives up its own
user for it, and the first one turns that user down.  Its login is read as it was written. -/
structure Prevails (a : Server) (la : ConId) (userA : UserId) (b : Server) (lb : ConId)
    (userB : UserId) (nick : Str) : Prop where
  yields : ∃ r, peerLogin (a.loginMessage la userA).body = some r ∧ sameText r.nick nick = true ∧
    sameText r.server (a.user userA).server = true ∧ r.connected = (a.user userA).connected ∧
    ∀ seconds, (b.reading seconds).Yields userB r
  keeps : ∃ r, peerLogin (b.loginMessage lb userB).body = some r ∧ sameText r.nick nick = true ∧
    ∀ seconds, (a.reading seconds).Keeps userA r
  stays : (a.con (a.user userA).con).destroy = false

/-- Each of the two servers answers the login of the other's user with a kill. -/
structure BothKill (a : Server) (la : ConId) (userA : UserId) (b : Server) (lb : ConId)
    (userB : UserId) (nick : Str) : Prop where
  left : ∀ seconds, (a.reading seconds).Kills nick (b.loginMessage lb userB).body
  right : ∀ seconds, (b.reading seconds).Kills nick (a.loginMessage la userA).body

theorem SamePeople.listed {x y : Core} (h : SamePeople x y) (nick : Str) : y.listed nick = x.listed nick := by
  have hWho (u : UserId) : (⟨strlower (y.user u).server, (y.user u).connected⟩ : Listing) =
      ⟨strlower (x.user u).server, (x.user u).connected⟩ := by
    have hServer : (y.user u).server = (x.user u).server := (congrArg User.server (h.who u) :)
    have hConnected : (y.user u).connected = (x.user u).connected :=
      (congrArg User.connected (h.who u) :)
    rw [hServer, hConnected]
  simp only [Core.listed, h.users, hWho]

/-- A user who stays is listed after the turn as before. -/
theorem listed_kept {nick : Str} {user : UserId} (h : HasUser s link peer nick user)
    (hStays : (s.con (s.user user).con).destroy = false) {t : Server}
    (hSince : Since (· = s.toCore) t) :
    (t.endTurn nick).listed nick =
      some ⟨strlower (s.user user).server, (s.user user).connected⟩ := by
  obtain ⟨x, rfl, hSame⟩ := hSince
  have hCon : (t.user user).con = (s.user user).con := (congrArg User.con (hSame.who user) :)
  have hEnd : t.endTurn nick = t := by
    simp only [endTurn, hSame.users, h.onLine, hCon, hSame.con, hStays, Bool.and_false,
      Bool.false_eq_true, if_false]
  rw [hEnd, SamePeople.listed hSame]
  simp only [Core.listed, h.onLine, Option.map_some]

/-- So is a user behind the peer. -/
theorem listed_taken {nick : Str} {v : Listing} {t : Server}
    (hSince : Since (Taken · link peer nick v) t) : (t.endTurn nick).listed nick = some v := by
  obtain ⟨x, ⟨hLinked, ⟨user, hUser, hBehind⟩, hListed⟩, hSame⟩ := hSince
  have hCon : (t.user user).con = link := by
    have hWho : (t.user user).con = (x.user user).con := (congrArg User.con (hSame.who user) :)
    rw [hWho, hBehind]
  have hEnd : t.endTurn nick = t := by
    have hIs : t.isUser link = false := by rw [hSame.isUser, hLinked.isUser]
    simp only [endTurn, hSame.users, hUser, hCon, hIs, Bool.false_and, Bool.false_eq_true, if_false]
  rw [hEnd, SamePeople.listed hSame, hListed]

/-- A user who was killed is not. -/
theorem listed_killed {nick : Str} {user : UserId} (h : HasUser s link peer nick user) {t : Server}
    (hSince : Since (· = killMark s.toCore (s.user user).con) t) :
    (t.endTurn nick).listed nick = none := by
  obtain ⟨x, rfl, hSame⟩ := hSince
  have hIn : user ∈ s.users.values := Bucket.Table.mem_values_of_lookup h.onLine
  obtain ⟨hOpen, hClass, hOwner⟩ := h.registry.home user hIn h.isLocal
  have hHome : (t.user user).con = (s.user user).con := (congrArg User.con (hSame.who user) :)
  have hNick : (t.user user).nick = (s.user user).nick := (congrArg User.nick (hSame.who user) :)
  have hUsers : t.users = s.users := hSame.users
  have hRecord : t.con (s.user user).con =
      { s.con (s.user user).con with destroy := true, killed := true } := by
    rw [hSame.con]
    simp [killMark]
  have hDrop : t.endTurn nick = t.removeConnection (s.user user).con := by
    simp only [endTurn, hUsers, h.onLine, hHome, Core.isUser, hRecord, hClass, step, hOpen, beq_self_eq_true,
      Bool.and_self, if_true]
  have hGone : (t.removeConnection (s.user user).con).users = s.users.remove (s.user user).nick := by
    have hFound : t.users.lookup (t.user user).nick = some user := by
      rw [hUsers, hNick]
      exact h.registry.lookup_nick hIn
    have hCancel := toCore_cancelSearch (t.onCore (·.note (.leaving (s.user user).con))) (s.user user).con
    have hCore : ((t.onCore (·.note (.leaving (s.user user).con))).cancelSearch (s.user user).con).con =
        t.con := by rw [hCancel]; rfl
    have hIs : ((t.onCore (·.note (.leaving (s.user user).con))).cancelSearch (s.user user).con).isUser
        (s.user user).con = true := by
      simp only [Core.isUser, hCore, hRecord, hClass, beq_self_eq_true]
    simp only [removeConnection, hIs, if_true, toCore_onCore, toCore_removeUser]
    show (Core.removeUser _ _).users = _
    simp only [Core.removeUser, hCore, hRecord, hOwner]
    rw [(Core.sameUsers_freeOptions _ _).users, hCancel]
    refine (@Core.sameUsers_hashRemoveUser _ _ user ?_).users.trans ?_
    · exact hFound
    · show t.users.remove (t.user user).nick = _
      rw [hNick, hUsers]
  rw [hDrop]
  simp only [Core.listed, hGone, lookup_removed h.registry h.onLine, Option.map_none]

theorem HasUser.con_ne {nick : Str} {user : UserId} (h : HasUser s link peer nick user) :
    (s.user user).con ≠ link := by
  intro hEq
  have hIn : user ∈ s.users.values := Bucket.Table.mem_values_of_lookup h.onLine
  have hClass := (h.registry.home user hIn h.isLocal).2.1
  rw [hEq, h.linked.cls] at hClass
  cases hClass

theorem older_prevails_listing {a b : Server} {la lb : ConId} {nick : Str} {userA userB : UserId}
    (hA : HasUser a la b.cfg.serverName nick userA) (hB : HasUser b lb a.cfg.serverName nick userB)
    (h : Prevails a la userA b lb userB nick) :
    Duplex.Resolves (party la) (party lb) True (SameListing nick)
      { left := a.reading 0, right := b.reading 0
        toLeft := b.burst lb userB, toRight := a.burst la userA } := by
  obtain ⟨⟨rA, hReadA, hNickA, hServer, hConnected, hYields⟩, ⟨rB, hReadB, hNickB, hKeeps⟩, hStays⟩ := h
  have hLeft : Duplex.Decides (party la) (· = a.reading 0) (Since (· = a.toCore)) (fun _ => True)
      (b.loginMessage lb userB) Minor (fun _ => False) (fun _ => False) False := by
    refine decides_alone hA.linked rfl (by rintro x rfl; exact hA.linked) fun seconds random => ?_
    have hFound : (a.reading seconds).users.lookup rB.nick = some userA := by
      rw [← hA.onLine]
      exact Bucket.Table.lookup_congr (sameText_iff.1 hNickB)
    obtain ⟨hCore, hQueued⟩ := login_keeps (linkedTo_reading hA.linked seconds) hReadB hFound
      (hKeeps seconds) random
    refine ⟨⟨_, rfl, ?_⟩, fun m hm => ?_⟩
    · rw [hCore]
      exact samePeople_reading a seconds
    · rw [hQueued] at hm
      cases hm
  have hRight : Duplex.Decides (party lb) (· = b.reading 0)
      (Since (Taken · lb a.cfg.serverName nick ⟨strlower rA.server, rA.connected⟩)) (fun _ => True)
      (a.loginMessage la userA) Minor (fun _ => False) (fun _ => False) False := by
    refine decides_alone hB.linked rfl (fun x hx => hx.linked) fun seconds random => ?_
    obtain ⟨hSince, hTold⟩ := login_yields (linkedTo_reading hB.linked seconds) { hB.registry with }
      hB.hotlists hReadA hNickA hB.onLine hB.isLocal (hYields seconds) random
    exact ⟨hSince, fun m hm => (hTold m hm).resolve_left (by simp)⟩
  obtain ⟨restA, hBurstA, hMinorA⟩ := burst_eq hA.con_ne
  obtain ⟨restB, hBurstB, hMinorB⟩ := burst_eq hB.con_ne
  rw [hBurstA, hBurstB]
  refine (Duplex.Decides.resolves hLeft hRight rfl rfl hMinorB hMinorA).imp ?_
  rintro s t ⟨hKept, hTaken, -⟩
  unfold SameListing
  rw [listed_kept hA hStays hKept, listed_taken hTaken, hConnected, sameText_iff.1 hServer]

theorem both_kill_listing {a b : Server} {la lb : ConId} {nick : Str} {userA userB : UserId}
    (hA : HasUser a la b.cfg.serverName nick userA) (hB : HasUser b lb a.cfg.serverName nick userB)
    (h : BothKill a la userA b lb userB nick) :
    Duplex.Resolves (party la) (party lb) True (SameListing nick)
      { left := a.reading 0, right := b.reading 0
        toLeft := b.burst lb userB, toRight := a.burst la userA } := by
  obtain ⟨restA, hBurstA, hMinorA⟩ := burst_eq hA.con_ne
  obtain ⟨restB, hBurstB, hMinorB⟩ := burst_eq hB.con_ne
  rw [hBurstA, hBurstB]
  have hLeft := decides_killing hA (b.loginMessage lb userB) rfl h.left
  have hRight := decides_killing hB (a.loginMessage la userA) rfl h.right
  refine (Duplex.Decides.resolves hLeft hRight rfl rfl hMinorB hMinorA).imp ?_
  rintro s t ⟨-, -, hDone⟩
  obtain ⟨hKilledA, hKilledB⟩ := hDone trivial
  unfold SameListing
  rw [listed_killed hA hKilledA, listed_killed hB hKilledB]

/-- The collision is settled alike on both servers when one of the two users is the older one for
both of them, and also when each of them refuses the user of the other. -/
theorem collision_resolves {a b : Server} {la lb : ConId} {nick : Str} {userA userB : UserId}
    (hA : HasUser a la b.cfg.serverName nick userA) (hB : HasUser b lb a.cfg.serverName nick userB)
    (h : Prevails a la userA b lb userB nick ∨ Prevails b lb userB a la userA nick ∨
      BothKill a la userA b lb userB nick) :
    Duplex.Resolves (party la) (party lb) True (SameListing nick)
      { left := a.reading 0, right := b.reading 0
        toLeft := b.burst lb userB, toRight := a.burst la userA } := by
  rcases h with h | h | h
  · exact older_prevails_listing hA hB h
  · exact (older_prevails_listing hB hA h).swap.imp fun _ _ hSame => hSame.symm
  · exact both_kill_listing hA hB h

/-- A server that was linked to a peer some time before a client of its own logged in. -/
def collider (me peer : String) (time : Nat) : Server :=
  reach { cfg := { serverName := str me, md5 := id } }
    [.accept 1 (str peer) 8888 8888, .link 0, .accept 2 (str "client") 1024 8888, .tick time,
      .packet 1 .login (str "nick pw 0 \"client\" 3") {}]

theorem bansLogin_none {x : Core} (h : x.bans = []) (r : LoginRequest) : x.bansLogin r = false := by
  simp [Core.bansLogin, Core.banFor, h]

/-- Only a ban that ends is a matter of time. -/
theorem yields_reading {user : UserId} (h : s.Yields user r) (hBans : s.bans = []) (seconds : Nat) :
    (s.reading seconds).Yields user r :=
  ⟨h.nick, bansLogin_none (x := (s.reading seconds).toCore) hBans r, h.account, h.younger⟩

theorem keeps_reading {user : UserId} (h : s.Keeps user r) (hBans : s.bans = []) (seconds : Nat) :
    (s.reading seconds).Keeps user r := by
  refine ⟨h.nick, .inr ?_⟩
  rcases h.stays with hBan | hStays
  · rw [bansLogin_none hBans] at hBan
    cases hBan
  · exact hStays

/-- The login of the client in `collider` as its peer reads it. -/
def colliderLogin (me : String) (time : Int) : LoginRequest :=
  { nick := str "nick", pass := str "pw", port := str "0", client := str "client", speed := str "3"
    ip := 2, host := str "2.0.0.0", connected := time, server := str me, conport := 1024 }

/-- The user who logged in at time 5 stays, the one of time 7 goes. -/
theorem collision_resolves_older :
    Duplex.Resolves (party 0) (party 0) True (SameListing (str "nick"))
      { left := (collider "a" "b" 5).reading 0, right := (collider "b" "a" 7).reading 0
        toLeft := (collider "b" "a" 7).burst 0 2, toRight := (collider "a" "b" 5).burst 0 2 } := by
  have hA : HasUser (collider "a" "b" 5) 0 (collider "b" "a" 7).cfg.serverName (str "nick") 2 := by
    refine ⟨(reach_sound _ _).registry, ?_, ?_, ?_, ?_, ?_⟩ <;> decide +kernel
  have hB : HasUser (collider "b" "a" 7) 0 (collider "a" "b" 5).cfg.serverName (str "nick") 2 := by
    refine ⟨(reach_sound _ _).registry, ?_, ?_, ?_, ?_, ?_⟩ <;> decide +kernel
  have hYields : (collider "b" "a" 7).Yields 2 (colliderLogin "a" 5) := by decide +kernel
  have hKeeps : (collider "a" "b" 5).Keeps 2 (colliderLogin "b" 7) := by decide +kernel
  refine collision_resolves hA hB (.inl ⟨⟨colliderLogin "a" 5, ?_, ?_, ?_, ?_, ?_⟩,
    ⟨colliderLogin "b" 7, ?_, ?_, ?_⟩, by decide +kernel⟩)
  · decide +kernel
  · decide +kernel
  · decide +kernel
  · decide +kernel
  · exact yields_reading hYields (by decide +kernel)
  · decide +kernel
  · decide +kernel
  · exact keeps_reading hKeeps (by decide +kernel)

/-- Two users who logged in at the same second both stay, each on its own server. -/
theorem collision_keeps_both :
    ¬ Duplex.Resolves (party 0) (party 0) True (SameListing (str "nick"))
      { left := (collider "a" "b" 5).reading 0, right := (collider "b" "a" 5).reading 0
        toLeft := (collider "b" "a" 5).burst 0 2, toRight := (collider "a" "b" 5).burst 0 2 } := by
  intro h
  have hToLeft : (collider "b" "a" 5).burst 0 2 = [(collider "b" "a" 5).loginMessage 0 2] := by
    decide +kernel
  have hToRight : (collider "a" "b" 5).burst 0 2 = [(collider "a" "b" 5).loginMessage 0 2] := by
    decide +kernel
  have hParty (s : Server) (m : Message) (hTag : msgClientLogin = m.tag) :
      party 0 s m ((s.reading 0).step (.packet 0 .login m.body {}))
        (((s.reading 0).step (.packet 0 .login m.body {})).queued 0) :=
    ⟨0, .login, {}, hTag, rfl, rfl⟩
  rw [hToLeft, hToRight] at h
  have hFirst := h.step (.firstLeft (hParty _ _ rfl) _ _ _)
  have hSecond := hFirst.step (.firstRight (hParty _ _ rfl) _ _ _)
  have hSame := hSecond.ends _ .refl ⟨by decide +kernel, by decide +kernel⟩
  exact absurd hSame (by unfold SameListing; decide +kernel)

end Server

end OpenNap
