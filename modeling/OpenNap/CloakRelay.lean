import OpenNap.Lib.Relay
import OpenNap.Link

/-! A request to cloak a user that goes down a chain of servers.  The server that reads it takes it
as absolute, but passes on a request without the argument that makes it so, and each of the servers
behind it changes whether the user is cloaked to the opposite. -/

namespace OpenNap

open CText

namespace Server

/-- A server between two others: it reads on one link, and what it queues for the other link goes
on. -/
def between (up down : ConId) : Relay.Party Server Message := fun s m t out =>
  ∃ seconds cmd env, Command.tag cmd = m.tag ∧
    t = (s.reading seconds).step (.packet up cmd m.body env) ∧ out = t.queued down

/-- Whether a user is cloaked on the server. -/
def cloakedOn (s : Server) (nick : Str) : Bool :=
  (s.users.lookup nick).any fun user => (s.user user).cloaked

/-- A moderator behind another server, with an account. -/
structure Moderates (s : Server) (nick : Str) (user : UserId) : Prop where
  listed : s.users.lookup nick = some user
  away : (s.user user).isLocal = false
  level : Level.moderator ≤ (s.user user).level
  word : Word (s.user user).nick
  name : sameText (s.user user).nick nick = true
  fits : (s.user user).nick.length ≤ 2042
  account : ∃ db, s.userDb.lookup (s.user user).nick = some db

/-- The request that servers pass on: `:<nick>`. -/
def Toggles (nick : Str) (m : Message) : Prop :=
  m.tag = msgClientCloak ∧ ∃ name, m.body = ':' :: name ∧ Word name ∧ sameText name nick = true

/-- The absolute request: `:<nick> 1`. -/
def Cloaks (nick : Str) (m : Message) : Prop :=
  m.tag = msgClientCloak ∧ ∃ rest name text, m.body = ':' :: rest ∧
    nextArg rest = (name, some text) ∧ sameText name nick = true ∧ atoi text = 1

theorem Moderates.cloakedOn {s : Server} {nick : Str} {user : UserId} (h : s.Moderates nick user) :
    s.cloakedOn nick = (s.user user).cloaked := by
  simp [Server.cloakedOn, h.listed]

theorem Moderates.popUser {s : Server} {link : ConId} {peer nick : Str} {user : UserId}
    (h : s.Moderates nick user) (hLink : LinkedTo s.toCore link peer) {rest name : Str}
    {text : Option Str} (hArg : nextArg rest = (name, text)) (hName : sameText name nick = true) :
    s.popUser link (':' :: rest) = some (user, text) := by
  have hUser : s.users.lookup name = some user :=
    (Bucket.Table.lookup_congr (sameText_iff.1 hName)).trans h.listed
  simp only [Core.popUser, hLink.isServer, if_true, hArg, hUser, h.away, Bool.false_eq_true,
    if_false]

/-- The handler that is not stopped by an absolute request changes the state of the user to the
opposite, and passes the name of the user on. -/
theorem cloak_toggles {s : Server} {link : ConId} {peer nick pkt : Str} {user : UserId}
    {rest : Option Str} (h : s.Moderates nick user) (hLink : LinkedTo s.toCore link peer)
    (hPop : s.popUser link pkt = some (user, rest))
    (hGoes : ((rest.any fun text => atoi text == 1) && (s.user user).cloaked) = false) (tag : Nat) :
    (s.cloak link tag pkt).cloakedOn nick = !(s.user user).cloaked ∧
      ∀ down next, down ≠ link → LinkedTo s.toCore down next →
        (s.cloak link tag pkt).queued down =
          s.queued down ++ [⟨down, tag, ':' :: (s.user user).nick⟩] := by
  obtain ⟨db, hDb⟩ := h.account
  have hLevel : ¬ (s.user user).level < .moderator := Nat.not_lt.2 h.level
  -- the user and the record are marked before anybody is told
  generalize hMarked : ((s.onCore (·.modUser user fun u => { u with cloaked := !u.cloaked })).onCore
    fun t => t.modDb db fun r => { r with cloaked := !(s.user user).cloaked, timestamp := t.now }) =
      t
  have hNick : (t.user user).nick = (s.user user).nick := by simp [← hMarked, onCore]
  have hCloak : s.cloak link tag pkt =
      ((t.passMessageArgs (some link) tag (str ":" ++ (s.user user).nick)).notifyMods cloaklogMode
        ((s.user user).nick ++ str " has " ++
          (if !(s.user user).cloaked then [] else str "de") ++ str "cloaked")).sendIfUser link
            msgServerNosuch (str "You are " ++
              (if !(s.user user).cloaked then str "now" else str "no longer") ++
                str " cloaked.") := by
    rw [← hMarked]
    simp only [cloak, hPop, hLevel, if_false, hLink.isServer, Bool.true_and, hGoes,
      Bool.false_eq_true, onCore, Core.modUser_user, if_true, Core.modUser_userDb, hDb]
  have hUser : t.isUser link = false := by
    rw [← hMarked]
    exact hLink.isUser
  constructor
  · rw [hCloak]
    simp only [Server.cloakedOn, toCore_sendIfUser, toCore_notifyMods, toCore_passMessageArgs]
    simp [← hMarked, onCore, h.listed]
  · intro down next hNe hDown
    have hDownUser : t.isUser down = false := by
      rw [← hMarked]
      exact hDown.isUser
    have hServers : t.servers.count down = 1 := by
      rw [← hMarked]
      exact hDown.listed
    have hQueued : t.queued down = s.queued down := by
      rw [← hMarked, queued_onCore, queued_onCore]
    have hBody : clip (str ":" ++ (s.user user).nick) = ':' :: (s.user user).nick :=
      clip_of_fits (by simpa [str] using Nat.succ_le_succ h.fits)
    rw [hCloak, queued_sendIfUser (by simpa [Core.isUser] using hDownUser),
      queued_notifyMods (by simpa [Core.isUser] using hDownUser),
      queued_passMessageArgs_of_ne (by simpa using Ne.symm hNe), hQueued, hServers, hBody]
    rfl

/-- A request for an absolute cloak is not passed on by a server that has the user cloaked. -/
theorem cloak_stops {s : Server} {link : ConId} {peer nick : Str} {user : UserId}
    (h : s.Moderates nick user) (hLink : LinkedTo s.toCore link peer) {m : Message}
    (hAsk : Cloaks nick m) (hCloaked : (s.user user).cloaked = true) (tag : Nat) :
    s.cloak link tag m.body = s := by
  obtain ⟨-, rest, name, text, hBody, hArg, hName, hOne⟩ := hAsk
  have hPop := h.popUser hLink hArg hName
  have hLevel : ¬ (s.user user).level < .moderator := Nat.not_lt.2 h.level
  simp only [cloak, hBody, hPop, hLevel, if_false, hLink.isServer, Option.any_some, hOne,
    beq_self_eq_true, hCloaked, Bool.and_self, if_true]

/-! ### Chains of servers -/

/-- A server of a chain, with its links towards the one before it and the one after it, and the
names of these two. -/
structure Hop where
  server : Server
  up : ConId
  down : ConId
  before : Str
  after : Str

/-- The server reads from the one before it, and has the moderator. -/
def Hop.Behind (h : Hop) (nick : Str) : Prop :=
  LinkedTo h.server.toCore h.up h.before ∧ ∃ user, h.server.Moderates nick user

/-- The server is linked to the one after it. -/
def Hop.Onward (h : Hop) : Prop := LinkedTo h.server.toCore h.down h.after ∧ h.down ≠ h.up

/-- A chain of linked servers that all have the moderator. -/
inductive Chain (nick : Str) : List Hop → Prop
  | last {h : Hop} (hBehind : h.Behind nick) : Chain nick [h]
  | cons {h : Hop} {rest : List Hop} (hBehind : h.Behind nick) (hOnward : h.Onward)
      (hRest : Chain nick rest) : Chain nick (h :: rest)

/-- The chain as the parties that messages go past. -/
def parties (hops : List Hop) : List (Relay.Party Server Message × Server) :=
  hops.map fun h => (between h.up h.down, h.server)

theorem Moderates.reading {s : Server} {nick : Str} {user : UserId} (h : s.Moderates nick user)
    (seconds : Nat) : (s.reading seconds).Moderates nick user :=
  ⟨h.listed, h.away, h.level, h.word, h.name, h.fits, h.account⟩

/-- A request that comes in on a link goes to the handler. -/
theorem between_cloak {s t : Server} {up down : ConId} {peer : Str} (h : LinkedTo s.toCore up peer)
    {m : Message} {out : List Message} (hRead : between up down s m t out)
    (hTag : m.tag = msgClientCloak) : ∃ seconds,
      t = (s.reading seconds).cloak up m.tag m.body ∧ out = t.queued down := by
  obtain ⟨seconds, cmd, env, hCmd, rfl, rfl⟩ := hRead
  obtain rfl : cmd = .cloak := Command.tag_injective (hCmd.trans hTag)
  refine ⟨seconds, ?_, rfl⟩
  rw [step_linked (linkedTo_reading h seconds), hTag]
  rfl

/-- A server that reads a request without an argument changes the state of the user, and passes
such a request on. -/
theorem Hop.Behind.toggles {h : Hop} {nick : Str} (hBehind : h.Behind nick) {m : Message}
    (hSays : Toggles nick m) {t : Server} {out : List Message}
    (hRead : between h.up h.down h.server m t out) :
    t.cloakedOn nick = !h.server.cloakedOn nick ∧
      (h.Onward → ∃ o, out = [o] ∧ Toggles nick o) := by
  obtain ⟨hLink, user, hKnows⟩ := hBehind
  obtain ⟨hTag, name, hBody, hWord, hName⟩ := hSays
  obtain ⟨seconds, rfl, rfl⟩ := between_cloak hLink hRead hTag
  have hKnows' := hKnows.reading seconds
  have hLink' := linkedTo_reading hLink seconds
  have hPop : (h.server.reading seconds).popUser h.up m.body = some (user, none) := by
    rw [hBody]
    exact hKnows'.popUser hLink' (nextArg_last hWord) hName
  obtain ⟨hState, hQueued⟩ := cloak_toggles hKnows' hLink' hPop rfl m.tag
  refine ⟨by rw [hState, hKnows.cloakedOn]; rfl, fun hOnward => ?_⟩
  rw [hQueued h.down h.after hOnward.2 (linkedTo_reading hOnward.1 seconds), queued_reading]
  exact ⟨_, rfl, hTag, _, rfl, hKnows.word, hKnows.name⟩

theorem Chain.carries {nick : Str} {hops : List Hop} (h : Chain nick hops) :
    Relay.Carries (Toggles nick) (fun s t => t.cloakedOn nick = !s.cloakedOn nick) (parties hops) := by
  induction h with
  | last hBehind => exact .last fun m t out hSays hRead => (hBehind.toggles hSays hRead).1
  | cons hBehind hOnward hRest ih =>
    refine .cons (fun m t out hSays hRead => ?_) ih
    obtain ⟨hState, hNext⟩ := hBehind.toggles hSays hRead
    exact ⟨hState, hNext hOnward⟩

/-- Along a list of servers that all changed, the user is cloaked everywhere when it was cloaked
nowhere. -/
theorem all_cloaked_of_toggled {nick : Str} {before after : List Server}
    (h : List.Forall₂ (fun s t : Server => t.cloakedOn nick = !s.cloakedOn nick) before after) :
    (∀ t ∈ after, t.cloakedOn nick = true) ↔ ∀ s ∈ before, s.cloakedOn nick = false := by
  induction h with
  | nil => simp
  | cons hHead _ ih => simp only [List.forall_mem_cons, hHead, ih, Bool.not_eq_true']

/-- The first server of a chain reads an absolute request, and every server that the messages reach
has read them: the user is cloaked on all of these servers exactly when the first server had the
user cloaked before, so that nothing is passed on, or none of the others had. -/
theorem absolute_cloak_iff {nick : Str} {hop : Hop} {rest : List Hop}
    (hChain : Chain nick (hop :: rest)) {m : Message} (hAsk : Cloaks nick m)
    {reached : List Server} (hPasses : Relay.Passes (parties (hop :: rest)) [m] reached) :
    (∀ s ∈ reached, s.cloakedOn nick = true) ↔
      hop.server.cloakedOn nick = true ∨ ∀ h ∈ rest, h.server.cloakedOn nick = false := by
  obtain ⟨t, out, others, hRead, hOthers, rfl⟩ := hPasses.cons_inv
  obtain ⟨hLink, user, hKnows⟩ : hop.Behind nick := by
    cases hChain with
    | last hBehind => exact hBehind
    | cons hBehind => exact hBehind
  obtain ⟨seconds, rfl, rfl⟩ := between_cloak hLink hRead hAsk.1
  have hKnows' := hKnows.reading seconds
  have hLink' := linkedTo_reading hLink seconds
  rw [hKnows.cloakedOn]
  cases hCloaked : (hop.server.user user).cloaked with
  | true =>
    have hSame := cloak_stops hKnows' hLink' hAsk hCloaked m.tag
    rw [hSame, queued_reading] at hOthers
    obtain rfl := hOthers.silent_reached
    have hStill : (hop.server.reading seconds).cloakedOn nick = true := by
      rw [hKnows'.cloakedOn]
      exact hCloaked
    simpa [hSame] using hStill
  | false =>
    obtain ⟨hTag, after, name, text, hBody, hArg, hName, hOne⟩ := hAsk
    have hPop : (hop.server.reading seconds).popUser hop.up m.body = some (user, some text) := by
      rw [hBody]
      exact hKnows'.popUser hLink' hArg hName
    have hGoes : (((some text).any fun text => atoi text == 1) &&
        ((hop.server.reading seconds).user user).cloaked) = false := by
      rw [Bool.and_eq_false_iff]
      exact .inr hCloaked
    obtain ⟨hState, hQueued⟩ := cloak_toggles hKnows' hLink' hPop hGoes m.tag
    have hFirst : ((hop.server.reading seconds).cloak hop.up m.tag m.body).cloakedOn nick = true := by
      rw [hState]
      exact congrArg (! ·) hCloaked
    simp only [List.forall_mem_cons, hFirst, true_and, Bool.false_eq_true, false_or]
    cases hChain with
    | last =>
      obtain rfl := hOthers.ended_reached
      simp
    | cons _ hOnward hRest =>
      rw [hQueued hop.down hop.after hOnward.2 (linkedTo_reading hOnward.1 seconds),
        queued_reading] at hOthers
      have hChanged := hRest.carries.reached
        (m := ⟨hop.down, m.tag, ':' :: (hop.server.user user).nick⟩)
        ⟨hTag, _, rfl, hKnows.word, hKnows.name⟩ hOthers
      rw [all_cloaked_of_toggled hChanged]
      simp [parties]

/-- A server of a chain with a moderator who logged in behind the server before it, and was cloaked
there a number of times. -/
def guarded (times : Nat) : Server :=
  reach
    { cfg := { serverName := str "hub", md5 := id }
      accounts :=
        [{ nick := str "nick", password := generatePass id (str "AAAAAAAA") (str "pw")
           level := .admin }] }
    ([.accept 1 (str "up") 8888 8888, .link 1, .accept 2 (str "down") 8888 8888, .link 2,
      .packet 1 .login (str "nick pw 0 \"client\" 3 unknown 4 5 other 0") {}] ++
      List.replicate times (.packet 1 .cloak (str ":nick") {}))

/-- The place of such a server in the chain. -/
def guardedHop (times : Nat) : Hop := ⟨guarded times, 1, 2, str "up", str "down"⟩

/-- What it becomes when it reads a request. -/
def guardedNext (times : Nat) (body : Str) : Server :=
  ((guarded times).reading 0).step (.packet 1 .cloak body {})

/-- The absolute request. -/
def nickCloaks : Message := ⟨1, msgClientCloak, str ":nick 1"⟩

theorem cloaks_nickCloaks : Cloaks (str "nick") nickCloaks :=
  ⟨rfl, str "nick 1", str "nick", str "1", rfl, by decide, by decide, by decide +kernel⟩

/-- What is looked up in such a server. -/
def guardedFacts (s : Server) : Bool :=
  ([(1, str "up"), (2, str "down")].all fun (con, name) =>
    (s.con con).allocated && (s.con con).cls == .server && s.servers.count con == 1 &&
      sameText name (s.con con).host) &&
    s.users.lookup (str "nick") == some 3 && !(s.user 3).isLocal &&
    decide (Level.moderator ≤ (s.user 3).level) && (s.user 3).nick == str "nick" &&
    s.userDb.lookup (str "nick") == some 0

theorem guarded_known {times : Nat} (h : guardedFacts (guarded times) = true) :
    (guardedHop times).Behind (str "nick") ∧ (guardedHop times).Onward := by
  simp only [guardedFacts, List.all_cons, List.all_nil, Bool.and_true, Bool.and_eq_true, beq_iff_eq,
    Bool.not_eq_true', decide_eq_true_eq] at h
  obtain ⟨⟨⟨⟨⟨⟨⟨⟨⟨hUp, hUpClass⟩, hUpOnce⟩, hUpHost⟩, ⟨⟨hDown, hDownClass⟩, hDownOnce⟩, hDownHost⟩,
    hListed⟩, hAway⟩, hLevel⟩, hNick⟩, hAccount⟩ := h
  refine ⟨⟨⟨hUp, hUpClass, hUpOnce, hUpHost⟩, 3, hListed, hAway, hLevel, ?_, ?_, ?_, 0, ?_⟩,
    ⟨hDown, hDownClass, hDownOnce, hDownHost⟩, show (2 : ConId) ≠ 1 by decide⟩
  · show Word ((guarded times).user 3).nick
    rw [hNick]
    decide
  · show sameText ((guarded times).user 3).nick (str "nick") = true
    rw [hNick]
    decide
  · show ((guarded times).user 3).nick.length ≤ 2042
    rw [hNick]
    decide
  · show (guarded times).userDb.lookup ((guarded times).user 3).nick = some 0
    rw [hNick]
    exact hAccount

theorem uncloaked_known : (guardedHop 0).Behind (str "nick") ∧ (guardedHop 0).Onward :=
  guarded_known (by decide +kernel)

theorem cloaked_known : (guardedHop 1).Behind (str "nick") ∧ (guardedHop 1).Onward :=
  guarded_known (by decide +kernel)

theorem chain_guarded {times : Nat} (h : (guardedHop times).Behind (str "nick")) :
    Chain (str "nick") [guardedHop 0, guardedHop times] :=
  .cons uncloaked_known.1 uncloaked_known.2 (.last h)

theorem reads_guarded (times : Nat) (con : ConId) (body : Str) :
    Relay.Reads (between 1 2) (guarded times) [⟨con, msgClientCloak, body⟩]
      (guardedNext times body) ((guardedNext times body).queued 2 ++ []) :=
  .cons ⟨0, .cloak, {}, rfl, rfl, rfl⟩ (.nil _)

theorem passes_guarded (times : Nat) :
    Relay.Passes (parties [guardedHop 0, guardedHop times]) [nickCloaks]
      [guardedNext 0 (str ":nick 1"), guardedNext times (str ":nick")] := by
  have hOut : (guardedNext 0 (str ":nick 1")).queued 2 ++ [] =
      [⟨2, msgClientCloak, str ":nick"⟩] := by decide +kernel
  have hSecond : Relay.Passes [(between 1 2, guarded times)] [⟨2, msgClientCloak, str ":nick"⟩]
      [guardedNext times (str ":nick")] :=
    .next (List.cons_ne_nil _ _) (reads_guarded times 2 (str ":nick")) (.ended _)
  have hFirst := Relay.Passes.next (List.cons_ne_nil _ _) (reads_guarded 0 1 (str ":nick 1"))
    (hOut ▸ hSecond)
  simp only [parties, List.map_cons, List.map_nil, guardedHop, nickCloaks]
  exact hFirst

theorem absolute_cloak_iff_guarded :
    (guardedNext 0 (str ":nick 1")).cloakedOn (str "nick") = true ∧
      (guardedNext 0 (str ":nick")).cloakedOn (str "nick") = true := by
  have hAll :=
    (absolute_cloak_iff (chain_guarded uncloaked_known.1) cloaks_nickCloaks (passes_guarded 0)).2
      (.inr (by decide +kernel))
  exact ⟨hAll _ (by simp), hAll _ (by simp)⟩

/-- The second server of a chain has the user cloaked, and the request to cloak the user makes the
user visible there. -/
theorem absolute_cloak_decloaks :
    Chain (str "nick") [guardedHop 0, guardedHop 1] ∧ Cloaks (str "nick") nickCloaks ∧
      Relay.Passes (parties [guardedHop 0, guardedHop 1]) [nickCloaks]
        [guardedNext 0 (str ":nick 1"), guardedNext 1 (str ":nick")] ∧
      (guardedNext 1 (str ":nick")).cloakedOn (str "nick") = false :=
  ⟨chain_guarded cloaked_known.1, cloaks_nickCloaks, passes_guarded 1, by decide +kernel⟩

end Server

end OpenNap
