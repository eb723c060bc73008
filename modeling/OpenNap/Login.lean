import OpenNap.Password
import OpenNap.User

/-! Logging in: a new client names itself, or a peer reports a user behind it.  The handler runs
through a row of checks, each of which may refuse the login, before it adds the user. -/

namespace OpenNap

open CText

/-- What a login message says.  For a client of this server the last three are what the server
itself knows. -/
structure LoginRequest where
  nick : Str
  pass : Str
  port : Str
  client : Str
  speed : Str
  ip : UInt32
  host : Str
  connected : Int
  server : Str
  conport : UInt16
  deriving DecidableEq

/-- `PACKAGE` and `VERSION`. -/
def packageVersion : Str := str "opennap 0.36"

/-- A count of kB as `%.0f` shows it in GB, the nearest integer, ties to even. -/
def gigsText (kb : Int) : Str :=
  let n := kb.natAbs
  let low := n / 1048576
  let up := decide (1048576 < n % 1048576 * 2) || n % 1048576 * 2 == 1048576 && low % 2 == 1
  (if kb < 0 then str "-" else []) ++ showNat (if up then low + 1 else low)

namespace Core

/-- How many clients and unknown connections come from an address: `count_clones`, without the cut
at `Max_Clones`. -/
def countClones (s : Core) (ip : UInt32) : Nat :=
  s.clients.countP fun slot =>
    match slot with
    | some con => (s.isUser con || s.isUnknown con) && (s.con con).ip == ip
    | none => false

/-- The connection that `eject_client` picks: among the other local users that share nothing, the
one that logged in first, before now. -/
def ejectLoser (s : Core) (con : ConId) : Option ConId :=
  (s.clients.foldl (fun (best : Option ConId × Int) slot =>
    match slot with
    | some other =>
      match (s.con other).user with
      | some user =>
        let u := s.user user
        if s.isUser other && other != con && !u.sharing && decide (u.connected < best.2) then
          (some other, u.connected)
        else best
      | none => best
    | none => best) (none, s.now)).1

/-- `find_server`: the cached spelling of a server's name, and the cache. -/
def findServer (s : Core) (name : Str) : Str × List Str :=
  match s.serverNames.find? (sameText name) with
  | some known => (known, s.serverNames)
  | none => (name, name :: s.serverNames)

/-- The registration made at login. -/
def addDb (s : Core) (nick password : Str) : Core :=
  let db := s.next
  let s := s.alloc.modDb db fun _ =>
    { nick := nick, password := password, level := .user, timestamp := s.now }
  { s with userDb := s.userDb.add nick db }

/-- The new user, with the fields that do not depend on where the login came from. -/
def newUser (cfg : Config) (con : ConId) (r : LoginRequest) (speed port : Nat) : User :=
  { nick := r.nick
    pass := r.pass
    clientinfo :=
      if 0 < cfg.maxClientString ∧ cfg.maxClientString < (r.client.length : Int) then
        r.client.take cfg.maxClientString.toNat
      else r.client
    port := UInt16.ofNat port
    speed := speed
    con := con
    level := .user
    ip := r.ip
    connected := r.connected
    conport := r.conport }

/-- A client of this server is logged in: the user is created and tied to its connection. -/
def tieLocal (s : Core) (con : ConId) (u : User) : Core :=
  let user := s.next
  let s := s.alloc.modUser user fun _ => { u with isLocal := true, server := s.cfg.serverName }
  s.modCon con fun c => { c with uopt := some { usermode := logallMode }, user := some user, cls := .user }

/-- A user behind a peer is created. -/
def tieRemote (s : Core) (u : User) (server : Str) : Core :=
  let user := s.next
  let s := s.alloc.modUser user fun _ => { u with server := (s.findServer server).1 }
  { s with serverNames := (s.findServer server).2 }

/-- `hash_add (Users, user->nick, user)`. -/
def addUser (s : Core) (user : UserId) : Core :=
  { s with users := s.users.add (s.user user).nick user }

end Core

namespace Server

/-- Mark a connection for removal. -/
def markDestroy (s : Server) (con : ConId) : Server :=
  s.onCore (·.modCon con fun c => { c with destroy := true })

/-- The refusal of a client with a text. -/
def refuse (s : Server) (con : ConId) (tag : Nat) (text : Str) : Server :=
  (s.sendCmd con tag text).markDestroy con

/-- The fields of a login message; an error is the state in which the login was refused. -/
def readLogin (s : Server) (con : ConId) (pkt : Str) : Except Server LoginRequest :=
  if s.isUnknown con then
    match splitLine 10 pkt with
    | some (nick :: pass :: port :: client :: speed :: _) =>
      .ok
        { nick := nick, pass := pass, port := port, client := client, speed := speed
          ip := (s.con con).ip, host := (s.con con).host
          connected := s.now, server := s.cfg.serverName, conport := (s.con con).port }
    | _ => .error ((s.unparsable con).markDestroy con)
  else
    match splitLine 10 pkt with
    | some [nick, pass, port, client, speed, _, ts, ip, server, conport] =>
      let ip := UInt32.ofNat (strtoul ip).1
      .ok
        { nick := nick, pass := pass, port := port, client := client, speed := speed
          ip := ip, host := myNtoa ip
          connected := atoi ts, server := server, conport := toUshort (atoi conport) }
    | some (nick :: _) => .error (s.killClient nick (str "bad login message from server"))
    | _ => .error s

/-- `invalid_nick` at login. -/
def checkNick (s : Server) (con : ConId) (r : LoginRequest) : Except Server Server :=
  if invalidNick s.cfg r.nick then
    if s.isUnknown con then .error (s.refuse con msgServerBadNick [])
    else .error (s.killClient r.nick (str "invalid nick"))
  else .ok s

/-- `eject_client`. -/
def ejectClient (s : Server) (con : ConId) : Option Server :=
  (s.ejectLoser con).map fun loser =>
    let nick := (((s.con loser).user).map fun u => (s.user u).nick).getD []
    let s := s.killClient nick (str "server full, not sharing")
    let s := s.sendCmd loser msgServerNosuch (str "server is full and you are not sharing")
    (s.sendCmd loser msgServerDisconnecting (str "0")).markKilled loser

/-- The restrictions that privileged accounts are not subject to: bans, clones, the maximum number
of connections. -/
def checkRestrictions (s : Server) (con : ConId) (r : LoginRequest) : Except Server Server :=
  match s.banFor r.nick r.host with
  | some ban => .error (s.refuseBanned con r.nick r.host ban)
  | none =>
    if s.isUnknown con then
      if 0 < s.cfg.maxClones ∧ s.cfg.maxClones ≤ (s.countClones (s.con con).ip : Int) then
        .error (s.refuse con msgServerError (str "Exceeded max connections to this server"))
      else if s.cfg.maxConnections ≤ (s.numClients : Int) then
        match if s.cfg.ejectWhenFull then s.ejectClient con else none with
        | some s => .ok s
        | none =>
          .error (s.refuse con msgServerError
            (str "This server is full (" ++ showInt s.cfg.maxConnections ++ str " connections)"))
      else .ok s
    else .ok s

/-- The check of a number in the message; a bad one from a peer is reported and taken as 0. -/
def checkNumber (s : Server) (con : ConId) (r : LoginRequest) (what text : Str) (bound : Int) :
    Except Server (Server × Nat) :=
  let n := atoi text
  if n < 0 ∨ bound < n then
    if s.isUnknown con then .error (s.refuse con msgServerError (str "invalid " ++ what))
    else
      .ok (s.notifyMods errorMode
        (str "Invalid " ++ what ++ str " " ++ showInt n ++ str " for user " ++ r.nick ++
          str " from server " ++ (s.con con).host), 0)
  else .ok (s, n.toNat)

/-- `sync_reginfo`. -/
def syncReginfo (s : Server) (db : UserDbId) : Server :=
  let r := s.db db
  s.passMessageArgs none msgServerReginfo
    (str ":" ++ s.cfg.serverName ++ str " " ++ r.nick ++ str " " ++ r.password ++ str " unknown " ++
      r.level.text ++ str " " ++ showInt (toInt32 r.timestamp) ++ str " " ++
      showInt (toInt32 r.lastSeen))

@[simp] theorem toCore_syncReginfo (s : Server) (db : UserDbId) :
    (s.syncReginfo db).toCore = s.toCore := by
  simp [syncReginfo]

/-- The notice of a bad password for a privileged account. -/
def tellBadPass (s : Server) (r : LoginRequest) (d : UserDb) : Server :=
  let text := str "Bad password for " ++ d.nick ++ str " (" ++ d.level.text ++ str ") from " ++ r.host
  if Level.user < d.level then
    (s.notifyMods errorMode text).passMessageArgs none msgServerNotifyMods
      (str ":" ++ s.cfg.serverName ++ str " " ++ showNat errorMode ++ str " \"" ++ text ++ str "\"")
  else s

@[simp] theorem toCore_tellBadPass (s : Server) (r : LoginRequest) (d : UserDb) :
    (s.tellBadPass r d).toCore = s.toCore := by
  simp only [tellBadPass, toCore_ite, toCore_passMessageArgs, toCore_notifyMods, ite_self]

/-- The registration rules and the password.  The result says whether the account is to be
registered. -/
def checkAccount (s : Server) (con : ConId) (tag : Nat) (r : LoginRequest) (db : Option UserDbId) :
    Except Server Bool :=
  match db with
  | none =>
    if tag = msgClientLogin then
      if s.cfg.registeredOnly then
        .error (s.refuse con msgServerError
          (str "only registered accounts allowed on this server"))
      else .ok s.cfg.autoRegister
    else .ok true
  | some db =>
    if tag = msgClientLoginRegister then
      if s.isUnknown con then
        .error (s.refuse con msgServerError (str "account registered to another user"))
      else
        .error ((s.killClient r.nick (str "account registered to another user")).syncReginfo db)
    else if checkPass s.cfg.md5 (s.db db).password r.pass then
      let s := s.tellBadPass r (s.db db)
      if s.isUnknown con then .error (s.refuse con msgServerError (str "Invalid Password"))
      else .error ((s.killClient r.nick (str "invalid password")).syncReginfo db)
    else .ok false

/-- The user of that nick that is logged in already: a ghost or the younger of two users goes, else
the login is refused. -/
def checkCollision (s : Server) (con : ConId) (r : LoginRequest) : Except Server Server :=
  match s.users.lookup r.nick with
  | none => .ok s
  | some user =>
    let u := s.user user
    if s.isUnknown con then
      if u.ip = (s.con con).ip then
        let s := s.killClient u.nick (str "ghost (" ++ u.server ++ str ")")
        if s.isUser u.con then
          .ok ((s.sendCmd u.con msgServerGhost []).zapLocalUser u.con
            (str "Someone else is logging in as you, disconnecting."))
        else .ok (s.hashRemoveUser u.nick)
      else .error (s.refuse con msgServerError (u.nick ++ str " is already active"))
    else if r.connected < u.connected then
      let s := s.passMessageArgs (some con) msgClientKill
        (str ":" ++ s.cfg.serverName ++ str " " ++ u.nick ++ str " \"nick collision (" ++
          r.server ++ str " " ++ u.server ++ str ")\"")
      let s := s.notifyMods killlogMode
        (s.cfg.serverName ++ str " killed " ++ u.nick ++ str ": nick collision (" ++ r.server ++
          str " " ++ u.server ++ str ")")
      if s.isUser u.con then .ok (s.zapLocalUser u.con (str "nick collision"))
      else .ok (s.hashRemoveUser u.nick)
    else .error s

/-- The registration of a new account. -/
def register (s : Server) (r : LoginRequest) (random : Str) : Server :=
  s.onCore (·.addDb r.nick (generatePass s.cfg.md5 random r.pass))

/-- What a client is sent when it is logged in: `show_motd` and `server_stats` included. -/
def welcome (s : Server) (con : ConId) : Server :=
  let s := s.sendCmd con msgServerEmail (str "anon@" ++ s.cfg.serverName)
  let s := s.sendCmd con msgServerMotd (str "VERSION " ++ packageVersion)
  let s := s.cfg.motd.foldl (fun s line => s.queueData con msgServerMotd line) s
  s.sendCmd con msgServerStats
    (showNat s.users.entries.length ++ str " " ++ showInt s.numFiles ++ str " " ++
      gigsText s.numGigs)

/-- The text that reports a login to the peers.  The password, the data port and the speed are
passed on as they came. -/
def loginText (u : User) (r : LoginRequest) : Str :=
  u.nick ++ str " " ++ r.pass ++ str " " ++ r.port ++ str " \"" ++ u.clientinfo ++ str "\" " ++
    r.speed ++ str " unknown " ++ showInt (toInt32 u.connected) ++ str " " ++ showNat u.ip.toNat ++
    str " " ++ u.server ++ str " " ++ showNat u.conport.toNat

/-- The level of a registered user is set from the record. -/
def applyLevel (s : Server) (con : ConId) (user : UserId) (d : UserDb) : Server :=
  let nick := (s.user user).nick
  let me := s.cfg.serverName
  if d.level ≠ .user then
    let text := d.level.text ++ str " (" ++ showNat d.level.rank ++ str ")"
    let s := s.notifyMods levellogMode (me ++ str " set " ++ nick ++ str "'s user level to " ++ text)
    let s := s.onCore (·.modUser user fun u => { u with level := d.level })
    let s := s.sendIfUser con msgServerNosuch (me ++ str " set your user level to " ++ text ++ str ".")
    s.passMessageArgs none msgClientSetUserLevel
      (str ":" ++ me ++ str " " ++ nick ++ str " " ++ d.level.text ++ str " " ++
        showInt (toInt32 d.timestamp))
  else s

/-- A registered user who quit while muzzled is muzzled again. -/
def applyMuzzle (s : Server) (con : ConId) (user : UserId) (d : UserDb) : Server :=
  let nick := (s.user user).nick
  let me := s.cfg.serverName
  if d.muzzled then
    let s := s.onCore (·.modUser user fun u => { u with muzzled := true })
    let s := s.passMessageArgs none msgClientMuzzle
      (str ":" ++ me ++ str " " ++ nick ++ str " \"quit while muzzled\"")
    let s := s.sendIfUser con msgServerNosuch
      (str "You have been muzzled by " ++ me ++ str ": quit while muzzled")
    s.notifyMods muzzlelogMode (me ++ str " has muzzled " ++ nick ++ str ": quit while muzzled")
  else s

/-- A registered user who quit while cloaked is cloaked again. -/
def applyCloak (s : Server) (con : ConId) (user : UserId) (d : UserDb) : Server :=
  let nick := (s.user user).nick
  if d.cloaked then
    let s := s.onCore (·.modUser user fun u => { u with cloaked := true })
    let s := s.sendIfUser con msgServerNosuch (str "You are now cloaked.")
    let s := s.notifyMods changelogMode (nick ++ str " has cloaked")
    s.passMessageArgs none msgClientCloak (str ":" ++ nick ++ str " 1")
  else s

/-- What the record of a registered user changes at login. -/
def applyRecord (s : Server) (con : ConId) (user : UserId) (db : UserDbId) : Server :=
  let d := s.db db
  let s := s.onCore (·.modDb db fun r => { r with lastSeen := s.now })
  ((s.applyLevel con user d).applyMuzzle con user d).applyCloak con user d

/-- The login goes through: the user is created and reported. -/
def acceptLogin (s : Server) (con : ConId) (r : LoginRequest) (speed port : Nat)
    (db : Option UserDbId) : Server :=
  let user := s.next
  let u := Core.newUser s.cfg con r speed port
  let s :=
    if s.isUnknown con then (s.onCore (·.tieLocal con u)).welcome con
    else s.onCore (·.tieRemote u r.server)
  let s := s.onCore (·.addUser user)
  let s := s.passMessageArgs (some con) msgClientLogin (loginText (s.user user) r)
  let s :=
    match db with
    | some db => s.applyRecord con user db
    | none => s
  s.tellHotlist r.nick msgServerUserSignon (r.nick ++ str " " ++ showNat speed)

/-- The part of `login` after the checks that do not depend on who is on line. -/
def enterUser (s : Server) (con : ConId) (r : LoginRequest) (speed port : Nat)
    (db : Option UserDbId) (registers : Bool) (random : Str) : Server :=
  match s.checkCollision con r with
  | .error t => t
  | .ok t =>
    if registers then (t.register r random).acceptLogin con r speed port (some t.next)
    else t.acceptLogin con r speed port db

/-- `login`, for a connection that is not a user's yet. -/
def loginRequest (s : Server) (con : ConId) (tag : Nat) (r : LoginRequest) (random : Str) :
    Server :=
  match s.checkNick con r with
  | .error t => t
  | .ok s =>
    let db := s.userDb.lookup r.nick
    let privileged := db.any fun d => decide (Level.moderator ≤ (s.db d).level)
    match if privileged then .ok s else s.checkRestrictions con r with
    | .error t => t
    | .ok s =>
      match s.checkNumber con r (str "speed") r.speed 10 with
      | .error t => t
      | .ok (s, speed) =>
        match s.checkNumber con r (str "port") r.port 65535 with
        | .error t => t
        | .ok (s, port) =>
          match s.checkAccount con tag r db with
          | .error t => t
          | .ok registers => s.enterUser con r speed port db registers random

/-- `login`: `<nick> <pass> <port> <client-info> <speed>`, from a peer with the address `<email>`,
`<ts>`, `<ip>`, `<server>` and `<serverport>` after it. -/
def login (s : Server) (con : ConId) (tag : Nat) (pkt random : Str) : Server :=
  if s.isUser con then s.sendCmd con msgServerNosuch (str "you are already logged in")
  else
    match s.readLogin con pkt with
    | .error t => t
    | .ok r => s.loginRequest con tag r random

end Server

end OpenNap
