import OpenNap.Connection
import OpenNap.Lib.Run

/-! Server authentication: how a connection becomes the link to a peer.  Either side sends a login
request with a nonce (10010), and answers the request of the other side with a digest of both nonces
and its password (10011).  The handlers see only the connection they read from, the files and the
links that exist, so each is a function from the connection to what becomes of it and what is sent
on it.  What a linked server is told next is the business of `Server.serverLoginAck`. -/

namespace OpenNap

open CText

/-! ### The connections -/

/-- `AUTH`. -/
structure Auth where
  nonce : Option Str := none
  sendernonce : Option Str := none
deriving DecidableEq, Repr

/-- The pointer `opt.auth` of a connection. -/
inductive AuthPtr
  | null
  | live (auth : Auth)
  | freed
deriving DecidableEq, Repr

/-- A connection with what its handshake has come to; `outgoing` says that `try_connect` opened
it. -/
structure Peer extends Connection where
  outgoing : Bool := false
  connecting : Bool := false
  serverLogin : Bool := false
  compress : Nat := 0
  auth : AuthPtr := .null

/-- What the handshake reads of the settings, the lines of the servers file, the resolver and the
digest function of md5.c. -/
structure LinkConfig where
  serverName : Str
  serverPass : Str := []
  servers : List Str
  compressionLevel : Int := 0
  lookupIp : Str → UInt32
  md5 : Str → List UInt8

/-- The allocations whose failure is looked at. -/
inductive Alloc
  | pass
  | localPass
  | auth
  | senderNonce
  | list
deriving DecidableEq, Repr

/-- What a turn of the main loop gets from outside: which allocations succeed, what
`generate_nonce` returns, and whether a connection could be opened or completed. -/
structure LinkEnv where
  memory : Alloc → Bool := fun _ => true
  nonce : Option Str := none
  connects : Bool := true

/-- The two handlers. -/
inductive Greeting
  | serverLogin
  | serverLoginAck
deriving DecidableEq, Repr

/-! ### Digests and passwords -/

/-- The table `hex`. -/
def hexDigits : Str := str "0123456789ABCDEF"

/-- `expand_hex`. -/
def expandHex (v : List UInt8) : Str :=
  v.flatMap fun b =>
    [hexDigits.getD (b.toNat / 16) '0', hexDigits.getD (b.toNat % 16) '0']

namespace LinkConfig

/-- The digest of two nonces and a password. -/
def response (cfg : LinkConfig) (first second pass : Str) : Str :=
  expandHex (cfg.md5 (first ++ second ++ pass))

/-- A line that `get_server_pass` passes over.  A single character counts as a blank line too. -/
def skipsLine (text : Str) : Bool :=
  text[0]? == some '#' || text[0]? == some '\n' || text[0]? == some '\r' || text[1]? == some '\n'

/-- The passwords on a line of the servers file, when it is about the server: the one the peer must
know, and our own. -/
def linePass (cfg : LinkConfig) (host line : Str) : Option (Str × Str) :=
  if skipsLine line then none
  else
    match splitLine 3 line with
    | some (name :: pass :: own) =>
      if sameText host name then some (pass, own.head?.getD cfg.serverPass) else none
    | _ => none

/-- The entry of a server in the servers file. -/
def entry (cfg : LinkConfig) (host : Str) : Option (Str × Str) :=
  cfg.servers.findSome? (cfg.linePass host)

/-- `get_server_pass (host, &localPass)`. -/
def getServerPass (cfg : LinkConfig) (env : LinkEnv) (host : Str) : Option (Str × Str) :=
  if env.memory .pass && env.memory .localPass then cfg.entry host else none

/-- `get_server_pass (host, NULL)`. -/
def getPeerPass (cfg : LinkConfig) (env : LinkEnv) (host : Str) : Option Str :=
  if env.memory .pass then (cfg.entry host).map (·.1) else none

end LinkConfig

/-! ### The handlers -/

/-- What becomes of a connection, what is sent on it, whether it is put in the list of servers, and
whether the program went wrong: a null string was hashed, or a record used that is not there. -/
structure Outcome where
  peer : Peer
  replies : List (Nat × Str) := []
  joined : Bool := false
  fault : Bool := false

/-- One function after the other. -/
def Outcome.andThen (o : Outcome) (f : Peer → Outcome) : Outcome :=
  let p := f o.peer
  { peer := p.peer
    replies := o.replies ++ p.replies
    joined := o.joined || p.joined
    fault := o.fault || p.fault }

namespace Peer

/-- A message to the peer, whose connection is then marked for removal. -/
def refuse (c : Peer) (text : Str) : Outcome :=
  { peer := { c with destroy := true }, replies := [(msgServerError, clip text)] }

/-- `link_collision`. -/
def linkCollision (c : Peer) (l : Link) : Outcome :=
  c.refuse (str "already linked (" ++ l.server ++ str ":" ++ showNat l.port.toNat ++ str " -> " ++
    l.peer ++ str ":" ++ showNat l.peerport.toNat ++ str ")")

/-- The end of `server_login`: the nonce of the peer is kept and its challenge answered.  The digest
has 32 characters. -/
def respond (cfg : LinkConfig) (env : LinkEnv) (sendernonce localPass : Str) (c : Peer) : Outcome :=
  match c.auth with
  | .live auth =>
    if env.memory .senderNonce then
      match auth.nonce with
      | some nonce =>
        { peer := { c with auth := .live { auth with sendernonce := some sendernonce } }
          replies := [(msgServerLoginAck, cfg.response sendernonce nonce localPass)] }
      | none => { peer := c, fault := true }
    else { peer := { c with auth := .live { auth with sendernonce := none }, destroy := true } }
  | _ => { peer := c, fault := true }

/-- The part of `server_login` for a peer that may log in. -/
def negotiate (cfg : LinkConfig) (env : LinkEnv) (sendernonce level localPass : Str) (c : Peer) :
    Outcome :=
  let compress := atoi level
  if compress < 0 ∨ 9 < compress then
    c.refuse (str "invalid compression level " ++ showInt compress)
  else
    -- a field of four bits
    let c := { c with compress := (min compress cfg.compressionLevel % 16).toNat }
    if c.serverLogin then respond cfg env sendernonce localPass c
    else
      let c := { c with serverLogin := true }
      if !env.memory .auth then { peer := { c with auth := .null, destroy := true } }
      else
        match env.nonce with
        | none => refuse { c with auth := .live {} } (str "unable to generate nonce")
        | some nonce =>
          let body := cfg.serverName ++ str " " ++ nonce ++ str " " ++ showNat c.compress
          Outcome.andThen
            { peer := { c with auth := .live { nonce := some nonce } }
              replies := [(msgServerLogin, clip body)] }
            (respond cfg env sendernonce localPass)

/-- `server_login`: `<name> <nonce> <compression>`, where `linked` is the link that `is_linked`
finds for a name. -/
def login (cfg : LinkConfig) (linked : Str → Option Link) (env : LinkEnv) (pkt : Str) (c : Peer) :
    Outcome :=
  if c.cls ≠ .unknown then c.refuse (str "reregistration is not supported")
  else
    match splitLine 3 pkt with
    | some [name, sendernonce, level] =>
      match linked name with
      | some l => c.linkCollision l
      | none =>
        if cfg.lookupIp name ≠ c.ip then
          c.refuse (str "Your IP address does not match that name")
        else
          let c := { c with host := name }
          match cfg.getServerPass env name with
          | none => c.refuse (str "Permission Denied")
          | some (_, localPass) => negotiate cfg env sendernonce level localPass c
    | _ => c.refuse (str "wrong number of fields")

/-- The end of `server_login_ack`: the record is freed, and the connection becomes a server's and is
put in the list of servers. -/
def join (env : LinkEnv) (c : Peer) : Outcome :=
  let c := { c with auth := .freed, serverLogin := false }
  if env.memory .list then { peer := { c with cls := .server }, joined := true }
  else { peer := { c with destroy := true } }

/-- `server_login_ack`. -/
def loginAck (cfg : LinkConfig) (env : LinkEnv) (pkt : Str) (c : Peer) : Outcome :=
  if c.cls ≠ .unknown then
    { peer := c, replies := [(msgServerNosuch, str "reregistration is not supported")] }
  else if !c.serverLogin then c.refuse (str "You must login first")
  else
    match cfg.getPeerPass env c.host with
    | none => c.refuse (str "Permission Denied")
    | some pass =>
      match c.auth with
      | .live ⟨some nonce, some sendernonce⟩ =>
        if cfg.response nonce sendernonce pass ≠ pkt then c.refuse (str "Permission Denied")
        else c.join env
      | _ => { peer := c, fault := true }

/-- `complete_connect`. -/
def completeConnect (cfg : LinkConfig) (env : LinkEnv) (c : Peer) : Outcome :=
  if c.destroy || !env.connects then { peer := { c with destroy := true } }
  else
    let c := { c with connecting := false }
    match c.auth with
    | .live ⟨some nonce, _⟩ =>
      let body := cfg.serverName ++ str " " ++ nonce ++ str " " ++ showInt cfg.compressionLevel
      { peer := c, replies := [(msgServerLogin, clip body)] }
    | _ => { peer := c, fault := true }

/-- `dispatch_command` for the two messages. -/
def dispatch (cfg : LinkConfig) (linked : Str → Option Link) (env : LinkEnv) (cmd : Greeting)
    (pkt : Str) (c : Peer) : Outcome :=
  match cmd with
  | .serverLogin => login cfg linked env pkt c
  | .serverLoginAck => loginAck cfg env pkt c

/-- A turn of the main loop in which a packet was read.  A socket with something to read is
connected and can be written to, so `complete_connect` follows in the same turn. -/
def read (cfg : LinkConfig) (linked : Str → Option Link) (env : LinkEnv) (cmd : Greeting)
    (pkt : Str) (c : Peer) : Outcome :=
  let o := dispatch cfg linked env cmd pkt c
  if c.connecting then o.andThen (completeConnect cfg env) else o

/-- Whether the main loop reads from the connection. -/
def reads (c : Peer) : Bool := c.allocated && (c.cls == .server || !c.destroy)

/-- The connection of `accept_connection`. -/
def accepted (ip : UInt32) (host : Str) (port localPort : UInt16) : Peer :=
  { allocated := true, ip := ip, host := host, port := port, localPort := localPort }

/-- The connection of `try_connect`. -/
def opened (cfg : LinkConfig) (nonce host : Str) (port localPort : UInt16) : Peer :=
  { allocated := true
    ip := cfg.lookupIp host
    host := host
    port := port
    localPort := localPort
    outgoing := true
    connecting := true
    serverLogin := true
    auth := .live { nonce := some nonce } }

end Peer

/-! ### The node -/

/-- The connections of a server, its list of servers, the links between other servers, and what was
sent; `fault` says that the program went wrong. -/
structure Node where
  cfg : LinkConfig
  next : ConId := 0
  con : ConId → Peer := fun _ => {}
  servers : List ConId := []
  serverLinks : List Link := []
  sent : List Message := []
  fault : Bool := false

/-- What the main loop reacts to. -/
inductive LinkEvent
  /-- a connection was accepted -/
  | accept (ip : UInt32) (host : Str) (port localPort : UInt16)
  /-- `server_connect` asks for a link to a server -/
  | connect (host : Str) (port localPort : UInt16) (env : LinkEnv)
  /-- a connection that was being opened can be written to -/
  | connected (con : ConId) (env : LinkEnv)
  /-- a packet of the handshake was read -/
  | packet (con : ConId) (cmd : Greeting) (pkt : Str) (env : LinkEnv)
  /-- a connection is marked for removal: it was closed by the peer, or it failed -/
  | mark (con : ConId)
  /-- a marked connection is removed -/
  | close (con : ConId)
  /-- `server_disconnect` unlinks a server -/
  | disconnect (host : Str)
  /-- the peers report which links there are between other servers -/
  | links (links : List Link)

namespace Node

@[simps] def modCon (s : Node) (con : ConId) (f : Peer → Peer) : Node :=
  { s with con := fun c => if c = con then f (s.con c) else s.con c }

/-- The link that `is_linked` finds. -/
def findLink (s : Node) (host : Str) : Option Link :=
  match s.servers.find? fun peer => sameText (s.con peer).host host with
  | some peer =>
    let c := s.con peer
    some
      { server := s.cfg.serverName, peer := c.host, port := c.localPort, peerport := c.port
        hops := 1 }
  | none => s.serverLinks.find? fun l => sameText l.server host || sameText l.peer host

/-- What a handler did to its connection. -/
@[simps] def apply (s : Node) (con : ConId) (o : Outcome) : Node :=
  { s with
    con := fun c => if c = con then o.peer else s.con c
    servers := if o.joined then s.servers ++ [con] else s.servers
    sent := s.sent ++ o.replies.map fun r => ⟨con, r.1, r.2⟩
    fault := s.fault || o.fault }

/-- A new connection. -/
@[simps] def add (s : Node) (c : Peer) : Node :=
  { s with next := s.next + 1, con := fun d => if d = s.next then c else s.con d }

/-- The part of `server_connect` that opens a connection. -/
def connect (s : Node) (host : Str) (port localPort : UInt16) (env : LinkEnv) : Node :=
  if (s.findLink host).isSome || s.cfg.lookupIp host == 0 || !env.connects || !env.memory .auth then s
  else
    match env.nonce with
    | none => s
    | some nonce => s.add (.opened s.cfg nonce host port localPort)

/-- `remove_connection`. -/
def removeConnection (s : Node) (con : ConId) : Node :=
  let c := s.con con
  let s := s.modCon con fun c => { c with allocated := false }
  match c.cls with
  | .server =>
    { s with
      servers := s.servers.erase con
      serverLinks := (Core.markLinks (s.serverLinks.length + 1) c.host s.serverLinks).filter
        fun l => !Core.markedLink l }
  | .unknown => { s with fault := s.fault || (c.serverLogin && c.auth == .freed) }
  | .user => s

/-- The part of `server_disconnect` that unlinks a server. -/
def disconnect (s : Node) (host : Str) : Node :=
  match s.servers.find? fun peer => sameText (s.con peer).host host with
  | some peer =>
    { s.modCon peer fun c => { c with destroy := true } with servers := s.servers.erase peer }
  | none => s

/-- One turn of the main loop of a program that has not gone wrong. -/
def turn (s : Node) : LinkEvent → Node
  | .accept ip host port localPort => s.add (.accepted ip host port localPort)
  | .connect host port localPort env => s.connect host port localPort env
  | .connected con env =>
    if (s.con con).allocated && (s.con con).connecting then
      s.apply con ((s.con con).completeConnect s.cfg env)
    else s
  | .packet con cmd pkt env =>
    if (s.con con).reads then s.apply con ((s.con con).read s.cfg s.findLink env cmd pkt) else s
  | .mark con => s.modCon con fun c => { c with destroy := true }
  | .close con =>
    if (s.con con).allocated && (s.con con).destroy then s.removeConnection con else s
  | .disconnect host => s.disconnect host
  | .links links => { s with serverLinks := links }

/-- One turn of the main loop. -/
def step (s : Node) (e : LinkEvent) : Node := if s.fault then s else s.turn e

/-- The server after a list of events, from its start. -/
abbrev run (cfg : LinkConfig) (events : List LinkEvent) : Node :=
  Runs.run step { cfg := cfg } events

/-- What was sent on a connection, as numbers and texts. -/
def sentTo (s : Node) (con : ConId) : List (Nat × Str) :=
  (s.sent.filter fun m => m.con == con).map fun m => (m.tag, m.body)

end Node

/-! ### A server with one peer -/

/-- The bytes of characters, three for each. -/
def wideBytes (s : Str) : List UInt8 :=
  s.flatMap fun c =>
    [UInt8.ofNat c.toNat, UInt8.ofNat (c.toNat / 256), UInt8.ofNat (c.toNat / 65536)]

/-- A server whose servers file names one peer, with the same password for both directions. -/
def twin : LinkConfig where
  serverName := str "hub"
  servers := [str "peer secret secret\n"]
  lookupIp := fun _ => 7
  md5 := wideBytes

/-- Our nonce in the runs that are looked at. -/
def ours : Str := str "0123456789ABCDEF"

/-- The surroundings of those runs. -/
def calm : LinkEnv := { nonce := some ours }

end OpenNap
