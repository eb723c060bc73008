import OpenNap.Search
import OpenNap.User

/-! Connections: a new one takes a slot, a peer that has authenticated itself is linked and brought
up to date, and a connection that is closed takes along its user, or the users behind it. -/

namespace OpenNap

open CText

namespace Core

/-- `add_client`: the first empty slot, or the first of ten more when every slot is taken. -/
def addClient (s : Core) (con : ConId) : Core :=
  let s :=
    if s.clients.length = s.numClients then
      let slot := s.numClients
      { s.modCon con fun c => { c with id := toShort slot } with
        clients := s.clients ++ some con :: List.replicate 9 none }
    else
      match s.clients.findIdx? (·.isNone) with
      | some slot =>
        { s.modCon con fun c => { c with id := toShort slot } with
          clients := s.clients.set slot (some con) }
      | none => s
  { s with numClients := s.numClients + 1 }

/-- The new connection of `accept_connection`, of no class yet. -/
def newConnection (s : Core) (ip : UInt32) (host : Str) (port localPort : UInt16) : Core :=
  s.alloc.modCon s.next fun _ =>
    { allocated := true, ip := ip, host := host, port := port, localPort := localPort }

/-- `accept_connection`. -/
def accept (s : Core) (ip : UInt32) (host : Str) (port localPort : UInt16) : Core :=
  (s.newConnection ip host port localPort).addClient s.next

/-- The end of `remove_connection`: the slot is emptied and the connection freed. -/
def freeConnection (s : Core) (con : ConId) : Core :=
  let id := (s.con con).id
  let s := s.modCon con fun c => { c with allocated := false }
  { s with
    clients := if 0 ≤ id then s.clients.set id.toNat none else s.clients
    numClients := s.numClients - 1 }

/-- A link that `mark_links` has marked. -/
def markedLink (l : Link) : Bool := l.port == 65535 && l.peerport == 65535

/-- `mark_links`: mark the links behind a server, and those behind their other ends.  Each call in
turn marks a link that was not marked, so that as many calls in depth are enough. -/
def markLinks : Nat → Str → List Link → List Link
  | 0, _, links => links
  | depth + 1, host, links =>
    (List.range links.length).foldl (fun links i =>
      match links[i]? with
      | some l =>
        if l.port != 65535 && l.peerport != 65535 && sameText host l.server then
          markLinks depth l.peer (links.set i { l with port := 65535, peerport := 65535 })
        else links
      | none => links) links

/-- `remove_links`. -/
def removeLinks (s : Core) (host : Str) : Core :=
  { s with
    serverLinks := (markLinks (s.serverLinks.length + 1) host s.serverLinks).filter fun l =>
      !markedLink l }

/-- A connection becomes that of a server. -/
def linkServer (s : Core) (con : ConId) : Core :=
  let s := { s with servers := s.servers ++ [con] }
  s.modCon con fun c => { c with cls := .server }

/-- The server leaves the list of those that messages are passed to. -/
def unlinkServer (s : Core) (con : ConId) : Core := { s with servers := s.servers.erase con }

end Core

namespace Server

/-! ### Bringing a new peer up to date -/

/-- `sync_server_list`. -/
def syncServerList (s : Server) (con : ConId) : Server :=
  let me := s.cfg.serverName
  let s := s.servers.foldl (fun s peer =>
    let c := s.con peer
    if peer = con then s
    else
      s.sendCmd con msgServerLinkInfo
        (me ++ str " " ++ showNat c.localPort.toNat ++ str " " ++ c.host ++ str " " ++
          showNat c.port.toNat ++ str " 1")) s
  s.serverLinks.foldl (fun s l =>
    s.sendCmd con msgServerLinkInfo
      (l.server ++ str " " ++ showNat l.port.toNat ++ str " " ++ l.peer ++ str " " ++
        showNat l.peerport.toNat ++ str " " ++ showInt (toInt32 (l.hops + 1)))) s

/-- `sync_user`.  The source reads the record of a privileged user without looking whether there is
one; a user without one is passed over here. -/
def syncUser (s : Server) (con : ConId) (user : UserId) : Server :=
  let u := s.user user
  let me := s.cfg.serverName
  if u.con = con then s
  else
    let s := s.sendCmd con msgClientLogin
      (u.nick ++ str " " ++ u.pass ++ str " " ++ showNat u.port.toNat ++ str " \"" ++ u.clientinfo ++
        str "\" " ++ showNat u.speed ++ str " unknown " ++ showInt (toInt32 u.connected) ++ str " " ++
        showNat u.ip.toNat ++ str " " ++ u.server ++ str " " ++ showNat u.conport.toNat)
    let s :=
      match if u.level = .user then none else s.userDb.lookup u.nick with
      | some db =>
        s.sendCmd con msgClientSetUserLevel
          (str ":" ++ me ++ str " " ++ u.nick ++ str " " ++ u.level.text ++ str " " ++
            showInt (toInt32 (s.db db).timestamp))
      | none => s
    let s := if u.cloaked then s.sendCmd con msgClientCloak (str ":" ++ u.nick ++ str " 1") else s
    let s :=
      if u.shared = 0 then s
      else
        s.sendCmd con msgServerUserSharing
          (u.nick ++ str " " ++ showNat u.shared.toNat ++ str " " ++ showNat u.libsize.toNat)
    let s := u.channels.foldl (fun s chan =>
      s.sendCmd con msgClientJoin (str ":" ++ u.nick ++ str " " ++ (s.chan chan).name)) s
    if u.muzzled then s.sendCmd con msgClientMuzzle (str ":" ++ me ++ str " " ++ u.nick) else s

/-- `sync_chan`.  The format of the mode message has no place for the last two modes. -/
def syncChan (s : Server) (con : ConId) (chan : ChanId) : Server :=
  let c := s.chan chan
  let head := str ":" ++ s.cfg.serverName ++ str " " ++ c.name
  let stamp := str " " ++ showInt (toInt32 c.timestamp)
  let s :=
    if c.level = .user then s
    else s.sendCmd con msgClientSetChanLevel (head ++ str " " ++ c.level.text ++ stamp)
  let s :=
    if (c.limit.toNat : Int) = s.cfg.channelLimit then s
    else s.sendCmd con msgClientChannelLimit (head ++ str " " ++ showNat c.limit.toNat ++ stamp)
  let s :=
    if c.ops.isEmpty then s
    else s.sendCmd con msgClientOp (head ++ (c.ops.flatMap (str " " ++ ·)).take 2047)
  let s :=
    if c.onPrivate || c.onModerated then
      s.sendCmd con msgClientChannelMode
        (head ++ (if c.onPrivate then str " +PRIVATE" else []) ++
          (if c.onModerated then str " +MODERATED" else []))
    else s
  c.users.foldl (fun s member =>
    let nick := (s.user member.user).nick
    if member.voice then s.sendCmd con msgClientChannelVoice (head ++ str " " ++ nick)
    else if member.muzzled then s.sendCmd con msgClientChannelMuzzle (head ++ str " " ++ nick)
    else s) s

/-- `sync_banlist`. -/
def syncBanlist (s : Server) (con : ConId) : Server :=
  let me := s.cfg.serverName
  s.bans.foldl (fun s ban =>
    s.sendCmd con msgClientBan
      (str ":" ++ me ++ str " " ++ ban.target ++ str " \"" ++ ban.reason ++ str "\" " ++
        showInt ban.timeout)) s

/-- `synch_server`. -/
def synchServer (s : Server) (con : ConId) : Server :=
  let s := s.syncServerList con
  let s := s.users.values.foldl (fun s user => s.syncUser con user) s
  let s := s.channels.values.foldl (fun s chan => s.syncChan con chan) s
  s.syncBanlist con

/-- The end of `server_login_ack`, once the peer has shown that it knows the password. -/
def serverLoginAck (s : Server) (con : ConId) : Server :=
  let s := s.onCore (·.linkServer con)
  let c := s.con con
  let s := s.notifyMods serverlogMode (str "Server " ++ c.host ++ str " has joined")
  let s := s.passMessageArgs (some con) msgServerLinkInfo
    (s.cfg.serverName ++ str " " ++ showNat c.localPort.toNat ++ str " " ++ c.host ++ str " " ++
      showNat c.port.toNat ++ str " 1")
  s.synchServer con

/-- A port in a link message; a bad one is reported and taken as 0. -/
def linkPort (s : Server) (con : ConId) (text : Str) : Server × UInt16 :=
  let port := atoi text
  if port < 0 ∨ 65535 < port then
    (s.sendCmd con msgServerNosuch (str "Invalid port " ++ showInt port), 0)
  else (s, toUshort port)

/-- `link_info`: `<server> <port> <peer> <peerport> <hops>`. -/
def linkInfo (s : Server) (con : ConId) (tag : Nat) (pkt : Str) : Server :=
  match splitLine 5 pkt with
  | some [server, port, peer, peerport, hops] =>
    let (s, port) := s.linkPort con port
    let (s, peerport) := s.linkPort con peerport
    let hops := atoi hops
    let s :=
      if hops < 0 then s.sendCmd con msgServerNosuch (str "Invalid hop count " ++ showInt hops)
      else s
    let l : Link :=
      { server := server, peer := peer, port := port, peerport := peerport
        hops := if hops < 0 then 1 else hops }
    let s := s.onCore fun s => { s with serverLinks := s.serverLinks ++ [l] }
    let s := s.passMessageArgs (some con) tag
      (l.server ++ str " " ++ showNat l.port.toNat ++ str " " ++ l.peer ++ str " " ++
        showNat l.peerport.toNat ++ str " " ++ showInt (toInt32 (l.hops + 1)))
    s.notifyMods serverlogMode (str "Server " ++ l.peer ++ str " has joined")
  | _ =>
    s.sendCmd con msgServerNosuch
      (str "Wrong number of parameters for command " ++ showNat tag)

/-! ### Closing a connection -/

/-- `server_disconnect`: `[ :<nick> ] <server> [reason]`.  The server is taken from the list at
once, and its connection is removed later. -/
def serverDisconnect (s : Server) (con : ConId) (pkt : Str) : Server :=
  match s.popUser con pkt with
  | none => s
  | some (user, rest) =>
    if (s.user user).level < .admin then s.permissionDenied con
    else
      match rest with
      | none => s.unparsable con
      | some rest =>
        let (host, reason) := nextArg rest
        let s :=
          match s.servers.find? fun peer => sameText (s.con peer).host host with
          | some peer =>
            s.onCore fun s =>
              (s.unlinkServer peer).modCon peer fun c => { c with destroy := true }
          | none => s
        let nick := (s.user user).nick
        let s := s.passMessageArgs (some con) msgClientDisconnect
          (str ":" ++ nick ++ str " " ++ host ++ str " " ++ reason.getD [])
        s.notifyMods serverlogMode
          (nick ++ str " disconnected server " ++ host ++ str ": " ++ reason.getD [])

/-- `server_split`: a user behind the lost server is gone. -/
def serverSplit (s : Server) (con : ConId) (user : UserId) : Server :=
  if (s.user user).con = con then
    let s := s.passMessageArgs (some con) msgClientQuit (s.user user).nick
    s.hashRemoveUser (s.user user).nick
  else s

/-- The messages about a server that is lost. -/
def tellServerQuit (s : Server) (con : ConId) : Server :=
  let host := (s.con con).host
  let s := s.notifyMods serverlogMode (str "Server " ++ host ++ str " has quit")
  s.passMessageArgs (some con) msgServerQuit (str ":" ++ s.cfg.serverName ++ str " " ++ host)

/-- The part of `remove_connection` for a server.  The name in the cache of server names is looked
for by its address, which is never that of the connection's host, so the cache stays. -/
def removeServer (s : Server) (con : ConId) : Server :=
  let s := (s.tellServerQuit con).onCore fun s =>
    (s.removeLinks (s.con con).host).unlinkServer con
  s.users.values.foldl (fun s user => s.serverSplit con user) s

/-- `remove_connection`. -/
def removeConnection (s : Server) (con : ConId) : Server :=
  let s := (s.onCore (·.note (.leaving con))).cancelSearch con
  let s :=
    if s.isUser con then s.removeUser con
    else if s.isServer con then s.removeServer con
    else s
  s.onCore fun s => (s.freeConnection con).note (.removed con)

/-! ### Messages aside, these are the operations on the data -/

@[simp] theorem toCore_syncServerList (s : Server) (con : ConId) :
    (s.syncServerList con).toCore = s.toCore := by
  simp only [syncServerList]
  rw [toCore_foldl (fun s l => toCore_sendCmd s con _ _), toCore_foldl fun s peer => ?_]
  split <;> rfl

@[simp] theorem toCore_syncUser (s : Server) (con : ConId) (user : UserId) :
    (s.syncUser con user).toCore = s.toCore := by
  have hJoins (l : List ChanId) (t : Server) (f : Server → ChanId → Str) :
      (l.foldl (fun s chan => s.sendCmd con msgClientJoin (f s chan)) t).toCore = t.toCore :=
    toCore_foldl (fun s chan => toCore_sendCmd s con _ _) l t
  simp only [syncUser]
  split
  · rfl
  · simp only [toCore_ite, toCore_sendCmd, hJoins, ite_self]
    split <;> rfl

@[simp] theorem toCore_syncChan (s : Server) (con : ConId) (chan : ChanId) :
    (s.syncChan con chan).toCore = s.toCore := by
  simp only [syncChan]
  rw [toCore_foldl fun s member => ?_]
  · simp only [toCore_ite, toCore_sendCmd, ite_self]
  · split
    · rfl
    · split <;> rfl

@[simp] theorem toCore_syncBanlist (s : Server) (con : ConId) :
    (s.syncBanlist con).toCore = s.toCore :=
  toCore_foldl (fun s _ => toCore_sendCmd s con _ _) _ s

@[simp] theorem toCore_synchServer (s : Server) (con : ConId) :
    (s.synchServer con).toCore = s.toCore := by
  simp only [synchServer, toCore_syncBanlist]
  rw [toCore_foldl fun s chan => toCore_syncChan s con chan,
    toCore_foldl fun s user => toCore_syncUser s con user, toCore_syncServerList]

@[simp] theorem toCore_serverLoginAck (s : Server) (con : ConId) :
    (s.serverLoginAck con).toCore = s.toCore.linkServer con := by
  simp [serverLoginAck]

@[simp] theorem toCore_linkPort (s : Server) (con : ConId) (text : Str) :
    (s.linkPort con text).1.toCore = s.toCore := by
  simp only [linkPort]
  split <;> rfl

@[simp] theorem toCore_tellServerQuit (s : Server) (con : ConId) :
    (s.tellServerQuit con).toCore = s.toCore := by
  simp [tellServerQuit]

end Server

end OpenNap
