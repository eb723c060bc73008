import OpenNap.Admin
import OpenNap.BanList
import OpenNap.Connection
import OpenNap.Hotlist
import OpenNap.Lib.Run
import OpenNap.Join
import OpenNap.Modes
import OpenNap.Talk
import OpenNap.Transfer

/-! The main loop: what can happen to the server, one event at a time, and the state it starts
from. -/

namespace OpenNap

open CText

/-- The commands of the protocol table whose handlers are modelled. -/
inductive Command
  | login
  | loginRegister
  | addFile
  | removeFile
  | search
  | download
  | join
  | part
  | downloadFirewall
  | uploadRequest
  | killUser
  | clearChannel
  | kick
  | addDirectory
  | clientQuit
  | userSharing
  | remoteSearch
  | remoteSearchResult
  | remoteSearchEnd
  | linkInfo
  | serverDisconnect
  | kickUser
  | op
  | deop
  | channelDrop
  | shareFile
  | reginfo
  | level
  | cloak
  | muzzle
  | unmuzzle
  | notifyMods
  | channelLevel
  | channelLimit
  | topic
  | nuke
  | ban
  | alterPort
  | unban
  | alterSpeed
  | changeSpeed
  | changePass
  | changeDataPort
  | alterPass
  | registerUser
  | channelMode
  | channelVoice
  | channelUnvoice
  | channelMuzzle
  | channelUnmuzzle
  | addHotlist
  | addHotlistSeq
  | removeHotlist
  | publicMessage
  | serverPublic
  | channelBan
  | channelUnban
  | emote
  | namesList
  | channelInvite
deriving DecidableEq, Repr

/-- The number of the message. -/
def Command.tag : Command → Nat
  | login => msgClientLogin
  | loginRegister => msgClientLoginRegister
  | addFile => msgClientAddFile
  | removeFile => msgClientRemoveFile
  | search => msgClientSearch
  | download => msgClientDownload
  | join => msgClientJoin
  | part => msgClientPart
  | downloadFirewall => msgClientDownloadFirewall
  | uploadRequest => msgServerUploadRequest
  | killUser => msgClientKill
  | clearChannel => msgClientClearChannel
  | kick => msgClientKick
  | addDirectory => msgClientAddDirectory
  | clientQuit => msgClientQuit
  | userSharing => msgServerUserSharing
  | remoteSearch => msgServerRemoteSearch
  | remoteSearchResult => msgServerRemoteSearchResult
  | remoteSearchEnd => msgServerRemoteSearchEnd
  | linkInfo => msgServerLinkInfo
  | serverDisconnect => msgClientDisconnect
  | kickUser => msgClientKickUser
  | op => msgClientOp
  | deop => msgClientDeop
  | channelDrop => msgClientDropChannel
  | shareFile => msgClientShareFile
  | reginfo => msgServerReginfo
  | level => msgClientSetUserLevel
  | cloak => msgClientCloak
  | muzzle => msgClientMuzzle
  | unmuzzle => msgClientUnmuzzle
  | notifyMods => msgServerNotifyMods
  | channelLevel => msgClientSetChanLevel
  | channelLimit => msgClientChannelLimit
  | topic => msgServerTopic
  | nuke => msgClientNuke
  | ban => msgClientBan
  | alterPort => msgClientAlterPort
  | unban => msgClientUnban
  | alterSpeed => msgClientAlterSpeed
  | changeSpeed => msgClientChangeSpeed
  | changePass => msgClientChangePass
  | changeDataPort => msgClientChangeDataPort
  | alterPass => msgClientAlterPass
  | registerUser => msgClientRegisterUser
  | channelMode => msgClientChannelMode
  | channelVoice => msgClientChannelVoice
  | channelUnvoice => msgClientChannelUnvoice
  | channelMuzzle => msgClientChannelMuzzle
  | channelUnmuzzle => msgClientChannelUnmuzzle
  | addHotlist => msgClientAddHotlist
  | addHotlistSeq => msgClientAddHotlistSeq
  | removeHotlist => msgClientRemoveHotlist
  | publicMessage => msgClientPublic
  | serverPublic => msgServerPublic
  | channelBan => msgClientChannelBan
  | channelUnban => msgClientChannelUnban
  | emote => msgClientEmote
  | namesList => msgClientNamesList
  | channelInvite => msgClientChannelInvite

/-- The entries of the protocol table. -/
def Command.all : List Command :=
  [login, loginRegister, addFile, removeFile, search, addHotlist, addHotlistSeq, removeHotlist,
    download, join, part, publicMessage, serverPublic, channelBan, channelUnban, downloadFirewall,
    level, uploadRequest, killUser, nuke, ban, alterPort, unban, muzzle, unmuzzle, alterSpeed, cloak,
    changeSpeed, changePass, changeDataPort, alterPass, clearChannel, channelLevel, emote,
    channelLimit, kick, namesList, topic, addDirectory, clientQuit, userSharing, reginfo, remoteSearch,
    remoteSearchResult, remoteSearchEnd, linkInfo, notifyMods, serverDisconnect, registerUser, kickUser,
    op, deop, channelDrop, channelMode, channelInvite, channelVoice, channelUnvoice, channelMuzzle,
    channelUnmuzzle, shareFile]

theorem Command.mem_all (cmd : Command) : cmd ∈ all := by
  cases cmd <;> decide

theorem Command.tag_injective : Function.Injective Command.tag := by
  intro a b h
  have hNodup : (all.map tag).Nodup := by decide
  exact List.inj_on_of_nodup_map hNodup (mem_all a) (mem_all b) h

/-- What a handler gets from outside the server's data: eight random bytes for a stored password,
the id that `generate_search_id` makes up, the length of the text left in `Buf`, and a bound on the
passes through the loop of `join`. -/
structure Env where
  random : Str := str "AAAAAAAA"
  searchId : Str := []
  bufLen : Nat := 0
  fuel : Nat := 64

/-- What the main loop reacts to. -/
inductive Event
  /-- a connection was accepted -/
  | accept (ip : UInt32) (host : Str) (port localPort : UInt16)
  /-- a peer on this connection has passed the authentication of `server_login_ack` -/
  | link (con : ConId)
  /-- a whole packet was read -/
  | packet (con : ConId) (cmd : Command) (pkt : Str) (env : Env)
  /-- a connection was closed or marked, and is removed -/
  | drop (con : ConId)
  /-- the timer of the collector of invalid records went off -/
  | collect
  /-- the timer of `expire_bans` went off -/
  | expireBans
  /-- the timer of `dump_state` went off -/
  | dumpState
  /-- time has passed -/
  | tick (seconds : Nat)

namespace Server

/-- `dispatch_command`: the handler of a command, behind its `CHECK_USER_CLASS` or
`CHECK_SERVER_CLASS`. -/
def dispatch (s : Server) (con : ConId) (cmd : Command) (pkt : Str) (env : Env) : Server :=
  match cmd with
  | .login | .loginRegister => s.login con cmd.tag pkt env.random
  | .addFile => if s.isUser con then s.addFile con pkt else s
  | .removeFile => if s.isUser con then s.removeFile con pkt else s
  | .search => if s.isUser con then s.search con env.searchId pkt else s
  | .download | .downloadFirewall => s.download con cmd.tag pkt
  | .join => s.join con cmd.tag pkt env.bufLen env.fuel
  | .part => s.part con cmd.tag pkt
  | .uploadRequest => if s.isServer con then s.uploadRequest con pkt else s
  | .killUser => s.killUser con pkt
  | .clearChannel => s.clearChannel con cmd.tag pkt
  | .kick | .kickUser => s.kick con cmd.tag pkt
  | .addDirectory => if s.isUser con then s.addDirectory con pkt else s
  | .clientQuit => if s.isServer con then s.clientQuit con cmd.tag pkt else s
  | .userSharing => if s.isServer con then s.userSharing con cmd.tag pkt else s
  | .remoteSearch => if s.isServer con then s.remoteSearchRequest con pkt else s
  | .remoteSearchResult => if s.isServer con then s.remoteSearchResult cmd.tag pkt else s
  | .remoteSearchEnd => s.remoteSearchEnd con pkt
  | .linkInfo => if s.isServer con then s.linkInfo con cmd.tag pkt else s
  | .serverDisconnect => s.serverDisconnect con pkt
  | .op | .deop => s.channelOp con cmd.tag pkt
  | .channelDrop => s.channelDrop con cmd.tag pkt
  | .shareFile => if s.isUser con then s.shareFile con pkt else s
  | .reginfo => if s.isServer con then s.reginfo con cmd.tag pkt else s
  | .level => s.level con cmd.tag pkt env.random
  | .cloak => s.cloak con cmd.tag pkt
  | .muzzle | .unmuzzle => s.muzzle con cmd.tag pkt env.random
  | .notifyMods => s.remoteNotifyMods con cmd.tag pkt
  | .channelLevel => s.channelLevel con pkt
  | .channelLimit => s.channelLimit con cmd.tag pkt
  | .topic => s.topic con cmd.tag pkt
  | .nuke => s.nuke con cmd.tag pkt
  | .ban => s.ban con cmd.tag pkt
  | .alterPort => s.alterPort con cmd.tag pkt
  | .unban => s.unban con cmd.tag pkt
  | .alterSpeed => s.alterSpeed con cmd.tag pkt
  | .changeSpeed => s.changeSpeed con cmd.tag pkt
  | .changePass => s.changePass con cmd.tag pkt env.random
  | .changeDataPort => s.changeDataPort con cmd.tag pkt
  | .alterPass => s.alterPass con cmd.tag pkt env.random
  | .registerUser => s.registerUser con cmd.tag pkt env.random
  | .channelMode => s.channelMode con cmd.tag pkt
  | .channelVoice | .channelUnvoice => s.channelVoice con cmd.tag pkt
  | .channelMuzzle | .channelUnmuzzle => s.channelMuzzle con cmd.tag pkt
  | .addHotlist | .addHotlistSeq => if s.isUser con then s.addHotlist con pkt else s
  | .removeHotlist => if s.isUser con then s.removeHotlist con pkt else s
  | .publicMessage | .serverPublic => s.publicMessage con cmd.tag pkt
  | .channelBan => s.channelBan con cmd.tag pkt
  | .channelUnban => s.channelUnban con cmd.tag pkt
  | .emote => s.emote con cmd.tag pkt
  | .namesList => if s.isUser con then s.listUsers con pkt else s
  | .channelInvite => s.channelInvite con cmd.tag pkt

/-- The message of `handle_connection` that reports what a user shares, once the user sends a
command of another kind. -/
def reportSharing (s : Server) (con : ConId) (cmd : Command) : Server :=
  match (s.con con).user with
  | none => s
  | some user =>
    let u := s.user user
    let body := u.nick ++ str " " ++ showNat u.shared.toNat ++ str " " ++ showNat u.libsize.toNat
    if s.servers.isEmpty || !s.isUser con then s
    else if u.sharing then
      if cmd = .addFile ∨ cmd = .shareFile ∨ cmd = .addDirectory then s
      else
        (s.passMessageArgs (some con) msgServerUserSharing body).onCore
          (·.modUser user fun u => { u with sharing := false })
    else if u.unsharing then
      if cmd = .removeFile then s
      else
        (s.passMessageArgs (some con) msgServerUserSharing body).onCore
          (·.modUser user fun u => { u with unsharing := false })
    else s

/-- `handle_connection` for one packet: a connection must log in first. -/
def handlePacket (s : Server) (con : ConId) (cmd : Command) (pkt : Str) (env : Env) : Server :=
  if s.isUnknown con && cmd != .login && cmd != .loginRegister then
    s.refuse con msgServerError (str "invalid command")
  else (s.reportSharing con cmd).dispatch con cmd pkt env

/-- A connection marked for removal is not read from; only the rest of what was already read from a
server is still processed. -/
def reads (s : Core) (con : ConId) : Bool :=
  (s.con con).allocated && (s.isServer con || !(s.con con).destroy)

/-- One turn of the main loop. -/
def step (s : Server) : Event → Server
  | .accept ip host port localPort => s.onCore (·.accept ip host port localPort)
  | .link con =>
    if (s.con con).allocated && s.isUnknown con && !(s.con con).destroy then s.serverLoginAck con
    else s
  | .packet con cmd pkt env =>
    if reads s.toCore con then s.handlePacket con cmd pkt env else s
  | .drop con => if (s.con con).allocated then s.removeConnection con else s
  | .collect => s.onCore Core.fdbGarbageCollect
  | .expireBans => s.expireBans
  | .dumpState => s.onCore Core.userdbDump
  | .tick seconds => s.onCore fun s => { s with now := s.now + seconds }

/-- The server after a list of events. -/
abbrev run (s : Server) (events : List Event) : Server := Runs.run step s events

end Server

/-! ### The start -/

/-- A channel of the channels file. -/
structure LoadedChannel where
  name : Str
  limit : UInt16
  level : Level
  topic : Str
  ops : List Str

/-- What the server reads from its files when it starts. -/
structure Startup where
  cfg : Config
  channels : List LoadedChannel := []
  accounts : List UserDb := []
  bans : List Ban := []
  filter : List Str := []
  now : Int := 0

namespace Core

/-- The tables of `init_server` and `userdb_init`, without entries. -/
def empty (cfg : Config) (now : Int) : Core where
  cfg := cfg
  now := now
  users := Bucket.Table.empty byName UserId 521 pos_521
  channels := Bucket.Table.empty byName ChanId 257 pos_257
  hotlists := Bucket.Table.empty byName HotlistId 521 pos_521
  userDb := Bucket.Table.empty byName UserDbId 257 pos_257
  fileTable := Bucket.Table.empty byName FlistId 2053 pos_2053
  filter := Bucket.Table.empty byName Str 257 pos_257

/-- The part of `load_channels` that adds a channel. -/
def loadChannel (s : Core) (c : LoadedChannel) : Core :=
  let chan := s.next
  let s := s.alloc.modChan chan fun _ =>
    { name := c.name, topic := c.topic, limit := c.limit, level := c.level, ops := c.ops }
  { s with channels := s.channels.add c.name chan }

/-- The part of `userdb_init` that adds a record. -/
def loadAccount (s : Core) (r : UserDb) : Core :=
  let db := s.next
  let s := s.alloc.modDb db fun _ => r
  { s with userDb := s.userDb.add r.nick db }

/-- The part of `load_filter` that adds a word. -/
def loadFilter (s : Core) (word : Str) : Core := { s with filter := s.filter.add word word }

/-- `init_server`. -/
def start (f : Startup) : Core :=
  let s := f.accounts.foldl loadAccount { empty f.cfg f.now with bans := f.bans }
  f.filter.foldl loadFilter (f.channels.foldl loadChannel s)

/-- What was loaded are channels, records of users and words of the filter. -/
def Loaded (f : Startup) (s : Core) : Prop :=
  ∃ next channels chan userDb db filter, s =
    { empty f.cfg f.now with
      bans := f.bans, next := next, channels := channels, chan := chan, userDb := userDb, db := db
      filter := filter }

theorem loaded_start (f : Startup) : Loaded f (start f) := by
  have hEmpty : Loaded f { empty f.cfg f.now with bans := f.bans } := ⟨_, _, _, _, _, _, rfl⟩
  have hAccount (s : Core) (r : UserDb) (h : Loaded f s) : Loaded f (s.loadAccount r) := by
    obtain ⟨_, _, _, _, _, _, rfl⟩ := h
    exact ⟨_, _, _, _, _, _, rfl⟩
  have hChannel (s : Core) (c : LoadedChannel) (h : Loaded f s) : Loaded f (s.loadChannel c) := by
    obtain ⟨_, _, _, _, _, _, rfl⟩ := h
    exact ⟨_, _, _, _, _, _, rfl⟩
  have hFilter (s : Core) (word : Str) (h : Loaded f s) : Loaded f (s.loadFilter word) := by
    obtain ⟨_, _, _, _, _, _, rfl⟩ := h
    exact ⟨_, _, _, _, _, _, rfl⟩
  exact Runs.run_invariant hFilter
    (Runs.run_invariant hChannel (Runs.run_invariant hAccount hEmpty f.accounts) f.channels) f.filter

end Core

/-- The server when it starts. -/
def Server.start (f : Startup) : Server := { Core.start f with }

/-- The server after events, from its start. -/
def Server.reach (f : Startup) (events : List Event) : Server := (Server.start f).run events

end OpenNap
