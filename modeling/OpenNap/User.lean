import OpenNap.Channel
import OpenNap.Files

/-! The ways in which a user goes: `free_user`, `remove_user` for a local one, and the commands that
kill a user or report that one has quit. -/

namespace OpenNap

open CText

namespace Core

/-- The user leaves every channel. -/
def partChannels (s : Core) (user : UserId) : Core :=
  (s.user user).channels.foldl (fun s chan => s.partChannel chan user) s

/-- The channels the user was invited to forget the invitation. -/
def dropInvitations (s : Core) (user : UserId) : Core :=
  (s.user user).invited.foldl
    (fun s chan => s.modChan chan fun c => { c with invited := c.invited.erase user }) s

/-- The counters without the files of a user. -/
def uncountUser (s : Core) (user : UserId) : Core :=
  let u := s.user user
  { s with
    numFiles := toInt32 (s.numFiles - u.shared.toNat)
    numGigs := s.numGigs - u.libsize.toNat
    localFiles :=
      if s.isUser u.con then toInt32 (s.localFiles - u.shared.toNat) else s.localFiles }

/-- The time of the user's departure in the user's record. -/
def recordLogoff (s : Core) (nick : Str) : Core :=
  match s.userDb.lookup nick with
  | some db => s.modDb db fun r => { r with lastSeen := s.now }
  | none => s

/-- What `free_user` does besides sending messages. -/
def freeUser (s : Core) (user : UserId) : Core :=
  (((s.partChannels user).dropInvitations user).uncountUser user).recordLogoff (s.user user).nick

/-- What `hash_remove (Users, nick)` does besides sending messages. -/
def hashRemoveUser (s : Core) (nick : Str) : Core :=
  match s.users.lookup nick with
  | none => s
  | some user =>
    let s := s.freeUser user
    { s with users := s.users.remove nick }

/-- A connection leaves the list of those waiting for a user; the last one takes the list along. -/
def leaveHotlist (s : Core) (con : ConId) (hot : HotlistId) : Core :=
  let s := s.modHot hot fun h => { h with users := h.users.erase con }
  if (s.hot hot).users.isEmpty then { s with hotlists := s.hotlists.remove (s.hot hot).nick } else s

/-- The part of `remove_user` that frees the options of the connection. -/
def freeOptions (s : Core) (con : ConId) : Core :=
  let s := ((s.con con).uopt.elim [] (·.hotlist)).foldl (fun s hot => s.leaveHotlist con hot) s
  (s.freeFiles con).modCon con fun c => { c with uopt := none }

/-- What `remove_user` does besides sending messages. -/
def removeUser (s : Core) (con : ConId) : Core :=
  match (s.con con).user with
  | none => s
  | some user => (s.hashRemoveUser (s.user user).nick).freeOptions con

/-- What `zap_local_user` does besides sending messages. -/
def zapLocalUser (s : Core) (con : ConId) : Core :=
  let s := s.modCon con fun c => { c with killed := true }
  (s.removeUser con).modCon con fun c =>
    { c with cls := .unknown, uopt := none, user := none, destroy := true }

end Core

namespace Server

/-- The QUIT message for the peers when a local user goes without having been killed. -/
def sayQuit (s : Server) (user : UserId) : Server :=
  let con := (s.user user).con
  if s.isUser con && !s.servers.isEmpty && !(s.con con).killed then
    s.passMessageArgs (some con) msgClientQuit (s.user user).nick
  else s

/-- Tell those waiting for a user, by way of the hotlist, with a message. -/
def tellHotlist (s : Server) (nick : Str) (tag : Nat) (body : Str) : Server :=
  match s.hotlists.lookup nick with
  | some hot => (s.hot hot).users.foldl (fun s con => s.sendCmd con tag body) s
  | none => s

/-- The user leaves every channel. -/
def partChannels (s : Server) (user : UserId) : Server :=
  (s.user user).channels.foldl (fun s chan => s.partChannel chan user) s

/-- `free_user`. -/
def freeUser (s : Server) (user : UserId) : Server :=
  let nick := (s.user user).nick
  let s := (s.sayQuit user).partChannels user
  let s := s.onCore fun s => (s.dropInvitations user).uncountUser user
  (s.tellHotlist nick msgServerUserSignoff nick).onCore (·.recordLogoff nick)

/-- `hash_remove (Users, nick)`. -/
def hashRemoveUser (s : Server) (nick : Str) : Server :=
  match s.users.lookup nick with
  | none => s
  | some user => (s.freeUser user).onCore fun s => { s with users := s.users.remove nick }

/-- `remove_user`. -/
def removeUser (s : Server) (con : ConId) : Server :=
  match (s.con con).user with
  | none => s
  | some user => (s.hashRemoveUser (s.user user).nick).onCore (·.freeOptions con)

/-- `kill_client`. -/
def killClient (s : Server) (nick reason : Str) : Server :=
  let reason := reason.take 1023
  let s := s.passMessageArgs none msgClientKill
    (str ":" ++ s.cfg.serverName ++ str " " ++ nick ++ str " \"" ++ reason ++ str "\"")
  s.notifyMods killlogMode (s.cfg.serverName ++ str " killed " ++ nick ++ str ": " ++ reason)

/-- `zap_local_user`. -/
def zapLocalUser (s : Server) (con : ConId) (reason : Str) : Server :=
  let s := s.sendCmd con msgServerNosuch
    (str "You were killed by " ++ s.cfg.serverName ++ str ": " ++ reason)
  let s := s.sendCmd con msgServerDisconnecting (str "0")
  let s := s.onCore (·.modCon con fun c => { c with killed := true })
  (s.removeUser con).onCore (·.modCon con fun c =>
    { c with cls := .unknown, uopt := none, user := none, destroy := true })

/-- Mark a connection for removal because its user was killed. -/
def markKilled (s : Server) (con : ConId) : Server :=
  s.onCore (·.modCon con fun c => { c with destroy := true, killed := true })

/-- The killer named in front of a kill: the nick, the user when it is not a server, and the
arguments. -/
def killerOf (s : Core) (con : ConId) (pkt : Str) : Option (Str × Option UserId × Str) :=
  if s.isUser con then (s.con con).user.map fun user => ((s.user user).nick, some user, pkt)
  else
    match pkt with
    | ':' :: rest =>
      match nextArg rest with
      | (_, none) => none
      | (nick, some rest) =>
        if s.isServerName nick then some (nick, none, rest)
        else (s.users.lookup nick).map fun user => (nick, some user, rest)
    | _ => none

/-- `kill_user`: `[ :<nick> ] <user> [ "<reason>" ]`. -/
def killUser (s : Server) (con : ConId) (pkt : Str) : Server :=
  match killerOf s.toCore con pkt with
  | none => s
  | some (killernick, killer, rest) =>
    match splitLine 2 rest with
    | some (nick :: more) =>
      match s.users.lookup nick with
      | none => s.nosuchuser con
      | some user =>
        let u := s.user user
        if killer.any fun k =>
            decide ((s.user k).level ≤ u.level) && (s.user k).level != .elite then
          s.permissionDenied con
        else
          let reason := (more.head?.map (truncateReason s.cfg)).getD []
          let hidden := killer.any fun k => (s.user k).cloaked
          let s := s.passMessageArgs (some con) msgClientKill
            (str ":" ++ killernick ++ str " " ++ u.nick ++ str " \"" ++ reason ++ str "\"")
          let s := s.notifyMods killlogMode
            (killernick ++ str " killed " ++ u.nick ++ str ": " ++ reason)
          if s.isUser u.con then
            let s := s.markKilled u.con
            let s := s.sendCmd u.con msgServerNosuch
              (str "You have been killed" ++ (if hidden then [] else str " by ") ++
                (if hidden then [] else killernick) ++ str ": " ++ reason)
            s.sendCmd u.con msgServerDisconnecting (str "0")
          else s.hashRemoveUser u.nick
    | _ => s.unparsable con

/-- `client_quit`: `<user>`. -/
def clientQuit (s : Server) (con : ConId) (tag : Nat) (pkt : Str) : Server :=
  match s.users.lookup pkt with
  | none => s
  | some user =>
    if (s.user user).isLocal then s
    else
      let s := s.passMessageArgs (some con) tag (s.user user).nick
      s.hashRemoveUser (s.user user).nick

/-! ### Messages aside, these are the operations on the data -/

@[simp] theorem toCore_sayQuit (s : Server) (user : UserId) :
    (s.sayQuit user).toCore = s.toCore := by
  simp only [sayQuit]
  split <;> simp

@[simp] theorem toCore_tellHotlist (s : Server) (nick : Str) (tag : Nat) (body : Str) :
    (s.tellHotlist nick tag body).toCore = s.toCore := by
  simp only [tellHotlist]
  split
  · exact toCore_foldl (fun s con => toCore_sendCmd s con tag body) _ s
  · rfl

@[simp] theorem toCore_partChannels (s : Server) (user : UserId) :
    (s.partChannels user).toCore = s.toCore.partChannels user := by
  have hWalk : ∀ (l : List ChanId) (t : Server),
      (l.foldl (fun s chan => s.partChannel chan user) t).toCore =
        l.foldl (fun s chan => s.partChannel chan user) t.toCore := by
    intro l
    induction l with
    | nil => intro t; rfl
    | cons chan l ih => intro t; rw [List.foldl_cons, List.foldl_cons, ih, toCore_partChannel]
  exact hWalk _ s

@[simp] theorem toCore_freeUser (s : Server) (user : UserId) :
    (s.freeUser user).toCore = s.toCore.freeUser user := by
  simp [freeUser, Core.freeUser]

@[simp] theorem toCore_hashRemoveUser (s : Server) (nick : Str) :
    (s.hashRemoveUser nick).toCore = s.toCore.hashRemoveUser nick := by
  simp only [hashRemoveUser, Core.hashRemoveUser]
  split <;> simp

@[simp] theorem toCore_removeUser (s : Server) (con : ConId) :
    (s.removeUser con).toCore = s.toCore.removeUser con := by
  simp only [removeUser, Core.removeUser]
  split <;> simp

@[simp] theorem toCore_killClient (s : Server) (nick reason : Str) :
    (s.killClient nick reason).toCore = s.toCore := by
  simp [killClient]

@[simp] theorem toCore_zapLocalUser (s : Server) (con : ConId) (reason : Str) :
    (s.zapLocalUser con reason).toCore = s.toCore.zapLocalUser con := by
  simp [zapLocalUser, Core.zapLocalUser]

@[simp] theorem toCore_markKilled (s : Server) (con : ConId) :
    (s.markKilled con).toCore =
      s.toCore.modCon con fun c => { c with destroy := true, killed := true } := rfl

end Server

end OpenNap
