import OpenNap.Login

/-! What servers tell each other about settings that each of them stores: the records of registered
users, their levels, whether they are cloaked or muzzled, and the level and the limit of a channel.
A message may carry the time at which its sender's value was set. -/

namespace OpenNap

open CText

/-- `get_level`. -/
def getLevel (s : Str) : Option Level :=
  if samePrefix 3 (str "lee") s then some .leech
  else if samePrefix 3 (str "use") s then some .user
  else if samePrefix 3 (str "mod") s then some .moderator
  else if samePrefix 3 (str "eli") s then some .elite
  else if samePrefix 3 (str "adm") s then some .admin
  else none

theorem getLevel_text (l : Level) : getLevel l.text = some l := by
  cases l <;> decide

theorem word_level (l : Level) : Word l.text := by
  cases l <;> decide

namespace Core

/-- The record that `create_db` makes of a user who is on line; `random` is the salt. -/
def createDb (s : Core) (user : UserId) (random : Str) : Core :=
  let u := s.user user
  let db := s.next
  let s := s.alloc.modDb db fun _ =>
    { nick := u.nick, password := generatePass s.cfg.md5 random u.pass, level := u.level
      timestamp := s.now, lastSeen := s.now }
  { s with userDb := s.userDb.add u.nick db }

/-- The empty record that `reginfo` makes. -/
def newRecord (s : Core) (nick : Str) : Core :=
  let db := s.next
  let s := s.alloc.modDb db fun _ => { nick := nick }
  { s with userDb := s.userDb.add nick db }

/-- A level that is set in a record. -/
def setDbLevel (s : Core) (db : UserDbId) (level : Level) : Core :=
  s.modDb db fun r =>
    { r with
      level := level
      timestamp := s.now
      cloaked := r.cloaked && decide (Level.moderator ≤ level) }

/-- The time that a peer gave becomes that of the record. -/
def setStamp (s : Core) (db : UserDbId) : Option Int → Core
  | some ts => s.modDb db fun r => { r with timestamp := ts }
  | none => s

end Core

namespace Server

/-! ### Records of registered users -/

/-- The rest of `reginfo` once there is a record to write to. -/
def storeReginfo (s : Server) (con : ConId) (tag : Nat) (db : UserDbId) (server nick pass email level
    timestamp lastSeen : Str) : Server :=
  let level := (getLevel level).getD .user
  let s := s.passMessageArgs (some con) tag
    (str ":" ++ server ++ str " " ++ nick ++ str " " ++ pass ++ str " " ++ email ++ str " " ++
      level.text ++ str " " ++ timestamp ++ str " " ++ lastSeen)
  s.onCore (·.modDb db fun r =>
    { r with
      password := pass
      level := level
      timestamp := (strtol timestamp).1
      lastSeen := (strtol lastSeen).1 })

/-- What `reginfo` looks the record up under: what the packet holds up to the end of the first
field, with the quote that may open it. -/
def reginfoKey (rest nick : Str) : Str := if rest.head? = some '"' then '"' :: nick else nick

/-- `reginfo`: `:<server> <nick> <password> <email> <level> <timestamp> <lastseen>`. -/
def reginfo (s : Server) (con : ConId) (tag : Nat) (pkt : Str) : Server :=
  match pkt with
  | ':' :: rest =>
    match nextArg rest with
    | (_, none) => s
    | (server, some rest) =>
      match splitLine 6 rest with
      | some [nick, pass, email, level, timestamp, lastSeen] =>
        match s.userDb.lookup (reginfoKey rest nick) with
        | some db =>
          if (s.db db).timestamp < (strtol timestamp).1 then s.syncReginfo db
          else s.storeReginfo con tag db server nick pass email level timestamp lastSeen
        | none =>
          if invalidNick s.cfg nick then s
          else
            let db := s.next
            (s.onCore (·.newRecord nick)).storeReginfo con tag db server nick pass email level
              timestamp lastSeen
      | _ => s
  | _ => s

/-! ### The level of a user -/

/-- A user who is no longer a moderator cannot stay cloaked. -/
def dropCloak (s : Server) (user : UserId) (level : Level) : Server :=
  if level < .moderator ∧ (s.user user).cloaked = true then
    let s := s.onCore (·.modUser user fun u => { u with cloaked := false })
    let s := s.notifyMods changelogMode ((s.user user).nick ++ str " has decloaked")
    s.sendIfUser (s.user user).con msgServerNosuch (str "You are no longer cloaked.")
  else s

/-- The end of `level`: the record is changed, then the user when on line. -/
def changeLevel (s : Server) (con : ConId) (tag : Nat) (sender : Str) (senderUser : Option UserId)
    (db : UserDbId) (user : Option UserId) (level : Level) : Server :=
  let s := s.onCore (·.setDbLevel db level)
  let nick := (s.db db).nick
  let s := s.passMessageArgs (some con) tag
    (str ":" ++ sender ++ str " " ++ nick ++ str " " ++ level.text)
  let change := str " user level to " ++ level.text ++ str " (" ++ showNat level.rank ++ str ")"
  let s := s.notifyMods levellogMode (sender ++ str " changed " ++ nick ++ str "'s" ++ change)
  match user with
  | none => s
  | some user =>
    let cloakedSender := senderUser.any fun su => (s.user su).cloaked
    let who := if cloakedSender && decide (level < .moderator) then str "Operator" else sender
    let s := s.sendIfUser (s.user user).con msgServerNosuch (who ++ str " changed your" ++ change)
    let s := s.onCore (·.modUser user fun u => { u with level := level })
    s.dropCloak user level

/-- The time in a message, which only a peer gives. -/
def peerStamp (s : Core) (con : ConId) (stamp : Option Str) : Option Int :=
  if s.isServer con then stamp.map atoi else none

/-- The part of `level` that looks at the time a peer gave and at what the sender may do. -/
def stampLevel (s : Server) (con : ConId) (tag : Nat) (sender : Str) (senderUser : Option UserId)
    (stamp : Option Str) (db : UserDbId) (user : Option UserId) (level : Level) : Server :=
  let stamp := peerStamp s.toCore con stamp
  if stamp.any fun ts => decide ((s.db db).timestamp < ts) then
    let r := s.db db
    s.sendCmd con msgClientSetUserLevel
      (str ":" ++ s.cfg.serverName ++ str " " ++ r.nick ++ str " " ++ r.level.text ++ str " " ++
        showNat (toUint r.timestamp).toNat)
  else
    let s := s.onCore (·.setStamp db stamp)
    let denied := senderUser.any fun su =>
      some su != user && decide ((s.user su).level < .elite) &&
        decide ((s.user su).level ≤ (s.db db).level)
    if denied then s.permissionDenied con
    else s.changeLevel con tag sender senderUser db user level

/-- `level`: `[ :<nick> ] <user> <level> [timestamp]`.  A user who is on line without a record gets
one, whose password is salted with `random`. -/
def level (s : Server) (con : ConId) (tag : Nat) (pkt random : Str) : Server :=
  match s.popUserServer con pkt with
  | none => s
  | some (sender, senderUser, rest) =>
    match rest.bind (splitLine 3) with
    | some (nick :: newLevel :: more) =>
      match getLevel newLevel with
      | none => s.sendIfUser con msgServerNosuch (str "invalid level")
      | some newLevel =>
        let tooHigh := (s.con con).user.any fun u =>
          s.isUser con && decide ((s.user u).level < .elite) && decide ((s.user u).level ≤ newLevel)
        if tooHigh then s.permissionDenied con
        else
          let user := s.users.lookup nick
          match s.userDb.lookup nick with
          | some db =>
            if (s.db db).level = newLevel then s
            else if user.any fun u => (s.user u).level == newLevel then s
            else s.stampLevel con tag sender senderUser more.head? db user newLevel
          | none =>
            match user with
            | none => s.sendIfUser con msgServerNosuch (str "user is is not registered")
            | some u =>
              if (s.user u).level = newLevel then s
              else
                let db := s.next
                (s.onCore (·.createDb u random)).stampLevel con tag sender senderUser more.head? db
                  user newLevel
    | _ => s.unparsable con

/-! ### Cloaked and muzzled users -/

/-- `cloak`: `[ :<sender> [1] ]`.  From a peer the 1 says that the user is cloaked, and otherwise
the state is toggled. -/
def cloak (s : Server) (con : ConId) (tag : Nat) (pkt : Str) : Server :=
  match s.popUser con pkt with
  | none => s
  | some (user, rest) =>
    if (s.user user).level < .moderator then s.permissionDenied con
    else if s.isServer con && (rest.any fun text => atoi text == 1) && (s.user user).cloaked then s
    else
      let s := s.onCore (·.modUser user fun u => { u with cloaked := !u.cloaked })
      let u := s.user user
      match s.userDb.lookup u.nick with
      | none => s
      | some db =>
        let s := s.onCore fun s =>
          s.modDb db fun r => { r with cloaked := u.cloaked, timestamp := s.now }
        let s := s.passMessageArgs (some con) tag (str ":" ++ u.nick)
        let s := s.notifyMods cloaklogMode
          (u.nick ++ str " has " ++ (if u.cloaked then [] else str "de") ++ str "cloaked")
        s.sendIfUser con msgServerNosuch
          (str "You are " ++ (if u.cloaked then str "now" else str "no longer") ++ str " cloaked.")

/-- The user on line and the record are marked as muzzled, or as not muzzled. -/
def markMuzzled (s : Server) (user : Option UserId) (db : UserDbId) (value : Bool) : Server :=
  s.onCore fun s =>
    (match user with
      | some user => s.modUser user fun u => { u with muzzled := value }
      | none => s).modDb db fun r => { r with muzzled := value }

/-- The end of `muzzle`: the peers, the user and the moderators are told. -/
def tellMuzzled (s : Server) (con : ConId) (tag : Nat) (sender : Str) (senderUser user : Option UserId)
    (nick reason : Str) : Server :=
  let un := if tag = msgClientMuzzle then [] else str "un"
  let hidden := senderUser.any fun su => (s.user su).cloaked
  let s := s.passMessageArgs (some con) tag
    (str ":" ++ sender ++ str " " ++ nick ++ str " \"" ++ reason ++ str "\"")
  let s :=
    match user with
    | some user =>
      s.sendIfUser (s.user user).con msgServerNosuch
        (str "You have been " ++ un ++ str "muzzled" ++ (if hidden then [] else str " by ") ++
          (if hidden then [] else sender) ++ str ": " ++ reason)
    | none => s
  s.notifyMods muzzlelogMode
    (sender ++ str " has " ++ un ++ str "muzzled " ++ nick ++ str ": " ++ reason)

/-- `muzzle`: `[ :<sender> ] <user> [ "<reason>" ]`.  A user who is on line without a record gets
one, whose password is salted with `random`. -/
def muzzle (s : Server) (con : ConId) (tag : Nat) (pkt random : Str) : Server :=
  match s.popUserServer con pkt with
  | none => s
  | some (sender, senderUser, rest) =>
    match rest.bind (splitLine 2) with
    | some (nick :: more) =>
      let user := s.users.lookup nick
      let record := s.userDb.lookup nick
      let denied := senderUser.any fun su =>
        let level := (s.user su).level
        decide (level < .elite) && ((user.any fun u => decide (level ≤ (s.user u).level)) ||
          record.any fun db => decide (level ≤ (s.db db).level))
      if denied then s.permissionDenied con
      else if record.isNone && user.isNone then s.nosuchuser con
      else
        let reason := (more.head?.map (truncateReason s.cfg)).getD []
        if tag = msgClientMuzzle then
          let db := record.getD s.next
          let s :=
            match record, user with
            | none, some user => s.onCore (·.createDb user random)
            | _, _ => s
          if (user.any fun u => (s.user u).muzzled) || (s.db db).muzzled then
            s.sendIfUser con msgServerNosuch (str "user is already muzzled")
          else (s.markMuzzled user db true).tellMuzzled con tag sender senderUser user nick reason
        else
          match record with
          | none => s.sendIfUser con msgServerNosuch (str "user is not muzzled")
          | some db =>
            if (user.any fun u => !(s.user u).muzzled) || !(s.db db).muzzled then
              s.sendIfUser con msgServerNosuch (str "user is not muzzled")
            else (s.markMuzzled user db false).tellMuzzled con tag sender senderUser user nick reason
    | _ => s.unparsable con

/-! ### Notices of other servers -/

/-- `remote_notify_mods`: `:<server> <loglevel> "<message>"`.  Of an empty first field the source
reads past the end. -/
def remoteNotifyMods (s : Server) (con : ConId) (tag : Nat) (pkt : Str) : Server :=
  match splitLine 3 pkt with
  | some [server, level, text] =>
    let level := atoi level
    let s := s.notifyMods (toUint level).toNat (str "[" ++ server.drop 1 ++ str "] " ++ text)
    s.passMessageArgs (some con) tag
      (str ":" ++ server.drop 1 ++ str " " ++ showInt level ++ str " \"" ++ text ++ str "\"")
  | _ => s

/-! ### The level and the limit of a channel -/

/-- The name of the sender of a message about a channel, and the text after it. -/
def channelSender (s : Core) (con : ConId) (pkt : Str) : Option (Str × Option Str) :=
  if s.isServer con then
    match pkt with
    | ':' :: rest => some (nextArg rest)
    | _ => none
  else (s.con con).user.map fun user => ((s.user user).nick, some pkt)

/-- `channel_level`: `[ :<sender> ] <channel> [level] [timestamp]`.  The size of the template is
taken in bytes, so that more than three fields are stored past its end; the fields that are read
are the first three.  A packet without fields after the sender, or with a quote that is not closed,
makes the source read memory that was never set, and is dropped here. -/
def channelLevel (s : Server) (con : ConId) (pkt : Str) : Server :=
  match channelSender s.toCore con pkt with
  | none => s
  | some (sender, rest) =>
    match rest.bind (splitLine 24) with
    | none => s
    | some [] => s.unparsable con
    | some (name :: more) =>
      match s.channels.lookup name with
      | none => s.nosuchchannel con
      | some chan =>
        let c := s.chan chan
        match more with
        | [] =>
          s.sendIfUser con msgServerNosuch
            (str "channel " ++ c.name ++ str " is set to level " ++ c.level.text)
        | newLevel :: more =>
          match getLevel newLevel with
          | none => s.sendIfUser con msgServerNosuch (str "invalid level")
          | some newLevel =>
            if c.level = newLevel then s
            else
              let denied := (s.con con).user.any fun user =>
                let level := (s.user user).level
                s.isUser con && (decide (level < c.level) || decide (level < newLevel) ||
                  (decide (level < .moderator) && !s.isChanop chan user))
              if denied then s.permissionDenied con
              else if s.isServer con && (more.head?.any fun ts => decide (c.timestamp < atoi ts)) then s
              else
                let s := s.passMessageArgs (some con) msgClientSetChanLevel
                  (str ":" ++ sender ++ str " " ++ c.name ++ str " " ++ newLevel.text)
                let s := s.onCore (·.modChan chan fun c => { c with level := newLevel })
                s.notifyOps chan
                  (sender ++ str " set channel " ++ c.name ++ str " to level " ++ newLevel.text)

/-- `channel_limit`: `[ :<sender> ] <channel> <limit> [timestamp]`. -/
def channelLimit (s : Server) (con : ConId) (tag : Nat) (pkt : Str) : Server :=
  match channelSender s.toCore con pkt with
  | none => s
  | some (_, none) => s.unparsable con
  | some (sender, some rest) =>
    match nextArg rest with
    | (_, none) => s.unparsable con
    | (name, some rest) =>
      let (text, stamp) := nextArg rest
      let limit := atoi text
      if limit < 0 ∨ 65535 < limit then s.sendIfUser con msgServerNosuch (str "invalid limit")
      else
        match s.channels.lookup name with
        | none => s.nosuchchannel con
        | some chan =>
          let c := s.chan chan
          if (c.limit.toNat : Int) = limit then s
          else
            let denied := (s.con con).user.any fun user =>
              s.isUser con && decide ((s.user user).level < .moderator) && !s.isChanop chan user
            if denied then s.permissionDenied con
            else if !s.isUser con && (stamp.any fun ts => decide (c.timestamp < atoi ts)) then s
            else
              let s := s.onCore fun s =>
                s.modChan chan fun c => { c with limit := toUshort limit, timestamp := s.now }
              let s := s.passMessageArgs (some con) tag
                (str ":" ++ sender ++ str " " ++ c.name ++ str " " ++ showInt limit)
              s.notifyOps chan
                (sender ++ str " set limit on channel " ++ c.name ++ str " to " ++ showInt limit)

end Server

end OpenNap
