import OpenNap.Settings

/-! Changes that a user makes to its own port, speed and password, and those that a privileged user
makes to another user or to an account. -/

namespace OpenNap

open CText

namespace Core

/-- The record that `register_user` makes. -/
def registerDb (s : Core) (nick password : Str) (level : Level) : Core :=
  let db := s.next
  let s := s.alloc.modDb db fun _ =>
    { nick := nick, password := password, level := level, timestamp := s.now, lastSeen := s.now }
  { s with userDb := s.userDb.add nick db }

/-- A password that is set in a record, at the present time. -/
def setPassword (s : Core) (db : UserDbId) (password : Str) : Core :=
  s.modDb db fun r => { r with password := password, timestamp := s.now }

/-- `hash_remove (User_Db, db->nick)`. -/
def removeDb (s : Core) (db : UserDbId) : Core :=
  { s with userDb := s.userDb.remove (s.db db).nick }

/-- Whether `dump_userdb` drops a record instead of writing it: those of privileged users stay. -/
def stale (s : Core) (r : UserDb) : Bool :=
  decide (s.cfg.nickExpire ≤ s.now - r.lastSeen) && decide (r.level < .moderator)

/-- What `userdb_dump` leaves in memory. -/
def userdbDump (s : Core) : Core :=
  s.userDb.values.foldl (fun s db => if s.stale (s.db db) then s.removeDb db else s) s

end Core

namespace Server

/-! ### A user's own settings -/

/-- A number that a user sets for itself, from 0 to `bound`: `[ :<user> ] <number>`.  A packet of a
peer without the number makes the source read through a null pointer, and is dropped here. -/
def changeNumber (s : Server) (con : ConId) (tag : Nat) (pkt : Str) (bound : Int)
    (set : Int → User → User) (invalid : Str) : Server :=
  match s.popUser con pkt with
  | some (user, some text) =>
    let n := atoi text
    if 0 ≤ n ∧ n ≤ bound then
      let s := s.onCore (·.modUser user (set n))
      s.passMessageArgs (some con) tag (str ":" ++ (s.user user).nick ++ str " " ++ showInt n)
    else s.sendIfUser con msgServerNosuch invalid
  | _ => s

/-- `change_data_port`: `[ :<user> ] <port>`. -/
def changeDataPort (s : Server) (con : ConId) (tag : Nat) (pkt : Str) : Server :=
  s.changeNumber con tag pkt 65535 (fun n u => { u with port := toUshort n }) (str "invalid data port")

/-- `change_speed`: `[ :<user> ] <speed>`. -/
def changeSpeed (s : Server) (con : ConId) (tag : Nat) (pkt : Str) : Server :=
  s.changeNumber con tag pkt 10 (fun n u => { u with speed := n.toNat }) (str "invalid speed")

/-- `change_pass`: `[ :<user> ] <password>`.  The stored password is salted with `random`. -/
def changePass (s : Server) (con : ConId) (tag : Nat) (pkt random : Str) : Server :=
  match s.popUser con pkt with
  | none => s
  | some (_, none) => s.unparsable con
  | some (_, some []) => s.unparsable con
  | some (user, some (c :: cs)) =>
    let nick := (s.user user).nick
    let s := s.passMessageArgs (some con) tag (str ":" ++ nick ++ str " " ++ c :: cs)
    match s.userDb.lookup nick with
    | none => s
    | some db =>
      let s := s.onCore (·.setPassword db (generatePass s.cfg.md5 random (c :: cs)))
      s.sendIfUser con msgServerNosuch (str "password changed")

/-! ### Other users -/

/-- `alter_port`: `[ :<sender> ] <user> <port> [ <reason> ]`. -/
def alterPort (s : Server) (con : ConId) (tag : Nat) (pkt : Str) : Server :=
  match s.popUser con pkt with
  | none => s
  | some (sender, rest) =>
    if (s.user sender).level < .moderator then s.permissionDenied con
    else
      match rest.map nextArg with
      | some (nick, some rest) =>
        let (port, reason) := nextArg rest
        match s.users.lookup nick with
        | none => s.nosuchuser con
        | some user =>
          let p := atoi port
          if p < 0 ∨ 65535 < p then
            s.sendIfUser con msgServerNosuch (showInt p ++ str " is an invalid port")
          else
            let by_ := (s.user sender).nick
            let u := s.user user
            let reason := (reason.map (truncateReason s.cfg)).getD []
            let s :=
              if (u.port.toNat : Int) = p then s
              else
                (s.notifyMods changelogMode
                  (by_ ++ str " changed " ++ u.nick ++ str "'s data port to " ++ showInt p ++
                    str ": " ++ reason)).onCore
                  (·.modUser user fun u => { u with port := toUshort p })
            let s := if u.isLocal then s.sendCmd u.con msgClientAlterPort (showInt p) else s
            s.passMessageArgs (some con) tag
              (str ":" ++ by_ ++ str " " ++ u.nick ++ str " " ++ showInt p)
      | _ => s.unparsable con

/-- `alter_speed`: `[ :<sender> ] <nick> <speed>`. -/
def alterSpeed (s : Server) (con : ConId) (tag : Nat) (pkt : Str) : Server :=
  match s.popUser con pkt with
  | none => s
  | some (sender, rest) =>
    match rest.bind (splitLine 2) with
    | some [nick, text] =>
      if (s.user sender).level < .moderator then s.permissionDenied con
      else
        let speed := atoi text
        if speed < 0 ∨ 10 < speed then s.sendIfUser con msgServerNosuch (str "Invalid speed")
        else
          match s.users.lookup nick with
          | none => s.nosuchuser con
          | some user =>
            let u := s.user user
            if (u.speed : Int) = speed then
              s.sendIfUser con msgServerNosuch
                (u.nick ++ str "'s speed is already " ++ showInt speed)
            else
              let by_ := (s.user sender).nick
              let s := s.onCore (·.modUser user fun u => { u with speed := speed.toNat })
              let s := s.passMessageArgs (some con) tag
                (str ":" ++ by_ ++ str " " ++ u.nick ++ str " " ++ showInt speed)
              s.notifyMods changelogMode
                (by_ ++ str " changed " ++ u.nick ++ str "'s speed to " ++ showInt speed ++ str ".")
    | _ => s.unparsable con

/-! ### Accounts -/

/-- `alter_pass`: `[ :<sender> ] <nick> <pass> "<reason>"`.  The stored password is salted with
`random`. -/
def alterPass (s : Server) (con : ConId) (tag : Nat) (pkt random : Str) : Server :=
  match s.popUser con pkt with
  | none => s
  | some (sender, rest) =>
    let u := s.user sender
    if u.level < .admin then s.permissionDenied con
    else
      match rest.bind (splitLine 3) with
      | some [nick, pass, reason] =>
        if invalidNick s.cfg nick then s.invalidNickMsg con
        else
          let reason := truncateReason s.cfg reason
          let s := s.passMessageArgs (some con) tag
            (str ":" ++ u.nick ++ str " " ++ nick ++ str " " ++ pass ++ str " \"" ++ reason ++ str "\"")
          let s :=
            match s.userDb.lookup nick with
            | some db => s.onCore (·.setPassword db (generatePass s.cfg.md5 random pass))
            | none => s
          s.notifyMods changelogMode
            (u.nick ++ str " changed " ++ nick ++ str "'s password: " ++ reason)
      | _ => s.unparsable con

/-- `nuke`: `[ :<sender> ] <user> [ <reason> ]`. -/
def nuke (s : Server) (con : ConId) (tag : Nat) (pkt : Str) : Server :=
  match s.popUser con pkt with
  | none => s
  | some (sender, rest) =>
    let u := s.user sender
    if u.level < .moderator then s.permissionDenied con
    else
      match rest.map nextArg with
      | none => s.unparsable con
      | some (nick, reason) =>
        if invalidNick s.cfg nick then s.invalidNickMsg con
        else
          let reason := (reason.map (truncateReason s.cfg)).getD []
          let s := s.passMessageArgs (some con) tag
            (str ":" ++ u.nick ++ str " " ++ nick ++ str " " ++ reason)
          let text := u.nick ++ str " nuked " ++ nick ++ str "'s account: " ++ reason
          match s.userDb.lookup nick with
          | some db =>
            if u.level < .elite ∧ u.level ≤ (s.db db).level then s.permissionDenied con
            else (s.onCore (·.removeDb db)).notifyMods changelogMode text
          | none => s.notifyMods changelogMode text

/-- The level that `register_user` reads, when one is given. -/
def registerLevel (text : Option Str) : Option Level :=
  match text with
  | none => some .user
  | some text => getLevel text

/-- `register_user`: `[ :<sender> ] <user> <pass> <email> [ <level> ]`.  The stored password is
salted with `random`. -/
def registerUser (s : Server) (con : ConId) (tag : Nat) (pkt random : Str) : Server :=
  match s.popUser con pkt with
  | none => s
  | some (sender, rest) =>
    let u := s.user sender
    if u.level < .admin then s.permissionDenied con
    else
      match rest.bind (splitLine 4) with
      | some (nick :: pass :: email :: more) =>
        if invalidNick s.cfg nick then s.invalidNickMsg con
        else
          match registerLevel more.head? with
          | none => s.sendIfUser con msgServerNosuch (str "Invalid level")
          | some level =>
            if more ≠ [] ∧ u.level < .elite ∧ u.level ≤ level then s.permissionDenied con
            else if (s.userDb.lookup nick).isSome then
              s.sendUser sender msgServerNosuch
                (str "[" ++ s.cfg.serverName ++ str "] " ++ nick ++ str " is already registered")
            else
              let s := s.passMessageArgs (some con) tag
                (str ":" ++ u.nick ++ str " " ++ nick ++ str " " ++ pass ++ str " " ++ email ++
                  str " " ++ more.head?.getD [])
              let s := s.onCore (·.registerDb nick (generatePass s.cfg.md5 random pass) level)
              s.notifyMods changelogMode
                (u.nick ++ str " registered nickname " ++ nick ++ str " (" ++ level.text ++ str ")")
      | _ => s.unparsable con

end Server

end OpenNap
