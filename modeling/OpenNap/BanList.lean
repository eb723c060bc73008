import OpenNap.Channel

/-! The list of bans: the commands that add and remove a ban, the timer that removes those that have
expired, and the file that keeps the list while the server is down. -/

namespace OpenNap

open CText

/-- `normalize_ban`, with a buffer of 256 bytes. -/
def normalizeBan (cfg : Config) (src : Str) : Str :=
  if src.contains '!' then src
  else if invalidNick cfg src then
    (str "*!" ++ src ++ if src.getLast? = some '.' then str "*" else []).take 255
  else (src ++ str "!*").take 255

namespace Core

/-- `Bans = list`, with the new ban in front. -/
def addBan (s : Core) (b : Ban) : Core := { s with bans := b :: s.bans }

/-- The first ban on a target is taken out. -/
def removeBan (s : Core) (target : Str) : Core :=
  { s with bans := s.bans.eraseP fun b => sameText target b.target }

/-- Whether `expire_bans` takes a ban out. -/
def expired (s : Core) (b : Ban) : Bool :=
  decide (0 < b.timeout) && decide (b.time + b.timeout < s.now)

/-- The bans that have expired are taken out. -/
def dropExpired (s : Core) : Core := { s with bans := s.bans.filter fun b => !s.expired b }

/-- The ban that a request makes: the fields are the target, a reason and a time. -/
def newBan (s : Core) (sender : Str) (fields : List Str) : Ban where
  target := normalizeBan s.cfg (fields.head?.getD [])
  setby := sender
  reason := (fields[1]?.map (truncateReason s.cfg)).getD []
  time := s.now
  timeout := (fields[2]?.map atoi).getD 0

end Core

namespace Server

/-- `ban`: `[ :<sender> ] <user!ip> [ "<reason>" [time] ]`. -/
def ban (s : Server) (con : ConId) (tag : Nat) (pkt : Str) : Server :=
  match s.popUserServer con pkt with
  | none => s
  | some (sender, senderUser, rest) =>
    if senderUser.any fun user => decide ((s.user user).level < .moderator) then
      s.permissionDenied con
    else
      match rest.bind (splitLine 3) with
      | some (target :: more) =>
        let b := s.newBan sender (target :: more)
        if b.timeout < 0 then s.sendIfUser con msgServerNosuch (str "invalid ban timeout")
        else if s.bans.any fun other => sameText b.target other.target then
          s.sendIfUser con msgServerNosuch (str "already banned")
        else
          let s := s.passMessageArgs (some con) tag
            (str ":" ++ sender ++ str " " ++ target ++ str " \"" ++ b.reason ++ str "\" " ++
              showInt b.timeout)
          let s := s.onCore (·.addBan b)
          let length :=
            if 0 < b.timeout then str " for " ++ more[1]?.getD [] ++ str " seconds" else []
          s.notifyMods banlogMode
            (sender ++ str " banned " ++ b.target ++ length ++ str ": " ++ b.reason)
      | _ => s.unparsable con

/-- `unban`: `[ :<sender> ] <nick!ip> [ "<reason>" ]`. -/
def unban (s : Server) (con : ConId) (tag : Nat) (pkt : Str) : Server :=
  match s.popUser con pkt with
  | none => s
  | some (user, rest) =>
    match rest.bind (splitLine 2) with
    | some (target :: more) =>
      let u := s.user user
      if u.level < .moderator then s.permissionDenied con
      else
        let target := normalizeBan s.cfg target
        let reason := (more.head?.map (truncateReason s.cfg)).getD []
        match s.bans.find? fun b => sameText target b.target with
        | none => s.sendIfUser con msgServerNosuch (str "no such ban")
        | some b =>
          let s := s.onCore (·.removeBan target)
          let s := s.notifyMods banlogMode
            (u.nick ++ str " removed ban on " ++ b.target ++ str ": " ++ reason)
          s.passMessageArgs (some con) tag
            (str ":" ++ u.nick ++ str " " ++ b.target ++ str " \"" ++ reason ++ str "\"")
    | _ => s.unparsable con

/-- The messages about a ban that has expired. -/
def tellExpired (s : Server) (b : Ban) : Server :=
  let text := str "expired after " ++ showInt b.timeout ++ str " seconds"
  let me := s.cfg.serverName
  let s := s.passMessageArgs none msgClientUnban
    (str ":" ++ me ++ str " " ++ b.target ++ str " \"" ++ text ++ str "\"")
  s.notifyMods banlogMode (me ++ str " removed ban on " ++ b.target ++ str ": " ++ text)

/-- `expire_bans`. -/
def expireBans (s : Server) : Server :=
  ((s.bans.filter s.expired).foldl tellExpired s).onCore (·.dropExpired)

end Server

/-! ### The file of bans -/

/-- What repeated calls of `fgets` with room for so many characters read: the texts up to a line
break or as long as the room.  `acc` is what the present call has read. -/
def fgetsLoop (room : Nat) : Str → Str → List Str
  | acc, [] => if acc = [] then [] else [acc]
  | acc, c :: cs =>
    if c = '\n' ∨ room ≤ acc.length + 1 then (acc ++ [c]) :: fgetsLoop room [] cs
    else fgetsLoop room (acc ++ [c]) cs

/-- The texts that `while (fgets (Buf, size, fp))` goes through. -/
def fgetsLines (size : Nat) (text : Str) : List Str := fgetsLoop (size - 1) [] text

/-- A line that `save_bans` writes.  The time is printed as an `int`. -/
def banLine (b : Ban) : Str :=
  b.target ++ str " " ++ b.setby ++ str " " ++ showInt (toInt32 b.time) ++ str " \"" ++ b.reason ++
    str "\" " ++ showInt b.timeout ++ str "\n"

/-- `save_bans`. -/
def saveBans (bans : List Ban) : Str := bans.flatMap banLine

/-- The ban that `load_bans` makes of the fields of a line. -/
def loadBan (cfg : Config) (now : Int) : List Str → Option Ban
  | [] => none
  | target :: setby :: time :: reason :: more =>
    some
      { target := normalizeBan cfg target
        setby := setby
        reason := truncateReason cfg reason
        time := (strtol time).1
        timeout := (more.head?.map atoi).getD 0 }
  | target :: _ =>
    some
      { target := normalizeBan cfg target
        setby := cfg.serverName
        reason := []
        time := now
        timeout := 0 }

/-- `load_bans` with an empty list of bans; `Buf` has 2048 bytes. -/
def loadBans (cfg : Config) (now : Int) (text : Str) : List Ban :=
  (fgetsLines 2047 text).filterMap fun l => (splitLine 5 l).bind (loadBan cfg now)

end OpenNap
