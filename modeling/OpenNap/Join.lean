import OpenNap.Channel

/-! Joining a channel, and the commands on a channel's operators and registration. -/

namespace OpenNap

open CText

/-- The `ISDIGIT` of join.c, which takes every byte from 0 to `'9'`. -/
def joinDigit (c : Char) : Bool := decide (c.toNat ≤ 57)

/-- The name tried after `name` when that channel is full.  The room for the number is computed
from the length of the text in the global buffer `Buf`; a text of more than 256 bytes there makes
it wrap around to no limit at all. -/
def rollover (bufLen : Nat) (name : Str) : Str :=
  let chanbuf := name.take 255
  let base := (chanbuf.reverse.dropWhile joinDigit).reverse
  let number := showInt (toInt32 (atoi (chanbuf.drop base.length) + 1))
  base ++ if bufLen ≤ 256 then number.take (256 - bufLen - 1) else number

/-- How a pass through the loop of `join` ends. -/
inductive JoinStep
  /-- the request is refused -/
  | stop (s : Server)
  /-- the user is let into the channel, as an operator or not -/
  | found (s : Server) (chan : ChanId) (chanop : Bool)
  /-- the channel is full and another name is tried -/
  | again (name : Str)

namespace Server

/-- One pass through the loop of `join`. -/
def joinTry (s : Server) (con : ConId) (user : UserId) (bufLen : Nat) (name : Str) : JoinStep :=
  let u := s.user user
  match s.channels.lookup name with
  | none =>
    if s.cfg.strictChannels && decide (u.level < .moderator) then .stop (s.permissionDenied con)
    else if invalidChannel s.cfg name then .stop (s.invalidChannelMsg con)
    else .found (s.onCore (·.newChannel name)) s.next false
  | some chan =>
    let c := s.chan chan
    if u.channels.contains chan then
      .stop (s.sendIfUser con msgServerNosuch (str "channel join failed: already joined channel"))
    else if u.level < c.level then
      .stop (s.sendIfUser con msgServerNosuch
        (str "channel join failed: requires level " ++ c.level.text))
    else
      let chanop := c.ops.any (sameText u.nick)
      if !chanop && decide (u.level < .moderator) then
        match isBanned c.bans u.nick (myNtoa u.ip) with
        | some ban =>
          .stop (s.sendIfUser u.con msgServerNosuch
            (str "channel join failed: banned: " ++ ban.reason))
        | none =>
          if c.onInvite && !u.invited.contains chan then
            .stop (s.sendIfUser con msgServerNosuch (str "channel join failed: invite only"))
          else if decide (0 < c.limit) && decide (c.limit.toNat ≤ c.users.length) then
            if c.onUser then
              .stop (s.sendIfUser con msgServerNosuch (str "channel join failed: channel full"))
            else .again (rollover bufLen name)
          else .found s chan chanop
      else .found s chan chanop

/-- The loop of `join`, cut off after `fuel` passes. -/
def joinLoop (s : Server) (con : ConId) (user : UserId) (bufLen : Nat) : Nat → Str → JoinStep
  | 0, name => .again name
  | fuel + 1, name =>
    match s.joinTry con user bufLen name with
    | .again next => s.joinLoop con user bufLen fuel next
    | .stop t => .stop t
    | .found t chan chanop => .found t chan chanop

/-- The acknowledgement and the list of members for a local user who joins. -/
def sendMembers (s : Server) (con : ConId) (user : UserId) (chan : ChanId) : Server :=
  if s.isUser con then
    (s.chan chan).users.foldl (fun s member =>
      if !(s.user member.user).cloaked || decide (Level.moderator ≤ (s.user user).level) then
        s.sendCmd con msgServerChannelUserList (memberText s.toCore chan member.user)
      else s) (s.sendCmd con msgServerJoinAck (s.chan chan).name)
  else s

/-- The end of that list, the topic, and the notice to an operator. -/
def sendTopic (s : Server) (con : ConId) (chan : ChanId) (chanop : Bool) : Server :=
  if s.isUser con then
    let name := (s.chan chan).name
    let s := s.sendCmd con msgServerChannelUserListEnd name
    let s := s.sendCmd con msgServerTopic (name ++ str " " ++ (s.chan chan).topic)
    if chanop then
      s.sendCmd con msgServerNosuch
        (s.cfg.serverName ++ str " set you as operator on channel " ++ name)
    else s
  else s

/-- What `join` does once the channel is known. -/
def joined (s : Server) (con : ConId) (tag : Nat) (user : UserId) (chan : ChanId) (chanop : Bool) :
    Server :=
  let s := if (s.chan chan).onInvite then s.onCore (·.uninvite user chan) else s
  let s := s.onCore (·.enterChannel user chan)
  let name := (s.chan chan).name
  let s := s.passMessageArgs (some con) tag (str ":" ++ (s.user user).nick ++ str " " ++ name)
  let s := s.sendMembers con user chan
  let others := (s.chan chan).users.filter fun member => member.user != user
  let s := s.tellMembers others user msgServerJoin (memberText s.toCore chan user)
  let operText := s.cfg.serverName ++ str " set " ++ (s.user user).nick ++
    str " as operator on channel " ++ name
  let s :=
    if chanop then (s.notifyOps chan operText).onCore (·.setOperator chan user true) else s
  s.sendTopic con chan chanop

/-- `join`: `[ :<nick> ] <channel>`.  `fuel` bounds the passes through the loop over channel names;
a run that needs more than `fuel` of them is not modelled. -/
def join (s : Server) (con : ConId) (tag : Nat) (pkt : Str) (bufLen fuel : Nat) : Server :=
  match s.popUser con pkt with
  | none => s
  | some (_, none) => s.unparsable con
  | some (_, some []) => s.unparsable con
  | some (user, some (c :: cs)) =>
    let u := s.user user
    if u.level < .moderator ∧ s.cfg.maxUserChannels < (u.channels.length : Int) then
      s.sendIfUser con msgServerNosuch
        (str "channel join failed: you may only join " ++ showInt s.cfg.maxUserChannels ++
          str " channels")
    else if u.level < .moderator ∧ u.muzzled = true then
      s.sendIfUser con msgServerNosuch
        (str "channel join failed: can't join channels while muzzled")
    else
      let name := if c != '#' && c != '&' then ('#' :: c :: cs).take 255 else c :: cs
      match s.joinLoop con user bufLen fuel name with
      | .again _ => s
      | .stop t => t
      | .found t chan chanop => t.joined con tag user chan chanop

/-- The body of the loop of `channel_op` for one nick. -/
def opNick (s : Server) (con : ConId) (tag : Nat) (sender : Str) (chan : ChanId) (nick : Str) :
    Server :=
  if invalidNick s.cfg nick then s.invalidNickMsg con
  else
    let name := (s.chan chan).name
    let present := (s.chan chan).ops.any fun op => sameText op nick
    let target := (s.users.lookup nick).filter fun user => (s.findChanuser chan user).isSome
    if present then
      if tag = msgClientDeop then
        let s := s.onCore (·.modChan chan fun c =>
          { c with ops := c.ops.eraseP fun op => sameText op nick })
        match target with
        | none => s
        | some user =>
          let u := s.user user
          let s := s.sendIfUser u.con msgServerNosuch
            (sender ++ str " removed you as operator on channel " ++ name)
          let s := s.onCore (·.setOperator chan user false)
          s.notifyOps chan
            (sender ++ str " removed " ++ u.nick ++ str " as operator on channel " ++ name)
      else s
    else if tag = msgClientOp then
      let s := s.onCore (·.modChan chan fun c => { c with ops := c.ops ++ [nick] })
      let s :=
        match target with
        | none => s
        | some user =>
          let s := s.sendIfUser (s.user user).con msgServerNosuch
            (sender ++ str " set you as operator on channel " ++ name)
          let s := s.notifyOps chan
            (sender ++ str " set " ++ nick ++ str " as operator on channel " ++ name)
          s.onCore (·.setOperator chan user true)
      -- a channel with operators is written to disk
      s.onCore (·.modChan chan fun c => { c with onUser := false })
    else s

/-- `channel_op`: `[ :<sender> ] <channel> <nick> [nick ...]`. -/
def channelOp (s : Server) (con : ConId) (tag : Nat) (pkt : Str) : Server :=
  match s.popUserServer con pkt with
  | none => s
  | some (sender, senderUser, rest) =>
    if senderUser.any fun user => decide ((s.user user).level < .moderator) then
      s.permissionDenied con
    else
      match rest.map nextArg with
      | some (chanName, some nicks) =>
        match s.channels.lookup chanName with
        | none => s.nosuchchannel con
        | some chan =>
          let s := s.passMessageArgs (some con) tag
            (str ":" ++ sender ++ str " " ++ (s.chan chan).name ++ str " " ++ nicks)
          (args (some nicks)).foldl (fun s nick => s.opNick con tag sender chan nick) s
      | _ => s.unparsable con

/-- `channel_drop`: `[ :<sender> ] <channel> [ "<reason>" ]`. -/
def channelDrop (s : Server) (con : ConId) (tag : Nat) (pkt : Str) : Server :=
  match s.popUser con pkt with
  | none => s
  | some (sender, rest) =>
    match rest.bind (splitLine 2) with
    | some (chanName :: more) =>
      match s.channels.lookup chanName with
      | none => s.nosuchchannel con
      | some chan =>
        let c := s.chan chan
        let u := s.user sender
        if c.onUser then
          s.sendIfUser con msgServerNosuch (str "channel " ++ c.name ++ str " is not registered")
        else if u.level < .moderator ∨ u.level < c.level then s.permissionDenied con
        else
          let reason := more.head?.getD []
          let s := s.passMessageArgs (some con) tag
            (str ":" ++ u.nick ++ str " " ++ c.name ++ str " \"" ++ reason ++ str "\"")
          let s := s.notifyOps chan
            (u.nick ++ str " dropped channel " ++ c.name ++ str ": " ++ reason)
          if c.users.isEmpty then s.onCore (·.hashRemoveChannel c.name)
          else s.onCore (·.modChan chan fun c => { c with onUser := true })
    | _ => s.unparsable con

end Server

end OpenNap
