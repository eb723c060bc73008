import OpenNap.Ban

/-! Channels: joining, parting, and the commands that put members out or change who is an
operator.  Membership is stored twice, as the channel's `users` and as the user's `channels`. -/

namespace OpenNap

open CText

/-! ### The two halves of a membership -/

namespace Core

/-- `channel_remove`: drop the first entry of a user from a channel's list. -/
def channelRemove (s : Core) (chan : ChanId) (user : UserId) : Core :=
  s.modChan chan fun c => { c with users := c.users.eraseP fun member => member.user == user }

/-- `free_channel`: the users invited to it forget the invitation. -/
def freeChannel (s : Core) (chan : ChanId) : Core :=
  (s.chan chan).invited.foldl
    (fun s user => s.modUser user fun u => { u with invited := u.invited.erase chan }) s

/-- `hash_remove (Channels, name)`. -/
def hashRemoveChannel (s : Core) (name : Str) : Core :=
  match s.channels.lookup name with
  | none => s
  | some chan =>
    let s := s.freeChannel chan
    { s with channels := s.channels.remove name }

/-- `user->channels = list_delete (user->channels, chan)`. -/
def deleteChannel (s : Core) (user : UserId) (chan : ChanId) : Core :=
  s.modUser user fun u => { u with channels := u.channels.erase chan }

/-- What `part_channel` does besides telling the other members. -/
def partChannel (s : Core) (chan : ChanId) (user : UserId) : Core :=
  let s := s.channelRemove chan user
  let c := s.chan chan
  if c.users.isEmpty && c.onUser then s.hashRemoveChannel c.name else s

/-- The entry of a user in the list of a channel: `find_chanuser`. -/
def findChanuser (s : Core) (chan : ChanId) (user : UserId) : Option ChanUser :=
  (s.chan chan).users.find? fun member => member.user == user

/-- `is_chanop`. -/
def isChanop (s : Core) (chan : ChanId) (user : UserId) : Bool :=
  match s.findChanuser chan user with
  | some member => member.operator
  | none => false

/-- Set or clear the operator flag of a member, of which a channel has one entry. -/
def setOperator (s : Core) (chan : ChanId) (user : UserId) (value : Bool) : Core :=
  s.modChan chan fun c =>
    { c with
      users := c.users.map fun member =>
        if member.user = user then { member with operator := value } else member }

/-- `can_kick`. -/
def canKick (s : Core) (chan : ChanId) (sender user : UserId) : Bool :=
  (s.user sender).level == .elite || decide ((s.user user).level < (s.user sender).level) ||
    s.isChanop chan sender && (s.user sender).level == (s.user user).level

/-- `find_channel`: the channel of that name among the user's. -/
def findChannel (s : Core) (user : UserId) (name : Str) : Option ChanId :=
  (s.user user).channels.find? fun chan => sameText (s.chan chan).name name

/-- A channel created by the first user to join it. -/
def newChannel (s : Core) (name : Str) : Core :=
  let chan := s.next
  let s := s.alloc.modChan chan fun _ =>
    { name := name
      topic := (str "Welcome to the " ++ name ++ str " channel.").take 2047
      timestamp := s.now
      limit := toUshort s.cfg.channelLimit
      onUser := true
      level := .user }
  { s with channels := s.channels.add name chan }

/-- The new member is put at the front of both lists. -/
def enterChannel (s : Core) (user : UserId) (chan : ChanId) : Core :=
  let s := s.modUser user fun u => { u with channels := chan :: u.channels }
  s.modChan chan fun c => { c with users := { user := user } :: c.users }

/-- The invitation of a user is used up. -/
def uninvite (s : Core) (user : UserId) (chan : ChanId) : Core :=
  let s := s.modChan chan fun c => { c with invited := c.invited.erase user }
  s.modUser user fun u => { u with invited := u.invited.erase chan }

/-- A user is invited to a channel, which both of them keep. -/
def invite (s : Core) (user : UserId) (chan : ChanId) : Core :=
  let s := s.modUser user fun u => { u with invited := chan :: u.invited }
  s.modChan chan fun c => { c with invited := user :: c.invited }

end Core

/-- `invalid_channel`. -/
def invalidChannel (cfg : Config) (name : Str) : Bool :=
  match name with
  | [] => true
  | c :: cs =>
    if c != '#' && c != '&' then true
    else
      cs.any (fun d => decide (d.toNat < 33) || decide (126 < d.toNat) ||
        (str "%$*?\",").contains d) || cs.isEmpty ||
        decide (cfg.maxChannelLength > 0 ∧ (cs.length : Int) > cfg.maxChannelLength)

/-- `invalid_nick`. -/
def invalidNick (cfg : Config) (nick : Str) : Bool :=
  sameText nick (str "operserv") || sameText nick (str "chanserv") ||
    sameText nick (str "operator") ||
    (match nick with
      | c :: _ => c == '#' || c == '&' || c == ':'
      | [] => false) ||
    nick.any (fun d => decide (d.toNat < 33) || decide (126 < d.toNat) ||
      (str "%$*?.!\",").contains d) || nick.isEmpty ||
    decide (cfg.maxNickLength > 0 ∧ (nick.length : Int) > cfg.maxNickLength)

namespace Server

/-- Send a text about `user` to the local members who may see that user. -/
def tellMembers (s : Server) (members : List ChanUser) (user : UserId) (tag : Nat) (body : Str) :
    Server :=
  members.foldl (fun s member =>
    let m := s.user member.user
    if s.isUser m.con && (!(s.user user).cloaked || decide (Level.moderator ≤ m.level)) then
      s.queueData m.con tag (clip body)
    else s) s

@[simp] theorem toCore_tellMembers (s : Server) (members : List ChanUser) (user : UserId)
    (tag : Nat) (body : Str) : (s.tellMembers members user tag body).toCore = s.toCore := by
  refine toCore_foldl (fun s member => ?_) members s
  simp only
  split <;> rfl

/-- The text that tells of a user in a channel. -/
def memberText (s : Core) (chan : ChanId) (user : UserId) : Str :=
  (s.chan chan).name ++ str " " ++ (s.user user).nick ++ str " " ++
    showNat (s.user user).shared.toNat ++ str " " ++ showNat (s.user user).speed

/-- `part_channel`: remove a user from a channel, tell the local members that stay, and destroy a
channel that users created when the last of them leaves. -/
def partChannel (s : Server) (chan : ChanId) (user : UserId) : Server :=
  let s := s.onCore (·.channelRemove chan user)
  if (s.chan chan).users.isEmpty then
    if (s.chan chan).onUser then s.onCore (·.hashRemoveChannel (s.chan chan).name) else s
  else s.tellMembers (s.chan chan).users user msgServerPart (memberText s.toCore chan user)

@[simp] theorem toCore_partChannel (s : Server) (chan : ChanId) (user : UserId) :
    (s.partChannel chan user).toCore = s.toCore.partChannel chan user := by
  simp only [partChannel, Core.partChannel, toCore_onCore]
  by_cases hUsers : ((s.toCore.channelRemove chan user).chan chan).users.isEmpty = true
  · by_cases hFlag : ((s.toCore.channelRemove chan user).chan chan).onUser = true
    · simp [hUsers, hFlag]
    · simp [hUsers, hFlag]
  · simp [hUsers]

/-! ### The commands -/

/-- `part`: `[ :<nick> ] <channel>`. -/
def part (s : Server) (con : ConId) (tag : Nat) (pkt : Str) : Server :=
  match s.popUser con pkt with
  | none => s
  | some (_, none) => s
  | some (user, some name) =>
    match s.findChannel user name with
    | none => s.sendIfUser con msgServerNosuch (str "You are not in that channel")
    | some chan =>
      let s := s.sendIfUser con tag (s.chan chan).name
      let s := s.passMessageArgs (some con) msgClientPart
        (str ":" ++ (s.user user).nick ++ str " " ++ (s.chan chan).name)
      let s := s.onCore (·.deleteChannel user chan)
      s.partChannel chan user

/-- `kick`: `[ :<sender> ] <channel> <user> [ "<reason>" ]`. -/
def kick (s : Server) (con : ConId) (tag : Nat) (pkt : Str) : Server :=
  match s.popUser con pkt with
  | none => s
  | some (sender, rest) =>
    match rest.bind (splitLine 3) with
    | some (chanName :: userName :: more) =>
      match s.channels.lookup chanName with
      | none => s.nosuchchannel con
      | some chan =>
        if !(s.user sender).channels.contains chan then
          s.sendIfUser con msgServerNosuch (str "You are not on that channel")
        else
          match s.users.lookup userName with
          | none => s.nosuchuser con
          | some user =>
            if (s.user sender).level < (s.chan chan).level || !s.canKick chan sender user then
              s.permissionDenied con
            else if !(s.user user).channels.contains chan then
              s.sendIfUser con msgServerNosuch (str "users is not on that channel")
            else
              let c := s.chan chan
              let by_ := (s.user sender).nick
              let target := s.user user
              let reason := more.head?.map (truncateReason s.cfg)
              let s := s.passMessageArgs (some con) tag
                (match reason with
                  | some reason => str ":" ++ by_ ++ str " " ++ c.name ++ str " " ++ target.nick ++
                      str " \"" ++ reason ++ str "\""
                  | none => str ":" ++ by_ ++ str " " ++ c.name ++ str " " ++ target.nick)
              let hidden := (s.user sender).cloaked && decide (target.level < .moderator)
              let s :=
                if s.isUser target.con then
                  let s := s.sendCmd target.con msgClientPart c.name
                  s.sendCmd target.con msgServerNosuch
                    (str "You were kicked from channel " ++ c.name ++
                      (if hidden then [] else str " by ") ++ (if hidden then [] else by_) ++
                      str ": " ++ reason.getD [])
                else s
              let s := s.onCore (·.deleteChannel user chan)
              let s := s.notifyOps chan (by_ ++ str " kicked " ++ target.nick ++
                str " out of channel " ++ c.name ++ str ": " ++ reason.getD [])
              s.partChannel chan user
    | _ => s.unparsable con

/-- The body of the loop of `clear_channel`: put one member out. -/
def clearMember (s : Server) (chan : ChanId) (sender : UserId) (name reason : Str)
    (member : ChanUser) : Server :=
  let user := member.user
  if user ≠ sender && s.canKick chan sender user then
    let s := s.onCore (·.deleteChannel user chan)
    let con := (s.user user).con
    let s :=
      if s.isUser con then
        let s := s.sendCmd con msgClientPart name
        s.sendCmd con msgServerNosuch
          ((s.user sender).nick ++ str " cleared channel " ++ name ++ str ": " ++ reason)
      else s
    s.partChannel chan user
  else s

/-- `clear_channel`: `[ :<sender> ] <channel> [reason]`. -/
def clearChannel (s : Server) (con : ConId) (tag : Nat) (pkt : Str) : Server :=
  match s.popUser con pkt with
  | none => s
  | some (_, none) => s.unparsable con
  | some (sender, some rest) =>
    let (chanName, more) := nextArg rest
    match s.channels.lookup chanName with
    | none => s.nosuchchannel con
    | some chan =>
      if (s.user sender).level < (s.chan chan).level then s.permissionDenied con
      else
        let name := (s.chan chan).name
        let reason := (more.map (truncateReason s.cfg)).getD []
        let s := s.passMessageArgs (some con) tag
          (str ":" ++ (s.user sender).nick ++ str " " ++ name ++ str " " ++ reason)
        let s := s.notifyOps chan
          ((s.user sender).nick ++ str " cleared channel " ++ name ++ str ": " ++ reason)
        (s.chan chan).users.foldl (fun s member => s.clearMember chan sender name reason member) s

end Server

end OpenNap
