import OpenNap.Channel

/-! Talking in a channel, and the list of its members. -/

namespace OpenNap

open CText

/-- `next_arg_noskip`: the argument up to a blank, and the text right after the blank. -/
def nextArgNoskip (s : Str) : Str × Option Str := cutAt (· == ' ') s

namespace Server

/-- `check_permission`: the state in which a member is refused to talk in a channel, if so. -/
def refusesTalk (s : Server) (chan : ChanId) (sender : UserId) : Option Server :=
  let u := s.user sender
  match s.findChanuser chan sender with
  | none => some s
  | some member =>
    if decide (u.level < .moderator) && !member.operator then
      if (s.chan chan).onModerated then
        if member.voice then none
        else
          some (s.sendIfUser u.con msgServerNosuch (str "permission denied: channel is moderated"))
      else if member.muzzled then
        some (s.sendIfUser u.con msgServerNosuch (str "permission denied: muzzled on channel"))
      else none
    else none

/-- What the members of a channel are sent: the name of a cloaked speaker only goes to those above
the level of a user. -/
def talk (s : Server) (chan : ChanId) (sender : UserId) (tag : Nat) (text : Str) : Server :=
  let u := s.user sender
  let name := (s.chan chan).name
  let spoken (who : Str) : Str := name ++ str " " ++ who ++ str " " ++ text
  (s.chan chan).users.foldl (fun s member =>
    let m := s.user member.user
    if s.isUser m.con then
      if u.cloaked && decide (Level.user < m.level) then s.sendCmd m.con tag (spoken u.nick)
      else s.queueData m.con tag (clip (spoken (if u.cloaked then str "Operator" else u.nick)))
    else s) s

/-- `public`: `[ :<sender> ] <channel> <text>`.  A packet of a peer without a text makes the source
read through a null pointer, and is dropped here. -/
def publicMessage (s : Server) (con : ConId) (tag : Nat) (pkt : Str) : Server :=
  match s.popUser con pkt with
  | none => s
  | some (sender, rest) =>
    let u := s.user sender
    if u.muzzled then s.sendIfUser con msgServerNosuch (str "You are muzzled.")
    else
      match rest with
      | none => s
      | some rest =>
        match nextArgNoskip (if 180 < rest.length then rest.take 180 else rest) with
        | (_, none) => s.unparsable con
        | (name, some text) =>
          match s.findChannel sender name with
          | none => s.sendIfUser con msgServerNosuch (str "You are not a member of that channel")
          | some chan =>
            match s.refusesTalk chan sender with
            | some t => t
            | none =>
              let s := s.passMessageArgs (some con) tag
                (str ":" ++ u.nick ++ str " " ++ (s.chan chan).name ++ str " " ++ text)
              s.talk chan sender msgServerPublic text

/-- `emote`: `[ :<user> ] <channel> "<text>"`. -/
def emote (s : Server) (con : ConId) (tag : Nat) (pkt : Str) : Server :=
  match s.popUser con pkt with
  | none => s
  | some (sender, rest) =>
    let u := s.user sender
    if u.muzzled then s.sendIfUser con msgServerNosuch (str "You are muzzled")
    else
      match rest with
      | none => s
      | some rest =>
        match splitLine 2 (if 180 < rest.length then rest.take 179 ++ ['"'] else rest) with
        | some [name, text] =>
          match s.findChannel sender name with
          | none => s.sendIfUser con msgServerNosuch (str "You are not a member of that channel")
          | some chan =>
            match s.refusesTalk chan sender with
            | some t => t
            | none =>
              let text := str "\"" ++ text ++ str "\""
              let s := s.passMessageArgs (some con) tag
                (str ":" ++ u.nick ++ str " " ++ (s.chan chan).name ++ str " " ++ text)
              s.talk chan sender tag text
        | _ => s.unparsable con

/-- `list_users`: `<channel>`. -/
def listUsers (s : Server) (con : ConId) (pkt : Str) : Server :=
  match (s.con con).user with
  | none => s
  | some user =>
    match s.channels.lookup pkt with
    | none => s.nosuchchannel con
    | some chan =>
      if !(s.user user).channels.contains chan then
        s.sendCmd con msgServerNosuch (str "you're not on channel " ++ (s.chan chan).name)
      else
        ((s.chan chan).users.foldl (fun s member =>
          s.sendCmd con msgServerNamesList (memberText s.toCore chan member.user)) s).sendCmd con
          msgClientNamesList []

end Server

end OpenNap
