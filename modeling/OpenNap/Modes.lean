import OpenNap.BanList
import OpenNap.Settings

/-! The topic and the modes of a channel, the members who have a voice there or are muzzled, and those
who are invited or banned. -/

namespace OpenNap

open CText

/-- The modes of a channel that `channel_mode` knows. -/
inductive ChannelMode
  | onPrivate
  | onModerated
  | onInvite
  | onTopic
deriving DecidableEq, Repr

namespace ChannelMode

/-- The modes in the order in which they are reported. -/
def all : List ChannelMode := [onPrivate, onModerated, onInvite, onTopic]

def text : ChannelMode → Str
  | onPrivate => str "PRIVATE"
  | onModerated => str "MODERATED"
  | onInvite => str "INVITE"
  | onTopic => str "TOPIC"

end ChannelMode

namespace Channel

/-- Whether a mode is set. -/
def mode (c : Channel) : ChannelMode → Bool
  | .onPrivate => c.onPrivate
  | .onModerated => c.onModerated
  | .onInvite => c.onInvite
  | .onTopic => c.onTopic

/-- Set or clear a mode. -/
def setMode (c : Channel) (value : Bool) : ChannelMode → Channel
  | .onPrivate => { c with onPrivate := value }
  | .onModerated => { c with onModerated := value }
  | .onInvite => { c with onInvite := value }
  | .onTopic => { c with onTopic := value }

end Channel

/-- The mode that an argument names, after its sign. -/
def readMode (arg : Str) : Option ChannelMode :=
  ChannelMode.all.find? fun m => sameText m.text (arg.drop 1)

/-- `onmask` and `offmask`. -/
structure Masks where
  on : ChannelMode → Bool := fun _ => false
  off : ChannelMode → Bool := fun _ => false

/-- A mask with one bit set or cleared. -/
def setBit (mask : ChannelMode → Bool) (m : ChannelMode) (value : Bool) : ChannelMode → Bool :=
  fun other => if other = m then value else mask other

/-- The text about the modes that were changed: `add_flag` for each. -/
def Masks.text (masks : Masks) : Str :=
  ChannelMode.all.flatMap fun m =>
    if masks.on m || masks.off m then
      str " " ++ (if masks.on m then str "+" else str "-") ++ m.text
    else []

namespace Core

/-- A member is given a voice, which ends a muzzle, or loses it. -/
def setVoice (s : Core) (chan : ChanId) (user : UserId) (value : Bool) : Core :=
  s.modChan chan fun c =>
    { c with
      users := c.users.map fun member =>
        if member.user = user then
          { member with voice := value, muzzled := member.muzzled && !value }
        else member }

/-- A member is muzzled, which takes the voice away, or no longer muzzled. -/
def setMuzzled (s : Core) (chan : ChanId) (user : UserId) (value : Bool) : Core :=
  s.modChan chan fun c =>
    { c with
      users := c.users.map fun member =>
        if member.user = user then
          { member with muzzled := value, voice := member.voice && !value }
        else member }

end Core

namespace Server

/-! ### The topic -/

/-- Who sets a topic, and the text after the sender.  The source takes the first byte of a peer's
packet for the colon. -/
def topicSender (s : Core) (con : ConId) (pkt : Str) : Option (Str × Str) :=
  if s.isServer con then
    match nextArg (pkt.drop 1) with
    | (nick, some rest) => some (nick, rest)
    | (_, none) => none
  else (s.con con).user.map fun user => ((s.user user).nick, pkt)

/-- Why `topic` does not let a local user set the topic, if it does not: the reply. -/
def topicRefusal (s : Core) (con : ConId) (chan : ChanId) : Option Str :=
  match (s.con con).user with
  | none => none
  | some user =>
    let u := s.user user
    let c := s.chan chan
    if u.level < c.level then some (str "permission denied")
    else if Level.moderator ≤ u.level then none
    else if !u.channels.contains chan then
      some (str "topic change failed: you are not on channel " ++ c.name)
    else if !c.onTopic && !s.isChanop chan user then
      some (str "topic change failed: permission denied")
    else none

/-- The topic that is stored: cut at `Max_Topic`, without line breaks. -/
def topicText (cfg : Config) (text : Str) : Str :=
  let text := if 0 < cfg.maxTopic then text.take cfg.maxTopic.toNat else text
  text.map fun c => if c = '\r' ∨ c = '\n' then ' ' else c

/-- `topic`: `[ :<nick> ] <channel> [topic]`. -/
def topic (s : Server) (con : ConId) (tag : Nat) (pkt : Str) : Server :=
  match topicSender s.toCore con pkt with
  | none => s
  | some (nick, rest) =>
    let (chanName, text) := nextArg rest
    match s.channels.lookup chanName with
    | none => s.nosuchchannel con
    | some chan =>
      match text with
      | none =>
        s.sendIfUser con tag ((s.chan chan).name ++ str " " ++ (s.chan chan).topic)
      | some text =>
        match if s.isUser con then topicRefusal s.toCore con chan else none with
        | some refusal => s.sendCmd con msgServerNosuch refusal
        | none =>
          let text := topicText s.cfg text
          let s := s.onCore (·.modChan chan fun c => { c with topic := text })
          let name := (s.chan chan).name
          let s := s.passMessageArgs (some con) tag
            (str ":" ++ nick ++ str " " ++ name ++ str " " ++ text)
          let s := (s.chan chan).users.foldl (fun s member =>
            let u := s.user member.user
            if u.isLocal then s.sendCmd u.con tag (name ++ str " " ++ text) else s) s
          s.notifyOps chan (nick ++ str " set topic on " ++ name ++ str ": " ++ text)

/-! ### Modes -/

/-- The body of the loop of `channel_mode` for one argument. -/
def modeArg (s : Server) (con : ConId) (chan : ChanId) (masks : Masks) (arg : Str) :
    Server × Masks :=
  match readMode arg with
  | none =>
    (s.sendIfUser con msgServerNosuch (str "invalid channel mode: " ++ arg.drop 1), masks)
  | some m =>
    let isSet := (s.chan chan).mode m
    match arg.head? with
    | some '+' =>
      (s.onCore (·.modChan chan (·.setMode true m)),
        { on := setBit masks.on m (!isSet), off := setBit masks.off m false })
    | some '-' =>
      (s.onCore (·.modChan chan (·.setMode false m)),
        { on := setBit masks.on m false, off := setBit masks.off m isSet })
    | sign =>
      (s.sendIfUser con msgServerNosuch
        (str "invalid prefix for channel mode " ++ arg.drop 1 ++ str ": " ++ sign.toList), masks)

/-- `channel_mode`: `[ :<sender> ] <channel> [mode]`. -/
def channelMode (s : Server) (con : ConId) (tag : Nat) (pkt : Str) : Server :=
  match s.popUserServer con pkt with
  | none => s
  | some (sender, senderUser, rest) =>
    match rest.map nextArg with
    | none => s.unparsable con
    | some (chanName, modes) =>
      match s.channels.lookup chanName with
      | none => s.nosuchchannel con
      | some chan =>
        let c := s.chan chan
        let denied := senderUser.any fun user =>
          let level := (s.user user).level
          decide (level < c.level) || decide (level < .moderator) && !s.isChanop chan user
        if denied then s.permissionDenied con
        else
          match modes with
          | none =>
            if s.isUser con then
              s.sendCmdPre con tag (str "mode for channel ")
                (c.name ++
                  ChannelMode.all.flatMap fun m => if c.mode m then str " +" ++ m.text else [])
            else s
          | some modes =>
            let (s, masks) := (args (some modes)).foldl
              (fun (s, masks) arg => s.modeArg con chan masks arg) (s, {})
            if ChannelMode.all.any fun m => masks.on m || masks.off m then
              let s := s.onCore fun s => s.modChan chan fun c => { c with timestamp := s.now }
              let s := s.notifyOps chan
                (sender ++ str " changed mode on channel " ++ c.name ++ str ":" ++ masks.text)
              s.passMessageArgs (some con) tag
                (str ":" ++ sender ++ str " " ++ c.name ++ str " " ++ masks.text)
            else s

/-! ### Voices and muzzles -/

/-- The name under which a sender is shown to a member. -/
def shownAs (s : Core) (sender : Str) (senderUser : Option UserId) : Str :=
  if senderUser.any fun user => (s.user user).cloaked then str "Operator" else sender

/-- The body of the loop of `channel_voice` for one nick. -/
def voiceNick (s : Server) (con : ConId) (tag : Nat) (sender : Str) (senderUser : Option UserId)
    (chan : ChanId) (nick : Str) : Server :=
  match s.users.lookup nick with
  | none =>
    s.sendIfUser con msgServerNosuch (str "channel voice: " ++ nick ++ str " is not online")
  | some user =>
    let u := s.user user
    let name := (s.chan chan).name
    if (s.findChanuser chan user).isNone then
      s.sendIfUser con msgServerNosuch
        (str "channel voice: " ++ u.nick ++ str " is not on channel " ++ name)
    else
      let gives := tag != msgClientChannelUnvoice
      let s := s.onCore (·.setVoice chan user gives)
      let s := s.sendIfUser u.con msgServerNosuch
        (shownAs s.toCore sender senderUser ++
          (if gives then str " gave you" else str " removed your") ++ str " voice on channel " ++ name)
      s.notifyOps chan
        (sender ++ (if tag = msgClientChannelVoice then str " gave voice to " else
          str " removed voice from ") ++ u.nick ++ str " on channel " ++ name)

/-- The list of the members with a voice, for a local user who asks. -/
def listVoiced (s : Server) (con : ConId) (chan : ChanId) : Server :=
  if s.isUser con then
    let name := (s.chan chan).name
    let s := s.sendCmd con msgClientPrivmsg (str "ChanServ Voiced users on channel " ++ name)
    let s := (s.chan chan).users.foldl (fun s member =>
      if member.voice then
        s.sendCmd con msgClientPrivmsg (str "ChanServ " ++ (s.user member.user).nick)
      else s) s
    s.sendCmd con msgClientPrivmsg (str "ChanServ End of voiced users on channel " ++ name)
  else s

/-- `channel_voice`: `[ :<sender> ] <channel> [user [user ...]]`. -/
def channelVoice (s : Server) (con : ConId) (tag : Nat) (pkt : Str) : Server :=
  match s.popUserServer con pkt with
  | none => s
  | some (sender, senderUser, rest) =>
    match rest.map nextArg with
    | none => s.unparsable con
    | some (chanName, nicks) =>
      match s.channels.lookup chanName with
      | none => s.nosuchchannel con
      | some chan =>
        match nicks with
        | none => s.listVoiced con chan
        | some nicks =>
          let denied := senderUser.any fun user =>
            decide ((s.user user).level < .moderator) && !s.isChanop chan user
          if denied then s.permissionDenied con
          else
            let s := s.passMessageArgs (some con) tag
              (str ":" ++ sender ++ str " " ++ (s.chan chan).name ++ str " " ++ nicks)
            (args (some nicks)).foldl
              (fun s nick => s.voiceNick con tag sender senderUser chan nick) s

/-- `channel_muzzle`: `[ :<sender> ] <channel> <user> ["reason"]`. -/
def channelMuzzle (s : Server) (con : ConId) (tag : Nat) (pkt : Str) : Server :=
  match s.popUserServer con pkt with
  | none => s
  | some (sender, senderUser, rest) =>
    match rest.bind (splitLine 3) with
    | some (chanName :: nick :: more) =>
      match s.channels.lookup chanName with
      | none => s.nosuchchannel con
      | some chan =>
        let denied := senderUser.any fun user =>
          decide ((s.user user).level < .moderator) && !s.isChanop chan user
        if denied then s.permissionDenied con
        else
          match s.users.lookup nick with
          | none => s.nosuchuser con
          | some user =>
            let u := s.user user
            let tooHigh := senderUser.any fun su =>
              (s.user su).level != .elite && decide ((s.user su).level < u.level)
            if tooHigh then s.permissionDenied con
            else
              let name := (s.chan chan).name
              let reason := more.head?.getD []
              let muzzles := tag == msgClientChannelMuzzle
              let un := if muzzles then [] else str "un"
              let s :=
                if (s.findChanuser chan user).isSome then
                  let s := s.onCore (·.setMuzzled chan user muzzles)
                  let s := s.sendIfUser u.con msgServerNosuch
                    (shownAs s.toCore sender senderUser ++ str " " ++ un ++
                      str "muzzled you on channel " ++ name ++ str ": " ++ reason)
                  s.notifyOps chan
                    (sender ++ str " " ++ un ++ str "muzzled " ++ u.nick ++ str " on channel " ++
                      name ++ str ": " ++ reason)
                else s
              s.passMessageArgs (some con) tag
                (str ":" ++ sender ++ str " " ++ name ++ str " " ++ u.nick ++ str " \"" ++ reason ++
                  str "\"")
    | _ => s.unparsable con

/-! ### Invitations -/

/-- `channel_invite`: `[ :<sender> ] <channel> <user>`. -/
def channelInvite (s : Server) (con : ConId) (tag : Nat) (pkt : Str) : Server :=
  match s.popUser con pkt with
  | none => s
  | some (sender, rest) =>
    match rest.bind (splitLine 2) with
    | some [chanName, nick] =>
      match s.channels.lookup chanName with
      | none => s.nosuchchannel con
      | some chan =>
        let c := s.chan chan
        if !c.onInvite then s.sendIfUser con msgServerNosuch (str "channel is not invite only")
        else if (s.user sender).level < c.level then s.permissionDenied con
        else if (s.findChanuser chan sender).isNone then s.permissionDenied con
        else
          match s.users.lookup nick with
          | none => s.nosuchuser con
          | some user =>
            let u := s.user user
            let by_ := (s.user sender).nick
            if (s.findChanuser chan user).isSome then
              s.sendIfUser con msgServerNosuch (str "user is already in channel")
            else if u.invited.contains chan then s
            else
              let s := s.onCore (·.invite user chan)
              let s := s.passMessageArgs (some con) tag
                (str ":" ++ by_ ++ str " " ++ c.name ++ str " " ++ u.nick)
              let s :=
                if s.isUser u.con then
                  if (s.con u.con).numerics then s.sendCmd u.con tag (c.name ++ str " " ++ by_)
                  else
                    s.sendCmd u.con msgServerNosuch
                      (by_ ++ str " invited you to channel " ++ c.name)
                else s
              s.notifyOps chan
                (by_ ++ str " invited " ++ u.nick ++ str " to channel " ++ c.name)
    | _ => s.unparsable con

/-! ### Bans from a channel -/

/-- The request of a ban, or of the end of one, passed on: the reason only when one was given. -/
def channelBanText (sender name target : Str) (reason : Option Str) : Str :=
  str ":" ++ sender ++ str " " ++ name ++ str " " ++ target ++
    (reason.elim [] fun reason => str " \"" ++ reason ++ str "\"")

/-- Whether the sender may not ban from a channel. -/
def mayNotBan (s : Core) (chan : ChanId) (senderUser : Option UserId) : Bool :=
  senderUser.any fun user => decide ((s.user user).level < .moderator) && !s.isChanop chan user

/-- `channel_ban`: `[ :<sender> ] <channel> <user!ip> [ "<reason>" ]`. -/
def channelBan (s : Server) (con : ConId) (tag : Nat) (pkt : Str) : Server :=
  match s.popUserServer con pkt with
  | none => s
  | some (sender, senderUser, rest) =>
    match rest.bind (splitLine 3) with
    | some (chanName :: target :: more) =>
      match s.channels.lookup chanName with
      | none => s.nosuchchannel con
      | some chan =>
        if mayNotBan s.toCore chan senderUser then s.permissionDenied con
        else
          let target := normalizeBan s.cfg target
          let c := s.chan chan
          if c.bans.any fun b => sameText b.target target then s
          else
            let b : Ban :=
              { target := target, setby := sender, reason := more.head?.getD []
                time := s.now, timeout := 0 }
            let s := s.onCore (·.modChan chan fun c => { c with bans := b :: c.bans })
            let s := s.passMessageArgs (some con) tag (channelBanText sender c.name target more.head?)
            s.notifyOps chan
              (sender ++ str " banned " ++ target ++ str " from " ++ c.name ++ str ": " ++ b.reason)
    | _ => s.unparsable con

/-- `channel_unban`: `[ :<sender> ] <channel> <user!ip> [ "<reason>" ]`. -/
def channelUnban (s : Server) (con : ConId) (tag : Nat) (pkt : Str) : Server :=
  match s.popUserServer con pkt with
  | none => s
  | some (sender, senderUser, rest) =>
    match rest.bind (splitLine 3) with
    | some (chanName :: target :: more) =>
      match s.channels.lookup chanName with
      | none => s.nosuchchannel con
      | some chan =>
        if mayNotBan s.toCore chan senderUser then s.permissionDenied con
        else
          let target := normalizeBan s.cfg target
          let c := s.chan chan
          match c.bans.find? fun b => sameText target b.target with
          | none => s.sendIfUser con msgServerNosuch (str "no such ban")
          | some b =>
            let s := s.passMessageArgs (some con) tag
              (channelBanText sender c.name b.target more.head?)
            let s := s.notifyOps chan
              (sender ++ str " unbanned " ++ b.target ++ str " from " ++ c.name ++ str ": " ++
                more.head?.getD [])
            s.onCore (·.modChan chan fun c =>
              { c with bans := c.bans.eraseP fun b => sameText target b.target })
    | _ => s.unparsable con

end Server

end OpenNap
