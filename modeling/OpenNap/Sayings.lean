import OpenNap.Cluster

/-! What users say, in channels, to the moderators and to everyone, on all servers of a network.  What a
server lets a user say is passed on over the tree of servers, and every server queues it once for each
of its own users that it is for. -/

namespace OpenNap

open CText

/-! ### What a server makes of what a user says -/

/-- What a server's peers are told of a text that a user says, and what its own users hear. -/
structure Saying where
  told : Str
  heard : Mail

namespace Core

/-- The channel in which a user may talk, under a name. -/
def floor (s : Core) (user : UserId) (name : Str) : Option ChanId :=
  if (s.user user).muzzled then none
  else
    (s.findChannel user name).filter fun chan =>
      (({ s with } : Server).refusesTalk chan user).isNone

/-- What `public` queues for the members of a channel. -/
def talkMail (s : Core) (chan : ChanId) (user : UserId) (tag : Nat) (words : Str) : Mail :=
  (s.chan chan).users.flatMap fun member =>
    let m := s.user member.user
    let shown :=
      if (s.user user).cloaked && !decide (Level.user < m.level) then str "Operator"
      else (s.user user).nick
    if s.isUser m.con then
      [(m.con, (tag, clip ((s.chan chan).name ++ str " " ++ shown ++ str " " ++ words)))]
    else []

/-- What `announce` and `wallop` queue for local users. -/
def usersMail (s : Core) (wants : ConId → Bool) (tag : Nat) (body : Str) : Mail :=
  s.clients.flatMap fun slot =>
    match slot with
    | some con => if s.isUser con && wants con then [(con, (tag, body))] else []
    | none => []

/-- `public`, when the user is known. -/
def publicSaying (s : Core) (user : UserId) (text : Str) : Option Saying :=
  match nextArgNoskip (if 180 < text.length then text.take 180 else text) with
  | (_, none) => none
  | (name, some words) =>
    (s.floor user name).map fun chan =>
      { told := clip (str ":" ++ (s.user user).nick ++ str " " ++ (s.chan chan).name ++ str " " ++
          words)
        heard := s.talkMail chan user msgServerPublic words }

/-- `announce`, when the user is known. -/
def announceSaying (s : Core) (user : UserId) (text : Str) : Option Saying :=
  let u := s.user user
  if u.level < .admin then none
  else
    let body := clip ((if u.cloaked then str "Operator" else u.nick) ++ str " " ++ text)
    some ⟨body, s.usersMail (fun _ => true) msgClientAnnounce body⟩

/-- `wallop`, when the user is known. -/
def wallopSaying (s : Core) (user : UserId) (text : Str) : Option Saying :=
  let u := s.user user
  if u.level < .moderator then none
  else
    let body := clip (u.nick ++ str " " ++ text)
    some ⟨body, s.usersMail (Server.wantsNotice s walloplogMode) msgClientWallop body⟩

end Core

/-- The messages that are said. -/
inductive SpeechCommand
  | publicMessage
  | serverPublic
  | announce
  | wallop
deriving DecidableEq, Repr

namespace SpeechCommand

/-- The number of the message. -/
def tag : SpeechCommand → Nat
  | publicMessage => msgClientPublic
  | serverPublic => msgServerPublic
  | announce => msgClientAnnounce
  | wallop => msgClientWallop

/-- What a server makes of it. -/
def saying (s : Core) (user : UserId) (text : Str) : SpeechCommand → Option Saying
  | publicMessage | serverPublic => s.publicSaying user text
  | announce => s.announceSaying user text
  | wallop => s.wallopSaying user text

end SpeechCommand

namespace Server

section

variable {s : Core} {con : ConId} {user : UserId} {pkt text : Str} {x : Saying}

end

/-! ### Messages to everyone and to the moderators -/

section

variable {s : Core} {con : ConId} {user : UserId} {pkt text nick : Str} {x : Saying}

end

end Server

end OpenNap
