import OpenNap.Talk

/-! Messages to all users and to all moderators of the network. -/

namespace OpenNap

open CText

namespace Server

/-- The loop of `announce` and `wallop` over the local users. -/
def tellUsers (s : Server) (wants : ConId → Bool) (tag : Nat) (text : Str) : Server :=
  s.clients.foldl (fun s slot =>
    match slot with
    | some con => if s.isUser con && wants con then s.queueData con tag text else s
    | none => s) s

/-- `announce`: `[ <nick> ] <message>`. -/
def announce (s : Server) (con : ConId) (tag : Nat) (pkt : Str) : Server :=
  let found : Option (UserId × Str) :=
    if s.isUser con then (s.con con).user.map fun user => (user, pkt)
    else
      match nextArgNoskip pkt with
      | (_, none) => none
      | (nick, some text) => (s.users.lookup nick).map fun user => (user, text)
  match found with
  | none => s
  | some (user, text) =>
    let u := s.user user
    if u.level < .admin then s.permissionDenied con
    else
      let body := clip ((if u.cloaked then str "Operator" else u.nick) ++ str " " ++ text)
      (s.passMessage (some con) tag body).tellUsers (fun _ => true) tag body

/-- What `wallop` does with the message of a user. -/
def tellMods (s : Server) (con : ConId) (tag : Nat) (nick text : Str) : Server :=
  let body := clip (nick ++ str " " ++ text)
  (s.passMessage (some con) tag body).tellUsers (wantsNotice s.toCore walloplogMode) tag body

/-- `wallop`: `[ <nick> ] <message>`. -/
def wallop (s : Server) (con : ConId) (tag : Nat) (pkt : Str) : Server :=
  if s.isUser con then
    match (s.con con).user with
    | none => s
    | some user =>
      if (s.user user).level < .moderator then s.permissionDenied con
      else s.tellMods con tag (s.user user).nick pkt
  else
    match nextArgNoskip pkt with
    | (_, none) => s
    | (nick, some text) => s.tellMods con tag nick text

/-! ### Messages leave the data alone -/

end Server

end OpenNap
