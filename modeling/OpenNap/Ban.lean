import OpenNap.Serverlib

/-! Wildcard masks and the bans that use them. -/

namespace OpenNap

open CText

/-- `tolower (a) == tolower (b)`. -/
def sameChar (a b : Char) : Bool := a.toLower == b.toLower

/-- The texts that follow an occurrence of `p` in `s`, the longest first. -/
def textsAfter (p : Char) : Str → List Str
  | [] => []
  | c :: cs => if sameChar c p then cs :: textsAfter p cs else textsAfter p cs

/-- `glob_match`; with `star` set the pattern follows a `*`. -/
def globLoop : Bool → Str → Str → Bool
  | true, [], _ => true
  | true, p :: ps, s =>
    if p == '*' || p == '?' then globLoop true ps s
    -- the source tries the shortest of these texts first; all are tried until one matches
    else (textsAfter p s).any (globLoop false ps)
  | false, [], s => s.isEmpty
  | false, _ :: _, [] => false
  | false, p :: ps, c :: cs =>
    if p == '*' then globLoop true ps (c :: cs)
    else if p == '?' || sameChar p c then globLoop false ps cs
    else false

/-- `glob_match (pattern, s)`. -/
def globMatch (pattern s : Str) : Bool := globLoop false pattern s

/-- The text that masks are matched against, in a buffer of 256 bytes. -/
def userMask (nick host : Str) : Str := (nick ++ str "!" ++ host).take 255

/-- `is_banned`: the first ban of a channel that covers the user. -/
def isBanned (bans : List Ban) (nick host : Str) : Option Ban :=
  bans.find? fun ban => globMatch ban.target (userMask nick host)

/-- Whether a ban is in force at a time. -/
def Ban.active (ban : Ban) (now : Int) : Bool :=
  ban.timeout == 0 || decide (now < ban.time + ban.timeout)

/-- The ban that `check_ban` finds for a user. -/
def Core.banFor (s : Core) (nick host : Str) : Option Ban :=
  s.bans.find? fun ban => ban.active s.now && globMatch ban.target (userMask nick host)

/-- What `check_ban` does about a ban that covers the user logging in. -/
def Server.refuseBanned (s : Server) (con : ConId) (nick host : Str) (ban : Ban) : Server :=
  let mask := userMask nick host
  let s := s.notifyMods banlogMode
    (str "Connection from " ++ mask ++ str ": " ++ ban.target ++ str " banned: " ++ ban.reason)
  if s.isUnknown con then
    let s := s.sendCmd con msgServerError (ban.target ++ str " banned: " ++ ban.reason)
    let s := s.onCore (·.modCon con fun c => { c with destroy := true })
    s.passMessageArgs none msgServerNotifyMods
      (str ":" ++ s.cfg.serverName ++ str " " ++ showNat banlogMode ++ str " \"Connection from " ++
        mask ++ str ": " ++ ban.target ++ str " banned: " ++ ban.reason ++ str "\"")
  else if s.isServer con then
    let s := s.passMessageArgs (some con) msgClientKill
      (str ":" ++ s.cfg.serverName ++ str " " ++ nick ++ str " " ++ ban.target ++
        str " banned: " ++ ban.reason)
    s.notifyMods killlogMode
      (s.cfg.serverName ++ str " killed " ++ nick ++ str ": " ++ ban.target ++ str " banned: " ++
        ban.reason)
  else s

end OpenNap
