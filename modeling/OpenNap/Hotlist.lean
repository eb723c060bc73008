import OpenNap.User

/-! Hotlists: the connections that wait for a user to sign on.  A hotlist is made when the first
connection lists the nick, and goes when the last one drops it or is closed. -/

namespace OpenNap

open CText

namespace Core

/-- The hotlists of a connection. -/
def hotlistsOf (s : Core) (con : ConId) : List HotlistId := (s.con con).uopt.elim [] (·.hotlist)

/-- A hotlist that nobody is listed in yet. -/
def newHotlist (s : Core) (nick : Str) : Core :=
  let hot := s.next
  let s := s.alloc.modHot hot fun _ => { nick := nick }
  { s with hotlists := s.hotlists.add nick hot }

/-- A connection and a hotlist list each other. -/
def listHotlist (s : Core) (con : ConId) (hot : HotlistId) : Core :=
  let s := s.modHot hot fun h => { h with users := con :: h.users }
  s.modCon con fun c => { c with uopt := c.uopt.map fun o => { o with hotlist := hot :: o.hotlist } }

/-- A connection and a hotlist no longer list each other. -/
def unlistHotlist (s : Core) (con : ConId) (hot : HotlistId) : Core :=
  let s := s.modCon con fun c =>
    { c with uopt := c.uopt.map fun o => { o with hotlist := o.hotlist.erase hot } }
  s.leaveHotlist con hot

end Core

namespace Server

/-- The end of `add_hotlist` once there is a hotlist for the nick. -/
def waitFor (s : Server) (con : ConId) (hot : HotlistId) : Server :=
  if (s.hot hot).users.contains con then s
  else
    let s := s.onCore (·.listHotlist con hot)
    let s := s.sendCmd con msgServerHotlistAck (s.hot hot).nick
    match s.users.lookup (s.hot hot).nick with
    | some user =>
      s.sendCmd con msgServerUserSignon ((s.user user).nick ++ str " " ++ showNat (s.user user).speed)
    | none => s

/-- `add_hotlist`: `<user>`. -/
def addHotlist (s : Server) (con : ConId) (pkt : Str) : Server :=
  let count : Int := (s.hotlistsOf con).length
  if 0 < s.cfg.maxHotlist ∧ s.cfg.maxHotlist < count then
    -- a count over the limit is never the limit itself
    if count = s.cfg.maxHotlist then
      s.sendCmd con msgServerNosuch
        (str "hotlist is limited to " ++ showInt s.cfg.maxHotlist ++ str " entries")
    else s
  else
    match s.hotlists.lookup pkt with
    | some hot => s.waitFor con hot
    | none =>
      if invalidNick s.cfg pkt then s.invalidNickMsg con
      else (s.onCore (·.newHotlist pkt)).waitFor con s.next

/-- `remove_hotlist`: `<user>`. -/
def removeHotlist (s : Server) (con : ConId) (pkt : Str) : Server :=
  match s.hotlists.lookup pkt with
  | none => s.sendCmd con msgServerNosuch (str "user is not in your hotlist")
  | some hot => s.onCore (·.unlistHotlist con hot)

end Server

end OpenNap
