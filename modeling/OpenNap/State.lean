import Mathlib.Tactic.Simps.Basic
import OpenNap.Hash
import OpenNap.Protocol
import OpenNap.Util

/-! The server's data: the records behind the pointers, the tables and lists that hold the
pointers, and the global counters.  A pointer is a number, and the record it points to is read from
a heap; a heap keeps the last contents of a record that was freed, so that a claim about dangling
pointers is a claim about what the tables and lists hold. -/

namespace OpenNap

open CText

abbrev ConId := Nat
abbrev UserId := Nat
abbrev ChanId := Nat
abbrev HotlistId := Nat
abbrev UserDbId := Nat
abbrev DatumId := Nat
abbrev FlistId := Nat

inductive Level
  | leech
  | user
  | moderator
  | admin
  | elite
deriving DecidableEq, Repr

namespace Level

/-- The value of the `LEVEL_` constant. -/
def rank : Level → Nat
  | leech => 0
  | user => 1
  | moderator => 2
  | admin => 3
  | elite => 4

instance : LT Level := ⟨fun a b => a.rank < b.rank⟩
instance : LE Level := ⟨fun a b => a.rank ≤ b.rank⟩
instance (a b : Level) : Decidable (a < b) := inferInstanceAs (Decidable (a.rank < b.rank))
instance (a b : Level) : Decidable (a ≤ b) := inferInstanceAs (Decidable (a.rank ≤ b.rank))

/-- The entry of `Levels`. -/
def text : Level → Str
  | leech => str "Leech"
  | user => str "User"
  | moderator => str "Moderator"
  | admin => str "Admin"
  | elite => str "Elite"

end Level

/-- The class of a connection. -/
inductive ConClass
  | unknown
  | user
  | server
deriving DecidableEq, Repr

/-- `USEROPT`: options of a local user. -/
structure UserOpt where
  usermode : Nat
  hotlist : List HotlistId := []
  files : Option (NameTable DatumId) := none
  ignore : List Str := []

/-- `CONNECTION`.  `allocated` is true from `add_client` until `remove_connection` frees it. -/
structure Connection where
  allocated : Bool := false
  id : Int := 0
  port : UInt16 := 0
  ip : UInt32 := 0
  host : Str := []
  user : Option UserId := none
  cls : ConClass := .unknown
  uopt : Option UserOpt := none
  destroy : Bool := false
  killed : Bool := false
  numerics : Bool := false
  localPort : UInt16 := 0

/-- `USER`. -/
structure User where
  nick : Str := []
  pass : Str := []
  clientinfo : Str := []
  server : Str := []
  level : Level := .leech
  speed : Nat := 0
  isLocal : Bool := false
  muzzled : Bool := false
  sharing : Bool := false
  unsharing : Bool := false
  cloaked : Bool := false
  shared : UInt16 := 0
  libsize : UInt32 := 0
  ip : UInt32 := 0
  port : UInt16 := 0
  conport : UInt16 := 0
  connected : Int := 0
  channels : List ChanId := []
  con : ConId := 0
  invited : List ChanId := []

/-- `CHANUSER`. -/
structure ChanUser where
  user : UserId
  operator : Bool := false
  voice : Bool := false
  muzzled : Bool := false

/-- `BAN`. -/
structure Ban where
  target : Str
  setby : Str
  reason : Str
  time : Int
  timeout : Int
deriving DecidableEq

/-- `CHANNEL`; the flags `ON_CHANNEL_USER` and so on are one field each. -/
structure Channel where
  name : Str := []
  topic : Str := []
  ops : List Str := []
  users : List ChanUser := []
  limit : UInt16 := 0
  onUser : Bool := false
  onPrivate : Bool := false
  onModerated : Bool := false
  onInvite : Bool := false
  onTopic : Bool := false
  level : Level := .leech
  bans : List Ban := []
  timestamp : Int := 0
  invited : List UserId := []

/-- `HOTLIST`. -/
structure Hotlist where
  nick : Str := []
  users : List ConId := []

/-- `USERDB`; the flags `ON_MUZZLED` and `ON_CLOAKED` are one field each. -/
structure UserDb where
  nick : Str := []
  password : Str := []
  level : Level := .leech
  muzzled : Bool := false
  cloaked : Bool := false
  timestamp : Int := 0
  lastSeen : Int := 0

/-- `DATUM`.  The size 2^32 - 1 marks a record that is no longer valid. -/
structure Datum where
  user : Option UserId := none
  filename : Str := []
  size : UInt32 := 0
  duration : UInt16 := 0
  bitrate : Nat := 0
  frequency : Nat := 0
  type : Nat := 0
  refcount : BitVec 5 := 0

/-- `FLIST`: the bin of a word. -/
structure Flist where
  key : Str := []
  list : List DatumId := []
  count : Int := 0

/-- `LINK`: a link between two other servers. -/
structure Link where
  server : Str
  peer : Str
  port : UInt16
  peerport : UInt16
  hops : Int

/-- `DSEARCH`: a search request that was passed on to peers. -/
structure DSearch where
  con : ConId
  nick : Str
  id : Str
  count : Int
  numServers : Int
  timestamp : Int

/-- The settings read by the handlers, and the digest function of md5.c. -/
structure Config where
  serverName : Str
  strictChannels : Bool := false
  registeredOnly : Bool := false
  autoRegister : Bool := false
  ejectWhenFull : Bool := false
  channelLimit : Int := 200
  maxUserChannels : Int := 5
  maxChannelLength : Int := 0
  maxReason : Int := 0
  maxTopic : Int := 64
  maxNickLength : Int := 19
  maxClientString : Int := 0
  maxShared : Int := 5000
  maxClones : Int := 0
  maxConnections : Int := 1024
  maxSearchResults : Int := 100
  searchTimeout : Int := 180
  maxHotlist : Int := 32
  nickExpire : Int := 2678400
  motd : List Str := []
  md5 : Str → Str

/-- Why the end of a search was sent to the connection that asked. -/
inductive EndReason
  /-- the request was answered, or refused, without waiting for peers -/
  | immediate
  /-- as many peers as counted have answered or left -/
  | counted
  /-- the request was found to have been pending for so many seconds -/
  | expired (age : Int)
deriving DecidableEq, Repr

/-- What happens around a search request, in the order in which it happens. -/
inductive Traffic
  /-- the request came in on `con` -/
  | begun (id : Str) (con : ConId)
  /-- the request was passed on to the server `con` -/
  | asked (id : Str) (con : ConId)
  /-- an end for the request, which was pending, came in on `con` -/
  | answered (id : Str) (con : ConId)
  /-- a result was sent to `con` -/
  | result (id : Str) (con : ConId)
  /-- the end was sent to `con` -/
  | ended (id : Str) (con : ConId) (reason : EndReason)
  /-- the removal of the connection `con` began -/
  | leaving (con : ConId)
  /-- the connection `con` was removed -/
  | removed (con : ConId)
deriving DecidableEq, Repr

/-- A queued message. -/
structure Message where
  con : ConId
  tag : Nat
  body : Str
deriving DecidableEq, Repr

/-- The tables, lists, counters and heaps.  `next` is a number that no pointer has had yet, and
`traffic` records what happened around search requests. -/
structure Core where
  cfg : Config
  now : Int := 0
  next : Nat := 0
  clients : List (Option ConId) := []
  numClients : Nat := 0
  servers : List ConId := []
  serverLinks : List Link := []
  serverNames : List Str := []
  bans : List Ban := []
  users : NameTable UserId
  channels : NameTable ChanId
  hotlists : NameTable HotlistId
  userDb : NameTable UserDbId
  fileTable : NameTable FlistId
  filter : NameTable Str
  localFiles : Int := 0
  numFiles : Int := 0
  numGigs : Int := 0
  remoteSearch : List DSearch := []
  con : ConId → Connection := fun _ => {}
  user : UserId → User := fun _ => {}
  chan : ChanId → Channel := fun _ => {}
  hot : HotlistId → Hotlist := fun _ => {}
  db : UserDbId → UserDb := fun _ => {}
  datum : DatumId → Datum := fun _ => {}
  flist : FlistId → Flist := fun _ => {}
  traffic : List Traffic := []

/-- The whole server: its data and the messages it has queued. -/
structure Server extends Core where
  sent : List Message := []

namespace Core

@[simps] def modCon (s : Core) (con : ConId) (f : Connection → Connection) : Core :=
  { s with con := fun c => if c = con then f (s.con c) else s.con c }

@[simps] def modUser (s : Core) (user : UserId) (f : User → User) : Core :=
  { s with user := fun u => if u = user then f (s.user u) else s.user u }

@[simps] def modChan (s : Core) (chan : ChanId) (f : Channel → Channel) : Core :=
  { s with chan := fun c => if c = chan then f (s.chan c) else s.chan c }

@[simps] def modHot (s : Core) (hot : HotlistId) (f : Hotlist → Hotlist) : Core :=
  { s with hot := fun h => if h = hot then f (s.hot h) else s.hot h }

@[simps] def modDb (s : Core) (db : UserDbId) (f : UserDb → UserDb) : Core :=
  { s with db := fun d => if d = db then f (s.db d) else s.db d }

@[simps] def modDatum (s : Core) (datum : DatumId) (f : Datum → Datum) : Core :=
  { s with datum := fun d => if d = datum then f (s.datum d) else s.datum d }

@[simps] def modFlist (s : Core) (flist : FlistId) (f : Flist → Flist) : Core :=
  { s with flist := fun b => if b = flist then f (s.flist b) else s.flist b }

/-- Only what becomes of the connection's own record counts. -/
theorem modCon_congr (s : Core) (con : ConId) {f g : Connection → Connection}
    (h : f (s.con con) = g (s.con con)) : s.modCon con f = s.modCon con g := by
  have hCon : (s.modCon con f).con = (s.modCon con g).con := by
    funext c
    by_cases hc : c = con
    · subst hc
      simpa using h
    · simp [hc]
  simp only [modCon] at hCon ⊢
  rw [hCon]

theorem modUser_congr (s : Core) (user : UserId) {f g : User → User}
    (h : f (s.user user) = g (s.user user)) : s.modUser user f = s.modUser user g := by
  have hUser : (s.modUser user f).user = (s.modUser user g).user := by
    funext u
    by_cases hu : u = user
    · subst hu
      simpa using h
    · simp [hu]
  simp only [modUser] at hUser ⊢
  rw [hUser]

theorem modUser_modUser (s : Core) (user : UserId) (f g : User → User) :
    (s.modUser user f).modUser user g = s.modUser user fun u => g (f u) := by
  simp only [modUser, Core.mk.injEq, true_and, and_true]
  funext u
  split <;> rfl

theorem modChan_modChan (s : Core) (chan : ChanId) (f g : Channel → Channel) :
    (s.modChan chan f).modChan chan g = s.modChan chan fun c => g (f c) := by
  simp only [modChan, Core.mk.injEq, true_and, and_true]
  funext c
  split <;> rfl

theorem modUser_id (s : Core) (user : UserId) : s.modUser user id = s := by
  simp only [modUser, id, ite_self]

/-- A new pointer. -/
@[simps] def alloc (s : Core) : Core := { s with next := s.next + 1 }

/-- A note about a search request. -/
@[simps] def note (s : Core) (t : Traffic) : Core := { s with traffic := s.traffic ++ [t] }

end Core

end OpenNap
