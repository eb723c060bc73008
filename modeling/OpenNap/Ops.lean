import OpenNap.Dispatch

/-! The operations that every handler is made of.  The handlers differ in what they check and in
whom they tell; what they do to the tables, lists and counters is always a sequence of the
operations listed here, each performed under what the handler has checked.  An invariant is kept by
every run when it is kept by each operation. -/

namespace OpenNap

open CText

/-! ### What the invariants are about -/

/-- A connection with only its class, its user and its files. -/
def Connection.bare (c : Connection) : Connection :=
  { allocated := c.allocated
    cls := c.cls
    user := c.user
    uopt := c.uopt.map fun o => { usermode := 0, files := o.files } }

/-- A user with only its name, its connection, its channels and what it shares. -/
def User.bare (u : User) : User :=
  { nick := u.nick
    isLocal := u.isLocal
    con := u.con
    channels := u.channels
    shared := u.shared
    libsize := u.libsize }

/-- The users in the list of a channel. -/
def Channel.members (c : Channel) : List UserId := c.users.map (·.user)

/-- A channel with only its name, its members and whether users created it. -/
def Channel.bare (c : Channel) : Channel :=
  { name := c.name
    users := c.members.map fun user => { user := user }
    onUser := c.onUser }

@[simp] theorem Channel.members_bare (c : Channel) : c.bare.members = c.members := by
  simp [bare, members, Function.comp_def]

/-! The settings are what the commands of privileged users change. -/

/-- A connection with the mark of a user or a server that is to go, besides. -/
def Connection.outline (c : Connection) : Connection :=
  { c.bare with destroy := c.destroy && c.cls != .unknown }

/-- A user with its settings, besides. -/
def User.outline (u : User) : User :=
  { u.bare with level := u.level, muzzled := u.muzzled, port := u.port, speed := u.speed }

/-- A channel with its settings, besides. -/
def Channel.outline (c : Channel) : Channel :=
  { c.bare with topic := c.topic, ops := c.ops, level := c.level, limit := c.limit }

/-- A record with only its name, its password and what it says about the user. -/
def UserDb.outline (r : UserDb) : UserDb :=
  { nick := r.nick, password := r.password, level := r.level, muzzled := r.muzzled }

/-! What only some results are about: who is cloaked, invited, an operator, or waits for a user. -/

/-- A connection with its slot and its hotlists, besides. -/
def Connection.detail (c : Connection) : Connection :=
  { c.outline with
    id := c.id
    uopt := c.uopt.map fun o => { usermode := 0, hotlist := o.hotlist, files := o.files, ignore := o.ignore } }

/-- A user with the cloak and the invitations, besides. -/
def User.detail (u : User) : User := { u.outline with cloaked := u.cloaked, invited := u.invited }

/-- A channel with its operators and the users who are invited, besides. -/
def Channel.detail (c : Channel) : Channel :=
  { c.outline with
    users := c.users.map fun member => { user := member.user, operator := member.operator }
    invited := c.invited }

/-- A record with the mark of a cloaked user, besides. -/
def UserDb.detail (r : UserDb) : UserDb := { r.outline with cloaked := r.cloaked }

@[simp] theorem Connection.bare_outline (c : Connection) : c.outline.bare = c.bare := by
  cases h : c.uopt <;> simp [outline, bare, h]

@[simp] theorem Connection.bare_bare (c : Connection) : c.bare.bare = c.bare := by
  cases h : c.uopt <;> simp [bare, h]

@[simp] theorem User.bare_outline (u : User) : u.outline.bare = u.bare := rfl

@[simp] theorem User.bare_bare (u : User) : u.bare.bare = u.bare := rfl

@[simp] theorem Channel.bare_outline (c : Channel) : c.outline.bare = c.bare := by
  simp [outline, bare, members, Function.comp_def]

@[simp] theorem Connection.bare_detail (c : Connection) : c.detail.bare = c.bare := by
  cases h : c.uopt <;> simp [detail, outline, bare, h]

@[simp] theorem Connection.outline_detail (c : Connection) : c.detail.outline = c.outline := by
  rw [outline, bare_detail]
  simp [detail, outline, bare]

@[simp] theorem User.bare_detail (u : User) : u.detail.bare = u.bare := rfl

@[simp] theorem User.outline_detail (u : User) : u.detail.outline = u.outline := rfl

@[simp] theorem Channel.bare_detail (c : Channel) : c.detail.bare = c.bare := by
  simp [detail, outline, bare, members, Function.comp_def]

@[simp] theorem Channel.outline_detail (c : Channel) : c.detail.outline = c.outline := by
  rw [outline, bare_detail]
  rfl

@[simp] theorem UserDb.outline_detail (r : UserDb) : r.detail.outline = r.outline := rfl

namespace Core

/-- The data without what plays no part in the invariants. -/
def skeleton (s : Core) : Core :=
  { s with
    clients := []
    numClients := 0
    serverLinks := []
    serverNames := []
    bans := []
    hotlists := Bucket.Table.empty byName HotlistId 521 pos_521
    userDb := Bucket.Table.empty byName UserDbId 257 pos_257
    con := fun c => (s.con c).bare
    user := fun u => (s.user u).bare
    chan := fun c => (s.chan c).bare
    hot := fun _ => {}
    db := fun _ => {} }

/-- The same with the settings. -/
def outline (s : Core) : Core :=
  { s.skeleton with
    bans := s.bans
    userDb := s.userDb
    con := fun c => (s.con c).outline
    user := fun u => (s.user u).outline
    chan := fun c => (s.chan c).outline
    db := fun d => (s.db d).outline }

/-- The outline without the settings of users. -/
def channelOutline (s : Core) : Core :=
  { s.outline with con := fun c => (s.con c).bare, user := fun u => (s.user u).bare }

/-- All that any result is about. -/
def detail (s : Core) : Core :=
  { s.outline with
    clients := s.clients
    numClients := s.numClients
    hotlists := s.hotlists
    con := fun c => (s.con c).detail
    user := fun u => (s.user u).detail
    chan := fun c => (s.chan c).detail
    hot := s.hot
    db := fun d => (s.db d).detail }

/-- The same without what a privileged user changes of another one, the level apart, and with what
members of channels may say. -/
def personal (s : Core) : Core :=
  { s.detail with
    con := fun c => { (s.con c).detail with destroy := false }
    user := fun u => { (s.user u).detail with muzzled := false, port := 0, speed := 0 }
    chan := fun c => { (s.chan c).detail with users := (s.chan c).users } }

/-- No member of a channel has a voice and is muzzled there. -/
def FlagsApart (s : Core) : Prop :=
  ∀ chan, ∀ member ∈ (s.chan chan).users, member.voice = true → member.muzzled = false

theorem FlagsApart.of_chan {s t : Core} (h : s.FlagsApart) (hChan : t.chan = s.chan) :
    t.FlagsApart := by
  intro chan member hMem
  rw [hChan] at hMem
  exact h chan member hMem

theorem FlagsApart.modChan {s : Core} (h : s.FlagsApart) (chan : ChanId) {f : Channel → Channel}
    (hUsers : ∀ member ∈ (f (s.chan chan)).users, member.voice = true → member.muzzled = false) :
    (s.modChan chan f).FlagsApart := by
  intro c member hMem
  by_cases hc : c = chan
  · subst hc
    exact hUsers member (by simpa using hMem)
  · exact h c member (by simpa [hc] using hMem)

/-- What sets the flags of a member so that they are apart keeps them apart. -/
theorem FlagsApart.modMember {s : Core} (h : s.FlagsApart) (chan : ChanId) (user : UserId)
    {f : ChanUser → ChanUser} (hf : ∀ member, (member.voice = true → member.muzzled = false) →
      (f member).voice = true → (f member).muzzled = false) :
    (s.modChan chan fun c =>
      { c with users := c.users.map fun member => if member.user = user then f member else member
        }).FlagsApart := by
  refine h.modChan chan fun member hMem => ?_
  obtain ⟨old, hOld, rfl⟩ := List.mem_map.1 hMem
  split
  · exact hf old (h chan old hOld)
  · exact h chan old hOld

theorem skeleton_modCon (s : Core) (con : ConId) {f : Connection → Connection}
    (h : (f (s.con con)).bare = (s.con con).bare) : (s.modCon con f).skeleton = s.skeleton := by
  have hCon : (fun c => ((s.modCon con f).con c).bare) = fun c => (s.con c).bare := by
    funext c
    by_cases hc : c = con
    · subst hc
      simpa using h
    · simp [hc]
  simp only [skeleton, hCon]
  rfl

theorem skeleton_modUser (s : Core) (user : UserId) {f : User → User}
    (h : (f (s.user user)).bare = (s.user user).bare) : (s.modUser user f).skeleton = s.skeleton := by
  have hUser : (fun u => ((s.modUser user f).user u).bare) = fun u => (s.user u).bare := by
    funext u
    by_cases hu : u = user
    · subst hu
      simpa using h
    · simp [hu]
  simp only [skeleton, hUser]
  rfl

theorem skeleton_modChan (s : Core) (chan : ChanId) {f : Channel → Channel}
    (h : (f (s.chan chan)).bare = (s.chan chan).bare) : (s.modChan chan f).skeleton = s.skeleton := by
  have hChan : (fun c => ((s.modChan chan f).chan c).bare) = fun c => (s.chan c).bare := by
    funext c
    by_cases hc : c = chan
    · subst hc
      simpa using h
    · simp [hc]
  simp only [skeleton, hChan]
  rfl

@[simp] theorem skeleton_modDb (s : Core) (db : UserDbId) (f : UserDb → UserDb) :
    (s.modDb db f).skeleton = s.skeleton := rfl

@[simp] theorem skeleton_modHot (s : Core) (hot : HotlistId) (f : Hotlist → Hotlist) :
    (s.modHot hot f).skeleton = s.skeleton := rfl

theorem skeleton_of_outline {s t : Core} (h : t.outline = s.outline) : t.skeleton = s.skeleton := by
  have hTwice (u : Core) : u.outline.skeleton = u.skeleton := by
    simp only [outline, skeleton, Connection.bare_outline, User.bare_outline, Channel.bare_outline]
  rw [← hTwice t, h, hTwice s]

theorem outline_of_detail {s t : Core} (h : t.detail = s.detail) : t.outline = s.outline := by
  have hTwice (u : Core) : u.detail.outline = u.outline := by
    simp only [detail, outline, skeleton, Connection.outline_detail, Connection.bare_detail,
      User.outline_detail, User.bare_detail, Channel.outline_detail, Channel.bare_detail,
      UserDb.outline_detail]
  rw [← hTwice t, h, hTwice s]

theorem channelOutline_of_personal {s t : Core} (h : t.personal = s.personal) :
    t.channelOutline = s.channelOutline := by
  have hTwice (u : Core) : u.personal.channelOutline = u.channelOutline := by
    have hCon (c : Connection) : ({ c.detail with destroy := false } : Connection).bare = c.bare := by
      rw [← c.bare_detail]
      rfl
    have hUser (v : User) :
        ({ v.detail with muzzled := false, port := 0, speed := 0 } : User).bare = v.bare := rfl
    have hChan (c : Channel) :
        ({ c.detail with users := c.users } : Channel).outline = c.outline := rfl
    simp only [personal, detail, channelOutline, outline, skeleton, hCon, hUser, hChan,
      UserDb.outline_detail]
  rw [← hTwice t, h, hTwice s]

theorem skeleton_of_channelOutline {s t : Core} (h : t.channelOutline = s.channelOutline) :
    t.skeleton = s.skeleton := by
  have hTwice (u : Core) : u.channelOutline.skeleton = u.skeleton := by
    simp only [channelOutline, outline, skeleton, Connection.bare_bare, User.bare_bare,
      Channel.bare_outline]
  rw [← hTwice t, h, hTwice s]

theorem outline_modCon (s : Core) (con : ConId) {f : Connection → Connection}
    (h : (f (s.con con)).outline = (s.con con).outline) : (s.modCon con f).outline = s.outline := by
  have hCon : (fun c => ((s.modCon con f).con c).outline) = fun c => (s.con c).outline := by
    funext c
    by_cases hc : c = con
    · subst hc
      simpa using h
    · simp [hc]
  simp only [outline, hCon]
  rfl

theorem outline_modUser (s : Core) (user : UserId) {f : User → User}
    (h : (f (s.user user)).outline = (s.user user).outline) :
    (s.modUser user f).outline = s.outline := by
  have hUser : (fun u => ((s.modUser user f).user u).outline) = fun u => (s.user u).outline := by
    funext u
    by_cases hu : u = user
    · subst hu
      simpa using h
    · simp [hu]
  simp only [outline, hUser]
  rfl

theorem outline_modChan (s : Core) (chan : ChanId) {f : Channel → Channel}
    (h : (f (s.chan chan)).outline = (s.chan chan).outline) :
    (s.modChan chan f).outline = s.outline := by
  have hChan : (fun c => ((s.modChan chan f).chan c).outline) = fun c => (s.chan c).outline := by
    funext c
    by_cases hc : c = chan
    · subst hc
      simpa using h
    · simp [hc]
  simp only [outline, hChan]
  rfl

theorem outline_modDb (s : Core) (db : UserDbId) {f : UserDb → UserDb}
    (h : (f (s.db db)).outline = (s.db db).outline) : (s.modDb db f).outline = s.outline := by
  have hDb : (fun d => ((s.modDb db f).db d).outline) = fun d => (s.db d).outline := by
    funext d
    by_cases hd : d = db
    · subst hd
      simpa using h
    · simp [hd]
  simp only [outline, hDb]
  rfl

theorem channelOutline_modDb (s : Core) (db : UserDbId) {f : UserDb → UserDb}
    (h : (f (s.db db)).outline = (s.db db).outline) :
    (s.modDb db f).channelOutline = s.channelOutline := by
  have hDb : (fun d => ((s.modDb db f).db d).outline) = fun d => (s.db d).outline :=
    congrArg Core.db (s.outline_modDb db h)
  simp only [channelOutline, outline, hDb]
  rfl

theorem channelOutline_modUser (s : Core) (user : UserId) {f : User → User}
    (h : (f (s.user user)).bare = (s.user user).bare) :
    (s.modUser user f).channelOutline = s.channelOutline := by
  have hUser : (fun u => ((s.modUser user f).user u).bare) = fun u => (s.user u).bare :=
    congrArg Core.user (s.skeleton_modUser user h)
  simp only [channelOutline, hUser]
  rfl

theorem channelOutline_modCon (s : Core) (con : ConId) {f : Connection → Connection}
    (h : (f (s.con con)).bare = (s.con con).bare) :
    (s.modCon con f).channelOutline = s.channelOutline := by
  have hCon : (fun c => ((s.modCon con f).con c).bare) = fun c => (s.con c).bare :=
    congrArg Core.con (s.skeleton_modCon con h)
  simp only [channelOutline, hCon]
  rfl

theorem detail_modCon (s : Core) (con : ConId) {f : Connection → Connection}
    (h : (f (s.con con)).detail = (s.con con).detail) : (s.modCon con f).detail = s.detail := by
  have hCon : (fun c => ((s.modCon con f).con c).detail) = fun c => (s.con c).detail := by
    funext c
    by_cases hc : c = con
    · subst hc
      simpa using h
    · simp [hc]
  simp only [detail, hCon]
  rfl

theorem detail_modUser (s : Core) (user : UserId) {f : User → User}
    (h : (f (s.user user)).detail = (s.user user).detail) :
    (s.modUser user f).detail = s.detail := by
  have hUser : (fun u => ((s.modUser user f).user u).detail) = fun u => (s.user u).detail := by
    funext u
    by_cases hu : u = user
    · subst hu
      simpa using h
    · simp [hu]
  simp only [detail, hUser]
  rfl

theorem detail_modChan (s : Core) (chan : ChanId) {f : Channel → Channel}
    (h : (f (s.chan chan)).detail = (s.chan chan).detail) :
    (s.modChan chan f).detail = s.detail := by
  have hChan : (fun c => ((s.modChan chan f).chan c).detail) = fun c => (s.chan c).detail := by
    funext c
    by_cases hc : c = chan
    · subst hc
      simpa using h
    · simp [hc]
  simp only [detail, hChan]
  rfl

theorem detail_modDb (s : Core) (db : UserDbId) {f : UserDb → UserDb}
    (h : (f (s.db db)).detail = (s.db db).detail) : (s.modDb db f).detail = s.detail := by
  have hDb : (fun d => ((s.modDb db f).db d).detail) = fun d => (s.db d).detail := by
    funext d
    by_cases hd : d = db
    · subst hd
      simpa using h
    · simp [hd]
  simp only [detail, hDb]
  rfl

theorem personal_modUser (s : Core) (user : UserId) {f : User → User}
    (h : { (f (s.user user)).detail with muzzled := false, port := 0, speed := 0 } =
      { (s.user user).detail with muzzled := false, port := 0, speed := 0 }) :
    (s.modUser user f).personal = s.personal := by
  have hUser : (fun u =>
      { ((s.modUser user f).user u).detail with muzzled := false, port := 0, speed := 0 }) =
      fun u => { (s.user u).detail with muzzled := false, port := 0, speed := 0 } := by
    funext u
    by_cases hu : u = user
    · subst hu
      simpa using h
    · simp [hu]
  simp only [personal, hUser]
  rfl

theorem personal_modCon (s : Core) (con : ConId) {f : Connection → Connection}
    (h : { (f (s.con con)).detail with destroy := false } =
      { (s.con con).detail with destroy := false }) :
    (s.modCon con f).personal = s.personal := by
  have hCon : (fun c => { ((s.modCon con f).con c).detail with destroy := false }) =
      fun c => { (s.con c).detail with destroy := false } := by
    funext c
    by_cases hc : c = con
    · subst hc
      simpa using h
    · simp [hc]
  simp only [personal, hCon]
  rfl

theorem bare_con {s t : Core} (h : t.skeleton = s.skeleton) (c : ConId) :
    (t.con c).bare = (s.con c).bare :=
  congrFun (congrArg Core.con h) c

theorem bare_user {s t : Core} (h : t.skeleton = s.skeleton) (u : UserId) :
    (t.user u).bare = (s.user u).bare :=
  congrFun (congrArg Core.user h) u

theorem bare_chan {s t : Core} (h : t.skeleton = s.skeleton) (c : ChanId) :
    (t.chan c).bare = (s.chan c).bare :=
  congrFun (congrArg Core.chan h) c

end Core

/-! ### The operations -/

/-- The operations that some results only allow under a condition on the state. -/
inductive Label
  /-- a new connection takes a slot -/
  | accept
  /-- a local user adds a file of so many kB -/
  | insert (user : UserId) (kb : UInt32)
  /-- a local user removes a file -/
  | unshare
  /-- a peer reports how much a user shares -/
  | report (user : UserId) (shared : Int)
  /-- a request is passed on to the peers -/
  | forward (con : ConId) (id : Str)
  /-- an end of a request comes in -/
  | answer (con : ConId) (id : Str)
  /-- the requests of a connection are cancelled because it is removed -/
  | cancel (con : ConId)
  /-- a record of a registered user is made or changed -/
  | account
  /-- a record is dropped -/
  | drop (db : UserDbId)
  /-- the record of a user who is no moderator says that the user is cloaked -/
  | indiscreet
  /-- a user comes or goes, or another one's settings are changed -/
  | person
  /-- a ban is added -/
  | ban (b : Ban)
  /-- bans are taken out -/
  | unban
  /-- a user enters a channel -/
  | enter (user : UserId)
  /-- a connection is put on a hotlist -/
  | wait (con : ConId)

/-- Whether an operation is about users, their accounts or bans. -/
def Label.isSetting : Label → Bool
  | account | drop _ | indiscreet | person | ban _ | unban => true
  | _ => false

/-- Whether an operation is about where users are listed. -/
def Label.isListing : Label → Bool
  | enter _ | wait _ => true
  | _ => false

namespace Core

/-- A new record of a registered user. -/
def addRecord (s : Core) (r : UserDb) : Core :=
  { s.alloc.modDb s.next fun _ => r with userDb := s.userDb.add r.nick s.next }

/-- The report of a peer on what a user shares. -/
def reportShared (s : Core) (user : UserId) (shared : UInt16) (libsize : UInt32) (files : Int) :
    Core :=
  let s := { s with
    numFiles := toInt32 (s.numFiles + (files - (s.user user).shared.toNat))
    numGigs := s.numGigs + ((libsize.toNat : Int) - (s.user user).libsize.toNat) }
  s.modUser user fun u => { u with shared := shared, libsize := libsize }

/-- A request came in on `con` and was answered at once, after `n` results. -/
def finishSearch (s : Core) (con : ConId) (id : Str) (n : Nat) : Core :=
  { s with
    traffic := s.traffic ++ .begun id con :: (List.replicate n (.result id con) ++
      [.ended id con .immediate]) }

/-- A request came in on `con` and was passed on, after `n` results. -/
def forwardSearch (s : Core) (con : ConId) (nick id : Str) (n : Nat) : Core :=
  let peers := s.servers.filter (· != con)
  { s with
    remoteSearch := s.remoteSearch ++
      [{ con := con
         nick := nick
         id := id
         count := 0
         numServers := toShort (s.servers.length - if s.isServer con then 1 else 0)
         timestamp := s.now }]
    traffic := s.traffic ++ .begun id con :: (List.replicate n (.result id con) ++
      peers.map (.asked id ·)) }

/-- Some of the pending requests have expired; `rest` is what stays of them. -/
def expireSearches (s : Core) (gone rest : List DSearch) : Core :=
  { s with
    remoteSearch := rest
    traffic := s.traffic ++ gone.map fun d => .ended d.id d.con (.expired (s.now - d.timestamp)) }

/-- An end for a request came in on `con`. -/
def answerSearch (s : Core) (con : ConId) (id : Str) : Core :=
  match s.remoteSearch.find? (·.id == id) with
  | none => s
  | some d =>
    let s := s.note (.answered id con)
    let count := toShort (d.count + 1)
    if count = d.numServers then
      { s.note (.ended d.id d.con .counted) with
        remoteSearch := s.remoteSearch.eraseP fun e => e.id == id }
    else
      { s with
        remoteSearch := s.remoteSearch.replaceF fun e =>
          if e.id = id then some { e with count := count } else none }

/-- A pending request as `cancel_search` sees it. -/
def cancelView (s : Core) (con : ConId) (d : DSearch) : DSearch :=
  if s.isServer con then { d with numServers := toShort (d.numServers - 1) } else d

/-- The requests that are ended because `con` goes. -/
def cancelDone (s : Core) (con : ConId) : List DSearch :=
  (s.remoteSearch.map (s.cancelView con)).filter fun d =>
    d.con != con && decide (d.numServers ≤ d.count)

/-- The requests that are still pending when `con` has gone. -/
def cancelKept (s : Core) (con : ConId) : List DSearch :=
  (s.remoteSearch.map (s.cancelView con)).filter fun d =>
    d.con != con && !decide (d.numServers ≤ d.count)

/-- The requests of a connection that goes are dropped, and those that only waited for it ended. -/
def cancelSearch (s : Core) (con : ConId) : Core :=
  { s with
    remoteSearch := s.cancelKept con
    traffic := s.traffic ++ (s.cancelDone con).map fun d => .ended d.id d.con .counted }

/-- The member of a channel with that nick, if there is one, becomes an operator or no longer is. -/
def markOperator (s : Core) (chan : ChanId) (nick : Str) (value : Bool) : Core :=
  match (s.users.lookup nick).filter fun user => (s.findChanuser chan user).isSome with
  | some user => s.setOperator chan user value
  | none => s

/-- A nick is put on the list of the operators of a channel. -/
def addOperator (s : Core) (chan : ChanId) (nick : Str) : Core :=
  (s.modChan chan fun c => { c with ops := c.ops ++ [nick] }).markOperator chan nick true

/-- A nick is taken off the list of the operators of a channel. -/
def dropOperator (s : Core) (chan : ChanId) (nick : Str) : Core :=
  (s.modChan chan fun c =>
    { c with ops := c.ops.eraseP fun op => sameText op nick }).markOperator chan nick false

/-- A user who enters a channel is an operator there when the list of operators has the nick. -/
def enterAs (s : Core) (user : UserId) (chan : ChanId) : Core :=
  if (s.chan chan).ops.any (sameText (s.user user).nick) then
    (s.enterChannel user chan).setOperator chan user true
  else s.enterChannel user chan

/-- A level that is set for a user: who is no moderator is not cloaked. -/
def setLevel (s : Core) (user : UserId) (level : Level) : Core :=
  s.modUser user fun u =>
    { u with level := level, cloaked := u.cloaked && decide (Level.moderator ≤ level) }

end Core

/-- What a user is like who has just logged in. -/
structure User.Fresh (cfg : Config) (u : User) : Prop where
  valid : invalidNick cfg u.nick = false
  level : u.level = .user
  cloaked : u.cloaked = false
  invited : u.invited = []

/-- One operation on who is cloaked, invited or waits for a user. -/
inductive FineOp (ok : Label → Core → Prop) : Core → Core → Prop
  | uncloak (s : Core) (user : UserId) :
      FineOp ok s (s.modUser user fun u => { u with cloaked := false })
  | cloak {s : Core} {user : UserId} (hMay : Level.moderator ≤ (s.user user).level ∨
        ∃ db, s.userDb.lookup (s.user user).nick = some db ∧ (s.db db).cloaked = true ∧
          (s.db db).level = (s.user user).level) :
      FineOp ok s (s.modUser user fun u => { u with cloaked := true })
  | cloakRecord {s : Core} {db : UserDbId} {value : Bool}
      (hOk : value = true → Level.moderator ≤ (s.db db).level ∨ ok .indiscreet s) :
      FineOp ok s (s.modDb db fun r => { r with cloaked := value, timestamp := s.now })
  | invite {s : Core} {user : UserId} {chan : ChanId} (hUser : user ∈ s.users.values)
      (hChan : chan ∈ s.channels.values) (hNew : chan ∉ (s.user user).invited) :
      FineOp ok s (s.invite user chan)
  | uninvite (s : Core) (user : UserId) (chan : ChanId) : FineOp ok s (s.uninvite user chan)
  | wait {s : Core} {con : ConId} {nick : Str} {hot : HotlistId}
      (hOpen : (s.con con).allocated = true) (hClass : (s.con con).cls = .user)
      (hName : s.hotlists.lookup nick = some hot) (hNew : con ∉ (s.hot hot).users)
      (hOk : ok (.wait con) s) : FineOp ok s (s.listHotlist con hot)
  | waitNew {s : Core} {con : ConId} {nick : Str} (hOpen : (s.con con).allocated = true)
      (hClass : (s.con con).cls = .user) (hNone : s.hotlists.lookup nick = none)
      (hOk : ok (.wait con) s) : FineOp ok s ((s.newHotlist nick).listHotlist con s.next)
  | unlist {s : Core} {con : ConId} {nick : Str} {hot : HotlistId}
      (hName : s.hotlists.lookup nick = some hot) : FineOp ok s (s.unlistHotlist con hot)

namespace Core

/-- What is stored with a member makes no difference to the outline. -/
theorem outline_modMember (s : Core) (chan : ChanId) (user : UserId) {f : ChanUser → ChanUser}
    (h : ∀ member, (f member).user = member.user) :
    (s.modChan chan fun c =>
      { c with users := c.users.map fun member => if member.user = user then f member else member }).outline =
      s.outline := by
  refine s.outline_modChan chan ?_
  have hUser (member : ChanUser) :
      (if member.user = user then f member else member).user = member.user := by
    split
    · exact h member
    · rfl
  simp [Channel.outline, Channel.bare, Channel.members, Function.comp_def, hUser]

theorem outline_setOperator (s : Core) (chan : ChanId) (user : UserId) (value : Bool) :
    (s.setOperator chan user value).outline = s.outline :=
  s.outline_modMember chan user fun _ => rfl

theorem outline_invite (s : Core) (user : UserId) (chan : ChanId) :
    (s.invite user chan).outline = s.outline := by
  simp only [invite]
  rw [outline_modChan _ _ rfl, outline_modUser _ _ rfl]

theorem outline_uninvite (s : Core) (user : UserId) (chan : ChanId) :
    (s.uninvite user chan).outline = s.outline := by
  simp only [uninvite]
  rw [outline_modUser _ _ rfl, outline_modChan _ _ rfl]

theorem outline_modHotlist (s : Core) (con : ConId) (f : List HotlistId → List HotlistId) :
    (s.modCon con fun c =>
      { c with uopt := c.uopt.map fun o => { o with hotlist := f o.hotlist } }).outline = s.outline := by
  refine s.outline_modCon con ?_
  cases h : (s.con con).uopt <;> simp [Connection.outline, Connection.bare, h]

theorem outline_listHotlist (s : Core) (con : ConId) (hot : HotlistId) :
    (s.listHotlist con hot).outline = s.outline := by
  simp only [listHotlist]
  rw [outline_modHotlist _ con (hot :: ·)]
  rfl

theorem outline_leaveHotlist (s : Core) (con : ConId) (hot : HotlistId) :
    (s.leaveHotlist con hot).outline = s.outline := by
  simp only [leaveHotlist]
  split <;> rfl

theorem outline_unlistHotlist (s : Core) (con : ConId) (hot : HotlistId) :
    (s.unlistHotlist con hot).outline = s.outline := by
  simp only [unlistHotlist]
  rw [outline_leaveHotlist, outline_modHotlist _ con (·.erase hot)]

end Core

/-- Such an operation changes neither the registry, nor the channels, nor any settings. -/
theorem FineOp.outline {ok : Label → Core → Prop} {s t : Core} (h : FineOp ok s t) :
    ∃ n, s.next ≤ n ∧ t.outline = { s with next := n }.outline := by
  cases h with
  | uncloak user => exact ⟨s.next, le_refl _, s.outline_modUser user rfl⟩
  | cloak => exact ⟨s.next, le_refl _, s.outline_modUser _ rfl⟩
  | cloakRecord => exact ⟨s.next, le_refl _, s.outline_modDb _ rfl⟩
  | invite => exact ⟨s.next, le_refl _, s.outline_invite _ _⟩
  | uninvite user chan => exact ⟨s.next, le_refl _, s.outline_uninvite user chan⟩
  | wait => exact ⟨s.next, le_refl _, s.outline_listHotlist _ _⟩
  | waitNew => exact ⟨s.next + 1, Nat.le_succ _, (s.newHotlist _).outline_listHotlist _ _⟩
  | unlist => exact ⟨s.next, le_refl _, s.outline_unlistHotlist _ _⟩

/-- One operation on the data, where `ok` says which of the labelled ones are allowed. -/
inductive Op (ok : Label → Core → Prop) : Core → Core → Prop
  | quiet {s t : Core} (h : t.detail = s.detail) (hFlags : s.FlagsApart → t.FlagsApart) : Op ok s t
  | fine {s t : Core} (h : FineOp ok s t) : Op ok s t
  | tick (s : Core) (seconds : Nat) : Op ok s { s with now := s.now + seconds }
  | addRecord {s : Core} {r : UserDb} (hCloak : r.cloaked = false) (hOk : ok .account s) :
      Op ok s (s.addRecord r)
  | setRecord {s : Core} {db : UserDbId} {f : UserDb → UserDb}
      (hNick : (f (s.db db)).nick = (s.db db).nick)
      (hCloak : (f (s.db db)).cloaked = true → Level.moderator ≤ (f (s.db db)).level ∨
        (s.db db).cloaked = true ∧ (f (s.db db)).level = (s.db db).level ∨ ok .indiscreet s)
      (hOk : ok .account s) : Op ok s (s.modDb db f)
  | dropRecord {s : Core} {db : UserDbId} (hOk : ok (.drop db) s) : Op ok s (s.removeDb db)
  | person {s t : Core} (h : t.personal = s.personal) (hOk : ok .person s) : Op ok s t
  | setUserLevel {s : Core} {user : UserId} {level : Level}
      (hRecord : level = .user ∨ ∃ db, s.userDb.lookup (s.user user).nick = some db)
      (hOk : ok .person s) : Op ok s (s.setLevel user level)
  | addBan {s : Core} {b : Ban} (hOk : ok (.ban b) s) : Op ok s (s.addBan b)
  | dropBans {s : Core} {bans : List Ban} (hBans : bans.Sublist s.bans) (hOk : ok .unban s) :
      Op ok s { s with bans := bans }
  | accept {s : Core} (ip : UInt32) (host : Str) (port localPort : UInt16) (hOk : ok .accept s) :
      Op ok s (s.accept ip host port localPort)
  | linkServer {s : Core} {con : ConId} (hOpen : (s.con con).allocated = true)
      (hClass : (s.con con).cls = .unknown) : Op ok s (s.linkServer con)
  | unlinkServer (s : Core) (con : ConId) : Op ok s (s.unlinkServer con)
  | loginLocal {s : Core} {con : ConId} {u : User} (hOpen : (s.con con).allocated = true)
      (hClass : (s.con con).cls = .unknown) (hNick : s.users.lookup u.nick = none)
      (hCon : u.con = con) (hChannels : u.channels = []) (hShared : u.shared = 0)
      (hLib : u.libsize = 0) (hOk : ok .person s) (hFresh : u.Fresh s.cfg) :
      Op ok s ((s.tieLocal con u).addUser s.next)
  | loginRemote {s : Core} {u : User} {server : Str} (hOpen : (s.con u.con).allocated = true)
      (hClass : (s.con u.con).cls = .server) (hNick : s.users.lookup u.nick = none)
      (hLocal : u.isLocal = false) (hChannels : u.channels = []) (hShared : u.shared = 0)
      (hLib : u.libsize = 0) (hOk : ok .person s) (hFresh : u.Fresh s.cfg) :
      Op ok s ((s.tieRemote u server).addUser s.next)
  | removeRemote {s : Core} {user : UserId} (hUser : user ∈ s.users.values)
      (hLocal : (s.user user).isLocal = false) (hOk : ok .person s) :
      Op ok s (s.hashRemoveUser (s.user user).nick)
  | zap {s : Core} {con : ConId} (hOpen : (s.con con).allocated = true)
      (hClass : (s.con con).cls = .user) (hOk : ok .person s) : Op ok s (s.zapLocalUser con)
  | hangUp {s : Core} {con : ConId} (hOpen : (s.con con).allocated = true)
      (hClass : (s.con con).cls = .user) (hPending : ∀ d ∈ s.remoteSearch, d.con ≠ con)
      (hOk : ok .person s) :
      Op ok s (((s.removeUser con).freeConnection con).note (.removed con))
  | close {s : Core} {con : ConId} (hOpen : (s.con con).allocated = true)
      (hClass : (s.con con).cls ≠ .user) (hUsers : ∀ u ∈ s.users.values, (s.user u).con ≠ con)
      (hPending : ∀ d ∈ s.remoteSearch, d.con ≠ con) (hLinked : con ∉ s.servers) :
      Op ok s ((s.freeConnection con).note (.removed con))
  | enter {s : Core} {user : UserId} {chan : ChanId} (hUser : user ∈ s.users.values)
      (hChan : ∃ name, s.channels.lookup name = some chan)
      (hNot : chan ∉ (s.user user).channels) (hOk : ok (.enter user) s) :
      Op ok s (s.enterAs user chan)
  | found {s : Core} {user : UserId} {name : Str} (hUser : user ∈ s.users.values)
      (hNone : s.channels.lookup name = none) (hName : invalidChannel s.cfg name = false)
      (hOk : ok (.enter user) s) : Op ok s ((s.newChannel name).enterChannel user s.next)
  | leave {s : Core} {user : UserId} {chan : ChanId} (hUser : user ∈ s.users.values)
      (hChan : chan ∈ (s.user user).channels) :
      Op ok s ((s.deleteChannel user chan).partChannel chan user)
  | dropChannel {s : Core} {chan : ChanId} {name : Str} (hName : s.channels.lookup name = some chan)
      (hEmpty : (s.chan chan).users = []) (hFlag : (s.chan chan).onUser = false) :
      Op ok s (s.hashRemoveChannel (s.chan chan).name)
  | flagChannel {s : Core} {chan : ChanId} {name : Str} (value : Bool)
      (hName : s.channels.lookup name = some chan) (hUsers : value = true → (s.chan chan).users ≠ []) :
      Op ok s (s.modChan chan fun c => { c with onUser := value })
  | setTopic {s : Core} {chan : ChanId} {topic : Str} (hPlain : ∀ c ∈ topic, c ≠ '\r' ∧ c ≠ '\n') :
      Op ok s (s.modChan chan fun c => { c with topic := topic })
  | setLevel (s : Core) (chan : ChanId) (level : Level) :
      Op ok s (s.modChan chan fun c => { c with level := level })
  | setLimit (s : Core) (chan : ChanId) (limit : UInt16) :
      Op ok s (s.modChan chan fun c => { c with limit := limit })
  | addOperator {s : Core} {chan : ChanId} {nick : Str} (hNick : invalidNick s.cfg nick = false)
      (hNew : ∀ op ∈ (s.chan chan).ops, sameText op nick = false) :
      Op ok s (s.addOperator chan nick)
  | dropOperator (s : Core) (chan : ChanId) (nick : Str) : Op ok s (s.dropOperator chan nick)
  | insert {s : Core} {con : ConId} {user : UserId} {info : Datum}
      (hOpen : (s.con con).allocated = true) (hClass : (s.con con).cls = .user)
      (hUser : (s.con con).user = some user) (hNew : s.lookupFile con info.filename = none)
      (hOk : ok (.insert user (info.size / 1024)) s) : Op ok s (s.insertDatum con user info)
  | dropFile {s : Core} {con : ConId} {user : UserId} {d : DatumId} {name : Str}
      (hOpen : (s.con con).allocated = true) (hClass : (s.con con).cls = .user)
      (hUser : (s.con con).user = some user) (hFile : s.lookupFile con name = some d)
      (hOk : ok .unshare s) : Op ok s (s.dropFile con user d)
  | report {s : Core} {user : UserId} {shared : UInt16} {libsize : UInt32} {files : Int}
      (hUser : user ∈ s.users.values)
      (hOk : ok (.report user files) s)
      (hShared : (0 ≤ files ∧ shared = toUshort files) ∨ (files = 0 ∧ shared = 0)) :
      Op ok s (s.reportShared user shared libsize files)
  | collect (s : Core) : Op ok s s.fdbGarbageCollect
  | finishSearch {s : Core} {con : ConId} (id : Str) (n : Nat)
      (hOpen : (s.con con).allocated = true) : Op ok s (s.finishSearch con id n)
  | forwardSearch {s : Core} {con : ConId} (nick id : Str) (n : Nat)
      (hOpen : (s.con con).allocated = true) (hPeers : Server.hasPeers s con = true)
      (hOk : ok (.forward con id) s) : Op ok s (s.forwardSearch con nick id n)
  | result {s : Core} {d : DSearch} (hPending : d ∈ s.remoteSearch) :
      Op ok s (s.note (.result d.id d.con))
  | expire {s : Core} {gone rest : List DSearch} (hPerm : s.remoteSearch.Perm (gone ++ rest))
      (hRest : rest.Sublist s.remoteSearch)
      (hAge : ∀ d ∈ gone, d.timestamp + s.cfg.searchTimeout < s.now) :
      Op ok s (s.expireSearches gone rest)
  | answer {s : Core} (con : ConId) (id : Str) (hOk : ok (.answer con id) s) :
      Op ok s (s.answerSearch con id)
  | cancel {s : Core} {con : ConId} (hOpen : (s.con con).allocated = true)
      (hOk : ok (.cancel con) s) : Op ok s ((s.note (.leaving con)).cancelSearch con)

namespace Op

variable {ok : Label → Core → Prop}

/-- Any number of operations. -/
abbrev Path (ok : Label → Core → Prop) : Core → Core → Prop := Runs.Path (Op ok)

theorem path {s t : Core} (h : Op ok s t) : Path ok s t := .single h

theorem quietPath {s t : Core} (h : t.detail = s.detail) (hFlags : s.FlagsApart → t.FlagsApart) :
    Path ok s t := (Op.quiet h hFlags).path

theorem finePath {s t : Core} (h : FineOp ok s t) : Path ok s t := (Op.fine h).path

end Op

end OpenNap
