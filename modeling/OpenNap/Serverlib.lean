import OpenNap.State

/-! What the handlers share: the functions that queue messages, and the one that finds out who sent
a message.  Queueing a message changes nothing but the record of what was queued, which is what the
lemmas about `toCore` say. -/

namespace OpenNap

open CText

/-- `ISUSER (con)`. -/
def Core.isUser (s : Core) (con : ConId) : Bool := (s.con con).cls == .user

/-- `ISSERVER (con)`. -/
def Core.isServer (s : Core) (con : ConId) : Bool := (s.con con).cls == .server

/-- `ISUNKNOWN (con)`. -/
def Core.isUnknown (s : Core) (con : ConId) : Bool := (s.con con).cls == .unknown

/-- What `snprintf` leaves of a text in the part of `Buf` after the packet header. -/
def clip (body : Str) : Str := body.take 2043

theorem clip_of_fits {body : Str} (h : body.length ≤ 2043) : clip body = body :=
  List.take_of_length_le h

/-- `my_ntoa`: the bytes of an address, the first one lowest in the word. -/
def myNtoa (ip : UInt32) : Str :=
  let n := ip.toNat
  showNat (n % 256) ++ str "." ++ showNat (n / 256 % 256) ++ str "." ++
    showNat (n / 65536 % 256) ++ str "." ++ showNat (n / 16777216)

/-- `truncate_reason`. -/
def truncateReason (cfg : Config) (reason : Str) : Str :=
  if cfg.maxReason > 0 && reason.length > cfg.maxReason.toNat then reason.take cfg.maxReason.toNat
  else reason

namespace Server

/-- A change of the data alone. -/
def onCore (s : Server) (f : Core → Core) : Server := { s with toCore := f s.toCore }

/-- `queue_data`. -/
def queueData (s : Server) (con : ConId) (tag : Nat) (body : Str) : Server :=
  { s with sent := s.sent ++ [⟨con, tag, body⟩] }

/-- `send_cmd`. -/
def sendCmd (s : Server) (con : ConId) (tag : Nat) (body : Str) : Server :=
  s.queueData con tag (clip body)

/-- `send_cmd_pre`: a client that does not know the number is sent a text. -/
def sendCmdPre (s : Server) (con : ConId) (tag : Nat) (lead body : Str) : Server :=
  if (s.con con).numerics then s.queueData con tag (clip body)
  else s.queueData con msgServerNosuch (clip (lead ++ body))

/-- `if (ISUSER (con)) send_cmd (con, ...)`. -/
def sendIfUser (s : Server) (con : ConId) (tag : Nat) (body : Str) : Server :=
  if s.isUser con then s.sendCmd con tag body else s

/-- `pass_message`: to every peer but the one named. -/
def passMessage (s : Server) (except : Option ConId) (tag : Nat) (body : Str) : Server :=
  s.servers.foldl (fun s con => if some con = except then s else s.queueData con tag body) s

/-- `pass_message_args`. -/
def passMessageArgs (s : Server) (except : Option ConId) (tag : Nat) (body : Str) : Server :=
  s.passMessage except tag (clip body)

/-- The header of a packet: its length and its number, low byte first. -/
def packetHeader (len tag : Nat) : Str :=
  [Char.ofNat (len % 256), Char.ofNat (len / 256 % 256),
    Char.ofNat (tag % 256), Char.ofNat (tag / 256 % 256)]

/-- `send_user`: straight to a local user, else wrapped for the server the user is behind. -/
def sendUser (s : Server) (user : UserId) (tag : Nat) (body : Str) : Server :=
  let u := s.user user
  if u.isLocal then s.queueData u.con tag (clip body)
  else
    let target := clip (str ":" ++ s.cfg.serverName ++ str " " ++ u.nick ++ str " ")
    let inner := body.take (2039 - target.length)
    s.queueData u.con msgServerEncapsulated (target ++ packetHeader inner.length tag ++ inner)

/-- Whether the occupant of a slot is sent notices of a mode. -/
def wantsNotice (s : Core) (mode : Nat) (con : ConId) : Bool :=
  match (s.con con).user, (s.con con).uopt with
  | some user, some uopt =>
    s.isUser con && decide (Level.moderator ≤ (s.user user).level) && uopt.usermode &&& mode != 0
  | _, _ => false

/-- `notify_mods`. -/
def notifyMods (s : Server) (mode : Nat) (body : Str) : Server :=
  s.clients.foldl (fun s slot =>
    match slot with
    | some con =>
      if wantsNotice s.toCore mode con then s.queueData con msgServerNosuch (clip body) else s
    | none => s) s

/-- `notify_ops`, whose buffer is shorter than `Buf`. -/
def notifyOps (s : Server) (chan : ChanId) (body : Str) : Server :=
  (s.chan chan).users.foldl (fun s member =>
    let u := s.user member.user
    if s.isUser u.con && (member.operator || decide (Level.user < u.level)) then
      s.queueData u.con msgServerNosuch (body.take 251)
    else s) s

/-- `unparsable`. -/
def unparsable (s : Server) (con : ConId) : Server :=
  s.sendIfUser con msgServerNosuch (str "parameters are unparsable")

/-- `nosuchuser`. -/
def nosuchuser (s : Server) (con : ConId) : Server :=
  s.sendIfUser con msgServerNosuch (str "User is not currently online.")

/-- `nosuchchannel`. -/
def nosuchchannel (s : Server) (con : ConId) : Server :=
  s.sendIfUser con msgServerNosuch (str "no such channel")

/-- `permission_denied`. -/
def permissionDenied (s : Server) (con : ConId) : Server :=
  s.sendIfUser con msgServerNosuch (str "permission denied")

/-- `invalid_channel_msg`. -/
def invalidChannelMsg (s : Server) (con : ConId) : Server :=
  s.sendIfUser con msgServerNosuch (str "invalid channel")

/-- `invalid_nick_msg`. -/
def invalidNickMsg (s : Server) (con : ConId) : Server :=
  s.sendIfUser con msgServerNosuch (str "invalid nickname")

/-! ### Messages leave the data alone -/

theorem toCore_ite (c : Prop) [Decidable c] (s t : Server) :
    (if c then s else t).toCore = if c then s.toCore else t.toCore := by
  split <;> rfl

@[simp] theorem toCore_onCore (s : Server) (f : Core → Core) :
    (s.onCore f).toCore = f s.toCore := rfl

@[simp] theorem sent_onCore (s : Server) (f : Core → Core) : (s.onCore f).sent = s.sent := rfl

@[simp] theorem toCore_queueData (s : Server) (con : ConId) (tag : Nat) (body : Str) :
    (s.queueData con tag body).toCore = s.toCore := rfl

@[simp] theorem toCore_sendCmd (s : Server) (con : ConId) (tag : Nat) (body : Str) :
    (s.sendCmd con tag body).toCore = s.toCore := rfl

@[simp] theorem toCore_sendCmdPre (s : Server) (con : ConId) (tag : Nat) (lead body : Str) :
    (s.sendCmdPre con tag lead body).toCore = s.toCore := by
  unfold sendCmdPre
  split <;> rfl

@[simp] theorem toCore_sendIfUser (s : Server) (con : ConId) (tag : Nat) (body : Str) :
    (s.sendIfUser con tag body).toCore = s.toCore := by
  unfold sendIfUser
  split <;> rfl

/-- A walk whose every step leaves the data alone leaves the data alone. -/
theorem toCore_foldl {α : Type} {f : Server → α → Server} (h : ∀ s a, (f s a).toCore = s.toCore)
    (l : List α) (s : Server) : (l.foldl f s).toCore = s.toCore := by
  induction l generalizing s with
  | nil => rfl
  | cons a l ih => rw [List.foldl_cons, ih, h]

@[simp] theorem toCore_passMessage (s : Server) (except : Option ConId) (tag : Nat) (body : Str) :
    (s.passMessage except tag body).toCore = s.toCore := by
  refine toCore_foldl (fun s con => ?_) _ s
  split <;> rfl

@[simp] theorem toCore_passMessageArgs (s : Server) (except : Option ConId) (tag : Nat)
    (body : Str) : (s.passMessageArgs except tag body).toCore = s.toCore :=
  toCore_passMessage ..

@[simp] theorem toCore_sendUser (s : Server) (user : UserId) (tag : Nat) (body : Str) :
    (s.sendUser user tag body).toCore = s.toCore := by
  simp only [sendUser]
  split <;> rfl

@[simp] theorem toCore_notifyMods (s : Server) (mode : Nat) (body : Str) :
    (s.notifyMods mode body).toCore = s.toCore := by
  refine toCore_foldl (fun s slot => ?_) _ s
  cases slot with
  | none => rfl
  | some con =>
    simp only
    split <;> rfl

@[simp] theorem toCore_notifyOps (s : Server) (chan : ChanId) (body : Str) :
    (s.notifyOps chan body).toCore = s.toCore := by
  refine toCore_foldl (fun s member => ?_) _ s
  simp only
  split <;> rfl

@[simp] theorem toCore_unparsable (s : Server) (con : ConId) :
    (s.unparsable con).toCore = s.toCore := toCore_sendIfUser ..

@[simp] theorem toCore_nosuchuser (s : Server) (con : ConId) :
    (s.nosuchuser con).toCore = s.toCore := toCore_sendIfUser ..

@[simp] theorem toCore_nosuchchannel (s : Server) (con : ConId) :
    (s.nosuchchannel con).toCore = s.toCore := toCore_sendIfUser ..

@[simp] theorem toCore_permissionDenied (s : Server) (con : ConId) :
    (s.permissionDenied con).toCore = s.toCore := toCore_sendIfUser ..

@[simp] theorem toCore_invalidChannelMsg (s : Server) (con : ConId) :
    (s.invalidChannelMsg con).toCore = s.toCore := toCore_sendIfUser ..

@[simp] theorem toCore_invalidNickMsg (s : Server) (con : ConId) :
    (s.invalidNickMsg con).toCore = s.toCore := toCore_sendIfUser ..

end Server

/-- `is_server`. -/
def Core.isServerName (s : Core) (name : Str) : Bool :=
  s.servers.any (fun con => sameText name (s.con con).host) ||
    s.serverLinks.any fun link => sameText name link.server || sameText name link.peer

/-- `pop_user`: the user a message is from, and the text after the sender's name that a peer puts
in front (`none` when nothing follows it). -/
def Core.popUser (s : Core) (con : ConId) (pkt : Str) : Option (UserId × Option Str) :=
  if s.isServer con then
    match pkt with
    | ':' :: rest =>
      let (nick, rest) := nextArg rest
      match s.users.lookup nick with
      | some user => if (s.user user).isLocal then none else some (user, rest)
      | none => none
    | _ => none
  else (s.con con).user.map fun user => (user, some pkt)

/-- `pop_user_server`: as `pop_user`, but the sender may be another server, which has no user. -/
def Core.popUserServer (s : Core) (con : ConId) (pkt : Str) :
    Option (Str × Option UserId × Option Str) :=
  if s.isServer con then
    match pkt with
    | ':' :: rest =>
      let (nick, rest) := nextArg rest
      if s.isServerName nick then some (nick, none, rest)
      else (s.users.lookup nick).map fun user => (nick, some user, rest)
    | _ => none
  else (s.con con).user.map fun user => ((s.user user).nick, some user, some pkt)

/-- The sender of a message of a peer is a user who is not one of this server. -/
theorem Core.popUser_peer {s : Core} {link : ConId} (h : s.isServer link = true) (message : Str)
    (user : UserId) (rest : Option Str) : s.popUser link message = some (user, rest) ↔
      ∃ text sender, message = ':' :: text ∧ nextArg text = (sender, rest) ∧
        s.users.lookup sender = some user ∧ (s.user user).isLocal = false := by
  simp only [Core.popUser, h, if_true]
  constructor
  · intro hPop
    split at hPop
    · rename_i text
      split at hPop
      · rename_i found hLookup
        split at hPop
        · cases hPop
        · rename_i hLocal
          cases hPop
          exact ⟨text, _, rfl, rfl, hLookup, by simpa using hLocal⟩
      · cases hPop
    · cases hPop
  · rintro ⟨text, sender, rfl, hArg, hLookup, hLocal⟩
    simp only [hArg, hLookup, hLocal, Bool.false_eq_true, if_false]

/-- The sender of a message of a peer that servers send too. -/
theorem Core.popUserServer_peer {s : Core} {link : ConId} (h : s.isServer link = true)
    (message sender : Str) (user : Option UserId) (rest : Option Str) :
    s.popUserServer link message = some (sender, user, rest) ↔
      ∃ text, message = ':' :: text ∧ nextArg text = (sender, rest) ∧
        (s.isServerName sender = true ∧ user = none ∨
          s.isServerName sender = false ∧ ∃ u, s.users.lookup sender = some u ∧ user = some u) := by
  simp only [Core.popUserServer, h, if_true]
  constructor
  · intro hPop
    split at hPop
    · rename_i text
      refine ⟨text, rfl, ?_⟩
      split at hPop
      · rename_i hName
        cases hPop
        exact ⟨rfl, .inl ⟨hName, rfl⟩⟩
      · rename_i hName
        obtain ⟨u, hLookup, hEq⟩ := Option.map_eq_some_iff.1 hPop
        cases hEq
        exact ⟨rfl, .inr ⟨by simpa using hName, u, hLookup, rfl⟩⟩
    · cases hPop
  · rintro ⟨text, rfl, hArg, ⟨hName, rfl⟩ | ⟨hName, u, hLookup, rfl⟩⟩
    · simp only [hArg, hName, if_true]
    · simp only [hArg, hName, hLookup, Bool.false_eq_true, if_false, Option.map_some]

end OpenNap
