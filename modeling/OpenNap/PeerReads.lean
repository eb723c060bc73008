import OpenNap.Arguments
import OpenNap.Refusals

/-! What the handlers that first take the sender off a packet read through pointers that may be
null: the pointer into the packet, which `next_arg` makes null behind the last argument, and the
pointer to the sender, which is null where `pop_user_server` finds the name of a server.  A handler
stands here up to the last of these reads, with the tests in between, as the source has them; what
it sends and changes goes through none of these pointers. -/

namespace OpenNap

open CText Memory

namespace Reads

/-- A pointer into a packet, or the null pointer. -/
abbrev PacketPtr := Option Str

/-- The arguments of a handler, and what a comparison with the distance of the null pointer from
the start of the packet gives, which the language leaves open. -/
structure Call where
  con : ConId
  tag : Nat
  len : Nat
  body : CString
  wild : Bool

/-- `next_arg (&pkt)`: the argument and the new `pkt`. -/
def argOf : PacketPtr → PacketPtr × PacketPtr
  | none => (none, none)
  | some s => (some (nextArg s).1, (nextArg s).2)

/-- `next_arg_noskip (&pkt)`. -/
def argNoskipOf (pkt : PacketPtr) : Checked (Str × PacketPtr) := nextArgNoskip <$> deref pkt

/-- `split_line (av, count, pkt)`: the fields, or `none` for -1. -/
def fieldsOf (count : Nat) (pkt : PacketPtr) : Checked (Option (List Str)) :=
  splitLine count <$> deref pkt

/-- `ac = -1; if (pkt) ac = split_line (av, count, pkt)`. -/
def fieldsIfAny (count : Nat) (pkt : PacketPtr) : Checked (Option (List Str)) :=
  if pkt.isSome then fieldsOf count pkt else .ok none

/-- `ac`. -/
def ac (fields : Option (List Str)) : Int := (fields.map fun av => (av.length : Int)).getD (-1)

/-- `while (pkt) { arg = next_arg (&pkt); ... }`, with at most `fuel` passes. -/
def argLoop (body : PacketPtr → Checked Unit) : Nat → PacketPtr → Checked Unit
  | 0, _ => .ok ()
  | fuel + 1, pkt =>
    if pkt.isNone then .ok ()
    else do
      body (argOf pkt).1
      argLoop body fuel (argOf pkt).2

/-- The whole loop: each pass leaves a shorter text. -/
def eachArg (pkt : PacketPtr) (body : PacketPtr → Checked Unit) : Checked Unit :=
  argLoop body ((pkt.getD []).length + 1) pkt

/-- `len - (pkt - start) > 180`. -/
def tooLong (m : Call) : PacketPtr → Bool
  | none => m.wild
  | some text => decide (180 + (m.body.1.length - text.length) < m.len)

/-- The text cut off in place when it is too long. -/
def crop (m : Call) (pkt : PacketPtr) (cut : Str → Str) : Checked PacketPtr :=
  if tooLong m pkt then (fun text => some (cut text)) <$> deref pkt else .ok pkt

section

variable (s : Core) (m : Call)

/-- The rest of a handler behind `if (pop_user (con, &pkt, &sender)) return`. -/
def fromUser (body : UserId → PacketPtr → Checked Unit) : Checked Unit :=
  match s.popUser m.con m.body.1 with
  | some (sender, pkt) => body sender pkt
  | none => .ok ()

/-- The rest of a handler behind `if (pop_user_server (con, tag, &pkt, &nick, &sender)) return`. -/
def fromPeer (body : Option UserId → PacketPtr → Checked Unit) : Checked Unit :=
  match s.popUserServer m.con m.body.1 with
  | some (_, sender, pkt) => body sender pkt
  | none => .ok ()

/-- `sender && sender->level < LEVEL_MODERATOR && !is_chanop (chan, sender)`. -/
def deniedOn (chan : ChanId) (sender : Option UserId) : Checked Bool :=
  guarded sender fun u => decide ((s.user u).level < .moderator) && !s.isChanop chan u

/-! ### Bans -/

def ban : Checked Unit :=
  fromPeer s m fun sender pkt => do
    if ← guarded sender fun u => decide ((s.user u).level < .moderator) then return
    let _ ← fieldsIfAny 3 pkt

def unban : Checked Unit :=
  fromUser s m fun _ pkt => do
    let _ ← fieldsIfAny 2 pkt

/-- The start of `channel_ban` and `channel_unban`. -/
def channelBanRequest : Checked Unit :=
  fromPeer s m fun sender pkt => do
    let fields ← fieldsIfAny 3 pkt
    let some (name :: _ :: _) := fields | return
    let some chan := s.channels.lookup name | return
    let _ ← deniedOn s chan sender

def channelBan : Checked Unit := channelBanRequest s m

def channelUnban : Checked Unit := channelBanRequest s m

def channelClearBans : Checked Unit :=
  fromUser s m fun _ pkt => do
    if pkt.isNone then return
    touch pkt

/-! ### Lists of files -/

def browse : Checked Unit :=
  fromUser s m fun _ pkt => do
    if pkt.isNone then return
    let nick ← deref (argOf pkt).1
    if invalidNick s.cfg nick then return
    let some user := s.users.lookup nick | return
    if s.isUser (s.user user).con && (s.files (s.user user).con).isNone then return
    let _ ← derefOr (argOf pkt).2 []

def browseNew : Checked Unit :=
  fromUser s m fun _ pkt => do
    let (nick, pkt) := argOf pkt
    if nick.isNone then return
    if (s.users.lookup (← deref nick)).isNone then return
    let _ ← derefOr pkt []

/-! ### Changes -/

/-- The start of `change_data_port` and `change_speed`: `atoi (pkt)`. -/
def changeNumber : Checked Unit :=
  fromUser s m fun _ pkt => touch pkt

def changeDataPort : Checked Unit := changeNumber s m

def changeSpeed : Checked Unit := changeNumber s m

/-- The start of `change_pass` and, where it is compiled, of `change_email`. -/
def changeText : Checked Unit :=
  fromUser s m fun _ pkt => do
    if ← nullOr pkt (· == []) then return
    touch pkt

def changePass : Checked Unit := changeText s m

def changeEmail : Checked Unit := changeText s m

def alterPort : Checked Unit :=
  fromUser s m fun sender pkt => do
    if (s.user sender).level < .moderator then return
    let (nick, pkt) := argOf pkt
    let (port, pkt) := argOf pkt
    if nick.isNone || port.isNone then return
    if (s.users.lookup (← deref nick)).isNone then return
    let p := atoi (← deref port)
    if p < 0 ∨ 65535 < p then return
    let _ ← derefOr pkt []

def alterPass : Checked Unit :=
  fromUser s m fun sender pkt => do
    if (s.user sender).level < .admin then return
    if pkt.isNone then return
    let _ ← fieldsOf 3 pkt

def alterSpeed : Checked Unit :=
  fromUser s m fun _ pkt => do
    let _ ← fieldsOf 2 pkt

def nuke : Checked Unit :=
  fromUser s m fun sender pkt => do
    if (s.user sender).level < .moderator then return
    let (nick, pkt) := argOf pkt
    if nick.isNone then return
    if invalidNick s.cfg (← deref nick) then return
    let _ ← derefOr pkt []

def cloak : Checked Unit :=
  fromUser s m fun sender pkt => do
    if (s.user sender).level < .moderator then return
    if s.isServer m.con then
      let _ ← guarded pkt fun text => atoi text == 1

def registerUser : Checked Unit :=
  fromUser s m fun sender pkt => do
    if (s.user sender).level < .admin then return
    let _ ← fieldsOf 4 pkt

def level : Checked Unit :=
  fromPeer s m fun sender pkt => do
    let fields ← fieldsIfAny 3 pkt
    let some (nick :: text :: more) := fields | return
    let some level := getLevel text | return
    if Server.levelTooHigh s m.con level then return
    let user := s.users.lookup nick
    let record := s.userDb.lookup nick
    if record.any fun db => (s.db db).level == level then return
    if user.any fun u => (s.user u).level == level then return
    if record.isNone && user.isNone then return
    -- the record that is made for a user on line has the time of day
    let time := (record.map fun db => (s.db db).timestamp).getD s.now
    let least := (record.map fun db => (s.db db).level).getD
      ((user.map fun u => (s.user u).level).getD .leech)
    if (Server.peerStamp s m.con more.head?).any fun ts => decide (time < ts) then return
    if ← guarded sender fun u =>
        some u != user && decide ((s.user u).level < .elite) &&
          decide ((s.user u).level ≤ least) then return
    if user.any fun u => s.isUser (s.user u).con then
      let _ ← guarded sender fun u => (s.user u).cloaked

def muzzle : Checked Unit :=
  fromPeer s m fun sender pkt => do
    let fields ← fieldsIfAny 2 pkt
    let some (nick :: _) := fields | return
    let user := s.users.lookup nick
    let record := s.userDb.lookup nick
    if ← guarded sender fun su =>
        let level := (s.user su).level
        decide (level < .elite) && ((user.any fun u => decide (level ≤ (s.user u).level)) ||
          record.any fun db => decide (level ≤ (s.db db).level)) then return
    if record.isNone && user.isNone then return
    let isMuzzled :=
      (user.any fun u => (s.user u).muzzled) || record.any fun db => (s.db db).muzzled
    let notMuzzled :=
      (user.any fun u => !(s.user u).muzzled) || record.all fun db => !(s.db db).muzzled
    if if m.tag = msgClientMuzzle then isMuzzled else notMuzzled then return
    if user.any fun u => s.isUser (s.user u).con then
      let _ ← guarded sender fun u => (s.user u).cloaked

/-! ### Channels -/

def channelOp : Checked Unit :=
  fromPeer s m fun sender pkt => do
    if ← guarded sender fun u => decide ((s.user u).level < .moderator) then return
    let (schan, pkt) := argOf pkt
    if schan.isNone || pkt.isNone then return
    if (s.channels.lookup (← deref schan)).isNone then return
    touch pkt
    eachArg pkt touch

def channelDrop : Checked Unit :=
  fromUser s m fun _ pkt => do
    let _ ← fieldsIfAny 2 pkt

def channelWallop : Checked Unit :=
  fromUser s m fun sender pkt => do
    if (s.user sender).muzzled then return
    let (chanName, pkt) := argOf pkt
    if chanName.isNone || pkt.isNone then return
    let some chan := s.channels.lookup (← deref chanName) | return
    if decide ((s.user sender).level < .moderator) && !s.isChanop chan sender then return
    touch pkt

def channelMode : Checked Unit :=
  fromPeer s m fun sender pkt => do
    let (chanName, pkt) := argOf pkt
    if chanName.isNone then return
    let some chan := s.channels.lookup (← deref chanName) | return
    if ← guarded sender fun u =>
        decide ((s.user u).level < (s.chan chan).level) ||
          decide ((s.user u).level < .moderator) && !s.isChanop chan u then return
    eachArg pkt touch

def channelInvite : Checked Unit :=
  fromUser s m fun _ pkt => do
    let _ ← fieldsIfAny 2 pkt

/-- The body of the loop of `channel_voice` for one nick. -/
def voiceNick (chan : ChanId) (sender : Option UserId) (nick : PacketPtr) : Checked Unit := do
  let some user := s.users.lookup (← deref nick) | return
  if (s.findChanuser chan user).isSome && s.isUser (s.user user).con then
    let _ ← guarded sender fun u => (s.user u).cloaked

def channelVoice : Checked Unit :=
  fromPeer s m fun sender pkt => do
    let (chanName, pkt) := argOf pkt
    if chanName.isNone then return
    let some chan := s.channels.lookup (← deref chanName) | return
    if pkt.isNone then return
    if ← deniedOn s chan sender then return
    touch pkt
    eachArg pkt (voiceNick s chan sender)

def channelMuzzle : Checked Unit :=
  fromPeer s m fun sender pkt => do
    let fields ← fieldsIfAny 3 pkt
    let some (name :: nick :: _) := fields | return
    let some chan := s.channels.lookup name | return
    if ← deniedOn s chan sender then return
    let some user := s.users.lookup nick | return
    if ← guarded sender fun u =>
        (s.user u).level != .elite && decide ((s.user u).level < (s.user user).level) then return
    if (s.findChanuser chan user).isSome && s.isUser (s.user user).con then
      let _ ← guarded sender fun u => (s.user u).cloaked

/-- Behind the first test `pkt` is the name, or the buffer that `#` was put in front of it in. -/
def join : Checked Unit :=
  fromUser s m fun user pkt => do
    if ← nullOr pkt (· == []) then return
    let u := s.user user
    if u.level < .moderator ∧
        (s.cfg.maxUserChannels < (u.channels.length : Int) ∨ u.muzzled) then return
    touch pkt

def part : Checked Unit :=
  fromUser s m fun _ pkt => do
    if pkt.isNone then return
    touch pkt

def kick : Checked Unit :=
  fromUser s m fun _ pkt => do
    let _ ← fieldsOf 3 pkt

def clearChannel : Checked Unit :=
  fromUser s m fun sender pkt => do
    let (chanName, pkt) := argOf pkt
    if chanName.isNone then return
    let some chan := s.channels.lookup (← deref chanName) | return
    if (s.user sender).level < (s.chan chan).level then return
    let _ ← derefOr pkt []

/-! ### Talk -/

/-- The start of `public` and `privmsg` behind their tests: a name, and the text for it. -/
def spoken (pkt : PacketPtr) : Checked Unit := do
  let pkt ← crop m pkt (·.take 180)
  let (_, pkt) ← argNoskipOf pkt
  if pkt.isNone then return
  touch pkt

def publicMessage : Checked Unit :=
  fromUser s m fun sender pkt => do
    if (s.user sender).muzzled then return
    spoken m pkt

def emote : Checked Unit :=
  fromUser s m fun sender pkt => do
    if (s.user sender).muzzled then return
    let pkt ← crop m pkt fun text => if 179 ≤ text.length then text.take 179 ++ ['"'] else text
    let _ ← fieldsOf 2 pkt

def privmsg : Checked Unit := fromUser s m fun _ pkt => spoken m pkt

def ping : Checked Unit :=
  fromUser s m fun _ pkt => touch pkt

/-! ### Transfers -/

def download : Checked Unit :=
  fromUser s m fun _ pkt => do
    let _ ← fieldsOf 2 pkt

/-- `transfer_count_wrapper`, which reads nothing behind the sender. -/
def transferCountWrapper : Checked Unit := fromUser s m fun _ _ => .ok ()

def uploadStart : Checked Unit := transferCountWrapper s m

def uploadEnd : Checked Unit := transferCountWrapper s m

def downloadStart : Checked Unit := transferCountWrapper s m

def downloadEnd : Checked Unit := transferCountWrapper s m

def dataPortError : Checked Unit :=
  fromUser s m fun _ pkt => touch pkt

/-! ### Servers -/

def redirectClient : Checked Unit :=
  fromPeer s m fun sender pkt => do
    let fields ← fieldsIfAny 3 pkt
    if ac fields < 3 then return
    touch sender

def cycleClient : Checked Unit :=
  fromPeer s m fun sender pkt => do
    if (s.user (← deref sender)).level < .admin then return
    let (nick, pkt) := argOf pkt
    let (server, _) := argOf pkt
    if nick.isNone || server.isNone then return
    touch nick
    touch server

def serverConnect : Checked Unit :=
  fromUser s m fun user pkt => do
    if (s.user user).level < .admin then return
    let _ ← fieldsOf 3 pkt

def serverDisconnect : Checked Unit :=
  fromUser s m fun user pkt => do
    if (s.user user).level < .admin then return
    let (host, pkt) := argOf pkt
    if host.isNone then return
    touch host
    let _ ← derefOr pkt []

def killServer : Checked Unit :=
  fromUser s m fun user pkt => do
    if (s.user user).level < .elite then return
    let (server, pkt) := argOf pkt
    if server.isNone then return
    touch server
    let _ ← derefOr pkt []

def serverVersion : Checked Unit :=
  fromUser s m fun user pkt => do
    if (s.user user).level < .moderator then return
    touch pkt

def pingServer : Checked Unit :=
  fromUser s m fun _ pkt => do
    if pkt.isNone then return
    let (server, pkt) := argOf pkt
    touch server
    let _ ← derefOr pkt []

def rehash : Checked Unit :=
  fromUser s m fun sender pkt => do
    if (s.user sender).level < .elite then return
    if ← guarded pkt (· != []) then
      touch pkt

/-- Only for local users. -/
def serverUsage : Checked Unit :=
  if !s.isUser m.con then .ok ()
  else
    fromUser s m fun _ pkt => touch pkt

/-- Only for local users. -/
def userModeCmd : Checked Unit :=
  if !s.isUser m.con then .ok ()
  else
    fromUser s m fun _ pkt => do
      if ← nullOr pkt (· == []) then return
      eachArg pkt touch

/-! ### Reads that go through

A guarded read never faults, an argument is null only where `pkt` was, and so each handler that
tests what it reads goes through to its end. -/

variable {s m}

@[simp] theorem argOf_none : argOf none = (none, none) := rfl

@[simp] theorem argOf_some (text : Str) :
    argOf (some text) = (some (nextArg text).1, (nextArg text).2) := rfl

@[simp] theorem fieldsOf_some (count : Nat) (text : Str) :
    fieldsOf count (some text) = .ok (splitLine count text) := rfl

@[simp] theorem fieldsOf_none (count : Nat) : fieldsOf count none = .error .null := rfl

@[simp] theorem fieldsIfAny_eq (count : Nat) (pkt : PacketPtr) :
    fieldsIfAny count pkt = .ok (pkt.bind (splitLine count)) := by
  cases pkt <;> rfl

@[simp] theorem deniedOn_eq (chan : ChanId) (sender : Option UserId) :
    deniedOn s chan sender = .ok (Server.mayNotBan s chan sender) := guarded_eq ..

theorem argLoop_ok {body : PacketPtr → Checked Unit} (h : ∀ arg, body (some arg) = .ok ())
    (fuel : Nat) (pkt : PacketPtr) : argLoop body fuel pkt = .ok () := by
  induction fuel generalizing pkt with
  | zero => rfl
  | succ fuel ih =>
    cases pkt with
    | none => rfl
    | some text => simp [argLoop, h, ih]

theorem eachArg_ok {pkt : PacketPtr} {body : PacketPtr → Checked Unit}
    (h : ∀ arg, body (some arg) = .ok ()) : eachArg pkt body = .ok () := argLoop_ok h _ pkt

theorem fromUser_ok {body : UserId → PacketPtr → Checked Unit}
    (h : ∀ sender pkt, body sender pkt = .ok ()) : fromUser s m body = .ok () := by
  rw [fromUser]
  split
  · exact h _ _
  · rfl

theorem fromPeer_ok {body : Option UserId → PacketPtr → Checked Unit}
    (h : ∀ sender pkt, body sender pkt = .ok ()) : fromPeer s m body = .ok () := by
  rw [fromPeer]
  split
  · exact h _ _
  · rfl

theorem ban_ok : ban s m = .ok () := fromPeer_ok fun sender pkt => by simp

theorem unban_ok : unban s m = .ok () := fromUser_ok fun _ pkt => by simp

theorem channelBanRequest_ok : channelBanRequest s m = .ok () := by
  refine fromPeer_ok fun sender pkt => ?_
  simp only [fieldsIfAny_eq, deniedOn_eq, ok_bind, pure_eq]
  split
  · split <;> rfl
  · rfl

theorem channelClearBans_ok : channelClearBans s m = .ok () :=
  fromUser_ok fun _ pkt => by cases pkt <;> rfl

@[simp] theorem eachArg_touch (pkt : PacketPtr) : eachArg pkt touch = .ok () :=
  eachArg_ok fun _ => rfl

theorem browse_ok : browse s m = .ok () := by
  refine fromUser_ok fun _ pkt => ?_
  cases pkt with
  | none => rfl
  | some text =>
    simp only [Option.isNone_some, Bool.false_eq_true, if_false, argOf_some, deref_some, derefOr_eq,
      ok_bind, pure_eq, ite_self]
    split
    · rfl
    · split <;> rfl

theorem browseNew_ok : browseNew s m = .ok () :=
  fromUser_ok fun _ pkt => by cases pkt <;> simp

theorem changeText_ok : changeText s m = .ok () :=
  fromUser_ok fun _ pkt => by cases pkt <;> simp

theorem alterPort_ok : alterPort s m = .ok () := by
  refine fromUser_ok fun sender pkt => ?_
  cases pkt with
  | none => simp
  | some text => cases hPort : (nextArg text).2 <;> simp [hPort]

theorem alterPass_ok : alterPass s m = .ok () :=
  fromUser_ok fun _ pkt => by cases pkt <;> simp

theorem nuke_ok : nuke s m = .ok () :=
  fromUser_ok fun _ pkt => by cases pkt <;> simp

theorem cloak_ok : cloak s m = .ok () := fromUser_ok fun _ pkt => by simp

theorem level_ok : level s m = .ok () := by
  refine fromPeer_ok fun sender pkt => ?_
  simp only [fieldsIfAny_eq, guarded_eq, ok_bind, pure_eq, ite_self]
  split
  · split <;> rfl
  · rfl

theorem muzzle_ok : muzzle s m = .ok () := by
  refine fromPeer_ok fun sender pkt => ?_
  simp only [fieldsIfAny_eq, guarded_eq, ok_bind, pure_eq, ite_self]
  split <;> rfl

theorem channelOp_ok : channelOp s m = .ok () := by
  refine fromPeer_ok fun sender pkt => ?_
  cases pkt with
  | none => simp
  | some text => cases hRest : (nextArg text).2 <;> simp [hRest]

theorem channelDrop_ok : channelDrop s m = .ok () := fromUser_ok fun _ pkt => by simp

theorem channelWallop_ok : channelWallop s m = .ok () := by
  refine fromUser_ok fun sender pkt => ?_
  cases pkt with
  | none => simp
  | some text =>
    cases hRest : (nextArg text).2 with
    | none => simp [hRest]
    | some rest =>
      simp only [argOf_some, hRest, deref_some, touch_some, ok_bind, pure_eq, ite_self]
      split
      · rfl
      · split
        · rfl
        · split <;> rfl

theorem channelMode_ok : channelMode s m = .ok () := by
  refine fromPeer_ok fun sender pkt => ?_
  cases pkt with
  | none => simp
  | some text =>
    simp only [argOf_some, deref_some, guarded_eq, eachArg_touch, ok_bind, pure_eq, ite_self]
    split
    · rfl
    · split <;> rfl

theorem channelInvite_ok : channelInvite s m = .ok () := fromUser_ok fun _ pkt => by simp

theorem voiceNick_ok (chan : ChanId) (sender : Option UserId) (nick : Str) :
    voiceNick s chan sender (some nick) = .ok () := by
  simp only [voiceNick, deref_some, guarded_eq, ok_bind, pure_eq, ite_self]
  split <;> rfl

theorem channelVoice_ok : channelVoice s m = .ok () := by
  refine fromPeer_ok fun sender pkt => ?_
  cases pkt with
  | none => simp
  | some text =>
    have hLoop (chan : ChanId) : eachArg (nextArg text).2 (voiceNick s chan sender) = .ok () :=
      eachArg_ok (voiceNick_ok chan sender)
    cases hRest : (nextArg text).2 with
    | none =>
      simp only [argOf_some, hRest, deref_some, ok_bind, pure_eq, Option.isNone_none, if_true]
      split
      · rfl
      · split <;> rfl
    | some rest =>
      rw [hRest] at hLoop
      simp only [argOf_some, hRest, deref_some, touch_some, deniedOn_eq, hLoop, ok_bind, pure_eq,
        ite_self]
      split
      · rfl
      · split <;> rfl

theorem channelMuzzle_ok : channelMuzzle s m = .ok () := by
  refine fromPeer_ok fun sender pkt => ?_
  simp only [fieldsIfAny_eq, deniedOn_eq, guarded_eq, ok_bind, pure_eq, ite_self]
  split
  · split
    · split
      · rfl
      · split <;> rfl
    · rfl
  · rfl

theorem join_ok : join s m = .ok () :=
  fromUser_ok fun _ pkt => by cases pkt <;> simp

theorem part_ok : part s m = .ok () :=
  fromUser_ok fun _ pkt => by cases pkt <;> rfl

theorem clearChannel_ok : clearChannel s m = .ok () := by
  refine fromUser_ok fun sender pkt => ?_
  cases pkt with
  | none => simp
  | some text =>
    simp only [argOf_some, deref_some, derefOr_eq, ok_bind, pure_eq, ite_self]
    split
    · rfl
    · split <;> rfl

theorem transferCountWrapper_ok : transferCountWrapper s m = .ok () := fromUser_ok fun _ _ => rfl

theorem serverDisconnect_ok : serverDisconnect s m = .ok () :=
  fromUser_ok fun _ pkt => by cases pkt <;> simp

theorem killServer_ok : killServer s m = .ok () :=
  fromUser_ok fun _ pkt => by cases pkt <;> simp

theorem pingServer_ok : pingServer s m = .ok () :=
  fromUser_ok fun _ pkt => by cases pkt <;> simp

theorem rehash_ok : rehash s m = .ok () :=
  fromUser_ok fun _ pkt => by cases pkt <;> simp

theorem userModeCmd_ok : userModeCmd s m = .ok () := by
  rw [userModeCmd, fromUser_ok fun _ pkt => by simp, ite_self]

/-- On the link of a server nothing is read of it. -/
theorem serverUsage_ok (hLink : s.isServer m.con = true) : serverUsage s m = .ok () := by
  have hUser : s.isUser m.con = false := by
    simp only [Core.isServer, beq_iff_eq] at hLink
    simp [Core.isUser, hLink]
  simp [serverUsage, hUser]

/-! ### Reads that may fault -/

/-- A handler that reads the text behind the name of a user, of those that `asks` picks, faults
when there is none. -/
theorem fromUser_ok_iff {body : UserId → PacketPtr → Checked Unit} {asks : User → Bool}
    (hText : ∀ sender text, body sender (some text) = .ok ())
    (hNull : ∀ sender, body sender none = .ok () ↔ asks (s.user sender) = false) :
    fromUser s m body = .ok () ↔ ∀ sender,
      s.popUser m.con m.body.1 = some (sender, none) → asks (s.user sender) = false := by
  rw [fromUser]
  cases hPop : s.popUser m.con m.body.1 with
  | none => simp
  | some popped =>
    obtain ⟨sender, pkt⟩ := popped
    cases pkt with
    | none => simp [hNull]
    | some text => simp [hText]

/-- A handler that looks at the level of a sender, before texts that `looks` picks, faults when
that is a server. -/
theorem fromPeer_ok_iff {body : Option UserId → PacketPtr → Checked Unit}
    {looks : PacketPtr → Bool} (hUser : ∀ user pkt, body (some user) pkt = .ok ())
    (hNull : ∀ pkt, body none pkt = .ok () ↔ looks pkt = false) :
    fromPeer s m body = .ok () ↔ ∀ name pkt,
      s.popUserServer m.con m.body.1 = some (name, none, pkt) → looks pkt = false := by
  rw [fromPeer]
  cases hPop : s.popUserServer m.con m.body.1 with
  | none => simp
  | some popped =>
    obtain ⟨name, sender, pkt⟩ := popped
    cases sender with
    | none => simp [hNull]
    | some user => simp [hUser]

/-- The cut of a text leaves a text. -/
theorem crop_some (text : Str) (cut : Str → Str) :
    ∃ left, crop m (some text) cut = .ok (some left) := by
  rw [crop]
  split
  · exact ⟨cut text, rfl⟩
  · exact ⟨text, rfl⟩

theorem spoken_some (text : Str) : spoken m (some text) = .ok () := by
  obtain ⟨left, hLeft⟩ := crop_some (m := m) text (·.take 180)
  rw [spoken, hLeft, ok_bind, argNoskipOf, deref_some, map_ok, ok_bind]
  obtain ⟨name, rest⟩ := nextArgNoskip left
  cases rest <;> rfl

/-- Whatever the length is taken for, the null pointer is read: by the cut or by what comes next. -/
theorem crop_none {cut : Str → Str} {next : PacketPtr → Checked Unit}
    (hNext : next none = .error .null) : (crop m none cut >>= next) = .error .null := by
  rw [crop]
  split
  · rfl
  · exact hNext

@[simp] theorem spoken_none : spoken m none = .error .null := crop_none rfl

end

end Reads

/-- The handlers that start with `pop_user` or `pop_user_server`. -/
inductive PeerHandler
  | ban | unban | channelBan | channelUnban | channelClearBans
  | browse | browseNew
  | changeDataPort | changeSpeed | changePass | changeEmail
  | alterPort | alterPass | alterSpeed | nuke | cloak | registerUser | level | muzzle
  | channelOp | channelDrop | channelWallop | channelMode | channelInvite | channelVoice
  | channelMuzzle
  | join | part | kick | clearChannel
  | publicMessage | emote | privmsg | ping
  | download | uploadStart | uploadEnd | downloadStart | downloadEnd | dataPortError
  | redirectClient | cycleClient | serverConnect | serverDisconnect | killServer | serverVersion
  | pingServer | rehash | serverUsage | userModeCmd

namespace PeerHandler

/-- What a handler reads. -/
def reads : PeerHandler → Core → Reads.Call → Checked Unit
  | ban => Reads.ban
  | unban => Reads.unban
  | channelBan => Reads.channelBan
  | channelUnban => Reads.channelUnban
  | channelClearBans => Reads.channelClearBans
  | browse => Reads.browse
  | browseNew => Reads.browseNew
  | changeDataPort => Reads.changeDataPort
  | changeSpeed => Reads.changeSpeed
  | changePass => Reads.changePass
  | changeEmail => Reads.changeEmail
  | alterPort => Reads.alterPort
  | alterPass => Reads.alterPass
  | alterSpeed => Reads.alterSpeed
  | nuke => Reads.nuke
  | cloak => Reads.cloak
  | registerUser => Reads.registerUser
  | level => Reads.level
  | muzzle => Reads.muzzle
  | channelOp => Reads.channelOp
  | channelDrop => Reads.channelDrop
  | channelWallop => Reads.channelWallop
  | channelMode => Reads.channelMode
  | channelInvite => Reads.channelInvite
  | channelVoice => Reads.channelVoice
  | channelMuzzle => Reads.channelMuzzle
  | join => Reads.join
  | part => Reads.part
  | kick => Reads.kick
  | clearChannel => Reads.clearChannel
  | publicMessage => Reads.publicMessage
  | emote => Reads.emote
  | privmsg => Reads.privmsg
  | ping => Reads.ping
  | download => Reads.download
  | uploadStart => Reads.uploadStart
  | uploadEnd => Reads.uploadEnd
  | downloadStart => Reads.downloadStart
  | downloadEnd => Reads.downloadEnd
  | dataPortError => Reads.dataPortError
  | redirectClient => Reads.redirectClient
  | cycleClient => Reads.cycleClient
  | serverConnect => Reads.serverConnect
  | serverDisconnect => Reads.serverDisconnect
  | killServer => Reads.killServer
  | serverVersion => Reads.serverVersion
  | pingServer => Reads.pingServer
  | rehash => Reads.rehash
  | serverUsage => Reads.serverUsage
  | userModeCmd => Reads.userModeCmd

/-- Whether a handler reads what follows the name of such a user without a look whether anything
does. -/
def asks (h : PeerHandler) (sender : User) : Bool :=
  match h with
  | kick | privmsg | ping | download | dataPortError => true
  | changeDataPort | changeSpeed | alterSpeed => true
  | publicMessage | emote => !sender.muzzled
  | registerUser | serverConnect => !decide (sender.level < .admin)
  | serverVersion => !decide (sender.level < .moderator)
  | _ => false

/-- Whether a handler looks at the level of the sender when that is a server, with such a text
behind its name. -/
def looks (h : PeerHandler) (rest : Option Str) : Bool :=
  match h with
  | redirectClient => (rest.bind (splitLine 3)).any fun av => decide (3 ≤ av.length)
  | cycleClient => true
  | _ => false

/-- A packet with which a peer crashes the server: a user of another server and nothing behind the
name, or the name of a server. -/
def Crashes (h : PeerHandler) (s : Core) (pkt : Str) : Prop :=
  ∃ text, pkt = ':' :: text ∧
    (s.isServerName (nextArg text).1 = true ∧ h.looks (nextArg text).2 = true ∨
      (nextArg text).2 = none ∧ ∃ sender, s.users.lookup (nextArg text).1 = some sender ∧
        (s.user sender).isLocal = false ∧ h.asks (s.user sender) = true)

variable {h : PeerHandler} {s : Core} {m : Reads.Call}

/-- A handler that tests what it reads is safe. -/
theorem ok_iff_of_tests (hOk : h.reads s m = .ok ()) (hAsks : ∀ u, h.asks u = false)
    (hLooks : ∀ rest, h.looks rest = false) :
    h.reads s m = .ok () ↔ ¬ h.Crashes s m.body.1 := by
  refine iff_of_true hOk ?_
  rintro ⟨text, -, ⟨-, hLook⟩ | ⟨-, sender, -, -, hAsk⟩⟩
  · rw [hLooks] at hLook
    cases hLook
  · rw [hAsks] at hAsk
    cases hAsk

theorem ok_iff_of_asks (hLink : s.isServer m.con = true) (hLooks : ∀ rest, h.looks rest = false)
    (hOk : h.reads s m = .ok () ↔ ∀ sender,
      s.popUser m.con m.body.1 = some (sender, none) → h.asks (s.user sender) = false) :
    h.reads s m = .ok () ↔ ¬ h.Crashes s m.body.1 := by
  rw [hOk]
  constructor
  · rintro hAsks ⟨text, hText, ⟨-, hLook⟩ | ⟨hNone, sender, hLookup, hLocal, hAsk⟩⟩
    · rw [hLooks] at hLook
      cases hLook
    · have hPop := (Core.popUser_peer hLink m.body.1 sender none).2
        ⟨text, _, hText, Prod.ext rfl hNone, hLookup, hLocal⟩
      rw [hAsks sender hPop] at hAsk
      cases hAsk
  · intro hNot sender hPop
    obtain ⟨text, name, hText, hArg, hLookup, hLocal⟩ := (Core.popUser_peer hLink ..).1 hPop
    by_contra hAsk
    have hUser : s.users.lookup (nextArg text).1 = some sender := by
      rw [hArg]
      exact hLookup
    refine hNot ⟨text, hText, .inr ⟨by rw [hArg], sender, hUser, hLocal, ?_⟩⟩
    simpa using hAsk

theorem ok_iff_of_looks (hLink : s.isServer m.con = true) (hAsks : ∀ u, h.asks u = false)
    (hOk : h.reads s m = .ok () ↔ ∀ name rest,
      s.popUserServer m.con m.body.1 = some (name, none, rest) → h.looks rest = false) :
    h.reads s m = .ok () ↔ ¬ h.Crashes s m.body.1 := by
  rw [hOk]
  constructor
  · rintro hLooks ⟨text, hText, ⟨hName, hLook⟩ | ⟨-, sender, -, -, hAsk⟩⟩
    · have hPop : s.popUserServer m.con m.body.1 =
          some ((nextArg text).1, none, (nextArg text).2) :=
        (Core.popUserServer_peer hLink ..).2 ⟨text, hText, rfl, .inl ⟨hName, rfl⟩⟩
      rw [hLooks _ _ hPop] at hLook
      cases hLook
    · rw [hAsks] at hAsk
      cases hAsk
  · intro hNot name rest hPop
    obtain ⟨text, hText, hArg, hName⟩ := (Core.popUserServer_peer hLink ..).1 hPop
    by_contra hLook
    rcases hName with ⟨hName, -⟩ | ⟨-, u, -, hUser⟩
    · refine hNot ⟨text, hText, .inl ⟨by rw [hArg]; exact hName, ?_⟩⟩
      rw [hArg]
      simpa using hLook
    · cases hUser

/-! ### The handlers that do not test -/

/-- A handler that reads what is behind any name. -/
theorem ok_iff_of_reads {read : Reads.PacketPtr → Checked Unit} (hLink : s.isServer m.con = true)
    (hReads : h.reads s m = Reads.fromUser s m fun _ pkt => read pkt)
    (hText : ∀ text, read (some text) = .ok ()) (hNull : read none = .error .null)
    (hAsks : ∀ u, h.asks u = true) (hLooks : ∀ rest, h.looks rest = false) :
    h.reads s m = .ok () ↔ ¬ h.Crashes s m.body.1 := by
  refine ok_iff_of_asks hLink hLooks ?_
  rw [hReads]
  exact Reads.fromUser_ok_iff (fun _ => hText) fun sender => by simp [hNull, hAsks]

/-- A handler that reads what is behind the name of a sender who is not denied. -/
theorem ok_iff_of_gate {read : Reads.PacketPtr → Checked Unit} (denied : User → Prop)
    [DecidablePred denied] (hLink : s.isServer m.con = true)
    (hReads : h.reads s m = Reads.fromUser s m fun sender pkt =>
      if denied (s.user sender) then .ok () else read pkt)
    (hText : ∀ text, read (some text) = .ok ()) (hNull : read none = .error .null)
    (hAsks : ∀ u, h.asks u = !decide (denied u)) (hLooks : ∀ rest, h.looks rest = false) :
    h.reads s m = .ok () ↔ ¬ h.Crashes s m.body.1 := by
  refine ok_iff_of_asks hLink hLooks ?_
  rw [hReads]
  exact Reads.fromUser_ok_iff (fun _ text => by simp [hText]) fun sender => by simp [hNull, hAsks]

theorem emote_iff (hLink : s.isServer m.con = true) :
    emote.reads s m = .ok () ↔ ¬ emote.Crashes s m.body.1 := by
  refine ok_iff_of_asks hLink (fun _ => rfl) (Reads.fromUser_ok_iff (fun _ text => ?_) fun _ => ?_)
  · obtain ⟨left, hLeft⟩ := Reads.crop_some (m := m) text
      fun text => if 179 ≤ text.length then text.take 179 ++ ['"'] else text
    rw [hLeft]
    simp
  · rw [Reads.crop_none rfl]
    simp [asks]

theorem redirectClient_iff (hLink : s.isServer m.con = true) :
    redirectClient.reads s m = .ok () ↔ ¬ redirectClient.Crashes s m.body.1 := by
  refine ok_iff_of_looks hLink (fun _ => rfl)
    (Reads.fromPeer_ok_iff (fun _ pkt => ?_) fun pkt => ?_)
  · simp
  · cases hFields : pkt.bind (splitLine 3) with
    | none => simp [looks, Reads.ac, hFields]
    | some av => simp [looks, Reads.ac, hFields]

theorem cycleClient_iff (hLink : s.isServer m.con = true) :
    cycleClient.reads s m = .ok () ↔ ¬ cycleClient.Crashes s m.body.1 := by
  refine ok_iff_of_looks hLink (fun _ => rfl)
    (Reads.fromPeer_ok_iff (fun _ pkt => ?_) fun pkt => ?_)
  · cases pkt with
    | none => simp
    | some text => cases hRest : (nextArg text).2 <;> simp [hRest]
  · simp [looks]

/-- A peer crashes the server with the packets that `Crashes` tells, and with no others. -/
theorem reads_ok_iff (h : PeerHandler) (s : Core) (m : Reads.Call)
    (hLink : s.isServer m.con = true) : h.reads s m = .ok () ↔ ¬ h.Crashes s m.body.1 := by
  cases h with
  | ban => exact ok_iff_of_tests Reads.ban_ok (fun _ => rfl) fun _ => rfl
  | unban => exact ok_iff_of_tests Reads.unban_ok (fun _ => rfl) fun _ => rfl
  | channelBan => exact ok_iff_of_tests Reads.channelBanRequest_ok (fun _ => rfl) fun _ => rfl
  | channelUnban => exact ok_iff_of_tests Reads.channelBanRequest_ok (fun _ => rfl) fun _ => rfl
  | channelClearBans => exact ok_iff_of_tests Reads.channelClearBans_ok (fun _ => rfl) fun _ => rfl
  | browse => exact ok_iff_of_tests Reads.browse_ok (fun _ => rfl) fun _ => rfl
  | browseNew => exact ok_iff_of_tests Reads.browseNew_ok (fun _ => rfl) fun _ => rfl
  | changeDataPort =>
    exact ok_iff_of_reads hLink rfl (fun _ => rfl) rfl (fun _ => rfl) fun _ => rfl
  | changeSpeed => exact ok_iff_of_reads hLink rfl (fun _ => rfl) rfl (fun _ => rfl) fun _ => rfl
  | changePass => exact ok_iff_of_tests Reads.changeText_ok (fun _ => rfl) fun _ => rfl
  | changeEmail => exact ok_iff_of_tests Reads.changeText_ok (fun _ => rfl) fun _ => rfl
  | alterPort => exact ok_iff_of_tests Reads.alterPort_ok (fun _ => rfl) fun _ => rfl
  | alterPass => exact ok_iff_of_tests Reads.alterPass_ok (fun _ => rfl) fun _ => rfl
  | alterSpeed => exact ok_iff_of_reads hLink rfl (fun _ => rfl) rfl (fun _ => rfl) fun _ => rfl
  | nuke => exact ok_iff_of_tests Reads.nuke_ok (fun _ => rfl) fun _ => rfl
  | cloak => exact ok_iff_of_tests Reads.cloak_ok (fun _ => rfl) fun _ => rfl
  | registerUser =>
    exact ok_iff_of_gate (·.level < .admin) hLink rfl (fun _ => rfl) rfl (fun _ => rfl)
      fun _ => rfl
  | level => exact ok_iff_of_tests Reads.level_ok (fun _ => rfl) fun _ => rfl
  | muzzle => exact ok_iff_of_tests Reads.muzzle_ok (fun _ => rfl) fun _ => rfl
  | channelOp => exact ok_iff_of_tests Reads.channelOp_ok (fun _ => rfl) fun _ => rfl
  | channelDrop => exact ok_iff_of_tests Reads.channelDrop_ok (fun _ => rfl) fun _ => rfl
  | channelWallop => exact ok_iff_of_tests Reads.channelWallop_ok (fun _ => rfl) fun _ => rfl
  | channelMode => exact ok_iff_of_tests Reads.channelMode_ok (fun _ => rfl) fun _ => rfl
  | channelInvite => exact ok_iff_of_tests Reads.channelInvite_ok (fun _ => rfl) fun _ => rfl
  | channelVoice => exact ok_iff_of_tests Reads.channelVoice_ok (fun _ => rfl) fun _ => rfl
  | channelMuzzle => exact ok_iff_of_tests Reads.channelMuzzle_ok (fun _ => rfl) fun _ => rfl
  | join => exact ok_iff_of_tests Reads.join_ok (fun _ => rfl) fun _ => rfl
  | part => exact ok_iff_of_tests Reads.part_ok (fun _ => rfl) fun _ => rfl
  | kick => exact ok_iff_of_reads hLink rfl (fun _ => rfl) rfl (fun _ => rfl) fun _ => rfl
  | clearChannel => exact ok_iff_of_tests Reads.clearChannel_ok (fun _ => rfl) fun _ => rfl
  | publicMessage =>
    exact ok_iff_of_gate (·.muzzled = true) hLink rfl Reads.spoken_some Reads.spoken_none
      (fun _ => by simp [asks]) fun _ => rfl
  | emote => exact emote_iff hLink
  | privmsg =>
    exact ok_iff_of_reads hLink rfl Reads.spoken_some Reads.spoken_none (fun _ => rfl) fun _ => rfl
  | ping => exact ok_iff_of_reads hLink rfl (fun _ => rfl) rfl (fun _ => rfl) fun _ => rfl
  | download => exact ok_iff_of_reads hLink rfl (fun _ => rfl) rfl (fun _ => rfl) fun _ => rfl
  | uploadStart => exact ok_iff_of_tests Reads.transferCountWrapper_ok (fun _ => rfl) fun _ => rfl
  | uploadEnd => exact ok_iff_of_tests Reads.transferCountWrapper_ok (fun _ => rfl) fun _ => rfl
  | downloadStart => exact ok_iff_of_tests Reads.transferCountWrapper_ok (fun _ => rfl) fun _ => rfl
  | downloadEnd => exact ok_iff_of_tests Reads.transferCountWrapper_ok (fun _ => rfl) fun _ => rfl
  | dataPortError => exact ok_iff_of_reads hLink rfl (fun _ => rfl) rfl (fun _ => rfl) fun _ => rfl
  | redirectClient => exact redirectClient_iff hLink
  | cycleClient => exact cycleClient_iff hLink
  | serverConnect =>
    exact ok_iff_of_gate (·.level < .admin) hLink rfl (fun _ => rfl) rfl (fun _ => rfl)
      fun _ => rfl
  | serverDisconnect => exact ok_iff_of_tests Reads.serverDisconnect_ok (fun _ => rfl) fun _ => rfl
  | killServer => exact ok_iff_of_tests Reads.killServer_ok (fun _ => rfl) fun _ => rfl
  | serverVersion =>
    exact ok_iff_of_gate (·.level < .moderator) hLink rfl (fun _ => rfl) rfl (fun _ => rfl)
      fun _ => rfl
  | pingServer => exact ok_iff_of_tests Reads.pingServer_ok (fun _ => rfl) fun _ => rfl
  | rehash => exact ok_iff_of_tests Reads.rehash_ok (fun _ => rfl) fun _ => rfl
  | serverUsage => exact ok_iff_of_tests (Reads.serverUsage_ok hLink) (fun _ => rfl) fun _ => rfl
  | userModeCmd => exact ok_iff_of_tests Reads.userModeCmd_ok (fun _ => rfl) fun _ => rfl

/-- A peer is linked, and a user of it is on line. -/
def guestOfPeer : List Event :=
  [.accept 1 (str "peer") 0 0, .link 0,
    .packet 0 .login (str "joe x 6699 \"c\" 3 unknown 0 1 peer 0") {}]

theorem guestOfPeer_linked : (Server.reach hub guestOfPeer).isServer 0 = true := by decide +kernel

/-- A packet of the peer, with its own length. -/
def fromLink (tag : Nat) (pkt : CString) : Reads.Call := ⟨0, tag, pkt.1.length, pkt, true⟩

/-- The user puts another one out. -/
def kickBob : Reads.Call := fromLink msgClientKick ⟨str ":joe #lobby bob", by decide +kernel⟩

theorem reads_ok_iff_guest :
    kick.reads (Server.reach hub guestOfPeer).toCore kickBob = .ok () := by
  refine (reads_ok_iff kick (Server.reach hub guestOfPeer).toCore kickBob
    guestOfPeer_linked).2 ?_
  have hHead : str ":joe #lobby bob" = ':' :: str "joe #lobby bob" := by decide +kernel
  have hRest : (nextArg (str "joe #lobby bob")).2 ≠ none := by decide +kernel
  rintro ⟨text, hText, ⟨-, hLook⟩ | ⟨hNone, -⟩⟩
  · cases hLook
  · rw [← (List.cons.inj (hHead.symm.trans hText)).2] at hNone
    exact hRest hNone

/-- A user's name with nothing behind it, and a server's. -/
theorem peer_crashes :
    let s := (Server.reach hub guestOfPeer).toCore
    s.isServer 0 = true ∧
      kick.reads s (fromLink msgClientKick ⟨str ":joe", by decide +kernel⟩) = .error .null ∧
      cycleClient.reads s (fromLink 822 ⟨str ":peer joe meta", by decide +kernel⟩) =
        .error .null := by
  decide +kernel

end PeerHandler

namespace Server

/-- Where the source reads what is not there, the handlers of the model leave the server as it
is. -/
theorem bare_dropped {s : Server} {con : ConId} {pkt : Str} {sender : UserId}
    (hLink : s.isServer con = true) (hPop : s.popUser con pkt = some (sender, none)) (tag : Nat)
    (random : Str) :
    s.kick con tag pkt = s ∧ s.download con tag pkt = s ∧ s.alterSpeed con tag pkt = s ∧
      s.changeDataPort con tag pkt = s ∧ s.changeSpeed con tag pkt = s ∧
      s.publicMessage con tag pkt = s ∧ s.emote con tag pkt = s ∧
      s.registerUser con tag pkt random = s := by
  have hUser : s.isUser con = false := by
    simp only [Core.isServer, beq_iff_eq] at hLink
    simp [Core.isUser, hLink]
  have hTold (n : Nat) (text : Str) : s.sendIfUser con n text = s := by
    rw [sendIfUser, hUser]
    rfl
  refine ⟨?_, ?_, ?_, ?_, ?_, ?_, ?_, ?_⟩
  · simp [kick, hPop, unparsable, hTold]
  · simp [download, hPop, unparsable, hTold]
  · simp [alterSpeed, hPop, unparsable, hTold]
  · simp [changeDataPort, changeNumber, hPop]
  · simp [changeSpeed, changeNumber, hPop]
  · simp [publicMessage, hPop, hTold]
  · simp [emote, hPop, hTold]
  · simp [registerUser, hPop, unparsable, permissionDenied, hTold]

end Server

end OpenNap
