import Mathlib.Tactic.Ring
import OpenNap.Membership
import OpenNap.Records

/-! Every handler is a sequence of the operations.  What a handler checks before it acts is what the
operations ask for, given the registry of users and the graph of memberships. -/

namespace OpenNap

open CText

/-- The invariants that the handlers themselves rely on. -/
structure Sound (s : Core) : Prop where
  registry : Registry s
  membership : Membership s

namespace Sound

variable {ok : Label → Core → Prop} {s t : Core}

theorem op (h : Sound s) (hOp : Op ok s t) : Sound t :=
  ⟨h.registry.op hOp, h.membership.op hOp h.registry⟩

theorem path (h : Sound s) (hPath : Op.Path ok s t) : Sound t :=
  hPath.invariant (fun _ _ hOp h => h.op hOp) h

theorem quiet (h : Sound s) (hQuiet : t.skeleton = s.skeleton) : Sound t :=
  ⟨h.registry.sameUsers (.quiet hQuiet), h.membership.same (.quiet hQuiet)⟩

end Sound

variable {ok : Label → Core → Prop}

theorem Op.pathOfEq {s t : Core} (h : t = s) : Op.Path ok s t := by
  rw [h]

theorem Op.createDb (s : Core) (user : UserId) (random : Str) (hOk : ok .account s) :
    Op ok s (s.createDb user random) := .addRecord rfl hOk

theorem Op.registerDb (s : Core) (nick password : Str) (level : Level) (hOk : ok .account s) :
    Op ok s (s.registerDb nick password level) := .addRecord rfl hOk

theorem Op.setPassword (s : Core) (db : UserDbId) (password : Str) (hOk : ok .account s) :
    Op ok s (s.setPassword db password) := by
  apply Op.setRecord
  · rfl
  · exact fun hCloaked => .inr (.inl ⟨hCloaked, rfl⟩)
  · exact hOk

/-- The sender of a message on an open connection that has logged in is on line. -/
theorem Core.popUser_mem {s : Core} (h : Registry s) {con : ConId} {pkt : Str} {user : UserId}
    {rest : Option Str} (hOpen : (s.con con).allocated = true) (hClass : (s.con con).cls ≠ .unknown)
    (hPop : s.popUser con pkt = some (user, rest)) : user ∈ s.users.values := by
  simp only [popUser] at hPop
  split at hPop
  · split at hPop
    · split at hPop
      · rename_i hLookup
        split at hPop
        · cases hPop
        · cases hPop
          exact Bucket.Table.mem_values_of_lookup hLookup
      · cases hPop
    · cases hPop
  · rename_i hServer
    obtain ⟨u, hUser, hEq⟩ := Option.map_eq_some_iff.1 hPop
    cases hEq
    have hUserClass : (s.con con).cls = .user := by
      cases hCls : (s.con con).cls with
      | unknown => exact absurd hCls hClass
      | user => rfl
      | server => simp [isServer, hCls] at hServer
    obtain ⟨v, hv, hOwner, -⟩ := h.client con hOpen hUserClass
    rw [hUser] at hOwner
    exact Option.some.inj hOwner ▸ hv

namespace Server

/-! ### Channels -/

theorem part_path {s : Server} (h : Sound s.toCore) {con : ConId} (tag : Nat) (pkt : Str)
    (hOpen : (s.con con).allocated = true) (hClass : (s.con con).cls ≠ .unknown) :
    Op.Path ok s.toCore (s.part con tag pkt).toCore := by
  simp only [part]
  split
  · exact .refl
  · exact .refl
  · rename_i user name hPop
    have hUser := Core.popUser_mem h.registry hOpen hClass hPop
    split
    · exact Op.pathOfEq (by simp)
    · rename_i chan hFind
      simp only [toCore_partChannel, toCore_onCore, toCore_passMessageArgs, toCore_sendIfUser]
      exact (Op.leave hUser (List.mem_of_find?_eq_some hFind)).path

theorem kick_path (s : Server) (con : ConId) (tag : Nat) (pkt : Str) :
    Op.Path ok s.toCore (s.kick con tag pkt).toCore := by
  simp only [kick]
  split
  · exact .refl
  · split
    · split
      · exact Op.pathOfEq (by simp)
      · split
        · exact Op.pathOfEq (by simp)
        · split
          · exact Op.pathOfEq (by simp)
          · rename_i user hUser
            split
            · exact Op.pathOfEq (by simp)
            · split
              · exact Op.pathOfEq (by simp)
              · rename_i hOn
                simp only [Bool.not_eq_true', Bool.not_eq_false, List.contains_iff_mem] at hOn
                simp only [toCore_partChannel, toCore_onCore, toCore_notifyOps,
                  toCore_ite, toCore_sendCmd, toCore_passMessageArgs, ite_self]
                exact (Op.leave (Bucket.Table.mem_values_of_lookup hUser) hOn).path
    · exact Op.pathOfEq (by simp)

theorem toCore_clearMember (s : Server) (chan : ChanId) (sender : UserId) (name reason : Str)
    (member : ChanUser) : (s.clearMember chan sender name reason member).toCore =
      if member.user ≠ sender && s.canKick chan sender member.user then
        (s.toCore.deleteChannel member.user chan).partChannel chan member.user
      else s.toCore := by
  simp only [clearMember]
  split
  · simp only [toCore_partChannel, toCore_ite]
    split <;> rfl
  · rfl

/-- The walk of `clear_channel` over members that are all in the channel. -/
theorem clearMembers_path {s : Server} {chan : ChanId} {sender : UserId} {name reason : Str}
    {l : List ChanUser} (hNodup : (l.map (·.user)).Nodup)
    (hIn : ∀ member ∈ l, member.user ∈ s.users.values ∧ chan ∈ (s.user member.user).channels) :
    Op.Path ok s.toCore
      (l.foldl (fun s member => s.clearMember chan sender name reason member) s).toCore := by
  induction l generalizing s with
  | nil => exact .refl
  | cons member l ih =>
    obtain ⟨hUser, hChan⟩ := hIn member (by simp)
    obtain ⟨hNew, hRest⟩ := List.nodup_cons.1 hNodup
    have hFirst : Op.Path ok s.toCore (s.clearMember chan sender name reason member).toCore := by
      rw [toCore_clearMember]
      split
      · exact (Op.leave hUser hChan).path
      · exact .refl
    refine hFirst.trans (ih hRest fun other hOther => ?_)
    -- the other members are still on line and in the channel
    obtain ⟨hUser', hChan'⟩ := hIn other (List.mem_cons_of_mem _ hOther)
    have hNe : other.user ≠ member.user := fun hEq =>
      hNew (List.mem_map.2 ⟨other, hOther, hEq⟩)
    rw [toCore_clearMember]
    split
    · rw [Core.lists_partChannel]
      have hTable := (SameUsers.chan ((s.toCore.chanStep_deleteChannel member.user chan).trans
        (Core.chanStep_partChannel _ chan member.user))).users
      rw [hTable]
      exact ⟨hUser', by simpa [Core.deleteChannel, hNe] using hChan'⟩
    · exact ⟨hUser', hChan'⟩

theorem clearChannel_path {s : Server} (h : Sound s.toCore) (con : ConId) (tag : Nat)
    (pkt : Str) : Op.Path ok s.toCore (s.clearChannel con tag pkt).toCore := by
  simp only [clearChannel]
  split
  · exact .refl
  · exact Op.pathOfEq (by simp)
  · split
    · exact Op.pathOfEq (by simp)
    · rename_i chan hLookup
      split
      · exact Op.pathOfEq (by simp)
      · have hChan := Bucket.Table.mem_values_of_lookup hLookup
        refine Relation.ReflTransGen.trans (Op.pathOfEq ?_) (clearMembers_path ?_ fun member hIn => ?_)
        · simp
        · simpa [Channel.members] using h.membership.graph.nodup chan hChan
        · have hMember : member.user ∈ (s.chan chan).members :=
            List.mem_map.2 ⟨member, by simpa using hIn, rfl⟩
          simpa using h.membership.graph.listed chan hChan _ hMember

/-! ### Joining -/

/-- How a pass through the loop of `join` ends: the request is refused, or a channel is found that
the user is not in, or one is created. -/
def JoinedFrom (s : Server) (user : UserId) : JoinStep → Prop
  | .stop t => t.toCore = s.toCore
  | .found t chan chanop =>
    (t = s ∧ (∃ name, s.channels.lookup name = some chan) ∧ chan ∉ (s.user user).channels ∧
        chanop = (s.chan chan).ops.any (sameText (s.user user).nick)) ∨
      chan = s.next ∧ chanop = false ∧
        ∃ name, t = s.onCore (·.newChannel name) ∧ s.channels.lookup name = none ∧
          invalidChannel s.cfg name = false
  | .again _ => True

theorem joinTry_spec (s : Server) (con : ConId) (user : UserId) (bufLen : Nat) (name : Str) :
    JoinedFrom s user (s.joinTry con user bufLen name) := by
  simp only [joinTry]
  split
  · rename_i hNone
    split
    · exact toCore_permissionDenied s con
    · split
      · exact toCore_invalidChannelMsg s con
      · rename_i hValid
        exact .inr ⟨rfl, rfl, name, rfl, hNone, by simpa using hValid⟩
  · rename_i chan hSome
    split
    · exact toCore_sendIfUser ..
    · rename_i hIn
      have hFound : JoinedFrom s user
          (.found s chan ((s.chan chan).ops.any (sameText (s.user user).nick))) :=
        .inl ⟨rfl, ⟨name, hSome⟩, by simpa using hIn, rfl⟩
      split
      · exact toCore_sendIfUser ..
      · split
        · split
          · exact toCore_sendIfUser ..
          · split
            · exact toCore_sendIfUser ..
            · split
              · split
                · exact toCore_sendIfUser ..
                · trivial
              · exact hFound
        · exact hFound

theorem joinLoop_spec (s : Server) (con : ConId) (user : UserId) (bufLen fuel : Nat) (name : Str) :
    JoinedFrom s user (s.joinLoop con user bufLen fuel name) := by
  induction fuel generalizing name with
  | zero => trivial
  | succ fuel ih =>
    have hTry := s.joinTry_spec con user bufLen name
    simp only [joinLoop]
    cases hStep : s.joinTry con user bufLen name with
    | again next => exact ih next
    | stop t => rwa [hStep] at hTry
    | found t chan chanop => rwa [hStep] at hTry

@[simp] theorem toCore_sendMembers (s : Server) (con : ConId) (user : UserId) (chan : ChanId) :
    (s.sendMembers con user chan).toCore = s.toCore := by
  simp only [sendMembers]
  split
  · refine toCore_foldl (fun s member => ?_) _ _
    split <;> rfl
  · rfl

@[simp] theorem toCore_sendTopic (s : Server) (con : ConId) (chan : ChanId) (chanop : Bool) :
    (s.sendTopic con chan chanop).toCore = s.toCore := by
  simp only [sendTopic]
  split
  · split <;> rfl
  · rfl

theorem toCore_joined (s : Server) (con : ConId) (tag : Nat) (user : UserId) (chan : ChanId)
    (chanop : Bool) :
    (s.joined con tag user chan chanop).toCore =
      let t := if (s.chan chan).onInvite then s.toCore.uninvite user chan else s.toCore
      let t := t.enterChannel user chan
      if chanop then t.setOperator chan user true else t := by
  simp only [joined, toCore_sendTopic]
  cases chanop <;> cases (s.chan chan).onInvite <;>
    simp only [if_true, if_false, Bool.false_eq_true, toCore_onCore, toCore_notifyOps,
      toCore_tellMembers, toCore_sendMembers, toCore_passMessageArgs]

theorem joined_path {s : Server} {user : UserId} {chan : ChanId}
    (hUser : user ∈ s.users.values) (hChan : ∃ name, s.channels.lookup name = some chan)
    (hNot : chan ∉ (s.user user).channels) (con : ConId) (tag : Nat)
    (hOk : ∀ t : Core, t.cfg = s.cfg → (t.user user).channels = (s.user user).channels →
      ok (.enter user) t) :
    Op.Path ok s.toCore (s.joined con tag user chan
      ((s.chan chan).ops.any (sameText (s.user user).nick))).toCore := by
  rw [toCore_joined]
  dsimp only
  generalize hEq : (if (s.chan chan).onInvite then s.toCore.uninvite user chan else s.toCore) = t
  -- an invitation that is used up leaves the nick and the list of operators
  have hFirst : Op.Path ok s.toCore t ∧ SameChannels s.toCore t ∧ t.cfg = s.cfg ∧
      (t.user user).nick = (s.user user).nick ∧ (t.chan chan).ops = (s.chan chan).ops := by
    rw [← hEq]
    split
    · have hOutline := s.toCore.outline_uninvite user chan
      exact ⟨Op.finePath (.uninvite s.toCore user chan),
        .quiet (Core.skeleton_of_outline hOutline), rfl, by simp [Core.uninvite],
        by simp [Core.uninvite]⟩
    · exact ⟨.refl, .refl _, rfl, rfl, rfl⟩
  obtain ⟨hPath, hSame, hCfg, hNick, hOps⟩ := hFirst
  refine hPath.trans ?_
  rw [← hNick, ← hOps]
  apply Op.path
  apply Op.enter
  · rw [hSame.users]
    exact hUser
  · rw [hSame.channels]
    exact hChan
  · rw [hSame.lists]
    exact hNot
  · exact hOk t hCfg (hSame.lists user)

/-- Whom a request to join lets into a channel, if anyone. -/
def joinOf (s : Server) (con : ConId) (pkt : Str) (bufLen fuel : Nat) : Option UserId :=
  match s.popUser con pkt with
  | some (user, some (c :: cs)) =>
    let u := s.user user
    if u.level < .moderator ∧ s.cfg.maxUserChannels < (u.channels.length : Int) then none
    else if u.level < .moderator ∧ u.muzzled = true then none
    else
      let name := if c != '#' && c != '&' then ('#' :: c :: cs).take 255 else c :: cs
      match s.joinLoop con user bufLen fuel name with
      | .found _ _ _ => some user
      | _ => none
  | _ => none

/-- Letting that user in is allowed, whatever else has become of the server. -/
def allowsJoin (ok : Label → Core → Prop) (s : Server) (con : ConId) (pkt : Str)
    (bufLen fuel : Nat) : Prop :=
  ∀ user, s.joinOf con pkt bufLen fuel = some user → ∀ t : Core, t.cfg = s.cfg →
    (t.user user).channels = (s.user user).channels → ok (.enter user) t

theorem join_path {s : Server} (h : Sound s.toCore) {con : ConId} (tag : Nat) (pkt : Str)
    (bufLen fuel : Nat) (hOpen : (s.con con).allocated = true)
    (hClass : (s.con con).cls ≠ .unknown) (hOk : allowsJoin ok s con pkt bufLen fuel) :
    Op.Path ok s.toCore (s.join con tag pkt bufLen fuel).toCore := by
  simp only [join]
  split
  · exact .refl
  · exact Op.pathOfEq (by simp)
  · exact Op.pathOfEq (by simp)
  · rename_i user c cs hPop
    have hUser := Core.popUser_mem h.registry hOpen hClass hPop
    split
    · exact Op.pathOfEq (by simp)
    · rename_i hRoom
      split
      · exact Op.pathOfEq (by simp)
      · rename_i hHeard
        have hLoop := s.joinLoop_spec con user bufLen fuel
          (if c != '#' && c != '&' then ('#' :: c :: cs).take 255 else c :: cs)
        split
        · exact .refl
        · rename_i hStep
          rw [hStep] at hLoop
          exact Op.pathOfEq hLoop
        · rename_i t chan chanop hStep
          have hMay := hOk user (by simp only [joinOf, hPop, hRoom, hHeard, if_false, hStep])
          rw [hStep] at hLoop
          rcases hLoop with ⟨rfl, hChan, hNot, rfl⟩ | ⟨rfl, rfl, name, rfl, hNone, hValid⟩
          · exact joined_path hUser hChan hNot con tag hMay
          · have hInvite : ((s.toCore.newChannel name).chan s.next).onInvite = false := by
              simp [Core.newChannel]
            rw [toCore_joined]
            simp only [toCore_onCore, hInvite, Bool.false_eq_true, if_false]
            exact (Op.found hUser hNone hValid (hMay s.toCore rfl rfl)).path

/-! ### Operators and registration -/

theorem opNick_path {s : Server} {chan : ChanId}
    (hName : ∃ name, s.channels.lookup name = some chan) (con : ConId) (tag : Nat) (sender nick : Str) :
    Op.Path ok s.toCore (s.opNick con tag sender chan nick).toCore := by
  simp only [opNick]
  split
  · exact Op.pathOfEq (by simp)
  · rename_i hNick
    -- who is meant does not depend on the list of operators
    have hTarget (f : List Str → List Str) :
        ((s.toCore.modChan chan fun c => { c with ops := f c.ops }).users.lookup nick).filter
            (fun user => ((s.toCore.modChan chan fun c => { c with ops := f c.ops }).findChanuser chan
              user).isSome) =
          (s.users.lookup nick).filter fun user => (s.findChanuser chan user).isSome := by
      simp [Core.findChanuser]
    split
    · split
      · have hDrop : Op ok s.toCore (s.toCore.dropOperator chan nick) := .dropOperator _ chan nick
        simp only [Core.dropOperator, Core.markOperator] at hDrop
        rw [hTarget (·.eraseP fun op => sameText op nick)] at hDrop
        split
        · rename_i hNone
          rw [hNone] at hDrop
          exact hDrop.path
        · rename_i hSome
          rw [hSome] at hDrop
          simp only [toCore_notifyOps, toCore_onCore, toCore_sendIfUser]
          exact hDrop.path
      · exact .refl
    · rename_i hAbsent
      split
      · have hAdd : Op ok s.toCore (s.toCore.addOperator chan nick) :=
          .addOperator (by simpa using hNick) fun op hOp =>
            Bool.eq_false_iff.2 fun hSame => hAbsent (List.any_eq_true.2 ⟨op, hOp, hSame⟩)
        have hFlag (t : Core) (hTable : t.channels = s.channels) :
            Op ok t (t.modChan chan fun c => { c with onUser := false }) :=
          hName.elim fun _ hLookup => .flagChannel false (hTable ▸ hLookup) (by simp)
        simp only [Core.addOperator, Core.markOperator] at hAdd
        rw [hTarget (· ++ [nick])] at hAdd
        split
        · rename_i hNone
          rw [hNone] at hAdd
          refine hAdd.path.trans (hFlag _ ?_).path
          rfl
        · rename_i hSome
          rw [hSome] at hAdd
          simp only [toCore_notifyOps, toCore_onCore, toCore_sendIfUser]
          refine hAdd.path.trans (hFlag _ ?_).path
          rfl
      · exact .refl

theorem channels_opNick (s : Server) (con : ConId) (tag : Nat) (sender : Str) (chan : ChanId)
    (nick : Str) : (s.opNick con tag sender chan nick).channels = s.channels := by
  simp only [opNick]
  split
  · simp
  · split
    · split
      · split
        · rfl
        · simp [Core.setOperator]
      · rfl
    · split
      · split
        · rfl
        · simp [Core.setOperator]
      · rfl

theorem opNicks_path {s : Server} {chan : ChanId}
    (hName : ∃ name, s.channels.lookup name = some chan) (con : ConId) (tag : Nat) (sender : Str)
    (nicks : List Str) : Op.Path ok s.toCore
      (nicks.foldl (fun s nick => s.opNick con tag sender chan nick) s).toCore := by
  induction nicks generalizing s with
  | nil => exact .refl
  | cons nick nicks ih =>
    have hTable := s.channels_opNick con tag sender chan nick
    exact (opNick_path hName con tag sender nick).trans (ih (by rw [hTable]; exact hName))

theorem channelOp_path (s : Server) (con : ConId) (tag : Nat) (pkt : Str) :
    Op.Path ok s.toCore (s.channelOp con tag pkt).toCore := by
  simp only [channelOp]
  split
  · exact .refl
  · split
    · exact Op.pathOfEq (by simp)
    · split
      · split
        · exact Op.pathOfEq (by simp)
        · rename_i chan hName
          refine Relation.ReflTransGen.trans (Op.pathOfEq ?_)
            (opNicks_path ?_ con tag _ _)
          · simp
          · rw [toCore_passMessageArgs]
            exact ⟨_, hName⟩
      · exact Op.pathOfEq (by simp)

theorem channelDrop_path (s : Server) (con : ConId) (tag : Nat) (pkt : Str) :
    Op.Path ok s.toCore (s.channelDrop con tag pkt).toCore := by
  simp only [channelDrop]
  split
  · exact .refl
  · split
    · split
      · exact Op.pathOfEq (by simp)
      · rename_i chan hName
        split
        · exact Op.pathOfEq (by simp)
        · rename_i hFlag
          split
          · exact Op.pathOfEq (by simp)
          · split
            · rename_i hEmpty
              simp only [toCore_onCore, toCore_notifyOps, toCore_passMessageArgs]
              exact (Op.dropChannel hName (List.isEmpty_iff.1 hEmpty) (by simpa using hFlag)).path
            · rename_i hSome
              simp only [toCore_onCore, toCore_notifyOps, toCore_passMessageArgs]
              exact (Op.flagChannel true hName fun _ => by simpa using hSome).path
    · exact Op.pathOfEq (by simp)

/-! ### Users who go -/

/-- A user who has no connection of the class of users is behind a peer. -/
theorem remote_of_not_isUser {s : Core} (h : Registry s) {user : UserId}
    (hUser : user ∈ s.users.values) (hClass : s.isUser (s.user user).con = false) :
    (s.user user).isLocal = false := by
  cases hLocal : (s.user user).isLocal with
  | false => rfl
  | true =>
    simp [Core.isUser, (h.home user hUser hLocal).2.1] at hClass

theorem personal_markKilled (s : Core) (con : ConId) :
    (s.modCon con fun c => { c with destroy := true, killed := true }).personal = s.personal :=
  s.personal_modCon con rfl

theorem killUser_path {s : Server} (h : Sound s.toCore) (con : ConId) (pkt : Str)
    (hOk : ∀ t, ok .person t) :
    Op.Path ok s.toCore (s.killUser con pkt).toCore := by
  simp only [killUser]
  split
  · exact .refl
  · split
    · split
      · exact Op.pathOfEq (by simp)
      · rename_i user hLookup
        split
        · exact Op.pathOfEq (by simp)
        · have hUser := Bucket.Table.mem_values_of_lookup hLookup
          split
          · simp only [toCore_sendCmd, toCore_markKilled, toCore_notifyMods,
              toCore_passMessageArgs]
            exact (Op.person (personal_markKilled _ _) (hOk _)).path
          · rename_i hClass
            simp only [toCore_notifyMods, toCore_passMessageArgs, Bool.not_eq_true] at hClass
            simp only [toCore_hashRemoveUser, toCore_notifyMods, toCore_passMessageArgs]
            exact (Op.removeRemote hUser (remote_of_not_isUser h.registry hUser hClass) (hOk _)).path
    · exact Op.pathOfEq (by simp)

theorem clientQuit_path (s : Server) (con : ConId) (tag : Nat) (pkt : Str)
    (hOk : ∀ t, ok .person t) :
    Op.Path ok s.toCore (s.clientQuit con tag pkt).toCore := by
  simp only [clientQuit]
  split
  · exact .refl
  · rename_i user hLookup
    split
    · exact .refl
    · rename_i hLocal
      simp only [toCore_hashRemoveUser, toCore_passMessageArgs]
      exact (Op.removeRemote (Bucket.Table.mem_values_of_lookup hLookup) (by simpa using hLocal)
        (hOk _)).path

/-! ### Files -/

@[simp] theorem toCore_sendOverShared (s : Server) (con : ConId) :
    (s.sendOverShared con).toCore = s.toCore := rfl

/-- What `ok` has to allow for the files of an `add_directory`. -/
def allowsDirectory (ok : Label → Core → Prop) (con : ConId) (user : UserId) (dir : Str) :
    Server → List Str → Prop
  | _, [] => True
  | s, basename :: _ :: size :: bitrate :: freq :: duration :: rest =>
    overShared s.toCore user = false →
      (s.lookupFile con (dir ++ basename.take (posixPathMax - 1 - dir.length)) = none →
        1 ≤ atoi size → ok (.insert user (toUint (atoi size) / 1024)) s.toCore) ∧
      allowsDirectory ok con user dir
        (s.addDirectoryFile con user dir basename size bitrate freq duration) rest
  | _, _ => True

/-- The size of a file in kB fits into the total of its owner when the size in bytes does. -/
theorem kb_fits {total size : UInt32} (h : ¬ total + size < total) :
    total.toNat + (size / 1024).toNat < 2 ^ 32 := by
  have hTotal := total.toNat_lt
  have hSize := size.toNat_lt
  rw [UInt32.lt_iff_toNat_lt, UInt32.toNat_add] at h
  rw [UInt32.toNat_div]
  have hDiv : size.toNat / (1024 : UInt32).toNat ≤ size.toNat := Nat.div_le_self _ _
  omega

theorem addFile_path {s : Server} {con : ConId} (hOpen : (s.con con).allocated = true)
    (hClass : (s.con con).cls = .user) (pkt : Str)
    (hOk : ∀ user kb, (s.con con).user = some user →
      (s.user user).libsize.toNat + kb.toNat < 2 ^ 32 → ok (.insert user kb) s.toCore) :
    Op.Path ok s.toCore (s.addFile con pkt).toCore := by
  simp only [addFile]
  split
  · exact .refl
  · rename_i user hUser
    split
    · exact Op.pathOfEq (by simp)
    · split
      · split
        · exact Op.pathOfEq (by simp)
        · split
          · exact .refl
          · rename_i hFits
            split
            · exact Op.pathOfEq (by simp)
            · rename_i hNew
              rw [toCore_onCore]
              refine (Op.insert hOpen hClass hUser ?_ ?_).path
              · simpa using hNew
              · exact hOk user _ hUser (kb_fits hFits)
      · exact Op.pathOfEq (by simp)

theorem shareFile_path {s : Server} {con : ConId} (hOpen : (s.con con).allocated = true)
    (hClass : (s.con con).cls = .user) (pkt : Str)
    (hOk : ∀ user kb, (s.con con).user = some user →
      (s.user user).libsize.toNat + kb.toNat < 2 ^ 32 → ok (.insert user kb) s.toCore) :
    Op.Path ok s.toCore (s.shareFile con pkt).toCore := by
  simp only [shareFile]
  split
  · exact .refl
  · rename_i user hUser
    split
    · exact Op.pathOfEq (by simp)
    · split
      · split
        · exact Op.pathOfEq (by simp)
        · split
          · exact Op.pathOfEq (by simp)
          · split
            · exact Op.pathOfEq (by simp)
            · rename_i hNew
              split
              · exact .refl
              · rename_i hFits
                rw [toCore_onCore]
                rw [UInt32.add_comm] at hFits
                refine (Op.insert hOpen hClass hUser ?_ ?_).path
                · simpa using hNew
                · exact hOk user _ hUser (kb_fits hFits)
      · exact Op.pathOfEq (by simp)

theorem addDirectoryFile_path {s : Server} {con : ConId} {user : UserId}
    (hOpen : (s.con con).allocated = true) (hClass : (s.con con).cls = .user)
    (hUser : (s.con con).user = some user) (dir basename size bitrate freq duration : Str)
    (hOk : s.lookupFile con (dir ++ basename.take (posixPathMax - 1 - dir.length)) = none →
      1 ≤ atoi size → ok (.insert user (toUint (atoi size) / 1024)) s.toCore) :
    Op.Path ok s.toCore
        (s.addDirectoryFile con user dir basename size bitrate freq duration).toCore ∧
      FileStep s.toCore (s.addDirectoryFile con user dir basename size bitrate freq duration).toCore := by
  simp only [addDirectoryFile]
  split
  · rw [toCore_sendCmd]
    exact ⟨.refl, .refl _⟩
  · rename_i hNew
    split
    · rw [toCore_sendCmd]
      exact ⟨.refl, .refl _⟩
    · rename_i hSize
      have hNone : s.lookupFile con (dir ++ basename.take (posixPathMax - 1 - dir.length)) = none := by
        simpa using hNew
      rw [toCore_onCore]
      refine ⟨(Op.insert hOpen hClass hUser hNone ?_).path, Core.fileStep_insertDatum _ _ _ _⟩
      exact hOk hNone (by omega)

theorem addDirectoryLoop_path {s : Server} {con : ConId} {user : UserId} {dir : Str} {l : List Str}
    (hOpen : (s.con con).allocated = true) (hClass : (s.con con).cls = .user)
    (hUser : (s.con con).user = some user) (hOk : allowsDirectory ok con user dir s l) :
    Op.Path ok s.toCore (s.addDirectoryLoop con user dir l).toCore := by
  fun_induction addDirectoryLoop s con user dir l with
  | case1 s => exact .refl
  | case2 s basename _ size bitrate freq duration rest hOver => exact Op.pathOfEq (by simp)
  | case3 s basename _ size bitrate freq duration rest hOver ih =>
    obtain ⟨hFile, hRest⟩ := hOk (by simpa using hOver)
    obtain ⟨hPath, hStep⟩ := addDirectoryFile_path hOpen hClass hUser dir basename size bitrate freq
      duration hFile
    have hSame := SameUsers.file hStep
    exact hPath.trans (ih (by rw [hSame.allocated, hOpen]) (by rw [hSame.cls, hClass])
      (by rw [hSame.owner, hUser]) hRest)
  | case4 => exact Op.pathOfEq (by simp)
  | case5 => exact Op.pathOfEq (by simp)

theorem addDirectory_path {s : Server} {con : ConId} (hOpen : (s.con con).allocated = true)
    (hClass : (s.con con).cls = .user) (pkt : Str)
    (hOk : ∀ user dir, (s.con con).user = some user → directoryPrefix (nextArg pkt).1 = some dir →
      allowsDirectory ok con user dir s (args (nextArg pkt).2)) :
    Op.Path ok s.toCore (s.addDirectory con pkt).toCore := by
  simp only [addDirectory]
  split
  · exact .refl
  · rename_i user hUser
    split
    · exact .refl
    · rename_i dir hDir
      exact addDirectoryLoop_path hOpen hClass hUser (hOk user dir hUser hDir)

theorem removeFile_path {s : Server} {con : ConId} (hOpen : (s.con con).allocated = true)
    (hClass : (s.con con).cls = .user) (pkt : Str) (hOk : ok .unshare s.toCore) :
    Op.Path ok s.toCore (s.removeFile con pkt).toCore := by
  simp only [removeFile]
  split
  · exact .refl
  · rename_i user hUser
    split
    · exact Op.pathOfEq (by simp)
    · split
      · exact Op.pathOfEq (by simp)
      · rename_i d hFile
        rw [toCore_onCore]
        exact (Op.dropFile hOpen hClass hUser hFile hOk).path

theorem userSharing_path (s : Server) (con : ConId) (tag : Nat) (pkt : Str)
    (hOk : ∀ nick count size user, splitLine 3 pkt = some [nick, count, size] →
      s.users.lookup nick = some user → ok (.report user (max (atoi count) 0)) s.toCore) :
    Op.Path ok s.toCore (s.userSharing con tag pkt).toCore := by
  simp only [userSharing]
  split
  · rename_i nick count size hFields
    split
    · exact .refl
    · rename_i user hLookup
      have hUser := Bucket.Table.mem_values_of_lookup hLookup
      have hAllowed := hOk nick count size user hFields hLookup
      rw [toCore_passMessageArgs]
      split
      · rename_i hNeg
        have hZero : max (atoi count) 0 = 0 := by omega
        rw [hZero] at hAllowed
        have hReport : Op ok s.toCore (s.toCore.reportShared user 0 0 0) :=
          Op.report hUser hAllowed (.inr ⟨rfl, rfl⟩)
        refine Relation.ReflTransGen.trans hReport.path (Op.pathOfEq ?_)
        simp [Core.reportShared, Int.sub_eq_add_neg]
      · rename_i hPos
        have hSelf : max (atoi count) 0 = atoi count := by omega
        rw [hSelf] at hAllowed
        exact (Op.report hUser hAllowed (.inl ⟨by omega, rfl⟩)).path
  · exact .refl

/-! ### Searches -/

@[simp] theorem toCore_endSearch (s : Server) (con : ConId) (id : Str) (reason : EndReason) :
    (s.endSearch con id reason).toCore = s.toCore.note (.ended id con reason) := by
  simp only [endSearch, toCore_onCore, toCore_ite, toCore_sendCmd, ite_self]

@[simp] theorem toCore_sendResult (s : Server) (con : ConId) (remote : Bool) (id : Str)
    (d : DatumId) : (s.sendResult con remote id d).toCore = s.toCore.note (.result id con) := by
  simp only [sendResult, toCore_onCore, toCore_ite, toCore_sendCmd, ite_self]

/-- The walk of `fdb_search` for a request notes one result for each hit that it counts. -/
theorem offerLoop_spec (con : ConId) (user : UserId) (remote : Bool) (id : Str) (q : Query)
    (maxhits hits : Int) (l : List DatumId) (s : Server) :
    ∃ n : Nat,
      (offerLoop (searchCallback con user remote id q) maxhits s hits l).2 = hits + n ∧
      (offerLoop (searchCallback con user remote id q) maxhits s hits l).1.toCore =
        { s.toCore with traffic := s.traffic ++ List.replicate n (.result id con) } := by
  induction l generalizing s hits with
  | nil => exact ⟨0, by simp [offerLoop], by simp [offerLoop]⟩
  | cons d l ih =>
    simp only [offerLoop, searchCallback]
    by_cases hAccept : accepts s.toCore user q d = true
    · simp only [hAccept, if_true]
      split
      · exact ⟨1, by simp, by simp [Core.note]⟩
      · obtain ⟨n, hHits, hCore⟩ := ih (hits + 1) (s.sendResult con remote id d)
        refine ⟨n + 1, by rw [hHits]; push_cast; ring, ?_⟩
        rw [hCore]
        simp [Core.note, List.replicate_succ]
    · simp only [hAccept, Bool.false_eq_true, if_false]
      exact ih hits s

theorem toCore_forwardSearch (s : Server) (con : ConId) (user : UserId) (id : Str) (q : Query)
    (results : Int) :
    (s.forwardSearch con user id q results).toCore =
      { s.toCore with
        remoteSearch := s.remoteSearch ++
          [{ con := con
             nick := (s.user user).nick
             id := id
             count := 0
             numServers := toShort (s.servers.length - if s.isServer con then 1 else 0)
             timestamp := s.now }]
        traffic := s.traffic ++ (s.servers.filter (· != con)).map (.asked id ·) } := by
  have hNotes (peers : List ConId) (t : Core) :
      peers.foldl (fun s peer => s.note (.asked id peer)) t =
        { t with traffic := t.traffic ++ peers.map (.asked id ·) } := by
    induction peers generalizing t with
    | nil => simp
    | cons peer peers ih =>
      rw [List.foldl_cons, ih]
      simp [Core.note]
  simp only [forwardSearch, toCore_onCore, toCore_passMessageArgs, hNotes]

theorem searchInternal_path (s : Server) {con : ConId} (user : UserId) (remote : Bool)
    (id pkt : Str) (hOpen : (s.con con).allocated = true) (hOk : ok (.forward con id) s.toCore) :
    Op.Path ok s.toCore (s.searchInternal con user remote id pkt).toCore := by
  have hNone : Op ok s.toCore (s.toCore.finishSearch con id 0) := Op.finishSearch id 0 hOpen
  simp only [searchInternal]
  split
  · refine Relation.ReflTransGen.trans hNone.path (Op.pathOfEq ?_)
    simp [Core.finishSearch, Core.note]
  · refine Relation.ReflTransGen.trans hNone.path (Op.pathOfEq ?_)
    simp [Core.finishSearch, Core.note]
  · rename_i q hQuery
    obtain ⟨n, hHits, hCore⟩ := offerLoop_spec con user remote id q q.maxResults 0
      ((s.onCore (·.note (.begun id con))).offered q.tokens) (s.onCore (·.note (.begun id con)))
    simp only [Core.fdbSearch]
    generalize offerLoop (searchCallback con user remote id q) q.maxResults
      (s.onCore (·.note (.begun id con))) 0
      ((s.onCore (·.note (.begun id con))).offered q.tokens) = result at hHits hCore
    obtain ⟨t, hits⟩ := result
    simp only at hHits hCore
    have hNotes : t.toCore = { s.toCore with
        traffic := s.traffic ++ .begun id con :: List.replicate n (.result id con) } := by
      rw [hCore]
      simp [Core.note]
    simp only [askPeers]
    split
    · rename_i hMore
      have hPeers : hasPeers s.toCore con = true := by
        have hAfter := hMore.2.2
        rw [hNotes] at hAfter
        exact hAfter
      refine Relation.ReflTransGen.trans
        (Op.forwardSearch (s.user user).nick id n hOpen hPeers hOk).path (Op.pathOfEq ?_)
      rw [toCore_forwardSearch, hNotes]
      simp [Core.forwardSearch, Core.isServer]
    · refine Relation.ReflTransGen.trans (Op.finishSearch id n hOpen).path (Op.pathOfEq ?_)
      rw [toCore_endSearch, hNotes]
      simp [Core.finishSearch, Core.note]

theorem search_path {s : Server} {con : ConId} (searchId pkt : Str)
    (hOpen : (s.con con).allocated = true) (hOk : ok (.forward con searchId) s.toCore) :
    Op.Path ok s.toCore (s.search con searchId pkt).toCore := by
  simp only [search]
  split
  · exact .refl
  · exact s.searchInternal_path _ false searchId pkt hOpen hOk

theorem remoteSearchRequest_path {s : Server} {con : ConId} (pkt : Str)
    (hOpen : (s.con con).allocated = true) (hOk : ∀ id, ok (.forward con id) s.toCore) :
    Op.Path ok s.toCore (s.remoteSearchRequest con pkt).toCore := by
  have hNone (id : Str) : Op.Path ok s.toCore
      ((s.onCore (·.note (.begun id con))).endSearch con id .immediate).toCore := by
    refine Relation.ReflTransGen.trans (Op.finishSearch id 0 hOpen).path (Op.pathOfEq ?_)
    simp [Core.finishSearch, Core.note]
  simp only [remoteSearchRequest]
  split
  · exact .refl
  · split
    · exact hNone _
    · split
      · exact hNone _
      · exact s.searchInternal_path _ true _ _ hOpen (hOk _)

/-- The loop of `find_search` ends the requests that have expired on the way to the one it looks
for. -/
theorem findLoop_spec (id : Str) (l : List DSearch) (s : Server) :
    ∃ gone : List DSearch, l.Perm (gone ++ (findLoop id s l).2.1) ∧
      (findLoop id s l).2.1.Sublist l ∧
      (∀ d ∈ gone, d.timestamp + s.cfg.searchTimeout < s.now) ∧
      (findLoop id s l).2.2 = (findLoop id s l).2.1.find? (·.id == id) ∧
      (findLoop id s l).1.toCore =
        { s.toCore with
          traffic := s.traffic ++
            gone.map fun d => .ended d.id d.con (.expired (s.now - d.timestamp)) } := by
  induction l generalizing s with
  | nil => exact ⟨[], by simp [findLoop], by simp [findLoop], by simp, by simp [findLoop],
      by simp [findLoop]⟩
  | cons d l ih =>
    by_cases hId : d.id = id
    · exact ⟨[], by simp [findLoop, hId], by simp [findLoop, hId], by simp, by simp [findLoop, hId],
        by simp [findLoop, hId]⟩
    · by_cases hOld : d.timestamp + s.cfg.searchTimeout < s.now
      · obtain ⟨gone, hPerm, hSub, hAge, hFound, hCore⟩ :=
          ih (s.endSearch d.con d.id (.expired (s.now - d.timestamp)))
        simp only [findLoop, hId, hOld, if_true, if_false]
        refine ⟨d :: gone, hPerm.cons d, hSub.cons d, ?_, hFound, ?_⟩
        · rintro e (_ | ⟨_, he⟩)
          · exact hOld
          · simpa [Core.note] using hAge e he
        · rw [hCore]
          simp [Core.note]
      · obtain ⟨gone, hPerm, hSub, hAge, hFound, hCore⟩ := ih s
        simp only [findLoop, hId, hOld, if_false]
        refine ⟨gone, ?_, hSub.cons_cons d, hAge, ?_, hCore⟩
        · exact (hPerm.cons d).trans List.perm_middle.symm
        · rw [hFound]
          simp [hId]

variable (ok) in
theorem findSearch_path (s : Server) (id : Str) :
    Op.Path ok s.toCore (s.findSearch id).1.toCore ∧
      (s.findSearch id).2 = (s.findSearch id).1.remoteSearch.find? (·.id == id) := by
  obtain ⟨gone, hPerm, hSub, hAge, hFound, hCore⟩ := findLoop_spec id s.remoteSearch s
  simp only [findSearch]
  refine ⟨Relation.ReflTransGen.trans (Op.expire hPerm hSub hAge).path (Op.pathOfEq ?_), hFound⟩
  rw [toCore_onCore, hCore]
  rfl

theorem remoteSearchResult_path (s : Server) (tag : Nat) (pkt : Str) :
    Op.Path ok s.toCore (s.remoteSearchResult tag pkt).toCore := by
  simp only [remoteSearchResult]
  split
  · rename_i id nick filename md5 size bitrate freq duration hFields
    obtain ⟨hPath, hFound⟩ := findSearch_path ok s id
    generalize s.findSearch id = result at hPath hFound
    obtain ⟨t, found⟩ := result
    simp only at hPath hFound
    subst hFound
    cases hFind : t.remoteSearch.find? (·.id == id) with
    | none => exact hPath
    | some d =>
      have hIn : d ∈ t.remoteSearch := List.mem_of_find?_eq_some hFind
      have hId : d.id = id := by simpa using List.find?_some hFind
      have hResult : Op ok t.toCore (t.toCore.note (.result id d.con)) := hId ▸ Op.result hIn
      simp only
      split
      · split
        · exact hPath
        · exact hPath.trans hResult.path
      · exact hPath.trans hResult.path
  · exact .refl

theorem remoteSearchEnd_path (s : Server) (con : ConId) (pkt : Str)
    (hOk : ok (.answer con pkt) (s.findSearch pkt).1.toCore) :
    Op.Path ok s.toCore (s.remoteSearchEnd con pkt).toCore := by
  obtain ⟨hPath, hFound⟩ := findSearch_path ok s pkt
  simp only [remoteSearchEnd]
  generalize s.findSearch pkt = result at hPath hFound hOk
  obtain ⟨t, found⟩ := result
  simp only at hPath hFound hOk
  subst hFound
  refine hPath.trans (Relation.ReflTransGen.trans (Op.answer con pkt hOk).path (Op.pathOfEq ?_))
  simp only [Core.answerSearch]
  cases hFind : t.remoteSearch.find? (·.id == pkt) with
  | none => rfl
  | some d =>
    simp only
    split
    · simp
    · rfl

/-- The loop of `cancel_search` ends some requests and keeps some, in order. -/
theorem cancelLoop_spec (con : ConId) (byServer : Bool) (l : List DSearch) (s : Server) :
    let view (d : DSearch) : DSearch :=
      if byServer then { d with numServers := toShort (d.numServers - 1) } else d
    (cancelLoop con byServer s l).2 =
        (l.map view).filter (fun d => d.con != con && !decide (d.numServers ≤ d.count)) ∧
      (cancelLoop con byServer s l).1.toCore =
        { s.toCore with
          traffic := s.traffic ++
            ((l.map view).filter fun d => d.con != con && decide (d.numServers ≤ d.count)).map
              fun d => .ended d.id d.con .counted } := by
  intro view
  induction l generalizing s with
  | nil => exact ⟨by simp [cancelLoop], by simp [cancelLoop]⟩
  | cons d l ih =>
    have hView : (if byServer then { d with numServers := toShort (d.numServers - 1) } else d) =
        view d := rfl
    simp only [cancelLoop, hView, List.map_cons]
    by_cases hCon : (view d).con = con
    · obtain ⟨hKept, hCore⟩ := ih s
      simp only [hCon, if_true, hKept, hCore]
      simp [hCon]
    · by_cases hDone : (view d).numServers ≤ (view d).count
      · obtain ⟨hKept, hCore⟩ := ih (s.endSearch (view d).con (view d).id .counted)
        simp only [hCon, hDone, if_true, if_false, hKept, hCore]
        simp [hCon, hDone, Core.note]
      · obtain ⟨hKept, hCore⟩ := ih s
        simp only [hCon, hDone, if_false, hKept, hCore]
        simp [hCon, hDone]

theorem toCore_cancelSearch (s : Server) (con : ConId) :
    (s.cancelSearch con).toCore = s.toCore.cancelSearch con := by
  obtain ⟨hKept, hCore⟩ := cancelLoop_spec con (s.isServer con) s.remoteSearch s
  simp only [cancelSearch, toCore_onCore, hKept, hCore]
  rfl

/-! ### Connections -/

variable (ok) in
theorem serverSplit_path {s : Server} (h : Sound s.toCore) {con : ConId} {user : UserId}
    (hClass : (s.con con).cls = .server) (hUser : user ∈ s.users.values)
    (hOk : ∀ t, ok .person t) : Op.Path ok s.toCore (s.serverSplit con user).toCore := by
  simp only [serverSplit]
  split
  · rename_i hCon
    have hLocal : (s.user user).isLocal = false :=
      remote_of_not_isUser h.registry hUser (by simp [Core.isUser, hCon, hClass])
    simp only [toCore_hashRemoveUser, toCore_passMessageArgs]
    exact (Op.removeRemote hUser hLocal (hOk _)).path
  · exact .refl

/-- What one step of the walk over the users leaves of the table of users. -/
theorem serverSplit_users {s : Server} (h : Sound s.toCore) (con : ConId) {user : UserId}
    (hUser : user ∈ s.users.values) (u : UserId) :
    (u ∈ (s.serverSplit con user).users.values ↔
        u ∈ s.users.values ∧ ¬ (u = user ∧ (s.user u).con = con)) ∧
      ((s.serverSplit con user).user u).con = (s.user u).con ∧
      ∀ c, ((s.serverSplit con user).con c).cls = (s.con c).cls := by
  simp only [serverSplit]
  split
  · rename_i hCon
    have hSame := Core.sameUsers_hashRemoveUser (h.registry.lookup_nick hUser)
    simp only [toCore_hashRemoveUser, toCore_passMessageArgs]
    refine ⟨?_, hSame.home u, hSame.cls⟩
    rw [hSame.users]
    refine (h.registry.mem_remove hUser).trans (and_congr_right fun _ => ?_)
    constructor
    · rintro hNe ⟨rfl, -⟩
      exact hNe rfl
    · rintro hNot rfl
      exact hNot ⟨rfl, hCon⟩
  · rename_i hCon
    refine ⟨⟨fun hu => ⟨hu, ?_⟩, And.left⟩, rfl, fun _ => rfl⟩
    rintro ⟨rfl, hHere⟩
    exact hCon hHere

variable (ok) in
/-- The walk of `remove_connection` over the users leaves none behind the lost server. -/
theorem serverSplits_path {con : ConId} {l : List UserId} {s : Server} (h : Sound s.toCore)
    (hClass : (s.con con).cls = .server) (hNodup : l.Nodup) (hIn : ∀ user ∈ l, user ∈ s.users.values)
    (hAll : ∀ user ∈ s.users.values, (s.user user).con = con → user ∈ l)
    (hOk : ∀ t, ok .person t) :
    Op.Path ok s.toCore (l.foldl (fun s user => s.serverSplit con user) s).toCore ∧
      ∀ user ∈ (l.foldl (fun s user => s.serverSplit con user) s).users.values,
        ((l.foldl (fun s user => s.serverSplit con user) s).user user).con ≠ con := by
  induction l generalizing s with
  | nil => exact ⟨.refl, fun user hUser hCon => absurd (hAll user hUser hCon) (by simp)⟩
  | cons user l ih =>
    obtain ⟨hNew, hRest⟩ := List.nodup_cons.1 hNodup
    have hUser := hIn user (by simp)
    have hPath := serverSplit_path ok h hClass hUser hOk
    have hUsers := serverSplit_users h con hUser
    have hAfter := ih (h.path hPath) (by rw [(hUsers user).2.2, hClass]) hRest ?_ ?_
    · exact ⟨hPath.trans hAfter.1, hAfter.2⟩
    · intro u hu
      refine (hUsers u).1.2 ⟨hIn u (List.mem_cons_of_mem _ hu), ?_⟩
      rintro ⟨rfl, -⟩
      exact hNew hu
    · intro u hu hCon
      obtain ⟨hu, hNot⟩ := (hUsers u).1.1 hu
      rw [(hUsers u).2.1] at hCon
      rcases List.mem_cons.1 (hAll u hu hCon) with rfl | hl
      · exact absurd ⟨rfl, hCon⟩ hNot
      · exact hl

theorem serverSplits_rest (con : ConId) (l : List UserId) (s : Server) :
    SameSearches s.toCore (l.foldl (fun s user => s.serverSplit con user) s).toCore := by
  induction l generalizing s with
  | nil => exact .refl _
  | cons user l ih =>
    have hFirst : SameSearches s.toCore (s.serverSplit con user).toCore := by
      simp only [serverSplit]
      split
      · simpa using SameSearches.hashRemoveUser s.toCore (s.user user).nick
      · exact .refl _
    exact hFirst.trans (ih _)

theorem detail_removeLinks (s : Core) (host : Str) : (s.removeLinks host).detail = s.detail := rfl

variable (ok) in
/-- A server is taken out of the list, and the users behind it are removed. -/
theorem removeServer_path {s : Server} (h : Sound s.toCore) {con : ConId}
    (hClass : (s.con con).cls = .server) (hOk : ∀ t, ok .person t) :
    Op.Path ok s.toCore (s.removeServer con).toCore ∧
      (∀ user ∈ (s.removeServer con).users.values,
        ((s.removeServer con).user user).con ≠ con) ∧
      SameSearches (s.toCore.unlinkServer con) (s.removeServer con).toCore := by
  have hPath : Op.Path ok s.toCore ((s.toCore.removeLinks (s.con con).host).unlinkServer con) :=
    (Op.quietPath (detail_removeLinks s.toCore _) fun h => h).trans (Op.unlinkServer _ con).path
  simp only [removeServer]
  generalize hEq : ((s.tellServerQuit con).onCore fun s =>
    (s.removeLinks (s.con con).host).unlinkServer con) = t
  have hCore : t.toCore = (s.toCore.removeLinks (s.con con).host).unlinkServer con := by
    rw [← hEq, toCore_onCore, toCore_tellServerQuit]
  rw [← hCore] at hPath
  have hSound := h.path hPath
  have hWalk := serverSplits_path ok hSound (by rw [hCore]; exact hClass)
    hSound.registry.values_nodup (fun _ hu => hu) (fun _ hu _ => hu) hOk
  have hRest := serverSplits_rest con t.users.values t
  refine ⟨hPath.trans hWalk.1, hWalk.2, ?_⟩
  refine SameSearches.trans ?_ hRest
  rw [hCore]
  exact { SameSearches.refl _ with }

theorem removeConnection_path {s : Server} (h : Sound s.toCore) {con : ConId}
    (hOpen : (s.con con).allocated = true) (hOk : ok (.cancel con) s.toCore)
    (hPerson : ∀ t, ok .person t) :
    Op.Path ok s.toCore (s.removeConnection con).toCore := by
  have hCancel := toCore_cancelSearch (s.onCore (·.note (.leaving con))) con
  have hFirst : Op.Path ok s.toCore
      ((s.onCore (·.note (.leaving con))).cancelSearch con).toCore := by
    rw [hCancel]
    exact (Op.cancel hOpen hOk).path
  have hSound := h.path hFirst
  have hPending : ∀ d ∈ ((s.onCore (·.note (.leaving con))).cancelSearch con).remoteSearch,
      d.con ≠ con := by
    rw [hCancel]
    intro d hd
    have hKept := (List.mem_filter.1 hd).2
    simp only [Bool.and_eq_true, bne_iff_ne] at hKept
    exact hKept.1
  have hOpen' : (((s.onCore (·.note (.leaving con))).cancelSearch con).con con).allocated =
      true := by
    rw [hCancel]
    exact hOpen
  simp only [removeConnection]
  generalize (s.onCore (·.note (.leaving con))).cancelSearch con = t at hFirst hSound hPending hOpen'
  refine hFirst.trans ?_
  rw [toCore_onCore]
  cases hClass : (t.con con).cls with
  | user =>
    have hUser : t.isUser con = true := by simp [Core.isUser, hClass]
    rw [if_pos hUser, toCore_removeUser]
    exact (Op.hangUp hOpen' hClass hPending (hPerson _)).path
  | unknown =>
    have hUser : ¬ t.isUser con = true := by simp [Core.isUser, hClass]
    have hServer : ¬ t.isServer con = true := by simp [Core.isServer, hClass]
    rw [if_neg hUser, if_neg hServer]
    refine (Op.close hOpen' (by rw [hClass]; decide) ?_ hPending ?_).path
    · rintro user hIn rfl
      cases hLocal : (t.user user).isLocal with
      | true => rw [(hSound.registry.home user hIn hLocal).2.1] at hClass; cases hClass
      | false => rw [(hSound.registry.behind user hIn hLocal).2] at hClass; cases hClass
    · intro hLinked
      rw [(hSound.registry.linked con hLinked).2] at hClass
      cases hClass
  | server =>
    have hUser : ¬ t.isUser con = true := by simp [Core.isUser, hClass]
    have hServer : t.isServer con = true := by simp [Core.isServer, hClass]
    rw [if_neg hUser, if_pos hServer]
    obtain ⟨hPath, hUsers, hRest⟩ := removeServer_path ok hSound hClass hPerson
    refine hPath.trans (Op.close ?_ ?_ hUsers ?_ ?_).path
    · rw [hRest.allocated]
      exact hOpen'
    · rw [hRest.cls]
      change (t.con con).cls ≠ .user
      rw [hClass]
      decide
    · rw [hRest.remoteSearch]
      exact hPending
    · rw [hRest.servers]
      exact fun hIn => (hSound.registry.once.mem_erase_iff.1 hIn).1 rfl

theorem serverLoginAck_path {s : Server} {con : ConId} (hOpen : (s.con con).allocated = true)
    (hClass : (s.con con).cls = .unknown) :
    Op.Path ok s.toCore (s.serverLoginAck con).toCore := by
  rw [toCore_serverLoginAck]
  exact (Op.linkServer hOpen hClass).path

theorem detail_markDestroy (s : Core) {con : ConId} (h : s.isUnknown con = true) :
    (s.modCon con fun c => { c with destroy := true }).detail = s.detail := by
  refine s.detail_modCon con ?_
  have hClass : (s.con con).cls = .unknown := by simpa [Core.isUnknown] using h
  simp [Connection.detail, Connection.outline, Connection.bare, hClass]

theorem linkInfo_path (s : Server) (con : ConId) (tag : Nat) (pkt : Str) :
    Op.Path ok s.toCore (s.linkInfo con tag pkt).toCore := by
  simp only [linkInfo]
  split
  · simp only [toCore_notifyMods, toCore_passMessageArgs, toCore_onCore, toCore_ite, toCore_sendCmd,
      toCore_linkPort, ite_self]
    exact Op.quietPath rfl fun h => h
  · exact Op.pathOfEq (by simp)

theorem serverDisconnect_path (s : Server) (con : ConId) (pkt : Str)
    (hOk : ∀ t, ok .person t) : Op.Path ok s.toCore (s.serverDisconnect con pkt).toCore := by
  simp only [serverDisconnect]
  split
  · exact .refl
  · split
    · exact Op.pathOfEq (by simp)
    · split
      · exact Op.pathOfEq (by simp)
      · simp only [toCore_notifyMods, toCore_passMessageArgs]
        split
        · rename_i peer _
          rw [toCore_onCore]
          refine (Op.unlinkServer s.toCore peer).path.trans (Op.person ?_ (hOk _)).path
          exact (s.toCore.unlinkServer peer).personal_modCon peer rfl
        · exact .refl

/-! ### Logging in -/

theorem personal_markDestroy (s : Server) (con : ConId) :
    (s.markDestroy con).toCore.personal = s.toCore.personal :=
  s.toCore.personal_modCon con rfl

theorem personal_refuse (s : Server) (con : ConId) (tag : Nat) (text : Str) :
    (s.refuse con tag text).toCore.personal = s.toCore.personal :=
  personal_markDestroy _ con

theorem personal_refuseBanned (s : Server) (con : ConId) (nick host : Str) (ban : Ban) :
    (s.refuseBanned con nick host ban).toCore.personal = s.toCore.personal := by
  simp only [refuseBanned]
  split
  · simp only [toCore_passMessageArgs, toCore_onCore, toCore_sendCmd, toCore_notifyMods]
    exact s.toCore.personal_modCon con rfl
  · split <;> simp

/-- A login that is refused before anyone goes leaves everything that counts. -/
theorem readLogin_error {s t : Server} {con : ConId} {pkt : Str}
    (h : s.readLogin con pkt = .error t) : t.toCore.personal = s.toCore.personal := by
  simp only [readLogin] at h
  split at h
  · split at h
    · cases h
    · cases h
      rw [personal_markDestroy, toCore_unparsable]
  · split at h
    · cases h
    · cases h
      rw [toCore_killClient]
    · cases h
      rfl

theorem checkNick_error {s t : Server} {con : ConId} {r : LoginRequest}
    (h : s.checkNick con r = .error t) : t.toCore.personal = s.toCore.personal := by
  simp only [checkNick] at h
  split at h
  · split at h
    · cases h
      exact personal_refuse ..
    · cases h
      rw [toCore_killClient]
  · cases h

theorem checkNick_ok {s t : Server} {con : ConId} {r : LoginRequest}
    (h : s.checkNick con r = .ok t) : t = s ∧ invalidNick s.cfg r.nick = false := by
  simp only [checkNick] at h
  split at h
  · split at h <;> cases h
  · rename_i hValid
    cases h
    exact ⟨rfl, by simpa using hValid⟩

theorem personal_ejectClient {s t : Server} {con : ConId} (h : s.ejectClient con = some t) :
    t.toCore.personal = s.toCore.personal := by
  obtain ⟨loser, -, rfl⟩ := Option.map_eq_some_iff.1 h
  simp only [toCore_markKilled, toCore_sendCmd, toCore_killClient]
  exact personal_markKilled _ _

theorem checkRestrictions_error {s t : Server} {con : ConId} {r : LoginRequest}
    (h : s.checkRestrictions con r = .error t) : t.toCore.personal = s.toCore.personal := by
  simp only [checkRestrictions] at h
  split at h
  · cases h
    exact personal_refuseBanned ..
  · split at h
    · split at h
      · cases h
        exact personal_refuse ..
      · split at h
        · split at h
          · cases h
          · cases h
            exact personal_refuse ..
        · cases h
    · cases h

theorem checkRestrictions_ok {s t : Server} {con : ConId} {r : LoginRequest}
    (h : s.checkRestrictions con r = .ok t) : t.toCore.personal = s.toCore.personal := by
  simp only [checkRestrictions] at h
  split at h
  · cases h
  · split at h
    · split at h
      · cases h
      · split at h
        · split at h
          · rename_i hEject
            cases h
            split at hEject
            · exact personal_ejectClient hEject
            · cases hEject
          · cases h
        · cases h
          rfl
    · cases h
      rfl

theorem checkNumber_error {s t : Server} {con : ConId} {r : LoginRequest} {what text : Str}
    {bound : Int} (h : s.checkNumber con r what text bound = .error t) :
    t.toCore.personal = s.toCore.personal := by
  simp only [checkNumber] at h
  split at h
  · split at h
    · cases h
      exact personal_refuse ..
    · cases h
  · cases h

theorem checkNumber_ok {s t : Server} {con : ConId} {r : LoginRequest} {what text : Str}
    {bound : Int} {n : Nat} (h : s.checkNumber con r what text bound = .ok (t, n)) :
    t.toCore = s.toCore := by
  simp only [checkNumber] at h
  split at h
  · split at h
    · cases h
    · cases h
      exact toCore_notifyMods ..
  · cases h
    rfl

theorem checkAccount_error {s t : Server} {con : ConId} {tag : Nat} {r : LoginRequest}
    {db : Option UserDbId} (h : s.checkAccount con tag r db = .error t) :
    t.toCore.personal = s.toCore.personal := by
  simp only [checkAccount] at h
  split at h
  · split at h
    · split at h
      · cases h
        exact personal_refuse ..
      · cases h
    · cases h
  · split at h
    · split at h
      · cases h
        exact personal_refuse ..
      · cases h
        rw [toCore_syncReginfo, toCore_killClient]
    · split at h
      · split at h
        · cases h
          rw [personal_refuse, toCore_tellBadPass]
        · cases h
          rw [toCore_syncReginfo, toCore_killClient, toCore_tellBadPass]
      · cases h

theorem lookup_removed {s : Core} (h : Registry s) {nick : Str} {user : UserId}
    (hLookup : s.users.lookup nick = some user) :
    (s.users.remove (s.user user).nick).lookup nick = none := by
  obtain ⟨key, hEntry, hKey⟩ := Bucket.Table.lookup_some hLookup
  have hSame : (s.users.remove (s.user user).nick).lookup nick =
      (s.users.remove (s.user user).nick).lookup (s.user user).nick :=
    Bucket.Table.lookup_congr (hKey.symm.trans (h.keyed _ hEntry))
  rw [hSame, Bucket.Table.lookup, h.names.find_remove]
  rfl

variable (ok) in
/-- Whoever had the nick is gone after the check for a collision has let the login pass, and the
connection and the records are as they were. -/
theorem checkCollision_ok {s t : Server} (h : Sound s.toCore) {con : ConId} {r : LoginRequest}
    (hClass : (s.con con).cls ≠ .user) (hOk : ∀ t, ok .person t)
    (hPass : s.checkCollision con r = .ok t) :
    Op.Path ok s.toCore t.toCore ∧ SameRecords s.toCore t.toCore ∧ t.users.lookup r.nick = none ∧
      (t.con con).allocated = (s.con con).allocated ∧ (t.con con).cls = (s.con con).cls := by
  simp only [checkCollision] at hPass
  split at hPass
  · rename_i hNone
    cases hPass
    exact ⟨.refl, .refl _, hNone, rfl, rfl⟩
  · rename_i user hLookup
    have hUser := Bucket.Table.mem_values_of_lookup hLookup
    have hZap (hIs : s.isUser (s.user user).con = true) :
        Op.Path ok s.toCore (s.toCore.zapLocalUser (s.user user).con) ∧
          SameRecords s.toCore (s.toCore.zapLocalUser (s.user user).con) ∧
          (s.toCore.zapLocalUser (s.user user).con).users.lookup r.nick = none ∧
          ((s.toCore.zapLocalUser (s.user user).con).con con).allocated = (s.con con).allocated ∧
          ((s.toCore.zapLocalUser (s.user user).con).con con).cls = (s.con con).cls := by
      have hCls : (s.con (s.user user).con).cls = .user := by simpa [Core.isUser] using hIs
      have hLocal : (s.user user).isLocal = true := by
        cases hLocal : (s.user user).isLocal with
        | true => rfl
        | false => rw [(h.registry.behind user hUser hLocal).2] at hCls; cases hCls
      obtain ⟨hOpen, -, hOwner⟩ := h.registry.home user hUser hLocal
      obtain ⟨hTable, hOther⟩ := h.registry.zap_rest hUser hOwner
      have hNe : con ≠ (s.user user).con := by
        rintro rfl
        exact hClass hCls
      exact ⟨(Op.zap hOpen hCls (hOk _)).path, .zap _ _, by rw [hTable]; exact lookup_removed h.registry hLookup,
        hOther con hNe⟩
    have hGone (hIs : s.isUser (s.user user).con = false) :
        Op.Path ok s.toCore (s.toCore.hashRemoveUser (s.user user).nick) ∧
          SameRecords s.toCore (s.toCore.hashRemoveUser (s.user user).nick) ∧
          (s.toCore.hashRemoveUser (s.user user).nick).users.lookup r.nick = none ∧
          ((s.toCore.hashRemoveUser (s.user user).nick).con con).allocated =
            (s.con con).allocated ∧
          ((s.toCore.hashRemoveUser (s.user user).nick).con con).cls = (s.con con).cls := by
      have hSame := Core.sameUsers_hashRemoveUser (h.registry.lookup_nick hUser)
      exact ⟨(Op.removeRemote hUser (remote_of_not_isUser h.registry hUser hIs) (hOk _)).path,
        .hashRemoveUser _ _, by rw [hSame.users]; exact lookup_removed h.registry hLookup,
        hSame.allocated con, hSame.cls con⟩
    split at hPass
    · split at hPass
      · split at hPass
        · rename_i hIs
          cases hPass
          simpa using hZap (by simpa using hIs)
        · rename_i hIs
          cases hPass
          simpa using hGone (by simpa using hIs)
      · cases hPass
    · split at hPass
      · split at hPass
        · rename_i hIs
          cases hPass
          simpa using hZap (by simpa using hIs)
        · rename_i hIs
          cases hPass
          simpa using hGone (by simpa using hIs)
      · cases hPass

theorem checkCollision_error {s t : Server} {con : ConId} {r : LoginRequest}
    (h : s.checkCollision con r = .error t) : t.toCore.personal = s.toCore.personal := by
  simp only [checkCollision] at h
  split at h
  · cases h
  · split at h
    · split at h
      · split at h <;> cases h
      · cases h
        exact personal_refuse ..
    · split at h
      · split at h <;> cases h
      · cases h
        rfl

/-- At login the level of the record is set for a user of the common level. -/
theorem toCore_applyLevel (s : Server) (con : ConId) {user : UserId} (d : UserDb)
    (hLevel : (s.user user).level = .user) (hCloaked : (s.user user).cloaked = false) :
    (s.applyLevel con user d).toCore = s.toCore.setLevel user d.level := by
  simp only [applyLevel]
  split
  · simp only [toCore_passMessageArgs, toCore_sendIfUser, toCore_onCore, toCore_notifyMods]
    apply Core.modUser_congr
    simp [hCloaked]
  · rename_i hSame
    have hEq : d.level = .user := by simpa using hSame
    have hId : s.toCore.setLevel user d.level = s.toCore.modUser user id := by
      apply Core.modUser_congr
      rw [hEq, hCloaked, Bool.false_and, ← hLevel, ← hCloaked]
      rfl
    rw [hId, Core.modUser_id]

theorem toCore_applyMuzzle (s : Server) (con : ConId) (user : UserId) (d : UserDb) :
    (s.applyMuzzle con user d).toCore =
      if d.muzzled then s.toCore.modUser user fun u => { u with muzzled := true } else s.toCore := by
  simp only [applyMuzzle]
  split
  · simp only [toCore_notifyMods, toCore_sendIfUser, toCore_passMessageArgs, toCore_onCore]
  · rfl

theorem toCore_applyCloak (s : Server) (con : ConId) (user : UserId) (d : UserDb) :
    (s.applyCloak con user d).toCore =
      if d.cloaked then s.toCore.modUser user fun u => { u with cloaked := true } else s.toCore := by
  simp only [applyCloak]
  split
  · simp only [toCore_passMessageArgs, toCore_notifyMods, toCore_sendIfUser, toCore_onCore]
  · rfl

/-- The level of the record comes first, then what the user had when it quit. -/
theorem applyRecord_path (s : Server) (con : ConId) {user : UserId} {db : UserDbId}
    (hRecord : s.userDb.lookup (s.user user).nick = some db) (hLevel : (s.user user).level = .user)
    (hCloaked : (s.user user).cloaked = false) (hOk : ∀ t, ok .person t) :
    Op.Path ok s.toCore (s.applyRecord con user db).toCore := by
  simp only [applyRecord]
  rw [toCore_applyCloak, toCore_applyMuzzle, toCore_applyLevel, toCore_onCore]
  rotate_left
  · exact hLevel
  · exact hCloaked
  have hSeen : Op.Path ok s.toCore (s.toCore.modDb db fun r => { r with lastSeen := s.now }) :=
    Op.quietPath (s.toCore.detail_modDb db rfl) fun h => h
  have hSet : Op ok (s.toCore.modDb db fun r => { r with lastSeen := s.now })
      ((s.toCore.modDb db fun r => { r with lastSeen := s.now }).setLevel user (s.db db).level) :=
    .setUserLevel (.inr ⟨db, hRecord⟩) (hOk _)
  refine (hSeen.trans hSet.path).trans ?_
  generalize hTwo : (s.toCore.modDb db fun r => { r with lastSeen := s.now }).setLevel user
    (s.db db).level = t
  have hMuzzle : Op.Path ok t (if (s.db db).muzzled then
      t.modUser user fun u => { u with muzzled := true } else t) := by
    split
    · exact (Op.person (t.personal_modUser user rfl) (hOk _)).path
    · exact .refl
  refine hMuzzle.trans ?_
  generalize hThree : (if (s.db db).muzzled then
      t.modUser user fun u => { u with muzzled := true } else t) = v
  split
  · rename_i hMark
    apply Op.finePath
    apply FineOp.cloak
    refine .inr ⟨db, ?_⟩
    rw [← hThree, ← hTwo]
    cases hMuzzled : (s.db db).muzzled <;> simp [Core.setLevel, hRecord, hMark]
  · exact .refl

@[simp] theorem toCore_welcome (s : Server) (con : ConId) : (s.welcome con).toCore = s.toCore := by
  simp only [welcome, toCore_sendCmd]
  rw [toCore_foldl fun s line => toCore_queueData s con _ line]
  simp

theorem acceptLogin_path {s : Server} {con : ConId} {r : LoginRequest}
    (hOpen : (s.con con).allocated = true) (hClass : (s.con con).cls ≠ .user)
    (hValid : invalidNick s.cfg r.nick = false) (hNick : s.users.lookup r.nick = none)
    (speed port : Nat) {db : Option UserDbId} (hDb : ∀ d, db = some d → s.userDb.lookup r.nick = some d)
    (hOk : ∀ t, ok .person t) :
    Op.Path ok s.toCore (s.acceptLogin con r speed port db).toCore := by
  have hFresh : (Core.newUser s.cfg con r speed port).Fresh s.cfg := ⟨hValid, rfl, rfl, rfl⟩
  simp only [acceptLogin, toCore_tellHotlist]
  generalize hEq : ((if s.isUnknown con then
      (s.onCore (·.tieLocal con (Core.newUser s.cfg con r speed port))).welcome con
    else s.onCore (·.tieRemote (Core.newUser s.cfg con r speed port) r.server)).onCore
      (·.addUser s.next)) = t
  have hLogin : Op.Path ok s.toCore t.toCore := by
    rw [← hEq, toCore_onCore]
    split
    · rename_i hUnknown
      rw [toCore_welcome, toCore_onCore]
      exact (Op.loginLocal hOpen (by simpa [Core.isUnknown] using hUnknown) hNick rfl rfl rfl rfl
        (hOk _) hFresh).path
    · rename_i hKnown
      have hServer : (s.con con).cls = .server := by
        cases hCls : (s.con con).cls with
        | unknown => exact absurd (by simp [Core.isUnknown, hCls]) hKnown
        | user => exact absurd hCls hClass
        | server => rfl
      rw [toCore_onCore]
      exact (Op.loginRemote hOpen hServer hNick rfl rfl rfl rfl (hOk _) hFresh).path
  have hUser : t.userDb = s.userDb ∧ (t.user s.next).nick = r.nick ∧
      (t.user s.next).level = .user ∧ (t.user s.next).cloaked = false := by
    rw [← hEq, toCore_onCore]
    split
    · rw [toCore_welcome, toCore_onCore]
      simp [Core.addUser, Core.tieLocal, Core.newUser]
    · rw [toCore_onCore]
      simp [Core.addUser, Core.tieRemote, Core.newUser]
  obtain ⟨hTable, hName, hLevel, hCloaked⟩ := hUser
  refine hLogin.trans ?_
  cases db with
  | none => exact Op.pathOfEq (toCore_passMessageArgs ..)
  | some d =>
    have hApply := @applyRecord_path ok (t.passMessageArgs (some con) msgClientLogin
      (loginText (t.user s.next) r)) con s.next d
    rw [toCore_passMessageArgs] at hApply
    refine hApply ?_ hLevel hCloaked hOk
    rw [hTable, hName]
    exact hDb d rfl

theorem enterUser_path {s : Server} (h : Sound s.toCore) {con : ConId}
    (hOpen : (s.con con).allocated = true) (hClass : (s.con con).cls ≠ .user) {r : LoginRequest}
    (hValid : invalidNick s.cfg r.nick = false) (speed port : Nat) {db : Option UserDbId}
    (hDb : s.userDb.lookup r.nick = db) (registers : Bool) (random : Str)
    (hAccount : ∀ t, ok .account t) (hPerson : ∀ t, ok .person t) :
    Op.Path ok s.toCore (s.enterUser con r speed port db registers random).toCore := by
  simp only [enterUser]
  split
  · rename_i hError
    exact (Op.person (checkCollision_error hError) (hPerson _)).path
  · rename_i t hPass
    obtain ⟨hPath, hSame, hNick, hOpen', hClass'⟩ := checkCollision_ok ok h hClass hPerson hPass
    rw [hOpen] at hOpen'
    rw [← hClass'] at hClass
    rw [← hSame.cfg] at hValid
    rw [← hSame.userDb] at hDb
    refine hPath.trans ?_
    split
    · have hNew : Op ok t.toCore (t.register r random).toCore := .addRecord rfl (hAccount _)
      refine hNew.path.trans (acceptLogin_path ?_ ?_ ?_ ?_ _ _ ?_ hPerson)
      · exact hOpen'
      · exact hClass
      · exact hValid
      · exact hNick
      · rintro d ⟨⟩
        refine (t.userDb.lookup_add r.nick t.next r.nick).trans ?_
        simp
    · refine acceptLogin_path hOpen' hClass hValid hNick _ _ ?_ hPerson
      rintro d rfl
      exact hDb

theorem loginRequest_path {s : Server} (h : Sound s.toCore) {con : ConId}
    (hOpen : (s.con con).allocated = true) (hClass : (s.con con).cls ≠ .user) (tag : Nat)
    (r : LoginRequest) (random : Str) (hAccount : ∀ t, ok .account t)
    (hPerson : ∀ t, ok .person t) :
    Op.Path ok s.toCore (s.loginRequest con tag r random).toCore := by
  simp only [loginRequest]
  split
  · rename_i hError
    exact (Op.person (checkNick_error hError) (hPerson _)).path
  · rename_i s' hNick
    obtain ⟨rfl, hValid⟩ := checkNick_ok hNick
    generalize hDb : s'.userDb.lookup r.nick = db
    split
    · rename_i hError
      split at hError
      · cases hError
      · exact (Op.person (checkRestrictions_error hError) (hPerson _)).path
    · rename_i t hPass
      have hPersonal : t.toCore.personal = s'.toCore.personal := by
        split at hPass
        · cases hPass
          rfl
        · exact checkRestrictions_ok hPass
      have hQuiet := Core.channelOutline_of_personal hPersonal
      refine (Op.person hPersonal (hPerson _)).path.trans ?_
      have hSame := SameUsers.quiet (Core.skeleton_of_channelOutline hQuiet)
      have hRecords := SameRecords.channelOutline hQuiet
      rw [← hSame.allocated] at hOpen
      rw [← hSame.cls] at hClass
      rw [← hRecords.cfg] at hValid
      rw [← hRecords.userDb] at hDb
      have hSound := h.quiet (Core.skeleton_of_channelOutline hQuiet)
      split
      · rename_i hError
        exact (Op.person (checkNumber_error hError) (hPerson _)).path
      · rename_i t1 speed hSpeed
        have hCore1 := checkNumber_ok hSpeed
        rw [← hCore1] at hOpen hClass hSound hValid hDb ⊢
        split
        · rename_i hError
          exact (Op.person (checkNumber_error hError) (hPerson _)).path
        · rename_i t2 port hPort
          have hCore2 := checkNumber_ok hPort
          rw [← hCore2] at hOpen hClass hSound hValid hDb ⊢
          split
          · rename_i hError
            exact (Op.person (checkAccount_error hError) (hPerson _)).path
          · exact enterUser_path hSound hOpen hClass hValid speed port hDb _ random hAccount hPerson

theorem login_path {s : Server} (h : Sound s.toCore) {con : ConId} (tag : Nat) (pkt random : Str)
    (hOpen : (s.con con).allocated = true)
    (hOk : s.isUser con = false → (∀ t, ok .account t) ∧ ∀ t, ok .person t) :
    Op.Path ok s.toCore (s.login con tag pkt random).toCore := by
  simp only [login]
  split
  · exact Op.pathOfEq (by simp)
  · rename_i hUser
    obtain ⟨hAccount, hPerson⟩ := hOk (by simpa using hUser)
    split
    · rename_i hError
      exact (Op.person (readLogin_error hError) (hPerson _)).path
    · exact loginRequest_path h hOpen (by simpa [Core.isUser] using hUser) tag _ random hAccount hPerson

/-! ### Records of users -/

theorem storeReginfo_path {s : Server} (con : ConId) (tag : Nat) {db : UserDbId}
    (server nick pass email : Str) {level : Str} (timestamp lastSeen : Str)
    (hOk : ∀ t, ok .account t) (hCloak : (s.db db).cloaked = true →
      Level.moderator ≤ (getLevel level).getD .user ∨ ok .indiscreet s.toCore) :
    Op.Path ok s.toCore
      (s.storeReginfo con tag db server nick pass email level timestamp lastSeen).toCore := by
  simp only [storeReginfo, toCore_onCore, toCore_passMessageArgs]
  apply Op.path
  apply Op.setRecord
  · rfl
  · exact fun hCloaked => (hCloak hCloaked).imp_right .inr
  · exact hOk _

/-- The record that a `reginfo` writes to when there is one, and the level that it writes. -/
def reginfoSets (s : Core) (pkt : Str) : Option (UserDbId × Level) :=
  match pkt with
  | ':' :: rest =>
    match nextArg rest with
    | (_, none) => none
    | (_, some rest) =>
      match splitLine 6 rest with
      | some [nick, _, _, level, timestamp, _] =>
        (s.userDb.lookup (reginfoKey rest nick)).bind fun db =>
          if (s.db db).timestamp < (strtol timestamp).1 then none
          else some (db, (getLevel level).getD .user)
      | _ => none
  | _ => none

/-- Whether a `reginfo` makes a user with a cloak no moderator. -/
def demotesCloaked (s : Core) (pkt : Str) : Bool :=
  (reginfoSets s pkt).any fun (db, level) => (s.db db).cloaked && decide (level < .moderator)

theorem reginfo_path (s : Server) (con : ConId) (tag : Nat) (pkt : Str) (hOk : ∀ t, ok .account t)
    (hCloak : demotesCloaked s.toCore pkt = true → ok .indiscreet s.toCore) :
    Op.Path ok s.toCore (s.reginfo con tag pkt).toCore := by
  unfold reginfo
  unfold demotesCloaked reginfoSets at hCloak
  split
  · split
    · exact .refl
    · rename_i rest _ server rest' hServer
      split
      · rename_i nick pass email level timestamp lastSeen hFields
        simp only [hServer, hFields] at hCloak
        split
        · rename_i db hRecord
          rw [hRecord] at hCloak
          split
          · exact Op.pathOfEq (toCore_syncReginfo ..)
          · rename_i hNewer
            apply storeReginfo_path _ _ _ _ _ _ _ _ hOk
            intro hCloaked
            by_cases hLevel : (getLevel level).getD .user < Level.moderator
            · exact .inr (hCloak (by simp [hNewer, hCloaked, hLevel]))
            · exact .inl (Nat.le_of_not_lt hLevel)
        · split
          · exact .refl
          · have hNew : Op ok s.toCore (s.onCore (·.newRecord nick)).toCore := .addRecord rfl (hOk _)
            refine hNew.path.trans (storeReginfo_path _ _ _ _ _ _ _ _ hOk ?_)
            simp [Core.newRecord]
      · exact .refl
  · exact .refl

/-- The end of `level` for a user on line sets the level, and takes a cloak that cannot stay. -/
theorem toCore_levelDropCloak (s : Server) (user : UserId) (level : Level) :
    ((s.onCore (·.modUser user fun u => { u with level := level })).dropCloak user level).toCore =
      s.toCore.setLevel user level := by
  unfold dropCloak
  split
  · rename_i hDrop
    rw [toCore_sendIfUser, toCore_notifyMods, toCore_onCore, toCore_onCore, Core.modUser_modUser]
    apply Core.modUser_congr
    have hLow : ¬ Level.moderator ≤ level := Nat.not_le_of_lt hDrop.1
    simp [hLow]
  · rename_i hStays
    rw [toCore_onCore]
    apply Core.modUser_congr
    by_cases hLow : level < Level.moderator
    · have hCloaked : (s.user user).cloaked = false := by simpa [hLow] using hStays
      rw [hCloaked, Bool.false_and, ← hCloaked]
    · have hHigh : Level.moderator ≤ level := Nat.le_of_not_lt hLow
      simp [hHigh]

theorem changeLevel_path {s : Server} (con : ConId) (tag : Nat) (sender : Str)
    (senderUser : Option UserId) {db : UserDbId} {user : Option UserId} (level : Level)
    (hRecord : ∀ u, user = some u → ∃ d, s.userDb.lookup (s.user u).nick = some d)
    (hAccount : ∀ t, ok .account t) (hPerson : ∀ t, ok .person t) :
    Op.Path ok s.toCore (s.changeLevel con tag sender senderUser db user level).toCore := by
  have hSet : Op ok s.toCore (s.toCore.setDbLevel db level) := by
    apply Op.setRecord
    · rfl
    · exact fun hCloaked => .inl (by simpa using (Bool.and_eq_true_iff.1 hCloaked).2)
    · exact hAccount _
  cases user with
  | none =>
    simp only [changeLevel, toCore_notifyMods, toCore_passMessageArgs, toCore_onCore]
    exact hSet.path
  | some user =>
    obtain ⟨d, hLookup⟩ := hRecord user rfl
    have hUser : Op ok (s.toCore.setDbLevel db level) ((s.toCore.setDbLevel db level).setLevel user level) :=
      .setUserLevel (.inr ⟨d, hLookup⟩) (hPerson _)
    simp only [changeLevel]
    rw [toCore_levelDropCloak, toCore_sendIfUser, toCore_notifyMods, toCore_passMessageArgs, toCore_onCore]
    exact hSet.path.trans hUser.path

theorem stampLevel_path {s : Server} (con : ConId) (tag : Nat) (sender : Str)
    (senderUser : Option UserId) (stamp : Option Str) {db : UserDbId} {user : Option UserId}
    (level : Level) (hRecord : ∀ u, user = some u → ∃ d, s.userDb.lookup (s.user u).nick = some d)
    (hAccount : ∀ t, ok .account t) (hPerson : ∀ t, ok .person t) :
    Op.Path ok s.toCore
      (s.stampLevel con tag sender senderUser stamp db user level).toCore := by
  have hStamp (stamp : Option Int) : Op ok s.toCore (s.toCore.setStamp db stamp) ∧
      (s.toCore.setStamp db stamp).userDb = s.userDb ∧ (s.toCore.setStamp db stamp).user = s.user := by
    cases stamp with
    | none => exact ⟨.quiet rfl fun h => h, rfl, rfl⟩
    | some ts => exact ⟨.quiet (s.toCore.detail_modDb db rfl) fun h => h, rfl, rfl⟩
  simp only [stampLevel]
  split
  · exact .refl
  · obtain ⟨hOp, hTable, hUsers⟩ := hStamp (peerStamp s.toCore con stamp)
    split
    · rw [toCore_permissionDenied]
      exact hOp.path
    · refine hOp.path.trans ?_
      apply @changeLevel_path ok (s.onCore (·.setStamp db (peerStamp s.toCore con stamp)))
      · rw [toCore_onCore, hTable, hUsers]
        exact hRecord
      · exact hAccount
      · exact hPerson

theorem level_path {s : Server} (h : Sound s.toCore) (con : ConId) (tag : Nat) (pkt random : Str)
    (hAccount : ∀ t, ok .account t) (hPerson : ∀ t, ok .person t) :
    Op.Path ok s.toCore (s.level con tag pkt random).toCore := by
  -- the record is looked for under the name that the user is on line with
  have hName {nick : Str} {u : UserId} (hUser : s.users.lookup nick = some u) :
      s.userDb.lookup (s.user u).nick = s.userDb.lookup nick := by
    obtain ⟨key, hEntry, hKey⟩ := Bucket.Table.lookup_some hUser
    exact Bucket.Table.lookup_congr ((h.registry.keyed _ hEntry).symm.trans hKey)
  unfold level
  split
  · exact .refl
  · split
    · split
      · exact Op.pathOfEq (by simp)
      · simp only
        split
        · exact Op.pathOfEq (by simp)
        · split
          · rename_i db hRecord
            split
            · exact .refl
            · split
              · exact .refl
              · refine stampLevel_path _ _ _ _ _ _ (fun u hUser => ⟨db, ?_⟩) hAccount hPerson
                rw [hName hUser, hRecord]
          · split
            · exact Op.pathOfEq (by simp)
            · rename_i user hUser
              split
              · exact .refl
              · refine (Op.createDb s.toCore user random (hAccount _)).path.trans ?_
                apply @stampLevel_path ok (s.onCore (·.createDb user random))
                · rintro u hSame
                  cases hUser.symm.trans hSame
                  refine ⟨s.next, ?_⟩
                  refine (s.userDb.lookup_add (s.user user).nick s.next _).trans ?_
                  simp [Core.createDb]
                · exact hAccount
                · exact hPerson
    · exact Op.pathOfEq (by simp)

/-- Whether a `cloak` marks the record of a user who is no moderator there. -/
def misplacesCloak (s : Core) (con : ConId) (pkt : Str) : Bool :=
  (s.popUser con pkt).any fun (user, _) =>
    decide (Level.moderator ≤ (s.user user).level) && !(s.user user).cloaked &&
      (s.userDb.lookup (s.user user).nick).any fun db => decide ((s.db db).level < .moderator)

theorem cloak_path (s : Server) (con : ConId) (tag : Nat) (pkt : Str)
    (hCloak : misplacesCloak s.toCore con pkt = true → ∀ t, ok .indiscreet t) :
    Op.Path ok s.toCore (s.cloak con tag pkt).toCore := by
  unfold cloak
  unfold misplacesCloak at hCloak
  split
  · exact .refl
  · rename_i user rest hPop
    split
    · exact Op.pathOfEq (by simp)
    · rename_i hHigh
      have hMod : Level.moderator ≤ (s.user user).level := Nat.le_of_not_lt hHigh
      split
      · exact .refl
      · have hUser : Op.Path ok s.toCore
            (s.toCore.modUser user fun u => { u with cloaked := !u.cloaked }) := by
          cases hCloaked : (s.user user).cloaked with
          | true =>
            rw [s.toCore.modUser_congr user (g := fun u => { u with cloaked := false })
              (by simp [hCloaked])]
            exact Op.finePath (.uncloak s.toCore user)
          | false =>
            rw [s.toCore.modUser_congr user (g := fun u => { u with cloaked := true })
              (by simp [hCloaked])]
            exact Op.finePath (.cloak (.inl hMod))
        simp only
        split
        · exact hUser
        · rename_i db hRecord
          rw [toCore_sendIfUser, toCore_notifyMods, toCore_passMessageArgs, toCore_onCore]
          refine hUser.trans (Op.finePath (.cloakRecord fun hValue => ?_))
          by_cases hLow : (s.db db).level < .moderator
          · refine .inr (hCloak ?_ _)
            have hLookup : s.userDb.lookup (s.user user).nick = some db := by simpa using hRecord
            have hOpen : (s.user user).cloaked = false := by simpa using hValue
            simp [hPop, hMod, hOpen, hLookup, hLow]
          · exact .inl (Nat.le_of_not_lt hLow)

theorem markMuzzled_path (s : Server) (user : Option UserId) (db : UserDbId) (value : Bool)
    (hAccount : ∀ t, ok .account t) (hPerson : ∀ t, ok .person t) :
    Op.Path ok s.toCore (s.markMuzzled user db value).toCore := by
  have hRecord (t : Core) : Op ok t (t.modDb db fun r => { r with muzzled := value }) := by
    apply Op.setRecord
    · rfl
    · exact fun hCloaked => .inr (.inl ⟨hCloaked, rfl⟩)
    · exact hAccount _
  cases user with
  | none => exact (hRecord _).path
  | some user =>
    have hUser : Op ok s.toCore (s.toCore.modUser user fun u => { u with muzzled := value }) :=
      .person (s.toCore.personal_modUser user rfl) (hPerson _)
    exact hUser.path.trans (hRecord _).path

theorem toCore_tellMuzzled (s : Server) (con : ConId) (tag : Nat) (sender : Str)
    (senderUser user : Option UserId) (nick reason : Str) :
    (s.tellMuzzled con tag sender senderUser user nick reason).toCore = s.toCore := by
  unfold tellMuzzled
  rw [toCore_notifyMods]
  cases user <;> simp

theorem muzzle_path (s : Server) (con : ConId) (tag : Nat) (pkt random : Str)
    (hAccount : ∀ t, ok .account t) (hPerson : ∀ t, ok .person t) :
    Op.Path ok s.toCore (s.muzzle con tag pkt random).toCore := by
  unfold muzzle
  split
  · exact .refl
  · split
    · simp only
      split
      · exact Op.pathOfEq (by simp)
      · split
        · exact Op.pathOfEq (by simp)
        · split
          · -- a record is made for a user who has none
            split
            · rename_i user _ _
              have hNew := (Op.createDb s.toCore user random (hAccount _)).path
              split
              · rw [toCore_sendIfUser]
                exact hNew
              · rw [toCore_tellMuzzled]
                have hMarked := @markMuzzled_path ok (s.onCore (·.createDb user random))
                exact hNew.trans (hMarked _ _ _ hAccount hPerson)
            · split
              · exact Op.pathOfEq (by simp)
              · rw [toCore_tellMuzzled]
                exact markMuzzled_path _ _ _ _ hAccount hPerson
          · split
            · exact Op.pathOfEq (by simp)
            · split
              · exact Op.pathOfEq (by simp)
              · rw [toCore_tellMuzzled]
                exact markMuzzled_path _ _ _ _ hAccount hPerson
    · exact Op.pathOfEq (by simp)

/-! ### Own settings, settings of others -/

theorem changeNumber_path (s : Server) (con : ConId) (tag : Nat) (pkt : Str) (bound : Int)
    {set : Int → User → User} (invalid : Str)
    (hSet : ∀ n u, ({ (set n u).detail with muzzled := false, port := 0, speed := 0 } : User) =
      { u.detail with muzzled := false, port := 0, speed := 0 })
    (hOk : ∀ t, ok .person t) :
    Op.Path ok s.toCore (s.changeNumber con tag pkt bound set invalid).toCore := by
  unfold changeNumber
  split
  · simp only
    split
    · rw [toCore_passMessageArgs, toCore_onCore]
      exact (Op.person (s.toCore.personal_modUser _ (hSet _ _)) (hOk _)).path
    · exact Op.pathOfEq (by simp)
  · exact .refl

theorem changeDataPort_path (s : Server) (con : ConId) (tag : Nat) (pkt : Str)
    (hOk : ∀ t, ok .person t) : Op.Path ok s.toCore (s.changeDataPort con tag pkt).toCore := by
  unfold changeDataPort
  exact changeNumber_path s con tag pkt _ _ (fun _ _ => rfl) hOk

theorem changeSpeed_path (s : Server) (con : ConId) (tag : Nat) (pkt : Str)
    (hOk : ∀ t, ok .person t) : Op.Path ok s.toCore (s.changeSpeed con tag pkt).toCore := by
  unfold changeSpeed
  exact changeNumber_path s con tag pkt _ _ (fun _ _ => rfl) hOk

theorem alterPort_path (s : Server) (con : ConId) (tag : Nat) (pkt : Str)
    (hOk : ∀ t, ok .person t) : Op.Path ok s.toCore (s.alterPort con tag pkt).toCore := by
  unfold alterPort
  split
  · exact .refl
  · split
    · exact Op.pathOfEq (by simp)
    · split
      · simp only
        split
        · exact Op.pathOfEq (by simp)
        · rename_i user _
          split
          · exact Op.pathOfEq (by simp)
          · simp only [toCore_passMessageArgs, toCore_ite, toCore_sendCmd, ite_self, toCore_onCore,
              toCore_notifyMods]
            split
            · exact .refl
            · exact (Op.person (s.toCore.personal_modUser user rfl) (hOk _)).path
      · exact Op.pathOfEq (by simp)

theorem alterSpeed_path (s : Server) (con : ConId) (tag : Nat) (pkt : Str)
    (hOk : ∀ t, ok .person t) : Op.Path ok s.toCore (s.alterSpeed con tag pkt).toCore := by
  unfold alterSpeed
  split
  · exact .refl
  · split
    · split
      · exact Op.pathOfEq (by simp)
      · simp only
        split
        · exact Op.pathOfEq (by simp)
        · split
          · exact Op.pathOfEq (by simp)
          · rename_i user _
            split
            · exact Op.pathOfEq (by simp)
            · simp only [toCore_notifyMods, toCore_passMessageArgs, toCore_onCore]
              exact (Op.person (s.toCore.personal_modUser user rfl) (hOk _)).path
    · exact Op.pathOfEq (by simp)

theorem changePass_path (s : Server) (con : ConId) (tag : Nat) (pkt random : Str)
    (hOk : ∀ t, ok .account t) : Op.Path ok s.toCore (s.changePass con tag pkt random).toCore := by
  unfold changePass
  split
  · exact .refl
  · exact Op.pathOfEq (by simp)
  · exact Op.pathOfEq (by simp)
  · simp only
    split
    · exact Op.pathOfEq (by simp)
    · rw [toCore_sendIfUser, toCore_onCore, toCore_passMessageArgs]
      exact (Op.setPassword s.toCore _ _ (hOk _)).path

theorem alterPass_path (s : Server) (con : ConId) (tag : Nat) (pkt random : Str)
    (hOk : ∀ t, ok .account t) : Op.Path ok s.toCore (s.alterPass con tag pkt random).toCore := by
  unfold alterPass
  split
  · exact .refl
  · simp only
    split
    · exact Op.pathOfEq (by simp)
    · split
      · split
        · exact Op.pathOfEq (by simp)
        · rw [toCore_notifyMods]
          split
          · rw [toCore_onCore, toCore_passMessageArgs]
            exact (Op.setPassword s.toCore _ _ (hOk _)).path
          · exact Op.pathOfEq (by simp)
      · exact Op.pathOfEq (by simp)

/-- The record that a `nuke` drops, when it is granted: the sender is a moderator, and above the level
of the record or of the highest level. -/
def nukeOf (s : Core) (con : ConId) (pkt : Str) : Option UserDbId :=
  match s.popUser con pkt with
  | none => none
  | some (sender, rest) =>
    let level := (s.user sender).level
    match rest.map nextArg with
    | none => none
    | some (nick, _) =>
      if level < .moderator ∨ invalidNick s.cfg nick = true then none
      else
        (s.userDb.lookup nick).filter fun db =>
          !(decide (level < .elite) && decide (level ≤ (s.db db).level))

theorem nuke_path (s : Server) (con : ConId) (tag : Nat) (pkt : Str)
    (hOk : ∀ db, nukeOf s.toCore con pkt = some db → ok (.drop db) s.toCore) :
    Op.Path ok s.toCore (s.nuke con tag pkt).toCore := by
  unfold nuke
  unfold nukeOf at hOk
  split
  · exact .refl
  · rename_i sender rest hPop
    simp only
    split
    · exact Op.pathOfEq (by simp)
    · rename_i hMay
      split
      · exact Op.pathOfEq (by simp)
      · rename_i nick reason hFields
        split
        · exact Op.pathOfEq (by simp)
        · rename_i hValid
          split
          · rename_i db hRecord
            split
            · exact Op.pathOfEq (by simp)
            · rename_i hAbove
              rw [toCore_notifyMods, toCore_onCore, toCore_passMessageArgs]
              refine (Op.dropRecord (hOk db ?_)).path
              have hLookup : s.userDb.lookup nick = some db := by simpa using hRecord
              simp only [toCore_passMessageArgs] at hAbove
              simp [hPop, hFields, hMay, hValid, hLookup, Option.filter]
              exact fun hLow hLe => hAbove ⟨hLow, hLe⟩
          · exact Op.pathOfEq (by simp)

theorem registerUser_path (s : Server) (con : ConId) (tag : Nat) (pkt random : Str)
    (hOk : ∀ t, ok .account t) :
    Op.Path ok s.toCore (s.registerUser con tag pkt random).toCore := by
  unfold registerUser
  split
  · exact .refl
  · simp only
    split
    · exact Op.pathOfEq (by simp)
    · split
      · split
        · exact Op.pathOfEq (by simp)
        · split
          · exact Op.pathOfEq (by simp)
          · split
            · exact Op.pathOfEq (by simp)
            · split
              · exact Op.pathOfEq (by simp)
              · rw [toCore_notifyMods, toCore_onCore, toCore_passMessageArgs]
                exact (Op.registerDb s.toCore _ _ _ (hOk _)).path
      · exact Op.pathOfEq (by simp)

/-! ### Bans -/

/-- The ban that a request adds, when it is granted: the sender may ban, the time is not negative, and
there is no ban on the target yet. -/
def banOf (s : Core) (con : ConId) (pkt : Str) : Option Ban :=
  match s.popUserServer con pkt with
  | none => none
  | some (sender, senderUser, rest) =>
    if senderUser.any fun user => decide ((s.user user).level < .moderator) then none
    else
      (((rest.bind (splitLine 3)).filter (!·.isEmpty)).map (s.newBan sender)).filter fun b =>
        decide (0 ≤ b.timeout) && !s.bans.any fun other => sameText b.target other.target

theorem ban_path (s : Server) (con : ConId) (tag : Nat) (pkt : Str)
    (hOk : ∀ b, banOf s.toCore con pkt = some b → ok (.ban b) s.toCore) :
    Op.Path ok s.toCore (s.ban con tag pkt).toCore := by
  unfold ban
  split
  · exact .refl
  · rename_i sender senderUser rest hPop
    split
    · exact Op.pathOfEq (by simp)
    · rename_i hMay
      split
      · rename_i target more hFields
        simp only
        split
        · exact Op.pathOfEq (by simp)
        · rename_i hTime
          split
          · exact Op.pathOfEq (by simp)
          · rename_i hNew
            rw [toCore_notifyMods, toCore_onCore, toCore_passMessageArgs]
            refine (Op.addBan (hOk _ ?_)).path
            have hGranted : (decide (0 ≤ (s.newBan sender (target :: more)).timeout) &&
                !s.bans.any fun other =>
                  sameText (s.newBan sender (target :: more)).target other.target) = true := by
              rw [Bool.and_eq_true, decide_eq_true_eq, Bool.not_eq_true']
              exact ⟨Int.not_lt.1 hTime, Bool.eq_false_iff.2 hNew⟩
            simp only [banOf, hPop, hMay, hFields]
            simp only [Bool.false_eq_true, if_false, Option.filter_some, List.isEmpty_cons,
              Bool.not_false, if_true, Option.map_some, hGranted]
      · exact Op.pathOfEq (by simp)

theorem unban_path (s : Server) (con : ConId) (tag : Nat) (pkt : Str) (hOk : ∀ t, ok .unban t) :
    Op.Path ok s.toCore (s.unban con tag pkt).toCore := by
  unfold unban
  split
  · exact .refl
  · split
    · simp only
      split
      · exact Op.pathOfEq (by simp)
      · split
        · exact Op.pathOfEq (by simp)
        · rw [toCore_passMessageArgs, toCore_notifyMods, toCore_onCore]
          exact (Op.dropBans List.eraseP_sublist (hOk _)).path
    · exact Op.pathOfEq (by simp)

theorem expireBans_path (s : Server) (hOk : ∀ t, ok .unban t) :
    Op.Path ok s.toCore s.expireBans.toCore := by
  have hTold (l : List Ban) : (l.foldl tellExpired s).toCore = s.toCore := by
    refine toCore_foldl (fun s b => ?_) l s
    simp [tellExpired]
  rw [expireBans, toCore_onCore, hTold]
  exact (Op.dropBans List.filter_sublist (hOk _)).path

/-! ### Settings of channels -/

theorem topicText_plain {cfg : Config} {text : Str} {c : Char} (h : c ∈ topicText cfg text) :
    c ≠ '\r' ∧ c ≠ '\n' := by
  obtain ⟨d, -, rfl⟩ := List.mem_map.1 h
  split
  · decide
  · rename_i hd
    exact not_or.1 hd

theorem topic_path (s : Server) (con : ConId) (tag : Nat) (pkt : Str) :
    Op.Path ok s.toCore (s.topic con tag pkt).toCore := by
  unfold topic
  split
  · exact .refl
  · simp only
    split
    · exact Op.pathOfEq (by simp)
    · split
      · exact Op.pathOfEq (by simp)
      · split
        · exact Op.pathOfEq (by simp)
        · simp only [toCore_notifyOps]
          rw [toCore_foldl fun s member => ?_, toCore_passMessageArgs, toCore_onCore]
          · exact (Op.setTopic fun c hc => topicText_plain hc).path
          · split <;> rfl

/-- What plays no part in the results changes, and no member gets both a voice and a muzzle. -/
structure Quietly (s t : Core) : Prop where
  detail : t.detail = s.detail
  flags : s.FlagsApart → t.FlagsApart

theorem Quietly.of_eq {s t : Core} (h : t = s) : Quietly s t := by
  subst h
  exact ⟨rfl, fun h => h⟩

theorem Quietly.trans {s t u : Core} (h1 : Quietly s t) (h2 : Quietly t u) : Quietly s u :=
  ⟨h2.detail.trans h1.detail, fun h => h2.flags (h1.flags h)⟩

theorem Quietly.path {s t : Core} (h : Quietly s t) : Op.Path ok s t := Op.quietPath h.detail h.flags

theorem Quietly.modChan (s : Core) (chan : ChanId) {f : Channel → Channel}
    (hDetail : (f (s.chan chan)).detail = (s.chan chan).detail)
    (hUsers : (f (s.chan chan)).users = (s.chan chan).users) : Quietly s (s.modChan chan f) :=
  ⟨s.detail_modChan chan hDetail, fun h => h.modChan chan (by rw [hUsers]; exact h chan)⟩

theorem detail_setMode (s : Core) (chan : ChanId) (value : Bool) (m : ChannelMode) :
    (s.modChan chan (·.setMode value m)).detail = s.detail :=
  s.detail_modChan chan (by cases m <;> rfl)

theorem flagsApart_setMode {s : Core} (h : s.FlagsApart) (chan : ChanId) (value : Bool)
    (m : ChannelMode) : (s.modChan chan (·.setMode value m)).FlagsApart :=
  h.modChan chan (by cases m <;> exact h chan)

theorem modeArgs_quiet (con : ConId) (chan : ChanId) (l : List Str) (s : Server) (masks : Masks) :
    Quietly s.toCore (l.foldl (fun (s, masks) arg => s.modeArg con chan masks arg) (s, masks)).1.toCore := by
  have hArg (s : Server) (masks : Masks) (arg : Str) :
      Quietly s.toCore (s.modeArg con chan masks arg).1.toCore := by
    unfold modeArg
    split
    · exact .of_eq (by simp)
    · simp only
      split
      · exact ⟨detail_setMode .., fun h => flagsApart_setMode h _ _ _⟩
      · exact ⟨detail_setMode .., fun h => flagsApart_setMode h _ _ _⟩
      · exact .of_eq (by simp)
  induction l generalizing s masks with
  | nil => exact .of_eq rfl
  | cons arg l ih => exact (hArg s masks arg).trans (ih _ _)

theorem channelMode_path (s : Server) (con : ConId) (tag : Nat) (pkt : Str) :
    Op.Path ok s.toCore (s.channelMode con tag pkt).toCore := by
  unfold channelMode
  split
  · exact .refl
  · split
    · exact Op.pathOfEq (by simp)
    · split
      · exact Op.pathOfEq (by simp)
      · rename_i chan _
        simp only
        split
        · exact Op.pathOfEq (by simp)
        · split
          · exact Op.pathOfEq (by simp [toCore_ite])
          · have hArgs (l : List Str) := modeArgs_quiet con chan l s {}
            split
            · rw [toCore_passMessageArgs, toCore_notifyOps, toCore_onCore]
              apply Quietly.path
              apply Quietly.trans (hArgs _)
              exact .modChan _ chan rfl rfl
            · exact (hArgs _).path

/-- Who has a voice or is muzzled on a channel plays no part in the results. -/
theorem detail_modMember (s : Core) (chan : ChanId) (user : UserId) {f : ChanUser → ChanUser}
    (h : ∀ member, (f member).user = member.user ∧ (f member).operator = member.operator) :
    (s.modChan chan fun c =>
      { c with users := c.users.map fun member => if member.user = user then f member else member }).detail =
      s.detail := by
  refine s.detail_modChan chan ?_
  have hUser (member : ChanUser) :
      (if member.user = user then f member else member).user = member.user := by
    split
    · exact (h member).1
    · rfl
  have hOperator (member : ChanUser) :
      (if member.user = user then f member else member).operator = member.operator := by
    split
    · exact (h member).2
    · rfl
  simp [Channel.detail, Channel.outline, Channel.bare, Channel.members, Function.comp_def, hUser,
    hOperator]

theorem setVoice_quiet (s : Core) (chan : ChanId) (user : UserId) (value : Bool) :
    Quietly s (s.setVoice chan user value) :=
  ⟨detail_modMember s chan user fun _ => ⟨rfl, rfl⟩, fun h => h.modMember chan user
    (f := fun member => { member with voice := value, muzzled := member.muzzled && !value })
    fun member _ hVoice => by simp [show value = true from hVoice]⟩

theorem setMuzzled_quiet (s : Core) (chan : ChanId) (user : UserId) (value : Bool) :
    Quietly s (s.setMuzzled chan user value) :=
  ⟨detail_modMember s chan user fun _ => ⟨rfl, rfl⟩, fun h => h.modMember chan user
    (f := fun member => { member with muzzled := value, voice := member.voice && !value })
    fun member _ hVoice => by
      rw [Bool.and_eq_true, Bool.not_eq_true'] at hVoice
      exact hVoice.2⟩

theorem voiceNick_quiet (s : Server) (con : ConId) (tag : Nat) (sender : Str)
    (senderUser : Option UserId) (chan : ChanId) (nick : Str) :
    Quietly s.toCore (s.voiceNick con tag sender senderUser chan nick).toCore := by
  unfold voiceNick
  split
  · exact .of_eq (by simp)
  · simp only
    split
    · exact .of_eq (by simp)
    · rw [toCore_notifyOps, toCore_sendIfUser, toCore_onCore]
      exact setVoice_quiet ..

theorem toCore_listVoiced (s : Server) (con : ConId) (chan : ChanId) :
    (s.listVoiced con chan).toCore = s.toCore := by
  unfold listVoiced
  split
  · simp only [toCore_sendCmd]
    rw [toCore_foldl fun s member => ?_, toCore_sendCmd]
    split <;> rfl
  · rfl

theorem channelVoice_path (s : Server) (con : ConId) (tag : Nat) (pkt : Str) :
    Op.Path ok s.toCore (s.channelVoice con tag pkt).toCore := by
  have hNicks (l : List Str) (t : Server) (sender : Str) (senderUser : Option UserId)
      (chan : ChanId) :
      Quietly t.toCore
        (l.foldl (fun s nick => s.voiceNick con tag sender senderUser chan nick) t).toCore := by
    induction l generalizing t with
    | nil => exact .of_eq rfl
    | cons nick l ih => exact (voiceNick_quiet t con tag sender senderUser chan nick).trans (ih _)
  unfold channelVoice
  split
  · exact .refl
  · split
    · exact Op.pathOfEq (by simp)
    · split
      · exact Op.pathOfEq (by simp)
      · split
        · exact Op.pathOfEq (toCore_listVoiced ..)
        · simp only
          split
          · exact Op.pathOfEq (by simp)
          · refine (Quietly.trans ?_ (hNicks ..)).path
            exact .of_eq (toCore_passMessageArgs ..)

theorem channelMuzzle_path (s : Server) (con : ConId) (tag : Nat) (pkt : Str) :
    Op.Path ok s.toCore (s.channelMuzzle con tag pkt).toCore := by
  unfold channelMuzzle
  split
  · exact .refl
  · split
    · split
      · exact Op.pathOfEq (by simp)
      · rename_i chan _
        simp only
        split
        · exact Op.pathOfEq (by simp)
        · split
          · exact Op.pathOfEq (by simp)
          · rename_i user _
            split
            · exact Op.pathOfEq (by simp)
            · rw [toCore_passMessageArgs, toCore_ite, toCore_notifyOps, toCore_sendIfUser,
                toCore_onCore]
              split
              · exact (setMuzzled_quiet s.toCore chan user _).path
              · exact .refl
    · exact Op.pathOfEq (by simp)

theorem toCore_remoteNotifyMods (s : Server) (con : ConId) (tag : Nat) (pkt : Str) :
    (s.remoteNotifyMods con tag pkt).toCore = s.toCore := by
  unfold remoteNotifyMods
  split <;> simp

theorem channelLevel_path (s : Server) (con : ConId) (pkt : Str) :
    Op.Path ok s.toCore (s.channelLevel con pkt).toCore := by
  unfold channelLevel
  split
  · exact .refl
  · split
    · exact .refl
    · exact Op.pathOfEq (by simp)
    · split
      · exact Op.pathOfEq (by simp)
      · simp only
        split
        · exact Op.pathOfEq (by simp)
        · split
          · exact Op.pathOfEq (by simp)
          · split
            · exact .refl
            · split
              · exact Op.pathOfEq (by simp)
              · split
                · exact .refl
                · rw [toCore_notifyOps, toCore_onCore, toCore_passMessageArgs]
                  exact (Op.setLevel s.toCore _ _).path

/-- A new limit comes with the time. -/
theorem limit_path (s : Core) (chan : ChanId) (limit : UInt16) :
    Op.Path ok s (s.modChan chan fun c => { c with limit := limit, timestamp := s.now }) := by
  refine (Op.setLimit s chan limit).path.trans (Op.quietPath ?_ fun h => ?_)
  have hChan : (fun c => ((s.modChan chan fun c =>
      { c with limit := limit, timestamp := s.now }).chan c).detail) =
        fun c => ((s.modChan chan fun c => { c with limit := limit }).chan c).detail := by
    funext c
    by_cases hc : c = chan <;>
      simp [hc, Channel.detail, Channel.outline, Channel.bare, Channel.members]
  · simp only [Core.detail, hChan]
    rfl
  · intro c member hMem
    refine h c member ?_
    by_cases hc : c = chan <;> simpa [hc] using hMem

theorem channelLimit_path (s : Server) (con : ConId) (tag : Nat) (pkt : Str) :
    Op.Path ok s.toCore (s.channelLimit con tag pkt).toCore := by
  unfold channelLimit
  split
  · exact .refl
  · exact Op.pathOfEq (by simp)
  · split
    · exact Op.pathOfEq (by simp)
    · simp only
      split
      · exact Op.pathOfEq (by simp)
      · split
        · exact Op.pathOfEq (by simp)
        · split
          · exact .refl
          · split
            · exact Op.pathOfEq (by simp)
            · split
              · exact .refl
              · rw [toCore_notifyOps, toCore_passMessageArgs, toCore_onCore]
                exact limit_path s.toCore _ _

/-! ### Invitations, and bans from a channel -/

theorem channelInvite_path (s : Server) (con : ConId) (tag : Nat) (pkt : Str) :
    Op.Path ok s.toCore (s.channelInvite con tag pkt).toCore := by
  unfold channelInvite
  split
  · exact .refl
  · split
    · split
      · exact Op.pathOfEq (by simp)
      · rename_i chan hChan
        simp only
        split
        · exact Op.pathOfEq (by simp)
        · split
          · exact Op.pathOfEq (by simp)
          · split
            · exact Op.pathOfEq (by simp)
            · split
              · exact Op.pathOfEq (by simp)
              · rename_i user hUser
                split
                · exact Op.pathOfEq (by simp)
                · split
                  · exact .refl
                  · rename_i hNew
                    simp only [toCore_notifyOps, toCore_ite, toCore_sendCmd, ite_self,
                      toCore_passMessageArgs, toCore_onCore]
                    exact Op.finePath (.invite (Bucket.Table.mem_values_of_lookup hUser)
                      (Bucket.Table.mem_values_of_lookup hChan) (by simpa using hNew))
    · exact Op.pathOfEq (by simp)

theorem channelBan_path (s : Server) (con : ConId) (tag : Nat) (pkt : Str) :
    Op.Path ok s.toCore (s.channelBan con tag pkt).toCore := by
  unfold channelBan
  split
  · exact .refl
  · split
    · split
      · exact Op.pathOfEq (by simp)
      · rename_i chan _
        split
        · exact Op.pathOfEq (by simp)
        · simp only
          split
          · exact .refl
          · rw [toCore_notifyOps, toCore_passMessageArgs, toCore_onCore]
            exact (Quietly.modChan s.toCore chan rfl rfl).path
    · exact Op.pathOfEq (by simp)

theorem channelUnban_path (s : Server) (con : ConId) (tag : Nat) (pkt : Str) :
    Op.Path ok s.toCore (s.channelUnban con tag pkt).toCore := by
  unfold channelUnban
  split
  · exact .refl
  · split
    · split
      · exact Op.pathOfEq (by simp)
      · rename_i chan _
        split
        · exact Op.pathOfEq (by simp)
        · simp only
          split
          · exact Op.pathOfEq (by simp)
          · rw [toCore_onCore, toCore_notifyOps, toCore_passMessageArgs]
            exact (Quietly.modChan s.toCore chan rfl rfl).path
    · exact Op.pathOfEq (by simp)

/-! ### Talking -/

theorem toCore_refusesTalk {s t : Server} {chan : ChanId} {sender : UserId}
    (h : s.refusesTalk chan sender = some t) : t.toCore = s.toCore := by
  simp only [refusesTalk] at h
  split at h
  · cases h
    rfl
  · split at h
    · split at h
      · split at h
        · cases h
        · cases h
          exact toCore_sendIfUser ..
      · split at h
        · cases h
          exact toCore_sendIfUser ..
        · cases h
    · cases h

@[simp] theorem toCore_talk (s : Server) (chan : ChanId) (sender : UserId) (tag : Nat) (text : Str) :
    (s.talk chan sender tag text).toCore = s.toCore := by
  simp only [talk]
  refine toCore_foldl (fun s member => ?_) _ _
  split
  · split <;> rfl
  · rfl

@[simp] theorem toCore_publicMessage (s : Server) (con : ConId) (tag : Nat) (pkt : Str) :
    (s.publicMessage con tag pkt).toCore = s.toCore := by
  simp only [publicMessage]
  split
  · rfl
  · split
    · simp
    · split
      · rfl
      · split
        · simp
        · split
          · simp
          · split
            · rename_i hRefused
              exact toCore_refusesTalk hRefused
            · simp

@[simp] theorem toCore_emote (s : Server) (con : ConId) (tag : Nat) (pkt : Str) :
    (s.emote con tag pkt).toCore = s.toCore := by
  simp only [emote]
  split
  · rfl
  · split
    · simp
    · split
      · rfl
      · split
        · split
          · simp
          · split
            · rename_i hRefused
              exact toCore_refusesTalk hRefused
            · simp
        · simp

@[simp] theorem toCore_listUsers (s : Server) (con : ConId) (pkt : Str) :
    (s.listUsers con pkt).toCore = s.toCore := by
  simp only [listUsers]
  split
  · rfl
  · split
    · simp
    · split
      · simp
      · rw [toCore_sendCmd]
        exact toCore_foldl (fun s member => toCore_sendCmd s con _ _) _ _

/-! ### Hotlists -/

theorem toCore_waitFor (s : Server) (con : ConId) (hot : HotlistId) :
    (s.waitFor con hot).toCore =
      if (s.hot hot).users.contains con then s.toCore else s.toCore.listHotlist con hot := by
  simp only [waitFor]
  split
  · rfl
  · split <;> simp

/-- Whether a request puts a connection on a hotlist. -/
def waitsFor (s : Core) (con : ConId) (pkt : Str) : Bool :=
  if 0 < s.cfg.maxHotlist ∧ s.cfg.maxHotlist < ((s.hotlistsOf con).length : Int) then false
  else
    match s.hotlists.lookup pkt with
    | some hot => !(s.hot hot).users.contains con
    | none => !invalidNick s.cfg pkt

theorem addHotlist_path {s : Server} {con : ConId} (pkt : Str)
    (hOpen : (s.con con).allocated = true) (hClass : (s.con con).cls = .user)
    (hOk : waitsFor s.toCore con pkt = true → ok (.wait con) s.toCore) :
    Op.Path ok s.toCore (s.addHotlist con pkt).toCore := by
  unfold addHotlist
  simp only
  split
  · split
    · exact Op.pathOfEq (by simp)
    · exact .refl
  · rename_i hRoom
    split
    · rename_i hot hName
      rw [toCore_waitFor]
      split
      · exact .refl
      · rename_i hNew
        have hMay := hOk (by simp only [waitsFor, hRoom, if_false, hName]; simpa using hNew)
        exact Op.finePath (.wait hOpen hClass hName (by simpa using hNew) hMay)
    · rename_i hNone
      split
      · exact Op.pathOfEq (by simp)
      · rename_i hNick
        have hMay := hOk (by simp only [waitsFor, hRoom, if_false, hNone]; simpa using hNick)
        have hEmpty : ((s.onCore (·.newHotlist pkt)).hot s.next).users = [] := by
          simp [Core.newHotlist]
        rw [toCore_waitFor, hEmpty]
        exact Op.finePath (.waitNew hOpen hClass hNone hMay)

theorem removeHotlist_path (s : Server) (con : ConId) (pkt : Str) :
    Op.Path ok s.toCore (s.removeHotlist con pkt).toCore := by
  unfold removeHotlist
  split
  · exact Op.pathOfEq (by simp)
  · rename_i hot hName
    exact Op.finePath (.unlist hName)

/-! ### The files of the server -/

theorem userdbDump_path (s : Core)
    (hOk : ∀ db ∈ s.userDb.values, s.stale (s.db db) = true →
      ∀ table, ok (.drop db) { s with userDb := table }) :
    Op.Path ok s s.userdbDump := by
  have hWalk (l : List UserDbId) (hIn : ∀ db ∈ l, db ∈ s.userDb.values)
      (table : NameTable UserDbId) : Op.Path ok { s with userDb := table }
        (l.foldl (fun s db => if s.stale (s.db db) then s.removeDb db else s)
          { s with userDb := table }) := by
    induction l generalizing table with
    | nil => exact .refl
    | cons db l ih =>
      have hRest : ∀ d ∈ l, d ∈ s.userDb.values := fun d hd => hIn d (List.mem_cons_of_mem _ hd)
      rw [List.foldl_cons]
      split
      · rename_i hStale
        have hDrop : Op ok { s with userDb := table } (({ s with userDb := table } : Core).removeDb db) :=
          .dropRecord (hOk db (hIn db (by simp)) hStale table)
        exact hDrop.path.trans (ih hRest _)
      · exact ih hRest table
  exact hWalk s.userDb.values (fun _ h => h) s.userDb

/-! ### Packets and events -/

/-- What `ok` has to allow for the handler of a packet, in the state in which it runs. -/
def allowsPacket (ok : Label → Core → Prop) (s : Server) (con : ConId) (pkt : Str) (env : Env) :
    Command → Prop
  | .login | .loginRegister =>
    s.isUser con = false → (∀ t, ok .account t) ∧ ∀ t, ok .person t
  | .level | .muzzle | .unmuzzle => (∀ t, ok .account t) ∧ ∀ t, ok .person t
  | .reginfo => s.isServer con = true → (∀ t, ok .account t) ∧
      (demotesCloaked s.toCore pkt = true → ok .indiscreet s.toCore)
  | .cloak => misplacesCloak s.toCore con pkt = true → ∀ t, ok .indiscreet t
  | .changePass | .alterPass | .registerUser => ∀ t, ok .account t
  | .nuke => ∀ db, nukeOf s.toCore con pkt = some db → ok (.drop db) s.toCore
  | .clientQuit => s.isServer con = true → ∀ t, ok .person t
  | .killUser | .serverDisconnect | .changeSpeed | .changeDataPort | .alterPort | .alterSpeed =>
    ∀ t, ok .person t
  | .ban => ∀ b, banOf s.toCore con pkt = some b → ok (.ban b) s.toCore
  | .unban => ∀ t, ok .unban t
  | .addFile | .shareFile => ∀ user kb, (s.con con).user = some user →
      (s.user user).libsize.toNat + kb.toNat < 2 ^ 32 → ok (.insert user kb) s.toCore
  | .addDirectory => ∀ user dir, (s.con con).user = some user →
      directoryPrefix (nextArg pkt).1 = some dir →
      allowsDirectory ok con user dir s (args (nextArg pkt).2)
  | .removeFile => ok .unshare s.toCore
  | .userSharing => ∀ nick count size user, splitLine 3 pkt = some [nick, count, size] →
      s.users.lookup nick = some user → ok (.report user (max (atoi count) 0)) s.toCore
  | .search => s.isUser con = true → ∀ id, ok (.forward con id) s.toCore
  | .remoteSearch => s.isServer con = true → ∀ id, ok (.forward con id) s.toCore
  | .remoteSearchEnd => ok (.answer con pkt) (s.findSearch pkt).1.toCore
  | .join => allowsJoin ok s con pkt env.bufLen env.fuel
  | .addHotlist | .addHotlistSeq =>
    s.isUser con = true → waitsFor s.toCore con pkt = true → ok (.wait con) s.toCore
  | _ => True

/-- The commands that share files or search for them. -/
def fileCommands : List Command :=
  [.addFile, .shareFile, .addDirectory, .removeFile, .userSharing, .search, .remoteSearch,
    .remoteSearchEnd]

/-- Where every operation on settings and on channels and hotlists is allowed, only the commands about
files ask for more. -/
theorem allowsPacket_of_setting (h : ∀ l t, l.isSetting = true → ok l t)
    (hListing : ∀ l t, l.isListing = true → ok l t) (s : Server) (con : ConId) (pkt : Str) (env : Env)
    {cmd : Command} (hCmd : cmd ∉ fileCommands) : allowsPacket ok s con pkt env cmd := by
  cases cmd with
  | addFile | shareFile | addDirectory | removeFile | userSharing | search | remoteSearch
  | remoteSearchEnd => exact absurd (by decide) hCmd
  | login | loginRegister => exact fun _ => ⟨fun _ => h _ _ rfl, fun _ => h _ _ rfl⟩
  | level | muzzle | unmuzzle => exact ⟨fun _ => h _ _ rfl, fun _ => h _ _ rfl⟩
  | reginfo => exact fun _ => ⟨fun _ => h _ _ rfl, fun _ => h _ _ rfl⟩
  | clientQuit | ban | cloak | nuke => exact fun _ _ => h _ _ rfl
  | killUser | serverDisconnect | changeSpeed | changeDataPort | alterPort | alterSpeed | changePass
  | alterPass | registerUser | unban => exact fun _ => h _ _ rfl
  | join => exact fun _ _ _ _ _ => hListing _ _ rfl
  | addHotlist | addHotlistSeq => exact fun _ _ => hListing _ _ rfl
  | _ => trivial

/-- What `ok` has to allow for an event. -/
def allows (ok : Label → Core → Prop) (s : Server) : Event → Prop
  | .packet con cmd pkt env =>
    reads s.toCore con = true → allowsPacket ok (s.reportSharing con cmd) con pkt env cmd
  | .accept _ _ _ _ => ok .accept s.toCore
  | .drop con => (s.con con).allocated = true → ok (.cancel con) s.toCore ∧ ∀ t, ok .person t
  | .expireBans => ∀ t, ok .unban t
  | .dumpState => ∀ db ∈ s.userDb.values, s.stale (s.db db) = true →
      ∀ table, ok (.drop db) { s.toCore with userDb := table }
  | _ => True

/-- `handle_connection` changes nothing but a mark that a user shares. -/
theorem toCore_reportSharing (s : Server) (con : ConId) (cmd : Command) :
    ∃ user f, (s.reportSharing con cmd).toCore = s.toCore.modUser user f ∧
      ∀ u : User, { f u with sharing := false, unsharing := false } =
        { u with sharing := false, unsharing := false } := by
  have hSame {t : Server} (h : t.toCore = s.toCore) : ∃ user f, t.toCore = s.toCore.modUser user f ∧
      ∀ u : User, { f u with sharing := false, unsharing := false } =
        { u with sharing := false, unsharing := false } :=
    ⟨0, id, by rw [h, Core.modUser_id], fun _ => rfl⟩
  simp only [reportSharing]
  split
  · exact hSame rfl
  · rename_i user _
    split
    · exact hSame rfl
    · split
      · split
        · exact hSame rfl
        · exact ⟨user, fun u => { u with sharing := false },
            by rw [toCore_onCore, toCore_passMessageArgs], fun _ => rfl⟩
      · split
        · split
          · exact hSame rfl
          · exact ⟨user, fun u => { u with unsharing := false },
              by rw [toCore_onCore, toCore_passMessageArgs], fun _ => rfl⟩
        · exact hSame rfl

theorem detail_reportSharing (s : Server) (con : ConId) (cmd : Command) :
    (s.reportSharing con cmd).toCore.detail = s.toCore.detail := by
  obtain ⟨user, f, hEq, hf⟩ := s.toCore_reportSharing con cmd
  rw [hEq]
  exact s.toCore.detail_modUser _ (congrArg User.detail (hf _) :)

theorem flagsApart_reportSharing (s : Server) (con : ConId) (cmd : Command)
    (h : s.toCore.FlagsApart) : (s.reportSharing con cmd).toCore.FlagsApart := by
  obtain ⟨user, f, hEq, -⟩ := s.toCore_reportSharing con cmd
  rw [hEq]
  exact h.of_chan rfl

theorem outline_reportSharing (s : Server) (con : ConId) (cmd : Command) :
    (s.reportSharing con cmd).toCore.outline = s.toCore.outline :=
  Core.outline_of_detail (s.detail_reportSharing con cmd)

@[simp] theorem toCore_download (s : Server) (con : ConId) (tag : Nat) (pkt : Str) :
    (s.download con tag pkt).toCore = s.toCore := by
  simp only [download]
  split
  · rfl
  · split
    · split
      · simp
      · simp only [toCore_ite, toCore_sendUser, toCore_sendCmd, ite_self]
    · simp

@[simp] theorem toCore_uploadRequest (s : Server) (con : ConId) (pkt : Str) :
    (s.uploadRequest con pkt).toCore = s.toCore := by
  simp only [uploadRequest]
  split
  · split
    · simp
    · split
      · split
        · rfl
        · simp
      · simp
  · rfl

theorem dispatch_path {s : Server} (h : Sound s.toCore) {con : ConId} (cmd : Command) (pkt : Str)
    (env : Env) (hOpen : (s.con con).allocated = true)
    (hKnown : cmd = .login ∨ cmd = .loginRegister ∨ (s.con con).cls ≠ .unknown)
    (hOk : allowsPacket ok s con pkt env cmd) :
    Op.Path ok s.toCore (s.dispatch con cmd pkt env).toCore := by
  have hUser (hIs : s.isUser con = true) : (s.con con).cls = .user := by
    simpa [Core.isUser] using hIs
  -- a handler behind `CHECK_USER_CLASS` or `CHECK_SERVER_CLASS`
  have hGuard {c : Prop} [Decidable c] {t : Server}
      (hPath : c → Op.Path ok s.toCore t.toCore) :
      Op.Path ok s.toCore (if c then t else s).toCore := by
    split
    · rename_i hc
      exact hPath hc
    · exact .refl
  cases cmd with
  | login | loginRegister => exact login_path h _ pkt env.random hOpen hOk
  | addFile => exact hGuard fun hIs => addFile_path hOpen (hUser hIs) pkt hOk
  | shareFile => exact hGuard fun hIs => shareFile_path hOpen (hUser hIs) pkt hOk
  | addDirectory => exact hGuard fun hIs => addDirectory_path hOpen (hUser hIs) pkt hOk
  | removeFile => exact hGuard fun hIs => removeFile_path hOpen (hUser hIs) pkt hOk
  | search => exact hGuard fun hIs => search_path env.searchId pkt hOpen (hOk hIs _)
  | remoteSearch => exact hGuard fun hIs => remoteSearchRequest_path pkt hOpen (hOk hIs)
  | remoteSearchResult => exact hGuard fun _ => remoteSearchResult_path s _ pkt
  | remoteSearchEnd => exact remoteSearchEnd_path s con pkt hOk
  | download | downloadFirewall => exact Op.pathOfEq (toCore_download s con _ pkt)
  | uploadRequest => exact hGuard fun _ => Op.pathOfEq (toCore_uploadRequest s con pkt)
  | join => exact join_path h _ pkt env.bufLen env.fuel hOpen (by simpa using hKnown) hOk
  | part => exact part_path h _ pkt hOpen (by simpa using hKnown)
  | killUser => exact killUser_path h con pkt hOk
  | clearChannel => exact clearChannel_path h con _ pkt
  | kick | kickUser => exact kick_path s con _ pkt
  | clientQuit => exact hGuard fun hIs => clientQuit_path s con _ pkt (hOk hIs)
  | userSharing => exact hGuard fun _ => userSharing_path s con _ pkt hOk
  | linkInfo => exact hGuard fun _ => linkInfo_path s con _ pkt
  | serverDisconnect => exact serverDisconnect_path s con pkt hOk
  | op | deop => exact channelOp_path s con _ pkt
  | channelDrop => exact channelDrop_path s con _ pkt
  | reginfo => exact hGuard fun hIs => reginfo_path s con _ pkt (hOk hIs).1 (hOk hIs).2
  | level => exact level_path h con _ pkt env.random hOk.1 hOk.2
  | cloak => exact cloak_path s con _ pkt hOk
  | muzzle | unmuzzle => exact muzzle_path s con _ pkt env.random hOk.1 hOk.2
  | notifyMods => exact Op.pathOfEq (toCore_remoteNotifyMods s con _ pkt)
  | channelLevel => exact channelLevel_path s con pkt
  | channelLimit => exact channelLimit_path s con _ pkt
  | topic => exact topic_path s con _ pkt
  | nuke => exact nuke_path s con _ pkt hOk
  | ban => exact ban_path s con _ pkt hOk
  | alterPort => exact alterPort_path s con _ pkt hOk
  | unban => exact unban_path s con _ pkt hOk
  | alterSpeed => exact alterSpeed_path s con _ pkt hOk
  | changeSpeed => exact changeSpeed_path s con _ pkt hOk
  | changePass => exact changePass_path s con _ pkt env.random hOk
  | changeDataPort => exact changeDataPort_path s con _ pkt hOk
  | alterPass => exact alterPass_path s con _ pkt env.random hOk
  | registerUser => exact registerUser_path s con _ pkt env.random hOk
  | channelMode => exact channelMode_path s con _ pkt
  | channelVoice | channelUnvoice => exact channelVoice_path s con _ pkt
  | channelMuzzle | channelUnmuzzle => exact channelMuzzle_path s con _ pkt
  | addHotlist | addHotlistSeq => exact hGuard fun hIs => addHotlist_path pkt hOpen (hUser hIs) (hOk hIs)
  | removeHotlist => exact hGuard fun _ => removeHotlist_path s con pkt
  | publicMessage | serverPublic => exact Op.pathOfEq (toCore_publicMessage s con _ pkt)
  | emote => exact Op.pathOfEq (toCore_emote s con _ pkt)
  | namesList => exact hGuard fun _ => Op.pathOfEq (toCore_listUsers s con pkt)
  | channelBan => exact channelBan_path s con _ pkt
  | channelUnban => exact channelUnban_path s con _ pkt
  | channelInvite => exact channelInvite_path s con _ pkt

theorem handlePacket_path {s : Server} (h : Sound s.toCore) {con : ConId} (cmd : Command)
    (pkt : Str) (env : Env) (hOpen : (s.con con).allocated = true)
    (hOk : allowsPacket ok (s.reportSharing con cmd) con pkt env cmd) :
    Op.Path ok s.toCore (s.handlePacket con cmd pkt env).toCore := by
  have hQuiet := s.detail_reportSharing con cmd
  have hSkeleton := Core.skeleton_of_outline (Core.outline_of_detail hQuiet)
  have hSame := SameUsers.quiet hSkeleton
  simp only [handlePacket]
  split
  · rename_i hUnknown
    simp only [Bool.and_eq_true, Core.isUnknown, beq_iff_eq] at hUnknown
    refine Op.quietPath (detail_markDestroy s.toCore ?_) fun h => h
    simpa [Core.isUnknown] using hUnknown.1.1
  · rename_i hKnown
    refine (Op.quietPath hQuiet (flagsApart_reportSharing s con cmd)).trans
      (dispatch_path (h.quiet hSkeleton) cmd pkt env ?_ ?_ hOk)
    · rw [hSame.allocated]
      exact hOpen
    · rw [hSame.cls]
      by_cases hLogin : cmd = .login
      · exact .inl hLogin
      · by_cases hRegister : cmd = .loginRegister
        · exact .inr (.inl hRegister)
        · refine .inr (.inr fun hUnknown => hKnown ?_)
          simp [Core.isUnknown, hUnknown, hLogin, hRegister]

/-- Every event is a sequence of operations. -/
theorem step_path {s : Server} (h : Sound s.toCore) (e : Event) (hOk : s.allows ok e) :
    Op.Path ok s.toCore (s.step e).toCore := by
  cases e with
  | accept ip host port localPort => exact (Op.accept ip host port localPort hOk).path
  | link con =>
    simp only [step]
    split
    · rename_i hLink
      simp only [Bool.and_eq_true, Core.isUnknown, beq_iff_eq] at hLink
      exact serverLoginAck_path hLink.1.1 hLink.1.2
    · exact .refl
  | packet con cmd pkt env =>
    simp only [step]
    split
    · rename_i hRead
      have hOpen : (s.con con).allocated = true := by
        simp only [reads, Bool.and_eq_true] at hRead
        exact hRead.1
      exact handlePacket_path h cmd pkt env hOpen (hOk hRead)
    · exact .refl
  | drop con =>
    simp only [step]
    split
    · rename_i hOpen
      exact removeConnection_path h hOpen (hOk hOpen).1 (hOk hOpen).2
    · exact .refl
  | collect => exact (Op.collect s.toCore).path
  | expireBans => exact expireBans_path s hOk
  | dumpState => exact userdbDump_path s.toCore hOk
  | tick seconds => exact (Op.tick s.toCore seconds).path

end Server

/-! ### Runs -/

/-- The operations that a result may forbid on its own, without the others of their kind. -/
def Label.isSpecial : Label → Bool
  | .accept | .ban _ | .drop _ | .indiscreet => true
  | _ => false

/-- Nothing is asked of the labelled operations. -/
def anyOp : Label → Core → Prop := fun _ _ => True

namespace Server

/-- Any file may be added when every file may. -/
theorem allowsDirectory_of {ok : Label → Core → Prop} (h : ∀ user kb s, ok (.insert user kb) s)
    (con : ConId) (user : UserId) (dir : Str) (l : List Str) (s : Server) :
    allowsDirectory ok con user dir s l := by
  fun_induction allowsDirectory ok con user dir s l with
  | case1 | case3 => trivial
  | case2 s basename _ size bitrate freq duration rest ih =>
    exact fun _ => ⟨fun _ _ => h _ _ _, ih⟩

/-- Where everything else is allowed, only new connections, the requests for bans, the removal of
records and what puts the mark of a cloaked user where it does not belong matter. -/
theorem allows_of {ok : Label → Core → Prop} (h : ∀ l t, l.isSpecial = false → ok l t) (s : Server)
    {e : Event}
    (hAccept : ∀ ip host port localPort, e = .accept ip host port localPort → ok .accept s.toCore)
    (hBan : ∀ con pkt env b, e = .packet con .ban pkt env →
      banOf (s.reportSharing con .ban).toCore con pkt = some b →
      ok (.ban b) (s.reportSharing con .ban).toCore)
    (hNuke : ∀ con pkt env db, e = .packet con .nuke pkt env →
      nukeOf (s.reportSharing con .nuke).toCore con pkt = some db →
      ok (.drop db) (s.reportSharing con .nuke).toCore)
    (hDump : e = .dumpState → ∀ db ∈ s.userDb.values, s.stale (s.db db) = true →
      ∀ table, ok (.drop db) { s.toCore with userDb := table })
    (hReginfo : ∀ con pkt env, e = .packet con .reginfo pkt env →
      (s.reportSharing con .reginfo).isServer con = true →
      demotesCloaked (s.reportSharing con .reginfo).toCore pkt = true →
      ok .indiscreet (s.reportSharing con .reginfo).toCore)
    (hCloak : ∀ con pkt env, e = .packet con .cloak pkt env →
      misplacesCloak (s.reportSharing con .cloak).toCore con pkt = true → ∀ t, ok .indiscreet t) :
    s.allows ok e := by
  have hAll {l : Label} (hl : l.isSpecial = false) (t : Core) : ok l t := h l t hl
  cases e with
  | packet con cmd pkt env =>
    intro _
    cases cmd with
    | ban => exact fun b hb => hBan con pkt env b rfl hb
    | nuke => exact fun db hdb => hNuke con pkt env db rfl hdb
    | reginfo => exact fun hServer => ⟨hAll rfl, hReginfo con pkt env rfl hServer⟩
    | cloak => exact hCloak con pkt env rfl
    | addDirectory =>
      exact fun user dir _ _ => allowsDirectory_of (fun _ _ _ => hAll rfl _) con user dir _ _
    | addFile | shareFile => exact fun _ _ _ _ => hAll rfl _
    | join => exact fun _ _ t _ _ => hAll rfl t
    | addHotlist | addHotlistSeq => exact fun _ _ => hAll rfl _
    | userSharing => exact fun _ _ _ _ _ _ => hAll rfl _
    | search | remoteSearch => exact fun _ _ => hAll rfl _
    | remoteSearchEnd | removeFile => exact hAll rfl _
    | login | loginRegister => exact fun _ => ⟨hAll rfl, hAll rfl⟩
    | level | muzzle | unmuzzle => exact ⟨hAll rfl, hAll rfl⟩
    | clientQuit => exact fun _ => hAll rfl
    | killUser | serverDisconnect | changeSpeed | changeDataPort | alterPort | alterSpeed | changePass
    | alterPass | registerUser | unban => exact hAll rfl
    | _ => trivial
  | drop con => exact fun _ => ⟨hAll rfl _, hAll rfl⟩
  | accept ip host port localPort => exact hAccept ip host port localPort rfl
  | expireBans => exact hAll rfl
  | dumpState => exact hDump rfl
  | _ => trivial

/-- Where everything but the adding of bans is allowed, only the requests for bans matter. -/
theorem allows_of_ban {ok : Label → Core → Prop} (h : ∀ l t, (∀ b, l ≠ .ban b) → ok l t) (s : Server)
    {e : Event}
    (hBan : ∀ con pkt env b, e = .packet con .ban pkt env →
      banOf (s.reportSharing con .ban).toCore con pkt = some b →
      ok (.ban b) (s.reportSharing con .ban).toCore) : s.allows ok e := by
  have hOther {l : Label} (hl : ∀ b, l ≠ .ban b) (t : Core) : ok l t := h l t hl
  refine s.allows_of (fun l t hl => h l t ?_) (fun _ _ _ _ _ => hOther (by simp) _) hBan
    (fun _ _ _ _ _ _ => hOther (by simp) _) (fun _ _ _ _ _ => hOther (by simp) _)
    (fun _ _ _ _ _ _ => hOther (by simp) _) fun _ _ _ _ _ => hOther (by simp)
  rintro b rfl
  cases hl

theorem allows_any (s : Server) (e : Event) : s.allows anyOp e :=
  s.allows_of_ban (fun _ _ _ => trivial) fun _ _ _ _ _ _ => trivial

theorem start_sound (f : Startup) : Sound (Server.start f).toCore :=
  ⟨Registry.start f, Membership.start f⟩

/-- What every operation keeps is kept by a run whose steps only take operations that are
allowed. -/
theorem run_keeps {ok : Label → Core → Prop} {cond : Server → Event → Prop} {I : Core → Prop}
    (hAllows : ∀ s e, Sound s.toCore → I s.toCore → cond s e → s.allows ok e)
    (hOp : ∀ s t, Sound s → Op ok s t → I s → I t) {s : Server} {events : List Event}
    (hMeets : Runs.Meets step cond s events) (hSound : Sound s.toCore) (hInv : I s.toCore) :
    Sound (s.run events).toCore ∧ I (s.run events).toCore := by
  refine Runs.Meets.invariant (I := fun s : Server => Sound s.toCore ∧ I s.toCore) ?_ hMeets
    ⟨hSound, hInv⟩
  rintro s e hCond ⟨hSound, hInv⟩
  have hPath := step_path hSound e (hAllows s e hSound hInv hCond)
  exact hPath.invariant (I := fun s => Sound s ∧ I s)
    (fun s t hStep h => ⟨h.1.op hStep, hOp s t h.1 hStep h.2⟩) ⟨hSound, hInv⟩

/-- What holds at the start and is kept by every operation holds in every state that is reached. -/
theorem reach_keeps {I : Core → Prop} (hOp : ∀ s t, Sound s → Op anyOp s t → I s → I t)
    {f : Startup} (hStart : I (Server.start f).toCore) (events : List Event) :
    Sound (Server.reach f events).toCore ∧ I (Server.reach f events).toCore := by
  refine Runs.run_invariant (I := fun s : Server => Sound s.toCore ∧ I s.toCore) ?_
    ⟨start_sound f, hStart⟩ events
  rintro s e ⟨hSound, hInv⟩
  have hPath := step_path hSound e (allows_any s e)
  exact hPath.invariant (I := fun s => Sound s ∧ I s)
    (fun s t hStep h => ⟨h.1.op hStep, hOp s t h.1 hStep h.2⟩) ⟨hSound, hInv⟩

theorem reach_sound (f : Startup) (events : List Event) : Sound (Server.reach f events).toCore :=
  (reach_keeps (I := fun _ => True) (fun _ _ _ _ h => h) trivial events).1

end Server

end OpenNap
