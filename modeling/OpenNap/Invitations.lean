import OpenNap.Lib.Mirror
import OpenNap.Reach

/-! Who is invited to which channel.  The user keeps a list of channels and the channel a list of
users; `Invitations` says that the two mirror each other, for the users and the channels in the
tables. -/

namespace OpenNap

open CText

/-- From `s` to `t` neither the tables nor the invitations change. -/
structure SameInvitations (s t : Core) : Prop where
  users : t.users = s.users
  channels : t.channels = s.channels
  user : ∀ user, (t.user user).invited = (s.user user).invited
  chan : ∀ chan, (t.chan chan).invited = (s.chan chan).invited

namespace SameInvitations

theorem refl (s : Core) : SameInvitations s s :=
  ⟨rfl, rfl, fun _ => rfl, fun _ => rfl⟩

theorem trans {s t u : Core} (h1 : SameInvitations s t) (h2 : SameInvitations t u) :
    SameInvitations s u where
  users := h2.users.trans h1.users
  channels := h2.channels.trans h1.channels
  user x := (h2.user x).trans (h1.user x)
  chan x := (h2.chan x).trans (h1.chan x)

theorem foldl {α : Type} {f : Core → α → Core} (h : ∀ s a, SameInvitations s (f s a)) (l : List α)
    (s : Core) : SameInvitations s (l.foldl f s) := by
  induction l generalizing s with
  | nil => exact refl s
  | cons a l ih => exact (h s a).trans (ih _)

theorem detail {s t : Core} (h : t.detail = s.detail) : SameInvitations s t where
  users := (congrArg Core.users h :)
  channels := (congrArg Core.channels h :)
  user u := (congrArg User.invited (congrFun (congrArg Core.user h) u) :)
  chan c := (congrArg Channel.invited (congrFun (congrArg Core.chan h) c) :)

theorem personal {s t : Core} (h : t.personal = s.personal) : SameInvitations s t where
  users := (congrArg Core.users h :)
  channels := (congrArg Core.channels h :)
  user u := (congrArg User.invited (congrFun (congrArg Core.user h) u) :)
  chan c := (congrArg Channel.invited (congrFun (congrArg Core.chan h) c) :)

theorem file {s t : Core} (h : FileStep s t) : SameInvitations s t where
  users := (SameUsers.file h).users
  channels := (SameChannels.file h).channels
  user u := by
    simpa [Core.eraseFile] using congrArg User.invited (congrFun (congrArg Core.user h.rest) u)
  chan c := (congrArg Channel.invited (congrFun (congrArg Core.chan h.rest) c) :)

theorem search {s t : Core} (h : SearchStep s t) : SameInvitations s t where
  users := (congrArg Core.users h.rest :)
  channels := (congrArg Core.channels h.rest :)
  user u := (congrArg User.invited (congrFun (congrArg Core.user h.rest) u) :)
  chan c := (congrArg Channel.invited (congrFun (congrArg Core.chan h.rest) c) :)

theorem modUser (s : Core) (user : UserId) {f : User → User}
    (h : (f (s.user user)).invited = (s.user user).invited) :
    SameInvitations s (s.modUser user f) :=
  ⟨rfl, rfl, fun u => by by_cases hu : u = user <;> simp [hu, h], fun _ => rfl⟩

theorem modChan (s : Core) (chan : ChanId) {f : Channel → Channel}
    (h : (f (s.chan chan)).invited = (s.chan chan).invited) :
    SameInvitations s (s.modChan chan f) :=
  ⟨rfl, rfl, fun _ => rfl, fun c => by by_cases hc : c = chan <;> simp [hc, h]⟩

theorem modCon (s : Core) (con : ConId) (f : Connection → Connection) :
    SameInvitations s (s.modCon con f) :=
  ⟨rfl, rfl, fun _ => rfl, fun _ => rfl⟩

theorem recordLogoff (s : Core) (nick : Str) : SameInvitations s (s.recordLogoff nick) := by
  simp only [Core.recordLogoff]
  split <;> exact ⟨rfl, rfl, fun _ => rfl, fun _ => rfl⟩

theorem leaveHotlist (s : Core) (con : ConId) (hot : HotlistId) :
    SameInvitations s (s.leaveHotlist con hot) := by
  simp only [Core.leaveHotlist]
  split <;> exact ⟨rfl, rfl, fun _ => rfl, fun _ => rfl⟩

theorem freeOptions (s : Core) (con : ConId) : SameInvitations s (s.freeOptions con) := by
  apply Core.freeOptions_keeps
  · exact fun t hot h => h.trans (leaveHotlist t con hot)
  · exact fun t h => h.trans (file (Core.fileStep_freeFiles t con))
  · exact fun t h => h.trans (modCon t con _)
  · exact refl s

theorem accept (s : Core) (ip : UInt32) (host : Str) (port localPort : UInt16) :
    SameInvitations s (s.accept ip host port localPort) := by
  simp only [Core.accept, Core.addClient]
  split
  · exact ⟨rfl, rfl, fun _ => rfl, fun _ => rfl⟩
  · split <;> exact ⟨rfl, rfl, fun _ => rfl, fun _ => rfl⟩

theorem setOperator (s : Core) (chan : ChanId) (user : UserId) (value : Bool) :
    SameInvitations s (s.setOperator chan user value) := modChan s chan rfl

theorem markOperator (s : Core) (chan : ChanId) (nick : Str) (value : Bool) :
    SameInvitations s (s.markOperator chan nick value) := by
  simp only [Core.markOperator]
  split
  · exact setOperator s chan _ value
  · exact refl s

theorem enterChannel (s : Core) (user : UserId) (chan : ChanId) :
    SameInvitations s (s.enterChannel user chan) := by
  simp only [Core.enterChannel]
  exact (modUser s user rfl).trans (modChan _ chan rfl)

theorem enterAs (s : Core) (user : UserId) (chan : ChanId) :
    SameInvitations s (s.enterAs user chan) := by
  simp only [Core.enterAs]
  split
  · exact (enterChannel s user chan).trans (setOperator _ chan user true)
  · exact enterChannel s user chan

end SameInvitations

/-- A user lists a channel as one it is invited to exactly when the channel lists the user. -/
structure Invitations (s : Core) : Prop where
  mirror : Mirror (· ∈ s.users.values) (· ∈ s.channels.values) (fun user => (s.user user).invited)
    fun chan => (s.chan chan).invited
  /-- no channel is in the table twice -/
  once : s.channels.values.Nodup

namespace Invitations

variable {s t : Core}

theorem same (h : Invitations s) (hSame : SameInvitations s t) : Invitations t where
  mirror := by
    apply h.mirror.congr
    · simp [hSame.users]
    · simp [hSame.channels]
    · exact fun user _ => hSame.user user
    · exact fun chan _ => hSame.chan chan
  once := by
    rw [hSame.channels]
    exact h.once

/-- The walk of `free_channel` over the users who are invited. -/
theorem invited_freeChannel (chan : ChanId) (l : List UserId) (hOnce : l.Nodup) (s : Core)
    (u : UserId) :
    ((l.foldl (fun s user => s.modUser user fun u => { u with invited := u.invited.erase chan }) s).user
      u).invited = if u ∈ l then (s.user u).invited.erase chan else (s.user u).invited := by
  induction l generalizing s with
  | nil => simp
  | cons user l ih =>
    obtain ⟨hNot, hRest⟩ := List.nodup_cons.1 hOnce
    rw [List.foldl_cons, ih hRest]
    by_cases hu : u = user
    · subst hu
      simp [hNot]
    · simp [hu]

/-- The walk of `free_user` over the channels that the user is invited to. -/
theorem invited_dropInvitations (user : UserId) (l : List ChanId) (hOnce : l.Nodup) (s : Core)
    (c : ChanId) :
    ((l.foldl (fun s chan => s.modChan chan fun c => { c with invited := c.invited.erase user }) s).chan
      c).invited = if c ∈ l then (s.chan c).invited.erase user else (s.chan c).invited := by
  induction l generalizing s with
  | nil => simp
  | cons chan l ih =>
    obtain ⟨hNot, hRest⟩ := List.nodup_cons.1 hOnce
    rw [List.foldl_cons, ih hRest]
    by_cases hc : c = chan
    · subst hc
      simp [hNot]
    · simp [hc]

/-- The users who were invited to a channel that goes no longer are. -/
theorem hashRemoveChannel (h : Invitations s) (name : Str) :
    Invitations (s.hashRemoveChannel name) := by
  cases hName : s.channels.lookup name with
  | none => simpa only [Core.hashRemoveChannel, hName] using h
  | some chan =>
    have hIn : chan ∈ s.channels.values := Bucket.Table.mem_values_of_lookup hName
    have hPerm := Bucket.Table.values_remove hName
    have hGone : chan ∉ (s.channels.remove name).values ∧ (s.channels.remove name).values.Nodup :=
      List.nodup_cons.1 (hPerm.nodup_iff.1 h.once)
    have hFree := invited_freeChannel chan (s.chan chan).invited (h.mirror.onceRight chan hIn) s
    have hRest (l : List UserId) (s : Core) :
        (l.foldl (fun s user => s.modUser user fun u =>
          { u with invited := u.invited.erase chan }) s).users = s.users ∧
        (l.foldl (fun s user => s.modUser user fun u =>
          { u with invited := u.invited.erase chan }) s).channels = s.channels ∧
        (l.foldl (fun s user => s.modUser user fun u =>
          { u with invited := u.invited.erase chan }) s).chan = s.chan := by
      induction l generalizing s with
      | nil => exact ⟨rfl, rfl, rfl⟩
      | cons user l ih => exact ih _
    obtain ⟨hUsers, hChannels, hChan⟩ := hRest (s.chan chan).invited s
    simp only [Core.hashRemoveChannel, hName, Core.freeChannel]
    refine ⟨(h.mirror.symm.dropped hIn (fun c => ?_) (fun u => ?_) (fun c _ => ?_)
      fun u _ => ?_).symm, ?_⟩
    · rw [hChannels]
      constructor
      · exact fun hc => ⟨Bucket.Table.mem_values_of_mem_remove hc, fun hEq => hGone.1 (hEq ▸ hc)⟩
      · exact fun hc => (List.mem_cons.1 (hPerm.mem_iff.1 hc.1)).resolve_left hc.2
    · rw [hUsers]
    · rw [hChan]
    · exact hFree u
    · rw [hChannels]
      exact hGone.2

theorem partChannel (h : Invitations s) (chan : ChanId) (user : UserId) :
    Invitations (s.partChannel chan user) := by
  have hRemove : Invitations (s.channelRemove chan user) := h.same (.modChan s chan rfl)
  simp only [Core.partChannel]
  split
  · exact hRemove.hashRemoveChannel _
  · exact hRemove

theorem partChannels (h : Invitations s) (user : UserId) : Invitations (s.partChannels user) :=
  Runs.run_invariant (fun _ chan h => h.partChannel chan user) h _

/-- A user who goes takes every invitation along. -/
theorem hashRemoveUser (h : Invitations s) (hReg : Registry s) {user : UserId}
    (hUser : user ∈ s.users.values) : Invitations (s.hashRemoveUser (s.user user).nick) := by
  have hPart : Invitations (s.partChannels user) := h.partChannels user
  have hUsers : (s.partChannels user).users = s.users :=
    (SameUsers.chan (s.chanStep_partChannels user)).users
  have hIn : user ∈ (s.partChannels user).users.values := by rwa [hUsers]
  have hDrop := invited_dropInvitations user ((s.partChannels user).user user).invited
    (hPart.mirror.onceLeft user hIn) (s.partChannels user)
  have hRest (l : List ChanId) (s : Core) :
      (l.foldl (fun s chan => s.modChan chan fun c =>
        { c with invited := c.invited.erase user }) s).users = s.users ∧
      (l.foldl (fun s chan => s.modChan chan fun c =>
        { c with invited := c.invited.erase user }) s).channels = s.channels ∧
      (l.foldl (fun s chan => s.modChan chan fun c =>
        { c with invited := c.invited.erase user }) s).user = s.user := by
    induction l generalizing s with
    | nil => exact ⟨rfl, rfl, rfl⟩
    | cons chan l ih => exact ih _
  obtain ⟨hUsers', hChannels', hUser'⟩ :=
    hRest ((s.partChannels user).user user).invited (s.partChannels user)
  have hCount : SameInvitations ((s.partChannels user).dropInvitations user) (s.freeUser user) :=
    { SameInvitations.recordLogoff (((s.partChannels user).dropInvitations user).uncountUser user)
        (s.user user).nick with }
  have hFree : (s.freeUser user).users = s.users := hCount.users.trans (hUsers'.trans hUsers)
  simp only [Core.hashRemoveUser, hReg.lookup_nick hUser]
  refine ⟨hPart.mirror.dropped hIn (fun u => ?_) (fun c => ?_) (fun u _ => ?_) fun c _ => ?_, ?_⟩
  · rw [hFree, hUsers]
    exact hReg.mem_remove hUser
  · rw [hCount.channels]
    exact iff_of_eq (congrArg (c ∈ ·.values) hChannels')
  · rw [hCount.user]
    exact congrArg User.invited (congrFun hUser' u)
  · rw [hCount.chan]
    exact hDrop c
  · rw [hCount.channels]
    exact hChannels' ▸ hPart.once

theorem removeUser (h : Invitations s) (hReg : Registry s) {con : ConId}
    (hOpen : (s.con con).allocated = true) (hClass : (s.con con).cls = .user) :
    Invitations (s.removeUser con) := by
  obtain ⟨user, hUser, hOwner, -⟩ := hReg.client con hOpen hClass
  simp only [Core.removeUser, hOwner]
  exact (h.hashRemoveUser hReg hUser).same (.freeOptions _ con)

/-- A user who logs in is invited to no channel. -/
theorem login (h : Invitations s) (hReg : Registry s) {nick : Str}
    (hUsers : t.users = s.users.add nick s.next) (hChannels : t.channels = s.channels)
    (hChan : t.chan = s.chan) (hNew : (t.user s.next).invited = [])
    (hOld : ∀ u, u ≠ s.next → (t.user u).invited = (s.user u).invited) : Invitations t where
  mirror := by
    have hNot : s.next ∉ s.users.values := fun hIn => (hReg.knownUser _ hIn).ne rfl
    apply (h.mirror.add hNot).congr
    · intro u
      rw [hUsers, ← List.mem_cons]
      exact (s.users.values_add _ _).mem_iff
    · simp [hChannels]
    · intro u _
      by_cases hu : u = s.next
      · subst hu
        simpa using hNew
      · simpa [hu] using hOld u hu
    · simp [hChan]
  once := by
    rw [hChannels]
    exact h.once

/-- A channel that is created has invited nobody. -/
theorem newChannel (h : Invitations s) (hKnown : ∀ chan ∈ s.channels.values, chan < s.next)
    (name : Str) : Invitations (s.newChannel name) := by
  have hNot : s.next ∉ s.channels.values := fun hIn => (hKnown _ hIn).ne rfl
  have hPerm := s.channels.values_add name s.next
  refine ⟨((h.mirror.symm.add hNot).congr (fun c => ?_) (fun _ => Iff.rfl) (fun c _ => ?_)
    fun _ _ => rfl).symm, hPerm.nodup_iff.2 (List.nodup_cons.2 ⟨hNot, h.once⟩)⟩
  · rw [← List.mem_cons]
    exact hPerm.mem_iff
  · by_cases hc : c = s.next
    · simp [Core.newChannel, hc]
    · simp [Core.newChannel, hc]

/-- A user and a channel that is not on the user's list list each other. -/
theorem invite (h : Invitations s) {user : UserId} {chan : ChanId} (hUser : user ∈ s.users.values)
    (hChan : chan ∈ s.channels.values) (hNew : chan ∉ (s.user user).invited) :
    Invitations (s.invite user chan) := by
  refine ⟨(h.mirror.link hUser hChan hNew).congr (fun _ => Iff.rfl) (fun _ => Iff.rfl)
    (fun u _ => ?_) fun c _ => ?_, h.once⟩
  · by_cases hu : u = user <;> simp [Core.invite, hu]
  · by_cases hc : c = chan <;> simp [Core.invite, hc]

/-- They no longer list each other. -/
theorem uninvite (h : Invitations s) (user : UserId) (chan : ChanId) :
    Invitations (s.uninvite user chan) := by
  refine ⟨(h.mirror.unlink user chan).congr (fun _ => Iff.rfl) (fun _ => Iff.rfl)
    (fun u _ => ?_) fun c _ => ?_, h.once⟩
  · by_cases hu : u = user <;> simp [Core.uninvite, hu]
  · by_cases hc : c = chan <;> simp [Core.uninvite, hc]

theorem fine {ok : Label → Core → Prop} (hFine : FineOp ok s t) (h : Invitations s) :
    Invitations t := by
  cases hFine with
  | uncloak user => exact h.same (.modUser s user rfl)
  | cloak => exact h.same (.modUser s _ rfl)
  | cloakRecord => exact h.same ⟨rfl, rfl, fun _ => rfl, fun _ => rfl⟩
  | invite hUser hChan hNew => exact h.invite hUser hChan hNew
  | uninvite user chan => exact h.uninvite user chan
  | wait | waitNew => exact h.same ⟨rfl, rfl, fun _ => rfl, fun _ => rfl⟩
  | @unlist con _ hot =>
    have hLeave := SameInvitations.modCon s con
      fun c => { c with uopt := c.uopt.map fun o => { o with hotlist := o.hotlist.erase hot } }
    exact h.same (hLeave.trans (.leaveHotlist _ con hot))

/-- Every operation keeps the two sides in step. -/
theorem op {ok : Label → Core → Prop} (hOp : Op ok s t) (hSound : Sound s) (h : Invitations s) :
    Invitations t := by
  cases hOp with
  | quiet hDetail => exact h.same (.detail hDetail)
  | fine hFine => exact h.fine hFine
  | person hPersonal => exact h.same (.personal hPersonal)
  | setUserLevel => exact h.same (.modUser s _ rfl)
  | accept => exact h.same (.accept s _ _ _ _)
  | tick | addRecord | setRecord | dropRecord | addBan | dropBans | linkServer | unlinkServer | close =>
    exact h.same ⟨rfl, rfl, fun _ => rfl, fun _ => rfl⟩
  | loginLocal _ _ _ _ _ _ _ _ hFresh | loginRemote _ _ _ _ _ _ _ _ hFresh =>
    refine h.login hSound.registry rfl rfl rfl ?_ fun u hu => ?_
    · simpa [Core.addUser, Core.tieLocal, Core.tieRemote] using hFresh.invited
    · simp [Core.addUser, Core.tieLocal, Core.tieRemote, hu]
  | removeRemote hUser => exact h.hashRemoveUser hSound.registry hUser
  | @zap con hOpen hClass =>
    have hKilled := SameInvitations.modCon s con fun c => { c with killed := true }
    have hReg : Registry (s.modCon con fun c => { c with killed := true }) :=
      hSound.registry.sameUsers (.quiet (s.skeleton_modCon con rfl))
    have hOpen' : ((s.modCon con fun c => { c with killed := true }).con con).allocated = true := by
      simpa using hOpen
    have hGone := (h.same hKilled).removeUser hReg hOpen' (by simpa using hClass)
    exact hGone.same ⟨rfl, rfl, fun _ => rfl, fun _ => rfl⟩
  | @hangUp con hOpen hClass =>
    exact (h.removeUser hSound.registry hOpen hClass).same ⟨rfl, rfl, fun _ => rfl, fun _ => rfl⟩
  | enter => exact h.same (.enterAs s _ _)
  | found => exact (h.newChannel hSound.membership.graph.known _).same (.enterChannel _ _ _)
  | leave => exact (h.same (.modUser s _ rfl)).partChannel _ _
  | dropChannel => exact h.hashRemoveChannel _
  | flagChannel | setTopic | setLevel | setLimit => exact h.same (.modChan s _ rfl)
  | addOperator => exact h.same ((SameInvitations.modChan s _ rfl).trans (.markOperator _ _ _ _))
  | dropOperator => exact h.same ((SameInvitations.modChan s _ rfl).trans (.markOperator _ _ _ _))
  | insert => exact h.same (.file (s.fileStep_insertDatum _ _ _))
  | dropFile => exact h.same (.file (s.fileStep_dropFile _ _ _))
  | report => exact h.same (.file (s.fileStep_reportShared _ _ _ _))
  | collect => exact h.same (.file s.fileStep_fdbGarbageCollect)
  | finishSearch => exact h.same (.search (s.searchStep_finishSearch _ _ _))
  | forwardSearch => exact h.same (.search (s.searchStep_forwardSearch _ _ _ _))
  | result => exact h.same (.search (s.searchStep_note _))
  | expire => exact h.same (.search (s.searchStep_expireSearches _ _))
  | answer => exact h.same (.search (s.searchStep_answerSearch _ _))
  | cancel =>
    exact h.same (.search ((s.searchStep_note _).trans (Core.searchStep_cancelSearch _ _)))

/-- At the start there are no users, and no channel has invited anybody. -/
theorem start (f : Startup) : Invitations (Core.start f) := by
  have hNone : (Core.start f).users.values = [] ∧ ∀ chan, ((Core.start f).chan chan).invited = [] := by
    have hLoad (s : Core) (c : LoadedChannel)
        (h : s.users.values = [] ∧ ∀ chan, (s.chan chan).invited = []) :
        (s.loadChannel c).users.values = [] ∧ ∀ chan, ((s.loadChannel c).chan chan).invited = [] := by
      refine ⟨h.1, fun chan => ?_⟩
      by_cases hc : chan = s.next
      · simp [Core.loadChannel, hc]
      · simpa [Core.loadChannel, hc] using h.2 chan
    simp only [Core.start]
    apply Runs.run_invariant
      (I := fun s : Core => s.users.values = [] ∧ ∀ chan, (s.chan chan).invited = [])
    · exact fun _ _ h => h
    · apply Runs.run_invariant
        (I := fun s : Core => s.users.values = [] ∧ ∀ chan, (s.chan chan).invited = [])
      · exact hLoad
      · apply Runs.run_invariant
          (I := fun s : Core => s.users.values = [] ∧ ∀ chan, (s.chan chan).invited = [])
        · exact fun _ _ h => h
        · exact ⟨by simp [Core.empty], fun _ => rfl⟩
  refine ⟨⟨fun u hu => ?_, fun c _ => ?_, fun u hu => ?_, fun c _ u hu => ?_⟩,
    (Membership.start f).graph.once⟩
  · simp [hNone.1] at hu
  · simp [hNone.2]
  · simp [hNone.1] at hu
  · simp [hNone.2] at hu

end Invitations

namespace Server

/-- In every state that is reached a user lists a channel, once, as one it is invited to exactly when
the channel lists the user, and every list names users who are on line and channels that exist. -/
theorem reach_invitations (f : Startup) (events : List Event) :
    let s := Server.reach f events
    (∀ user ∈ s.users.values, ∀ chan ∈ s.channels.values,
      ((s.user user).invited.count chan = 1 ↔ (s.chan chan).invited.count user = 1) ∧
      (s.user user).invited.count chan ≤ 1 ∧ (s.chan chan).invited.count user ≤ 1) ∧
    (∀ user ∈ s.users.values, ∀ chan ∈ (s.user user).invited, chan ∈ s.channels.values) ∧
    ∀ chan ∈ s.channels.values, ∀ user ∈ (s.chan chan).invited, user ∈ s.users.values := by
  intro s
  have h : Invitations s.toCore :=
    (reach_keeps (fun _ _ hSound hOp h => h.op hOp hSound) (Invitations.start f) events).2
  refine ⟨fun user hUser chan hChan => ?_, fun user hUser chan hIn => ?_,
    fun chan hChan user hIn => ?_⟩
  · obtain ⟨hSame, hMost⟩ := h.mirror.count hUser hChan
    rw [← hSame]
    exact ⟨Iff.rfl, hMost, hMost⟩
  · exact (h.mirror.left user hUser chan hIn).1
  · exact (h.mirror.right chan hChan user hIn).1

end Server

end OpenNap
