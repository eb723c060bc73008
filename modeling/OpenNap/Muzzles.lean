import OpenNap.Reach

/-! Who is muzzled on a channel has no voice there, in every state that is reached; and so nothing
that such a member says in the channel gets through, whether the channel is moderated or not. -/

namespace OpenNap

open CText

/-! ### A voice and a muzzle exclude each other -/

namespace Core.FlagsApart

variable {s t : Core}

theorem of_users (h : s.FlagsApart) (hUsers : ∀ chan, (t.chan chan).users = (s.chan chan).users) :
    t.FlagsApart := by
  intro chan member hMem
  rw [hUsers] at hMem
  exact h chan member hMem

theorem file (h : s.FlagsApart) (hStep : FileStep s t) : t.FlagsApart :=
  h.of_chan (congrArg Core.chan hStep.rest :)

theorem search (h : s.FlagsApart) (hStep : SearchStep s t) : t.FlagsApart :=
  h.of_chan (congrArg Core.chan hStep.rest :)

theorem hashRemoveChannel (h : s.FlagsApart) (name : Str) : (s.hashRemoveChannel name).FlagsApart := by
  simp only [Core.hashRemoveChannel]
  split
  · exact h
  · rename_i chan _
    have hFree : (s.freeChannel chan).FlagsApart :=
      Runs.run_invariant (fun u user hu => hu.of_chan rfl) h _
    exact hFree.of_chan rfl

theorem farewell (hStep : Farewell s t) (h : s.FlagsApart) : t.FlagsApart := by
  cases hStep with
  | part chan user =>
    exact h.modChan chan fun member hMem => h chan member (List.mem_of_mem_eraseP hMem)
  | dropChannel name => exact h.hashRemoveChannel name
  | uninvite chan user => exact h.modChan chan (h chan)
  | uncount user => exact h.of_chan rfl
  | seen nick =>
    simp only [Core.recordLogoff]
    split <;> exact h.of_chan rfl
  | gone nick => exact h.of_chan rfl

theorem hashRemoveUser (h : s.FlagsApart) (nick : Str) : (s.hashRemoveUser nick).FlagsApart :=
  hashRemoveUser_keeps (fun _ _ hStep hs => farewell hStep hs) nick h

theorem partChannel (h : s.FlagsApart) (chan : ChanId) (user : UserId) :
    (s.partChannel chan user).FlagsApart :=
  (s.farewell_partChannel chan user).invariant (fun _ _ hStep hs => farewell hStep hs) h

theorem removeUser (h : s.FlagsApart) (con : ConId) : (s.removeUser con).FlagsApart := by
  simp only [Core.removeUser]
  split
  · exact h
  · rename_i user _
    refine freeOptions_keeps (fun t hot ht => ?_) (fun t ht => ht.file (t.fileStep_freeFiles con))
      (fun t ht => ht.of_chan rfl) (h.hashRemoveUser (s.user user).nick)
    simp only [Core.leaveHotlist]
    split <;> exact ht.of_chan rfl

theorem accept (h : s.FlagsApart) (ip : UInt32) (host : Str) (port localPort : UInt16) :
    (s.accept ip host port localPort).FlagsApart := by
  simp only [Core.accept, Core.addClient]
  split
  · exact h.of_chan rfl
  · split <;> exact h.of_chan rfl

theorem fine {ok : Label → Core → Prop} (h : s.FlagsApart) (hOp : FineOp ok s t) :
    t.FlagsApart := by
  cases hOp with
  | uncloak | cloak | cloakRecord | wait | waitNew => exact h.of_chan rfl
  | @invite user chan =>
    simp only [Core.invite]
    exact (h.of_chan (t := s.modUser user _) rfl).modChan chan (h chan)
  | uninvite user chan =>
    simp only [Core.uninvite]
    exact (h.modChan chan (f := fun c => { c with invited := c.invited.erase user }) (h chan)).of_chan rfl
  | unlist =>
    simp only [Core.unlistHotlist, Core.leaveHotlist]
    split <;> exact h.of_chan rfl

theorem setOperator (h : s.FlagsApart) (chan : ChanId) (user : UserId) (value : Bool) :
    (s.setOperator chan user value).FlagsApart :=
  h.modMember chan user fun _ hApart => hApart

theorem markOperator (h : s.FlagsApart) (chan : ChanId) (nick : Str) (value : Bool) :
    (s.markOperator chan nick value).FlagsApart := by
  simp only [Core.markOperator]
  split
  · exact h.setOperator chan _ value
  · exact h

/-- A new member has neither. -/
theorem enterChannel (h : s.FlagsApart) (user : UserId) (chan : ChanId) :
    (s.enterChannel user chan).FlagsApart := by
  simp only [Core.enterChannel]
  refine (h.of_chan (t := s.modUser user _) rfl).modChan chan fun member hMem => ?_
  rcases List.mem_cons.1 hMem with rfl | hMem
  · exact fun _ => rfl
  · exact h chan member hMem

theorem enterAs (h : s.FlagsApart) (user : UserId) (chan : ChanId) :
    (s.enterAs user chan).FlagsApart := by
  simp only [Core.enterAs]
  split
  · exact (h.enterChannel user chan).setOperator chan user true
  · exact h.enterChannel user chan

/-- A new channel has no members. -/
theorem newChannel (h : s.FlagsApart) (name : Str) : (s.newChannel name).FlagsApart := by
  have hNew := (h.of_chan (t := s.alloc) rfl).modChan s.next (f := fun _ => {
      name := name
      topic := (str "Welcome to the " ++ name ++ str " channel.").take 2047
      timestamp := s.now
      limit := toUshort s.cfg.channelLimit
      onUser := true
      level := .user }) fun member hMem => by cases hMem
  exact hNew.of_chan rfl

theorem loadChannel (h : s.FlagsApart) (c : LoadedChannel) : (s.loadChannel c).FlagsApart := by
  have hNew := (h.of_chan (t := s.alloc) rfl).modChan s.next (f := fun _ => {
      name := c.name
      topic := c.topic
      limit := c.limit
      level := c.level
      ops := c.ops }) fun member hMem => by cases hMem
  exact hNew.of_chan rfl

/-- Every operation keeps the two apart. -/
theorem op {ok : Label → Core → Prop} (hOp : Op ok s t) (h : s.FlagsApart) : t.FlagsApart := by
  cases hOp with
  | quiet _ hFlags => exact hFlags h
  | fine hFine => exact h.fine hFine
  | person hPersonal =>
    exact h.of_users fun chan =>
      (congrArg Channel.users (congrFun (congrArg Core.chan hPersonal) chan) :)
  | accept => exact h.accept _ _ _ _
  | tick | addRecord | setRecord | dropRecord | addBan | dropBans | linkServer | unlinkServer | close
  | setUserLevel | loginLocal | loginRemote => exact h.of_chan rfl
  | removeRemote => exact h.hashRemoveUser _
  | @zap con =>
    have hKilled : (s.modCon con fun c => { c with killed := true }).FlagsApart := h.of_chan rfl
    exact (hKilled.removeUser con).of_chan rfl
  | @hangUp con => exact (h.removeUser con).of_chan rfl
  | enter => exact h.enterAs _ _
  | @found user name => exact (h.newChannel name).enterChannel user s.next
  | @leave user chan =>
    exact (h.of_chan (t := s.deleteChannel user chan) rfl).partChannel chan user
  | dropChannel => exact h.hashRemoveChannel _
  | flagChannel | setTopic | setLevel | setLimit => exact h.modChan _ (h _)
  | addOperator => exact (h.modChan _ (h _)).markOperator _ _ _
  | dropOperator chan nick => exact (h.modChan chan (h chan)).markOperator _ _ _
  | insert => exact h.file (s.fileStep_insertDatum _ _ _)
  | dropFile => exact h.file (s.fileStep_dropFile _ _ _)
  | report => exact h.file (s.fileStep_reportShared _ _ _ _)
  | collect => exact h.file s.fileStep_fdbGarbageCollect
  | finishSearch => exact h.search (s.searchStep_finishSearch _ _ _)
  | forwardSearch => exact h.search (s.searchStep_forwardSearch _ _ _ _)
  | result => exact h.search (s.searchStep_note _)
  | expire => exact h.search (s.searchStep_expireSearches _ _)
  | answer => exact h.search (s.searchStep_answerSearch _ _)
  | cancel => exact h.search ((s.searchStep_note _).trans (Core.searchStep_cancelSearch _ _))

/-- The channels of the channels file have no members. -/
theorem start (f : Startup) : (Core.start f).FlagsApart := by
  have hEmpty : FlagsApart { Core.empty f.cfg f.now with bans := f.bans } := by
    intro chan member hMem
    cases hMem
  have hAccounts : (f.accounts.foldl Core.loadAccount
      { Core.empty f.cfg f.now with bans := f.bans }).FlagsApart :=
    Runs.run_invariant (fun u r hu => hu.of_chan rfl) hEmpty _
  have hChannels := Runs.run_invariant (fun u c hu => hu.loadChannel c) hAccounts f.channels
  exact Runs.run_invariant (fun u word hu => hu.of_chan rfl) hChannels f.filter

end Core.FlagsApart

/-! ### Talking while muzzled -/

namespace Server

/-- `channel_wallop`: `[ :<sender> ] <channel> <text>`.  It changes no data, so that the states that
are reached are those that are reached without it. -/
def channelWallop (s : Server) (con : ConId) (tag : Nat) (pkt : Str) : Server :=
  match s.popUser con pkt with
  | none => s
  | some (sender, rest) =>
    let u := s.user sender
    if u.muzzled then
      s.sendIfUser con msgServerNosuch (str "channel wallop failed: you are muzzled")
    else
      match rest with
      | none => s.unparsable con
      | some rest =>
        match nextArg rest with
        | (_, none) => s.unparsable con
        | (name, some text) =>
          match s.channels.lookup name with
          | none => s.invalidChannelMsg con
          | some chan =>
            if decide (u.level < .moderator) && !s.isChanop chan sender then s.permissionDenied con
            else
              let name := (s.chan chan).name
              let s := s.passMessageArgs (some con) tag
                (str ":" ++ u.nick ++ str " " ++ name ++ str " " ++ text)
              s.notifyOps chan (u.nick ++ str " [ops/" ++ name ++ str "]: " ++ text)

end Server

/-- The handlers that send a text to a channel. -/
inductive Talking
  | publicMessage
  | emote
  | channelWallop

namespace Talking

/-- The handler. -/
def handle : Talking → Server → ConId → Nat → Str → Server
  | publicMessage => Server.publicMessage
  | emote => Server.emote
  | channelWallop => Server.channelWallop

/-- The channel that a packet of a user names, after the user. -/
def channel (s : Core) (sender : UserId) (rest : Str) : Talking → Option ChanId
  | publicMessage =>
    s.findChannel sender (nextArgNoskip (if 180 < rest.length then rest.take 180 else rest)).1
  | emote =>
    match splitLine 2 (if 180 < rest.length then rest.take 179 ++ ['"'] else rest) with
    | some (name :: _) => s.findChannel sender name
    | _ => none
  | channelWallop => s.channels.lookup (nextArg rest).1

end Talking

/-- What a user is told whose text does not get through. -/
def refusals : List Str :=
  [str "You are muzzled.", str "You are muzzled", str "channel wallop failed: you are muzzled",
    str "parameters are unparsable", str "permission denied: channel is moderated",
    str "permission denied: muzzled on channel", str "permission denied"]

/-- All that a packet comes to is that its connection, or the user it comes from, is told so. -/
def Refused (s : Server) (con : ConId) (sender : UserId) (t : Server) : Prop :=
  ∃ c notice, (c = con ∨ c = (s.user sender).con) ∧ notice ∈ refusals ∧
    t = s.sendIfUser c msgServerNosuch notice

namespace Server

variable {s : Server} {chan : ChanId} {sender : UserId} {member : ChanUser}

/-- A member who is muzzled on a channel has no voice there. -/
theorem refusesTalk_muzzled (hApart : s.toCore.FlagsApart)
    (hMember : s.findChanuser chan sender = some member) (hMuzzled : member.muzzled = true)
    (hOperator : member.operator = false) (hLevel : (s.user sender).level < .moderator) :
    ∃ notice ∈ refusals,
      s.refusesTalk chan sender = some (s.sendIfUser (s.user sender).con msgServerNosuch notice) := by
  have hVoice : member.voice = false := by
    cases hVoice : member.voice with
    | false => rfl
    | true =>
      have hNot := hApart chan member (List.mem_of_find?_eq_some hMember) hVoice
      rw [hMuzzled] at hNot
      cases hNot
  simp only [refusesTalk, hMember, hOperator, hLevel, decide_true, Bool.not_false, Bool.and_self,
    if_true, hVoice, hMuzzled, Bool.false_eq_true, if_false]
  by_cases hMode : (s.chan chan).onModerated = true
  · exact ⟨str "permission denied: channel is moderated", by simp [refusals], by rw [if_pos hMode]⟩
  · exact ⟨str "permission denied: muzzled on channel", by simp [refusals], by rw [if_neg hMode]⟩

/-- Whatever a muzzled member says in the channel is refused. -/
theorem handle_muzzled (hApart : s.toCore.FlagsApart)
    (hMember : s.findChanuser chan sender = some member) (hMuzzled : member.muzzled = true)
    (hOperator : member.operator = false) (hLevel : (s.user sender).level < .moderator)
    (kind : Talking) {con : ConId} (tag : Nat) {pkt rest : Str}
    (hPop : s.popUser con pkt = some (sender, some rest))
    (hChan : kind.channel s.toCore sender rest = some chan) :
    Refused s con sender (kind.handle s con tag pkt) := by
  have hTell {notice : Str} (hIn : notice ∈ refusals) :
      Refused s con sender (s.sendIfUser con msgServerNosuch notice) :=
    ⟨con, notice, .inl rfl, hIn, rfl⟩
  obtain ⟨notice, hIn, hTalk⟩ := refusesTalk_muzzled hApart hMember hMuzzled hOperator hLevel
  have hDone : Refused s con sender (s.sendIfUser (s.user sender).con msgServerNosuch notice) :=
    ⟨_, notice, .inr rfl, hIn, rfl⟩
  cases kind with
  | publicMessage =>
    simp only [Talking.handle, publicMessage, hPop]
    split
    · exact hTell (by simp [refusals])
    · split
      · exact hTell (by simp [refusals])
      · rename_i name text hArg
        simp only [Talking.channel, hArg] at hChan
        simp only [hChan, hTalk]
        exact hDone
  | emote =>
    simp only [Talking.handle, emote, hPop]
    split
    · exact hTell (by simp [refusals])
    · split
      · rename_i name text hArg
        simp only [Talking.channel, hArg] at hChan
        simp only [hChan, hTalk]
        exact hDone
      · exact hTell (by simp [refusals])
  | channelWallop =>
    have hChanop : s.isChanop chan sender = false := by
      rw [Core.isChanop, hMember]
      exact hOperator
    simp only [Talking.handle, channelWallop, hPop]
    split
    · exact hTell (by simp [refusals])
    · split
      · exact hTell (by simp [refusals])
      · rename_i name text hArg
        simp only [Talking.channel, hArg] at hChan
        simp only [hChan, hLevel, hChanop, decide_true, Bool.not_false, Bool.and_self, if_true]
        exact hTell (by simp [refusals])

/-- In every state that is reached no member of a channel has both a voice and a muzzle, and nothing
that a muzzled member below moderator level, who is no operator, says in the channel gets through. -/
theorem reach_muzzles (f : Startup) (events : List Event) :
    let s := Server.reach f events
    (∀ chan, ∀ member ∈ (s.chan chan).users, ¬ (member.voice = true ∧ member.muzzled = true)) ∧
    ∀ (kind : Talking) (con : ConId) (tag : Nat) (pkt rest : Str) (sender : UserId) (chan : ChanId)
      (member : ChanUser), s.popUser con pkt = some (sender, some rest) →
      kind.channel s.toCore sender rest = some chan → s.findChanuser chan sender = some member →
      member.muzzled = true → member.operator = false → (s.user sender).level < .moderator →
      Refused s con sender (kind.handle s con tag pkt) := by
  intro s
  have hApart : s.toCore.FlagsApart :=
    (reach_keeps (fun _ _ _ hOp h => h.op hOp) (Core.FlagsApart.start f) events).2
  refine ⟨fun chan member hMem hBoth => ?_, ?_⟩
  · have hNot := hApart chan member hMem hBoth.1
    rw [hBoth.2] at hNot
    cases hNot
  · intro kind con tag pkt rest sender chan member hPop hChan hMember hMuzzled hOperator hLevel
    exact handle_muzzled hApart hMember hMuzzled hOperator hLevel kind tag hPop hChan

deriving instance DecidableEq for ChanUser

/-- A server muzzles a user on the channel that the user made. -/
def muzzledJoe : List Event :=
  [.accept 1 (str "peer") 0 0, .link 0, .accept 2 (str "client") 6699 8888,
    .packet 1 .login (str "joe pw 6699 \"client\" 3") {}, .packet 1 .join (str "#lobby") {},
    .packet 0 .channelMuzzle (str ":peer #lobby joe") {}]

theorem reach_muzzles_joe :
    Refused (Server.reach hub muzzledJoe) 1 2
      (Talking.publicMessage.handle (Server.reach hub muzzledJoe) 1 msgClientPublic
        (str "#lobby hi")) := by
  have hPop : (Server.reach hub muzzledJoe).popUser 1 (str "#lobby hi") =
      some (2, some (str "#lobby hi")) := by decide +kernel
  have hChan : Talking.publicMessage.channel (Server.reach hub muzzledJoe).toCore 2
      (str "#lobby hi") = some 3 := by decide +kernel
  have hMember : (Server.reach hub muzzledJoe).findChanuser 3 2 =
      some { user := 2, muzzled := true } := by decide +kernel
  have hLevel : ((Server.reach hub muzzledJoe).user 2).level < .moderator := by decide +kernel
  exact (reach_muzzles hub muzzledJoe).2 .publicMessage 1 msgClientPublic _ _ 2 3 _ hPop hChan
    hMember rfl rfl hLevel

end Server

end OpenNap
