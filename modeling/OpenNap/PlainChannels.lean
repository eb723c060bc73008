import OpenNap.ChannelFile

/-! In every state that the server reaches the names, topics and operators of its channels are such
that the file of channels can be read again, but for quotes in topics. -/

namespace OpenNap

open CText

/-- From `s` to `t` channels only go, and no name, topic or list of operators changes. -/
structure FewerChannels (s t : Core) : Prop where
  cfg : t.cfg = s.cfg
  distinct : s.channels.Distinct → t.channels.Distinct
  stay : ∀ chan ∈ t.channels.values, chan ∈ s.channels.values
  name : ∀ c, (t.chan c).name = (s.chan c).name
  topic : ∀ c, (t.chan c).topic = (s.chan c).topic
  ops : ∀ c, (t.chan c).ops = (s.chan c).ops

namespace FewerChannels

theorem refl (s : Core) : FewerChannels s s :=
  ⟨rfl, id, fun _ h => h, fun _ => rfl, fun _ => rfl, fun _ => rfl⟩

theorem trans {s t u : Core} (h1 : FewerChannels s t) (h2 : FewerChannels t u) :
    FewerChannels s u where
  cfg := h2.cfg.trans h1.cfg
  distinct h := h2.distinct (h1.distinct h)
  stay chan h := h1.stay chan (h2.stay chan h)
  name c := (h2.name c).trans (h1.name c)
  topic c := (h2.topic c).trans (h1.topic c)
  ops c := (h2.ops c).trans (h1.ops c)

theorem foldl {α : Type} {f : Core → α → Core} (h : ∀ s a, FewerChannels s (f s a)) (l : List α)
    (s : Core) : FewerChannels s (l.foldl f s) := by
  induction l generalizing s with
  | nil => exact refl s
  | cons a l ih => exact (h s a).trans (ih _)

/-- The table and the channels as the outlines show them are the same. -/
theorem of_eq {s t : Core} (hCfg : t.cfg = s.cfg) (hChannels : t.channels = s.channels)
    (hChan : (fun c => (t.chan c).outline) = fun c => (s.chan c).outline) : FewerChannels s t where
  cfg := hCfg
  distinct h := by rwa [hChannels]
  stay chan h := by rwa [hChannels] at h
  name c := (congrArg Channel.name (congrFun hChan c) :)
  topic c := (congrArg Channel.topic (congrFun hChan c) :)
  ops c := (congrArg Channel.ops (congrFun hChan c) :)

theorem outline {s t : Core} (h : t.outline = s.outline) : FewerChannels s t :=
  of_eq (congrArg Core.cfg h :) (congrArg Core.channels h :) (congrArg Core.chan h :)

theorem channelOutline {s t : Core} (h : t.channelOutline = s.channelOutline) : FewerChannels s t :=
  of_eq (congrArg Core.cfg h :) (congrArg Core.channels h :) (congrArg Core.chan h :)

theorem file {s t : Core} (h : FileStep s t) : FewerChannels s t := by
  have hChan : t.chan = s.chan := (congrArg Core.chan h.rest :)
  exact of_eq (congrArg Core.cfg h.rest :) (congrArg Core.channels h.rest :) (by rw [hChan])

theorem search {s t : Core} (h : SearchStep s t) : FewerChannels s t := by
  have hChan : t.chan = s.chan := (congrArg Core.chan h.rest :)
  exact of_eq (congrArg Core.cfg h.rest :) (congrArg Core.channels h.rest :) (by rw [hChan])

theorem modUser (s : Core) (user : UserId) (f : User → User) :
    FewerChannels s (s.modUser user f) := of_eq rfl rfl rfl

theorem modChan (s : Core) (chan : ChanId) {f : Channel → Channel}
    (hName : (f (s.chan chan)).name = (s.chan chan).name)
    (hTopic : (f (s.chan chan)).topic = (s.chan chan).topic)
    (hOps : (f (s.chan chan)).ops = (s.chan chan).ops) : FewerChannels s (s.modChan chan f) where
  cfg := rfl
  distinct h := h
  stay _ h := h
  name c := by by_cases hc : c = chan <;> simp [hc, hName]
  topic c := by by_cases hc : c = chan <;> simp [hc, hTopic]
  ops c := by by_cases hc : c = chan <;> simp [hc, hOps]

theorem hashRemoveChannel (s : Core) (name : Str) : FewerChannels s (s.hashRemoveChannel name) := by
  simp only [Core.hashRemoveChannel]
  split
  · exact refl s
  · rename_i chan _
    have hFree : FewerChannels s (s.freeChannel chan) := foldl (fun s user => modUser s user _) _ s
    exact hFree.trans
      { refl (s.freeChannel chan) with
        distinct := fun h => h.remove name
        stay := fun c h => Bucket.Table.mem_values_of_mem_remove h }

theorem partChannel (s : Core) (chan : ChanId) (user : UserId) :
    FewerChannels s (s.partChannel chan user) := by
  have hRemove : FewerChannels s (s.channelRemove chan user) := modChan s chan rfl rfl rfl
  simp only [Core.partChannel]
  split
  · exact hRemove.trans (hashRemoveChannel _ _)
  · exact hRemove

theorem hashRemoveUser (s : Core) (nick : Str) : FewerChannels s (s.hashRemoveUser nick) := by
  simp only [Core.hashRemoveUser]
  split
  · exact refl s
  · rename_i user _
    have hPart : FewerChannels s (s.partChannels user) :=
      foldl (fun s chan => partChannel s chan user) _ s
    have hDrop (t : Core) : FewerChannels t (t.dropInvitations user) :=
      foldl (fun s chan => modChan s chan rfl rfl rfl) _ t
    have hRecord (t : Core) (nick : Str) : FewerChannels t (t.recordLogoff nick) := by
      simp only [Core.recordLogoff]
      split <;> exact of_eq rfl rfl rfl
    have hCount (t : Core) : FewerChannels t (t.uncountUser user) := of_eq rfl rfl rfl
    have hFree : FewerChannels s (s.freeUser user) := by
      simp only [Core.freeUser]
      exact ((hPart.trans (hDrop _)).trans (hCount _)).trans (hRecord _ _)
    exact hFree.trans (of_eq rfl rfl rfl)

theorem freeOptions (s : Core) (con : ConId) : FewerChannels s (s.freeOptions con) := by
  have hHot (s : Core) (hot : HotlistId) : FewerChannels s (s.leaveHotlist con hot) := by
    simp only [Core.leaveHotlist]
    split <;> exact of_eq rfl rfl rfl
  exact ((foldl hHot _ s).trans (file (Core.fileStep_freeFiles _ con))).trans (of_eq rfl rfl rfl)

theorem removeUser (s : Core) (con : ConId) : FewerChannels s (s.removeUser con) := by
  simp only [Core.removeUser]
  split
  · exact refl s
  · exact (hashRemoveUser s _).trans (freeOptions _ con)

theorem accept (s : Core) (ip : UInt32) (host : Str) (port localPort : UInt16) :
    FewerChannels s (s.accept ip host port localPort) := by
  simp only [Core.accept, Core.addClient]
  split
  · exact of_eq rfl rfl rfl
  · split <;> exact of_eq rfl rfl rfl

end FewerChannels

/-- Every channel is plain, and no two have the same name. -/
structure PlainChannels (s : Core) : Prop where
  distinct : s.channels.Distinct
  plain : ∀ chan ∈ s.channels.values, (s.chan chan).Plain s.cfg

namespace PlainChannels

variable {s t : Core}

theorem fewer (h : PlainChannels s) (hFewer : FewerChannels s t) : PlainChannels t where
  distinct := hFewer.distinct h.distinct
  plain chan hChan := by
    have hPlain := h.plain chan (hFewer.stay chan hChan)
    exact {
      name := by rw [hFewer.cfg, hFewer.name]; exact hPlain.name
      ops := by rw [hFewer.cfg, hFewer.ops]; exact hPlain.ops
      topic := by rw [hFewer.topic]; exact hPlain.topic }

/-- A change of one channel that leaves it plain. -/
theorem modChan (h : PlainChannels s) (chan : ChanId) {f : Channel → Channel}
    (hPlain : (s.chan chan).Plain s.cfg → (f (s.chan chan)).Plain s.cfg) :
    PlainChannels (s.modChan chan f) where
  distinct := h.distinct
  plain c hc := by
    by_cases hEq : c = chan
    · subst hEq
      simpa using hPlain (h.plain c hc)
    · simpa [hEq] using h.plain c hc

/-- The welcome to a channel has no line break, as the name of the channel has none. -/
theorem newChannel (h : PlainChannels s) {name : Str} (hNone : s.channels.lookup name = none)
    (hName : invalidChannel s.cfg name = false) : PlainChannels (s.newChannel name) where
  distinct := by
    have hFind : s.channels.find name = none := by
      simpa [Bucket.Table.lookup] using hNone
    exact h.distinct.add hFind s.next
  plain c hc := by
    by_cases hEq : c = s.next
    · subst hEq
      refine ⟨by simpa [Core.newChannel] using hName, by simp [Core.newChannel], fun d hd => ?_⟩
      have hIn : d ∈ str "Welcome to the " ++ name ++ str " channel." := by
        refine List.mem_of_mem_take (i := 2047) ?_
        simpa [Core.newChannel] using hd
      simp only [List.append_assoc, List.mem_append] at hIn
      rcases hIn with hIn | hIn | hIn
      · rintro rfl
        exact absurd hIn (by decide)
      · exact (word_of_invalidChannel hName).1.token.newline d hIn
      · rintro rfl
        exact absurd hIn (by decide)
    · have hIn : c ∈ s.channels.values :=
        (List.mem_cons.1 ((s.channels.values_add _ _).mem_iff.1 hc)).resolve_left hEq
      simpa [Core.newChannel, hEq] using h.plain c hIn

/-- Who is an operator makes no difference. -/
theorem setOperator (h : PlainChannels s) (chan : ChanId) (user : UserId) (value : Bool) :
    PlainChannels (s.setOperator chan user value) :=
  h.fewer (.outline (s.outline_setOperator chan user value))

theorem markOperator (h : PlainChannels s) (chan : ChanId) (nick : Str) (value : Bool) :
    PlainChannels (s.markOperator chan nick value) := by
  simp only [Core.markOperator]
  split
  · exact h.setOperator chan _ value
  · exact h

/-- Every operation keeps the channels plain. -/
theorem op {ok : Label → Core → Prop} (hOp : Op ok s t) (h : PlainChannels s) : PlainChannels t := by
  have hEnter (u : Core) (user : UserId) (chan : ChanId) :
      FewerChannels u (u.enterChannel user chan) := by
    simp only [Core.enterChannel]
    exact (FewerChannels.modUser u user _).trans (.modChan _ chan rfl rfl rfl)
  cases hOp with
  | quiet hDetail => exact h.fewer (.outline (Core.outline_of_detail hDetail))
  | fine hFine =>
    obtain ⟨n, hNext, hOutline⟩ := hFine.outline
    have hRaised : FewerChannels s { s with next := n } := .of_eq rfl rfl rfl
    exact h.fewer (hRaised.trans (.outline hOutline))
  | person hPersonal => exact h.fewer (.channelOutline (Core.channelOutline_of_personal hPersonal))
  | setUserLevel => exact h.fewer (.modUser s _ _)
  | accept => exact h.fewer (.accept s _ _ _ _)
  | addRecord | setRecord | dropRecord | tick | addBan | dropBans | linkServer | unlinkServer | loginLocal
  | loginRemote | close =>
    exact h.fewer (.of_eq rfl rfl rfl)
  | removeRemote => exact h.fewer (.hashRemoveUser s _)
  | @zap con =>
    have hKilled : FewerChannels s (s.modCon con fun c => { c with killed := true }) :=
      .of_eq rfl rfl rfl
    exact h.fewer ((hKilled.trans (.removeUser _ con)).trans (.of_eq rfl rfl rfl))
  | @hangUp con => exact h.fewer ((FewerChannels.removeUser s con).trans (.of_eq rfl rfl rfl))
  | enter =>
    simp only [Core.enterAs]
    split
    · exact (h.fewer (hEnter s _ _)).setOperator _ _ true
    · exact h.fewer (hEnter s _ _)
  | found _ hNone hName => exact (h.newChannel hNone hName).fewer (hEnter _ _ _)
  | leave => exact h.fewer ((FewerChannels.modUser s _ _).trans (.partChannel _ _ _))
  | dropChannel => exact h.fewer (.hashRemoveChannel s _)
  | flagChannel | setLevel | setLimit => exact h.modChan _ fun hPlain => { hPlain with }
  | setTopic hTopic => exact h.modChan _ fun hPlain => { hPlain with topic := fun d hd => (hTopic d hd).2 }
  | addOperator hNick =>
    refine (h.modChan _ fun hPlain => { hPlain with ops := fun op hOp => ?_ }).markOperator _ _ true
    rcases List.mem_append.1 hOp with hOp | hOp
    · exact hPlain.ops op hOp
    · exact (List.mem_singleton.1 hOp) ▸ hNick
  | dropOperator chan nick =>
    refine (h.modChan _ fun hPlain => ?_).markOperator chan nick false
    exact { hPlain with ops := fun op hOp => hPlain.ops op (List.mem_of_mem_eraseP hOp) }
  | insert => exact h.fewer (.file (s.fileStep_insertDatum _ _ _))
  | dropFile => exact h.fewer (.file (s.fileStep_dropFile _ _ _))
  | report => exact h.fewer (.file (s.fileStep_reportShared _ _ _ _))
  | collect => exact h.fewer (.file s.fileStep_fdbGarbageCollect)
  | finishSearch => exact h.fewer (.search (s.searchStep_finishSearch _ _ _))
  | forwardSearch => exact h.fewer (.search (s.searchStep_forwardSearch _ _ _ _))
  | result => exact h.fewer (.search (s.searchStep_note _))
  | expire => exact h.fewer (.search (s.searchStep_expireSearches _ _))
  | answer => exact h.fewer (.search (s.searchStep_answerSearch _ _))
  | cancel =>
    exact h.fewer (.search ((s.searchStep_note _).trans (Core.searchStep_cancelSearch _ _)))

end PlainChannels

/-! ### From the start -/

/-- A channel of the channels file as it is in memory. -/
def LoadedChannel.channel (r : LoadedChannel) : Channel :=
  { name := r.name, topic := r.topic, limit := r.limit, level := r.level, ops := r.ops }

/-- Plain channels with different names are read from a file. -/
theorem PlainChannels.load {l : List LoadedChannel} {s : Core} (h : PlainChannels s)
    (hPlain : ∀ r ∈ l, r.channel.Plain s.cfg) (hNames : (l.map fun r => strlower r.name).Nodup)
    (hNew : ∀ r ∈ l, s.channels.lookup r.name = none) : PlainChannels (l.foldl Core.loadChannel s) := by
  induction l generalizing s with
  | nil => exact h
  | cons r l ih =>
    obtain ⟨hFirst, hRest⟩ := List.nodup_cons.1 hNames
    refine ih ⟨?_, fun c hc => ?_⟩ (fun o ho => hPlain o (by simp [ho])) hRest fun o ho => ?_
    · have hFind : s.channels.find r.name = none := by
        simpa [Bucket.Table.lookup] using hNew r (by simp)
      exact h.distinct.add hFind s.next
    · by_cases hEq : c = s.next
      · subst hEq
        simpa [Core.loadChannel, LoadedChannel.channel] using hPlain r (by simp)
      · have hIn : c ∈ s.channels.values :=
          (List.mem_cons.1 ((s.channels.values_add _ _).mem_iff.1 hc)).resolve_left hEq
        simpa [Core.loadChannel, hEq] using h.plain c hIn
    · refine (s.channels.lookup_add _ _ _).trans ?_
      have hNe : ¬ byName.norm r.name = byName.norm o.name := fun hEq =>
        hFirst (List.mem_map.2 ⟨o, ho, hEq.symm⟩)
      rw [if_neg hNe]
      exact hNew o (by simp [ho])

theorem PlainChannels.start {f : Startup} (hPlain : ∀ r ∈ f.channels, r.channel.Plain f.cfg)
    (hNames : (f.channels.map fun r => strlower r.name).Nodup) : PlainChannels (Core.start f) := by
  have hRecord (s : Core) (r : UserDb) : FewerChannels s (s.loadAccount r) := .of_eq rfl rfl rfl
  have hWord (s : Core) (word : Str) : FewerChannels s (s.loadFilter word) := .of_eq rfl rfl rfl
  have hBans : FewerChannels (Core.empty f.cfg f.now) { Core.empty f.cfg f.now with bans := f.bans } :=
    .of_eq rfl rfl rfl
  have hAccount := hBans.trans (.foldl hRecord f.accounts _)
  have hEmpty : PlainChannels (Core.empty f.cfg f.now) :=
    ⟨Bucket.Table.distinct_empty _ _, by simp [Core.empty]⟩
  have hBase := hEmpty.fewer hAccount
  refine (hBase.load ?_ hNames fun r _ => ?_).fewer (.foldl hWord f.filter _)
  · rwa [hAccount.cfg]
  · refine Bucket.Table.lookup_eq_none.2 fun e he => ?_
    have hIn := hAccount.stay e.2 (Bucket.Table.mem_values.2 ⟨e.1, he⟩)
    simp [Core.empty] at hIn

namespace Server

/-- In every state that is reached the registered channels are read back from the file that is
written of them exactly when no topic has a quote, as far as each line fits into the buffer.  The
operators are read in reverse order. -/
theorem reach_channels_reloaded (f : Startup) (hPlain : ∀ r ∈ f.channels, r.channel.Plain f.cfg)
    (hNames : (f.channels.map fun r => strlower r.name).Nodup) (events : List Event) :
    let s := Server.reach f events
    (∀ c ∈ s.registered, (channelText (s.chan c)).length ≤ 2047) →
      (s.Reloaded List.Perm ↔ ∀ c ∈ s.registered, '"' ∉ (s.chan c).topic) ∧
      (s.Reloaded Eq ↔
        ∀ c ∈ s.registered, '"' ∉ (s.chan c).topic ∧ (s.chan c).ops.reverse = (s.chan c).ops) := by
  intro s hFits
  obtain ⟨hSound, hAll⟩ := reach_keeps (fun _ _ _ hOp h => h.op hOp)
    (PlainChannels.start hPlain hNames) events
  have hIn (c : ChanId) (hc : c ∈ s.registered) : c ∈ s.channels.values := (List.mem_filter.1 hc).1
  have hKeys : (s.registered.map fun c => strlower (s.chan c).name).Nodup := by
    have hValues : (s.channels.values.map fun c => strlower (s.chan c).name) =
        s.channels.entries.map fun e => strlower e.1 := by
      simp only [Bucket.Table.values, List.map_map]
      exact List.map_congr_left fun e he =>
        congrArg strlower (hSound.membership.graph.named e he)
    have hNodup : (s.channels.values.map fun c => strlower (s.chan c).name).Nodup := by
      rw [hValues]
      exact hAll.distinct
    exact hNodup.sublist (List.filter_sublist.map _)
  have hRegistered (c : ChanId) (hc : c ∈ s.registered) := hAll.plain c (hIn c hc)
  refine ⟨(reloaded_iff hRegistered hKeys hFits).trans ?_, reloaded_iff hRegistered hKeys hFits⟩
  exact ⟨fun h c hc => (h c hc).1, fun h c hc => ⟨h c hc, List.reverse_perm _⟩⟩

/-- A user creates a channel, which a server registers, and sets a topic. -/
def lobby (topic : Str) : List Event :=
  [.accept 1 (str "peer") 0 0, .link 0, .accept 2 (str "client") 6699 8888,
    .packet 1 .login (str "joe pw 6699 \"client\" 3") {}, .packet 1 .join (str "#lobby") {},
    .packet 0 .op (str ":peer #lobby joe") {}, .packet 1 .topic (str "#lobby " ++ topic) {}]

theorem reach_channels_reloaded_lobby :
    let s := Server.reach hub (lobby (str "news of  today"))
    (s.registered.map fun c => (s.chan c).topic) = [str "news of  today"] ∧ s.Reloaded List.Perm :=
  ⟨by decide +kernel,
    ((reach_channels_reloaded hub (by simp [hub]) (by simp [hub]) (lobby (str "news of  today"))
      (by decide +kernel)).1).2 (by decide +kernel)⟩

/-- A topic with quotes makes an operator of a word in it. -/
theorem channels_not_reloaded :
    let s := Server.reach hub (lobby (str "news\" eve \""))
    (∀ c ∈ s.registered, (channelText (s.chan c)).length ≤ 2047) ∧
    (s.registered.map fun c => (s.chan c).ops) = [[str "joe"]] ∧
    (s.registered.map fun c => (s.chan c).topic) = [str "news\" eve \""] ∧
    (s.reloadChannels.channels.values.map fun c => (s.reloadChannels.chan c).ops) =
      [[str "joe", [], str "eve"]] ∧
    (s.reloadChannels.channels.values.map fun c => (s.reloadChannels.chan c).topic) = [str "news"] := by
  decide +kernel

end Server

end OpenNap
