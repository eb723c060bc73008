import OpenNap.Reach

/-! Who is an operator on a channel.  A member carries a flag, and the channel keeps a list of nicks;
`Operators` says that a member has the flag exactly when its nick is on the list. -/

namespace OpenNap

open CText

/-- A nick is on the list of operators of a channel. -/
def Channel.lists (c : Channel) (nick : Str) : Bool := c.ops.any (sameText nick)

theorem Channel.lists_iff {c : Channel} {nick : Str} :
    c.lists nick = true ↔ strlower nick ∈ c.ops.map strlower := by
  simp only [lists, List.any_eq_true, sameText_iff, List.mem_map]
  exact exists_congr fun op => and_congr_right fun _ => eq_comm

/-- From `s` to `t` no channel gets a member, and the operators stay as they are. -/
structure SameOperators (s t : Core) : Prop where
  stay : ∀ chan ∈ t.channels.values, chan ∈ s.channels.values
  ops : ∀ chan, (t.chan chan).ops = (s.chan chan).ops
  flags : ∀ chan, ∀ member ∈ (t.chan chan).users,
    ∃ m ∈ (s.chan chan).users, m.user = member.user ∧ m.operator = member.operator
  nick : ∀ user, (t.user user).nick = (s.user user).nick

namespace SameOperators

theorem refl (s : Core) : SameOperators s s :=
  ⟨fun _ h => h, fun _ => rfl, fun _ member h => ⟨member, h, rfl, rfl⟩, fun _ => rfl⟩

theorem trans {s t u : Core} (h1 : SameOperators s t) (h2 : SameOperators t u) :
    SameOperators s u where
  stay chan h := h1.stay chan (h2.stay chan h)
  ops chan := (h2.ops chan).trans (h1.ops chan)
  flags chan member h := by
    obtain ⟨m, hm, hUser, hFlag⟩ := h2.flags chan member h
    obtain ⟨n, hn, hUser', hFlag'⟩ := h1.flags chan m hm
    exact ⟨n, hn, hUser'.trans hUser, hFlag'.trans hFlag⟩
  nick user := (h2.nick user).trans (h1.nick user)

theorem foldl {α : Type} {f : Core → α → Core} (h : ∀ s a, SameOperators s (f s a)) (l : List α)
    (s : Core) : SameOperators s (l.foldl f s) := by
  induction l generalizing s with
  | nil => exact refl s
  | cons a l ih => exact (h s a).trans (ih _)

/-- Nothing changes but what neither channels nor nicks have to do with. -/
theorem of_eq {s t : Core} (hChannels : t.channels = s.channels) (hChan : t.chan = s.chan)
    (hNick : ∀ user, (t.user user).nick = (s.user user).nick) : SameOperators s t where
  stay chan h := by rwa [hChannels] at h
  ops chan := by rw [hChan]
  flags chan member h := ⟨member, by rwa [hChan] at h, rfl, rfl⟩
  nick := hNick

/-- The operators are part of the details of a channel. -/
theorem details {s t : Core} (hChannels : t.channels = s.channels)
    (hChan : (fun c => (t.chan c).detail) = fun c => (s.chan c).detail)
    (hUser : ∀ user, (t.user user).nick = (s.user user).nick) : SameOperators s t where
  stay chan h := by rwa [hChannels] at h
  ops chan := (congrArg Channel.ops (congrFun hChan chan) :)
  flags chan member h := by
    have hUsers : (t.chan chan).users.map (fun m => { user := m.user, operator := m.operator }) =
        (s.chan chan).users.map fun m => ({ user := m.user, operator := m.operator } : ChanUser) :=
      (congrArg Channel.users (congrFun hChan chan) :)
    have hIn := List.mem_map_of_mem
      (f := fun m => ({ user := m.user, operator := m.operator } : ChanUser)) h
    rw [hUsers] at hIn
    obtain ⟨m, hm, hEq⟩ := List.mem_map.1 hIn
    exact ⟨m, hm, (congrArg ChanUser.user hEq :), (congrArg ChanUser.operator hEq :)⟩
  nick := hUser

theorem detail {s t : Core} (h : t.detail = s.detail) : SameOperators s t :=
  details (congrArg Core.channels h :) (congrArg Core.chan h :) fun user =>
    (congrArg User.nick (congrFun (congrArg Core.user h) user) :)

theorem personal {s t : Core} (h : t.personal = s.personal) : SameOperators s t := by
  have hChan (c : ChanId) : ({ (t.chan c).detail with users := (t.chan c).users } : Channel) =
      { (s.chan c).detail with users := (s.chan c).users } := congrFun (congrArg Core.chan h) c
  refine details (congrArg Core.channels h :) (funext fun c => ?_) fun user =>
    (congrArg User.nick (congrFun (congrArg Core.user h) user) :)
  exact (congrArg Channel.detail (hChan c) :)

theorem file {s t : Core} (h : FileStep s t) : SameOperators s t :=
  of_eq (congrArg Core.channels h.rest :) (congrArg Core.chan h.rest :) (SameUsers.file h).nick

theorem search {s t : Core} (h : SearchStep s t) : SameOperators s t :=
  of_eq (congrArg Core.channels h.rest :) (congrArg Core.chan h.rest :) (SameUsers.search h).nick

theorem modUser (s : Core) (user : UserId) {f : User → User}
    (hNick : (f (s.user user)).nick = (s.user user).nick) : SameOperators s (s.modUser user f) :=
  of_eq rfl rfl fun u => by by_cases hu : u = user <;> simp [hu, hNick]

theorem modChan (s : Core) (chan : ChanId) {f : Channel → Channel}
    (hOps : (f (s.chan chan)).ops = (s.chan chan).ops)
    (hUsers : (f (s.chan chan)).users.Sublist (s.chan chan).users) :
    SameOperators s (s.modChan chan f) where
  stay _ h := h
  ops c := by by_cases hc : c = chan <;> simp [hc, hOps]
  flags c member h := by
    refine ⟨member, ?_, rfl, rfl⟩
    by_cases hc : c = chan
    · subst hc
      exact hUsers.subset (by simpa using h)
    · simpa [hc] using h
  nick _ := rfl

theorem hashRemoveChannel (s : Core) (name : Str) : SameOperators s (s.hashRemoveChannel name) := by
  simp only [Core.hashRemoveChannel]
  split
  · exact refl s
  · rename_i chan _
    have hFree : SameOperators s (s.freeChannel chan) := foldl (fun s user => modUser s user rfl) _ s
    exact hFree.trans
      { refl (s.freeChannel chan) with
        stay := fun c h => Bucket.Table.mem_values_of_mem_remove h }

theorem farewell {s t : Core} (h : Core.Farewell s t) : SameOperators s t := by
  cases h with
  | part chan user => exact modChan s chan rfl List.eraseP_sublist
  | dropChannel name => exact hashRemoveChannel s name
  | uninvite chan user => exact modChan s chan rfl (List.Sublist.refl _)
  | uncount user => exact of_eq rfl rfl fun _ => rfl
  | seen nick =>
    simp only [Core.recordLogoff]
    split <;> exact of_eq rfl rfl fun _ => rfl
  | gone nick => exact of_eq rfl rfl fun _ => rfl

theorem hashRemoveUser (s : Core) (nick : Str) : SameOperators s (s.hashRemoveUser nick) :=
  Core.hashRemoveUser_keeps (fun _ _ hStep h => h.trans (farewell hStep)) nick (refl s)

theorem removeUser (s : Core) (con : ConId) : SameOperators s (s.removeUser con) := by
  simp only [Core.removeUser]
  split
  · exact refl s
  · rename_i user _
    refine (hashRemoveUser s (s.user user).nick).trans ?_
    refine Core.freeOptions_keeps (fun t hot h => h.trans ?_) (fun t h => h.trans ?_)
      (fun t h => h.trans ?_) (refl _)
    · simp only [Core.leaveHotlist]
      split <;> exact of_eq rfl rfl fun _ => rfl
    · exact file (Core.fileStep_freeFiles t con)
    · exact of_eq rfl rfl fun _ => rfl

theorem partChannel (s : Core) (chan : ChanId) (user : UserId) :
    SameOperators s (s.partChannel chan user) :=
  (s.farewell_partChannel chan user).invariant (fun _ _ hStep h => h.trans (farewell hStep)) (refl s)

theorem accept (s : Core) (ip : UInt32) (host : Str) (port localPort : UInt16) :
    SameOperators s (s.accept ip host port localPort) := by
  simp only [Core.accept, Core.addClient]
  split
  · exact of_eq rfl rfl fun _ => rfl
  · split <;> exact of_eq rfl rfl fun _ => rfl

theorem fine {ok : Label → Core → Prop} {s t : Core} (h : FineOp ok s t) : SameOperators s t := by
  cases h with
  | uncloak user => exact modUser s user rfl
  | cloak => exact modUser s _ rfl
  | cloakRecord => exact of_eq rfl rfl fun _ => rfl
  | invite =>
    simp only [Core.invite]
    exact (modUser s _ rfl).trans (modChan _ _ rfl (List.Sublist.refl _))
  | uninvite user chan =>
    simp only [Core.uninvite]
    exact (modChan s chan rfl (List.Sublist.refl _)).trans (modUser _ user rfl)
  | wait => exact of_eq rfl rfl fun _ => rfl
  | waitNew => exact of_eq rfl rfl fun _ => rfl
  | unlist =>
    simp only [Core.unlistHotlist, Core.leaveHotlist]
    split <;> exact of_eq rfl rfl fun _ => rfl

end SameOperators

/-- A member of a channel is an operator exactly when its nick is on the list of operators, and no
nick is there twice. -/
structure Operators (s : Core) : Prop where
  flag : ∀ chan ∈ s.channels.values, ∀ member ∈ (s.chan chan).users,
    member.operator = (s.chan chan).lists (s.user member.user).nick
  single : ∀ chan ∈ s.channels.values, ((s.chan chan).ops.map strlower).Nodup

namespace Operators

variable {s t : Core}

theorem same (h : Operators s) (hSame : SameOperators s t) : Operators t where
  flag chan hChan member hMember := by
    obtain ⟨m, hm, hUser, hFlag⟩ := hSame.flags chan member hMember
    rw [← hFlag, h.flag chan (hSame.stay chan hChan) m hm, hUser, Channel.lists, Channel.lists,
      hSame.ops, hSame.nick]
  single chan hChan := by
    rw [hSame.ops]
    exact h.single chan (hSame.stay chan hChan)

/-- A change of one channel. -/
theorem modChan (h : Operators s) (chan : ChanId) {f : Channel → Channel}
    (hFlag : chan ∈ s.channels.values → ∀ member ∈ (f (s.chan chan)).users,
      member.operator = (f (s.chan chan)).lists (s.user member.user).nick)
    (hSingle : chan ∈ s.channels.values → ((f (s.chan chan)).ops.map strlower).Nodup) :
    Operators (s.modChan chan f) where
  flag c hc := by
    by_cases hEq : c = chan
    · subst hEq
      simpa using hFlag hc
    · simpa [hEq] using h.flag c hc
  single c hc := by
    by_cases hEq : c = chan
    · subst hEq
      simpa using hSingle hc
    · simpa [hEq] using h.single c hc

/-- A login names a user that is in no channel yet. -/
theorem login (h : Operators s) (hSound : Sound s) (hChannels : t.channels = s.channels)
    (hChan : t.chan = s.chan) (hNick : ∀ u, u ≠ s.next → (t.user u).nick = (s.user u).nick) :
    Operators t where
  flag chan hIn member hMember := by
    rw [hChannels] at hIn
    rw [hChan] at hMember ⊢
    have hUser : member.user ∈ s.users.values :=
      (hSound.membership.graph.listed chan hIn _ (List.mem_map_of_mem hMember)).1
    rw [hNick _ (hSound.registry.knownUser _ hUser).ne]
    exact h.flag chan hIn member hMember
  single chan hIn := by
    rw [hChannels] at hIn
    rw [hChan]
    exact h.single chan hIn

/-- A user enters with the flag that the list of operators gives. -/
theorem enterAs (h : Operators s) {user : UserId} {chan : ChanId} : Operators (s.enterAs user chan) := by
  have hNick (u : UserId) : ((s.modUser user fun u => { u with channels := chan :: u.channels }).user
      u).nick = (s.user u).nick := by
    by_cases hu : u = user <;> simp [hu]
  have hUser : Operators (s.modUser user fun u => { u with channels := chan :: u.channels }) :=
    h.same (.modUser s user rfl)
  simp only [Core.enterAs]
  split
  · rename_i hLists
    simp only [Core.setOperator, Core.enterChannel, Core.modChan_modChan]
    refine hUser.modChan chan (fun hChan member hMember => ?_) fun hChan => hUser.single chan hChan
    obtain ⟨m, hm, rfl⟩ := List.mem_map.1 hMember
    rw [hNick]
    split
    · rename_i hSelf
      rw [hSelf]
      exact hLists.symm
    · rename_i hOther
      rcases List.mem_cons.1 hm with rfl | hm
      · exact absurd rfl hOther
      · exact h.flag chan hChan m hm
  · rename_i hNot
    simp only [Core.enterChannel]
    refine hUser.modChan chan (fun hChan member hMember => ?_) fun hChan => hUser.single chan hChan
    rw [hNick]
    rcases List.mem_cons.1 hMember with rfl | hm
    · exact (Bool.eq_false_iff.2 hNot).symm
    · exact h.flag chan hChan member hm

/-- A channel that a user creates has no operators. -/
theorem found (h : Operators s) (hSound : Sound s) (user : UserId) (name : Str) :
    Operators ((s.newChannel name).enterChannel user s.next) := by
  have hMem (c : ChanId) (hc : c ∈ ((s.newChannel name).enterChannel user s.next).channels.values) :
      c = s.next ∨ c ∈ s.channels.values :=
    List.mem_cons.1 ((s.channels.values_add _ _).mem_iff.1 hc)
  have hOld (c : ChanId) (hc : c ∈ s.channels.values) :
      ((s.newChannel name).enterChannel user s.next).chan c = s.chan c := by
    have hNe : c ≠ s.next := (hSound.membership.graph.known c hc).ne
    simp [Core.enterChannel, Core.newChannel, hNe]
  have hNick (u : UserId) : (((s.newChannel name).enterChannel user s.next).user u).nick =
      (s.user u).nick := by
    by_cases hu : u = user <;> simp [Core.enterChannel, Core.newChannel, hu]
  constructor
  · intro c hc member hMember
    rcases hMem c hc with rfl | hc
    · have hFirst : member = { user := user } := by
        simpa [Core.enterChannel, Core.newChannel] using hMember
      subst hFirst
      simp [Core.enterChannel, Core.newChannel, Channel.lists]
    · rw [hOld c hc] at hMember ⊢
      rw [hNick]
      exact h.flag c hc member hMember
  · intro c hc
    rcases hMem c hc with rfl | hc
    · simp [Core.enterChannel, Core.newChannel]
    · rw [hOld c hc]
      exact h.single c hc

/-- The member of a channel with a nick is the one whose flag `markOperator` sets. -/
theorem flag_markOperator (hSound : Sound s) {chan : ChanId} (hChan : chan ∈ s.channels.values)
    (nick : Str) (value : Bool) {member : ChanUser}
    (hMember : member ∈ ((s.markOperator chan nick value).chan chan).users) :
    ∃ m ∈ (s.chan chan).users, m.user = member.user ∧ member.operator =
      if strlower (s.user m.user).nick = strlower nick then value else m.operator := by
  have hFind (m : ChanUser) (hm : m ∈ (s.chan chan).users)
      (hNick : strlower (s.user m.user).nick = strlower nick) :
      (s.users.lookup nick).filter (fun user => (s.findChanuser chan user).isSome) = some m.user := by
    have hUser : m.user ∈ s.users.values :=
      (hSound.membership.graph.listed chan hChan _ (List.mem_map_of_mem hm)).1
    have hLookup : s.users.lookup nick = some m.user := by
      rw [← hSound.registry.lookup_nick hUser]
      exact Bucket.Table.lookup_congr hNick.symm
    have hHere : (s.findChanuser chan m.user).isSome = true := by
      rw [Core.findChanuser, List.find?_isSome]
      exact ⟨m, hm, by simp⟩
    rw [hLookup, Option.filter_some, if_pos hHere]
  simp only [Core.markOperator] at hMember
  split at hMember
  · rename_i user hTarget
    obtain ⟨hLookup, -⟩ := Option.filter_eq_some_iff.1 hTarget
    simp only [Core.setOperator, Core.modChan_chan, if_true] at hMember
    obtain ⟨m, hm, rfl⟩ := List.mem_map.1 hMember
    refine ⟨m, hm, by split <;> rfl, ?_⟩
    by_cases hSame : m.user = user
    · have hNick : strlower (s.user user).nick = strlower nick := by
        obtain ⟨key, hEntry, hKey⟩ := Bucket.Table.lookup_some hLookup
        exact (hSound.registry.keyed _ hEntry).symm.trans hKey
      rw [if_pos hSame, hSame, if_pos hNick]
    · have hNick : ¬ strlower (s.user m.user).nick = strlower nick := fun hNick =>
        hSame (Option.some.inj ((hFind m hm hNick).symm.trans hTarget))
      rw [if_neg hSame, if_neg hNick]
  · rename_i hNone
    refine ⟨member, hMember, rfl, ?_⟩
    have hNick : ¬ strlower (s.user member.user).nick = strlower nick := fun hNick => by
      rw [hFind member hMember hNick] at hNone
      cases hNone
    rw [if_neg hNick]

/-- The list of operators changes for one nick, and so does the flag of the member of that nick. -/
theorem relist (h : Operators s) (hSound : Sound s) {chan : ChanId} {nick : Str} {value : Bool}
    {f : List Str → List Str}
    (hLists : chan ∈ s.channels.values → ∀ n, strlower n ∈ (f (s.chan chan).ops).map strlower ↔
      if strlower n = strlower nick then value = true
      else strlower n ∈ (s.chan chan).ops.map strlower)
    (hSingle : chan ∈ s.channels.values → ((f (s.chan chan).ops).map strlower).Nodup) :
    Operators ((s.modChan chan fun c => { c with ops := f c.ops }).markOperator chan nick value) := by
  have hSound' : Sound (s.modChan chan fun c => { c with ops := f c.ops }) :=
    hSound.quiet (s.skeleton_modChan chan rfl)
  have hRest (t : Core) (c : ChanId) : ((t.markOperator chan nick value).chan c).ops = (t.chan c).ops ∧
      (c ≠ chan → (t.markOperator chan nick value).chan c = t.chan c) ∧
      (t.markOperator chan nick value).channels = t.channels ∧
      ∀ u, (t.markOperator chan nick value).user u = t.user u := by
    simp only [Core.markOperator]
    split
    · by_cases hc : c = chan <;> simp [Core.setOperator, hc]
    · exact ⟨rfl, fun _ => rfl, rfl, fun _ => rfl⟩
  constructor
  · intro c hc member hMember
    obtain ⟨hOps, hOther, hChannels, hUsers⟩ :=
      hRest (s.modChan chan fun c => { c with ops := f c.ops }) c
    rw [hChannels] at hc
    by_cases hEq : c = chan
    · subst hEq
      obtain ⟨m, hm, hUser, hFlag⟩ := flag_markOperator hSound' hc nick value hMember
      have hOld : m.operator = (s.chan c).lists (s.user m.user).nick :=
        h.flag c hc m (by simpa using hm)
      rw [hFlag, ← hUser, hUsers, Bool.eq_iff_iff, Channel.lists_iff, hOps]
      simp only [Core.modChan_chan, if_true, Core.modChan_user]
      rw [hLists hc, hOld]
      split
      · rfl
      · exact Channel.lists_iff
    · rw [hOther hEq] at hMember ⊢
      rw [hUsers]
      simp only [Core.modChan_chan, hEq, if_false] at hMember ⊢
      exact h.flag c hc member hMember
  · intro c hc
    obtain ⟨hOps, -, hChannels, -⟩ := hRest (s.modChan chan fun c => { c with ops := f c.ops }) c
    rw [hChannels] at hc
    rw [hOps]
    by_cases hEq : c = chan
    · subst hEq
      simpa using hSingle hc
    · simpa [hEq] using h.single c hc

theorem addOperator (h : Operators s) (hSound : Sound s) {chan : ChanId} {nick : Str}
    (hNew : ∀ op ∈ (s.chan chan).ops, sameText op nick = false) :
    Operators (s.addOperator chan nick) := by
  have hNot : strlower nick ∉ (s.chan chan).ops.map strlower := by
    intro hIn
    obtain ⟨op, hOp, hSame⟩ := List.mem_map.1 hIn
    exact Bool.eq_false_iff.1 (hNew op hOp) (sameText_iff.2 hSame)
  refine h.relist (f := (· ++ [nick])) hSound (fun hChan n => ?_) fun hChan => ?_
  · split
    · rename_i hSame
      simp [hSame]
    · rename_i hOther
      simp [hOther]
  · simp only [List.map_append, List.map_cons, List.map_nil]
    exact (h.single chan hChan).append (List.nodup_singleton _)
      (by simpa [List.disjoint_singleton] using hNot)

theorem dropOperator (h : Operators s) (hSound : Sound s) (chan : ChanId) (nick : Str) :
    Operators (s.dropOperator chan nick) := by
  have hMap (l : List Str) : (l.eraseP fun op => sameText op nick).map strlower =
      (l.map strlower).erase (strlower nick) := by
    induction l with
    | nil => rfl
    | cons op l ih =>
      by_cases hSame : strlower op = strlower nick
      · simp [sameText, hSame]
      · simp [sameText, hSame, ← ih]
  refine h.relist (f := (·.eraseP fun op => sameText op nick)) hSound (fun hChan n => ?_)
    fun hChan => ?_
  · rw [hMap, (h.single chan hChan).mem_erase_iff]
    split
    · rename_i hSame
      simp [hSame]
    · rename_i hOther
      exact ⟨fun hIn => hIn.2, fun hIn => ⟨hOther, hIn⟩⟩
  · rw [hMap]
    exact (h.single chan hChan).erase _

/-- Every operation keeps the flags and the lists of operators in step. -/
theorem op {ok : Label → Core → Prop} (hOp : Op ok s t) (hSound : Sound s) (h : Operators s) :
    Operators t := by
  cases hOp with
  | quiet hDetail => exact h.same (.detail hDetail)
  | fine hFine => exact h.same (.fine hFine)
  | person hPersonal => exact h.same (.personal hPersonal)
  | setUserLevel => exact h.same (.modUser s _ rfl)
  | accept => exact h.same (.accept s _ _ _ _)
  | tick | addRecord | setRecord | dropRecord | addBan | dropBans | linkServer | unlinkServer | close =>
    exact h.same (.of_eq rfl rfl fun _ => rfl)
  | loginLocal | loginRemote =>
    refine h.login hSound rfl rfl fun u hu => ?_
    simp [Core.addUser, Core.tieLocal, Core.tieRemote, hu]
  | removeRemote => exact h.same (.hashRemoveUser s _)
  | @zap con =>
    have hKilled : SameOperators s (s.modCon con fun c => { c with killed := true }) :=
      .of_eq rfl rfl fun _ => rfl
    exact h.same ((hKilled.trans (.removeUser _ con)).trans (.of_eq rfl rfl fun _ => rfl))
  | @hangUp con => exact h.same ((SameOperators.removeUser s con).trans (.of_eq rfl rfl fun _ => rfl))
  | enter => exact h.enterAs
  | found => exact h.found hSound _ _
  | leave => exact h.same ((SameOperators.modUser s _ rfl).trans (.partChannel _ _ _))
  | dropChannel => exact h.same (.hashRemoveChannel s _)
  | flagChannel | setTopic | setLevel | setLimit =>
    exact h.same (.modChan s _ rfl (List.Sublist.refl _))
  | addOperator _ hNew => exact h.addOperator hSound hNew
  | dropOperator chan nick => exact h.dropOperator hSound chan nick
  | insert => exact h.same (.file (s.fileStep_insertDatum _ _ _))
  | dropFile => exact h.same (.file (s.fileStep_dropFile _ _ _))
  | report => exact h.same (.file (s.fileStep_reportShared _ _ _ _))
  | collect => exact h.same (.file s.fileStep_fdbGarbageCollect)
  | finishSearch => exact h.same (.search (s.searchStep_finishSearch _ _ _))
  | forwardSearch => exact h.same (.search (s.searchStep_forwardSearch _ _ _ _))
  | result => exact h.same (.search (s.searchStep_note _))
  | expire => exact h.same (.search (s.searchStep_expireSearches _ _))
  | answer => exact h.same (.search (s.searchStep_answerSearch _ _))
  | cancel =>
    exact h.same (.search ((s.searchStep_note _).trans (Core.searchStep_cancelSearch _ _)))

/-- The channels of the channels file have no members, and the lists that the file has. -/
theorem start {f : Startup} (hOps : ∀ c ∈ f.channels, (c.ops.map strlower).Nodup) :
    Operators (Core.start f) := by
  have hRecord (s : Core) (r : UserDb) : SameOperators s (s.loadAccount r) :=
    .of_eq rfl rfl fun _ => rfl
  have hWord (s : Core) (word : Str) : SameOperators s (s.loadFilter word) :=
    .of_eq rfl rfl fun _ => rfl
  have hEmpty : Operators { Core.empty f.cfg f.now with bans := f.bans } := by
    constructor <;> simp [Core.empty]
  have hLoad (l : List LoadedChannel) (hl : ∀ c ∈ l, (c.ops.map strlower).Nodup) (s : Core)
      (h : Operators s) : Operators (l.foldl Core.loadChannel s) := by
    induction l generalizing s with
    | nil => exact h
    | cons r l ih =>
      refine ih (fun c hc => hl c (by simp [hc])) _ ⟨fun c hc member hMember => ?_, fun c hc => ?_⟩
      · by_cases hEq : c = s.next
        · simp [Core.loadChannel, hEq] at hMember
        · have hIn : c ∈ s.channels.values :=
            (List.mem_cons.1 ((s.channels.values_add _ _).mem_iff.1 hc)).resolve_left hEq
          simp only [Core.loadChannel, Core.alloc_chan, Core.modChan_chan, hEq, if_false] at hMember ⊢
          exact h.flag c hIn member hMember
      · by_cases hEq : c = s.next
        · simpa [Core.loadChannel, hEq] using hl r (by simp)
        · have hIn : c ∈ s.channels.values :=
            (List.mem_cons.1 ((s.channels.values_add _ _).mem_iff.1 hc)).resolve_left hEq
          simpa [Core.loadChannel, hEq] using h.single c hIn
  exact (hLoad f.channels hOps _ (hEmpty.same (.foldl hRecord f.accounts _))).same
    (.foldl hWord f.filter _)

end Operators

namespace Server

/-- In every state that is reached a member of a channel is an operator exactly when its nick is on
the channel's list of operators, on which no nick is twice, unless a list that was loaded has one
twice. -/
theorem reach_operators (f : Startup) (hOps : ∀ c ∈ f.channels, (c.ops.map strlower).Nodup)
    (events : List Event) :
    let s := Server.reach f events
    ∀ chan ∈ s.channels.values,
      (∀ member ∈ (s.chan chan).users, member.operator = true ↔
        ∃ op ∈ (s.chan chan).ops, strlower op = strlower (s.user member.user).nick) ∧
      ((s.chan chan).ops.map strlower).Nodup := by
  intro s chan hChan
  have h : Operators s.toCore :=
    (reach_keeps (fun _ _ hSound hOp h => h.op hOp hSound) (Operators.start hOps) events).2
  refine ⟨fun member hMember => ?_, h.single chan hChan⟩
  rw [h.flag chan hChan member hMember, Channel.lists_iff, List.mem_map]

/-- A user creates a channel, and a server makes the user an operator. -/
def opped : List Event :=
  [.accept 1 (str "peer") 0 0, .link 0, .accept 2 (str "client") 6699 8888,
    .packet 1 .login (str "joe pw 6699 \"client\" 3") {}, .packet 1 .join (str "#lobby") {},
    .packet 0 .op (str ":peer #lobby JOE") {}]

theorem reach_operators_opped :
    let s := Server.reach hub opped
    (s.chan 3).name = str "#lobby" ∧ ((s.chan 3).users.map (·.operator)) = [true] ∧
      (s.chan 3).ops = [str "JOE"] ∧ ((s.chan 3).ops.map strlower).Nodup :=
  ⟨by decide +kernel, by decide +kernel, by decide +kernel,
    (reach_operators hub (by simp [hub]) opped 3 (by decide +kernel)).2⟩

end Server

end OpenNap
