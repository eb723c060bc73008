import OpenNap.Privileges
import OpenNap.Sent

/-! What a member of a channel is told of cloaked members.  Two states that differ only in who is
cloaked are told apart by the list of the members that `list_users` sends, and by nothing else. -/

namespace OpenNap

open CText

/-! ### What a connection hears of channels -/

/-- The messages about members and speakers of a channel. -/
def channelTags : List Nat :=
  [msgServerPublic, msgServerJoin, msgServerPart, msgServerChannelUserList, msgClientEmote,
    msgServerNamesList]

/-- A message that is for others, or not about members and speakers. -/
def Message.Unheard (con : ConId) (m : Message) : Prop := m.con = con → m.tag ∉ channelTags

theorem Message.unheard {con other : ConId} {tag : Nat} {body : Str} (h : tag ∉ channelTags) :
    Message.Unheard con ⟨other, tag, body⟩ := fun _ => h

theorem Message.elsewhere {con other : ConId} {tag : Nat} {body : Str} (h : other ≠ con) :
    Message.Unheard con ⟨other, tag, body⟩ := fun hEq => absurd hEq h

/-- The messages about members and speakers that are queued for a connection. -/
def Server.heard (s : Server) (con : ConId) : List Message :=
  s.sent.filter fun m => m.con == con && channelTags.contains m.tag

theorem Server.heard_eq {s t : Server} {con : ConId} (h : Says (Message.Unheard con) s t) :
    t.heard con = s.heard con := by
  apply h.filter_eq
  intro m hm
  rw [Bool.and_eq_false_iff, beq_eq_false_iff_ne, ← Bool.not_eq_true, List.contains_iff_mem]
  by_cases hCon : m.con = con
  · exact .inr (hm hCon)
  · exact .inl hCon

/-- From `s` to `s'` and from `t` to `t'` a connection hears the same. -/
def Alike (con : ConId) (s s' t t' : Server) : Prop :=
  ∃ l, s'.heard con = s.heard con ++ l ∧ t'.heard con = t.heard con ++ l

namespace Alike

variable {con : ConId} {s s' s'' t t' t'' : Server}

theorem quiet (hs : Says (Message.Unheard con) s s') (ht : Says (Message.Unheard con) t t') :
    Alike con s s' t t' :=
  ⟨[], by rw [Server.heard_eq hs, List.append_nil], by rw [Server.heard_eq ht, List.append_nil]⟩

theorem refl (con : ConId) (s t : Server) : Alike con s s t t := quiet (.refl s) (.refl t)

theorem trans (h1 : Alike con s s' t t') (h2 : Alike con s' s'' t' t'') : Alike con s s'' t t'' := by
  obtain ⟨l1, hs1, ht1⟩ := h1
  obtain ⟨l2, hs2, ht2⟩ := h2
  exact ⟨l1 ++ l2, by rw [hs2, hs1, List.append_assoc], by rw [ht2, ht1, List.append_assoc]⟩

theorem queueData (con other : ConId) (tag : Nat) (body : Str) (s t : Server) :
    Alike con s (s.queueData other tag body) t (t.queueData other tag body) :=
  ⟨[(⟨other, tag, body⟩ : Message)].filter fun m => m.con == con && channelTags.contains m.tag,
    List.filter_append .., List.filter_append ..⟩

/-- A walk over the same list, each step of which leaves the data alone. -/
theorem foldl {α : Type} {f g : Server → α → Server} (hf : ∀ u a, (f u a).toCore = u.toCore)
    (hg : ∀ u a, (g u a).toCore = u.toCore) {l : List α}
    (hStep : ∀ a ∈ l, ∀ u v : Server, u.toCore = s.toCore → v.toCore = t.toCore →
      Alike con u (f u a) v (g v a)) : Alike con s (l.foldl f s) t (l.foldl g t) := by
  have hWalk (k : List α) (hk : ∀ a ∈ k, a ∈ l) (u v : Server) (hu : u.toCore = s.toCore)
      (hv : v.toCore = t.toCore) : Alike con u (k.foldl f u) v (k.foldl g v) := by
    induction k generalizing u v with
    | nil => exact refl con u v
    | cons a k ih =>
      have hFirst := hStep a (hk a (by simp)) u v hu hv
      exact hFirst.trans (ih (fun b hb => hk b (List.mem_cons_of_mem _ hb)) _ _
        ((hf u a).trans hu) ((hg v a).trans hv))
  exact hWalk l (fun _ h => h) s t rfl rfl

end Alike

/-! ### States that differ in who is cloaked -/

/-- Two users that are both cloaked, and are in the same place. -/
structure Disguised (u v : User) : Prop where
  before : u.cloaked = true
  after : v.cloaked = true
  con : v.con = u.con
  channels : v.channels = u.channels
  muzzled : v.muzzled = u.muzzled
  rank : v.level < .moderator ↔ u.level < .moderator

/-- States that differ only in who the cloaked users are, other than `m`. -/
structure Veiled (m : UserId) (s t : Core) : Prop where
  online : ∀ u, u ∈ t.users.values ↔ u ∈ s.users.values
  con : t.con = s.con
  channels : t.channels = s.channels
  chan : t.chan = s.chan
  servers : t.servers = s.servers
  cfg : t.cfg = s.cfg
  now : t.now = s.now
  next : t.next = s.next
  user : ∀ u, t.user u = s.user u ∨ u ≠ m ∧ Disguised (s.user u) (t.user u)

namespace Veiled

variable {m : UserId} {s t : Core}

theorem refl (m : UserId) (s : Core) : Veiled m s s :=
  ⟨fun _ => Iff.rfl, rfl, rfl, rfl, rfl, rfl, rfl, rfl, fun _ => .inl rfl⟩

theorem isUser (h : Veiled m s t) (con : ConId) : t.isUser con = s.isUser con := by
  rw [Core.isUser, h.con, Core.isUser]

theorem home (h : Veiled m s t) (u : UserId) : (t.user u).con = (s.user u).con := by
  rcases h.user u with hSame | ⟨-, hHidden⟩
  · rw [hSame]
  · exact hHidden.con

theorem cloaked (h : Veiled m s t) (u : UserId) : (t.user u).cloaked = (s.user u).cloaked := by
  rcases h.user u with hSame | ⟨-, hHidden⟩
  · rw [hSame]
  · rw [hHidden.before, hHidden.after]

theorem muzzled (h : Veiled m s t) (u : UserId) : (t.user u).muzzled = (s.user u).muzzled := by
  rcases h.user u with hSame | ⟨-, hHidden⟩
  · rw [hSame]
  · exact hHidden.muzzled

theorem joined (h : Veiled m s t) (u : UserId) : (t.user u).channels = (s.user u).channels := by
  rcases h.user u with hSame | ⟨-, hHidden⟩
  · rw [hSame]
  · exact hHidden.channels

theorem rank (h : Veiled m s t) (u : UserId) :
    (t.user u).level < .moderator ↔ (s.user u).level < .moderator := by
  rcases h.user u with hSame | ⟨-, hHidden⟩
  · rw [hSame]
  · exact hHidden.rank

/-- Who is not cloaked is the same. -/
theorem seen (h : Veiled m s t) {u : UserId} (hSeen : (s.user u).cloaked = false ∨ u = m) :
    t.user u = s.user u := by
  rcases h.user u with hSame | ⟨hNe, hHidden⟩
  · exact hSame
  · rcases hSeen with hSeen | hEq
    · rw [hHidden.before] at hSeen
      cases hSeen
    · exact absurd hEq hNe

theorem memberText (h : Veiled m s t) (chan : ChanId) {u : UserId}
    (hSeen : (s.user u).cloaked = false ∨ u = m) :
    Server.memberText t chan u = Server.memberText s chan u := by
  rw [Server.memberText, h.chan, h.seen hSeen, Server.memberText]

theorem modChan (h : Veiled m s t) (chan : ChanId) (f : Channel → Channel) :
    Veiled m (s.modChan chan f) (t.modChan chan f) where
  online := h.online
  con := h.con
  channels := h.channels
  chan := by
    funext c
    simp only [Core.modChan_chan, h.chan]
  servers := h.servers
  cfg := h.cfg
  now := h.now
  next := h.next
  user := h.user

theorem modUser (h : Veiled m s t) (user : UserId) {f : User → User}
    (hf : ∀ u v, Disguised u v → Disguised (f u) (f v)) :
    Veiled m (s.modUser user f) (t.modUser user f) where
  online := h.online
  con := h.con
  channels := h.channels
  chan := h.chan
  servers := h.servers
  cfg := h.cfg
  now := h.now
  next := h.next
  user u := by
    simp only [Core.modUser_user]
    split
    · rcases h.user u with hSame | ⟨hNe, hHidden⟩
      · exact .inl (congrArg f hSame)
      · exact .inr ⟨hNe, hf _ _ hHidden⟩
    · exact h.user u

theorem enterChannel (h : Veiled m s t) (user : UserId) (chan : ChanId) :
    Veiled m (s.enterChannel user chan) (t.enterChannel user chan) := by
  simp only [Core.enterChannel]
  apply modChan
  apply h.modUser
  intro u v hHidden
  exact { hHidden with channels := congrArg (chan :: ·) hHidden.channels }

theorem uninvite (h : Veiled m s t) (user : UserId) (chan : ChanId) :
    Veiled m (s.uninvite user chan) (t.uninvite user chan) := by
  simp only [Core.uninvite]
  apply modUser
  · exact h.modChan chan _
  · exact fun u v hHidden => { hHidden with }

theorem newChannel (h : Veiled m s t) (name : Str) : Veiled m (s.newChannel name) (t.newChannel name) := by
  have hAlloc : Veiled m s.alloc t.alloc :=
    { h with next := congrArg (· + 1) h.next }
  have hChan := hAlloc.modChan s.next fun _ =>
    { name := name
      topic := (str "Welcome to the " ++ name ++ str " channel.").take 2047
      timestamp := s.now
      limit := toUshort s.cfg.channelLimit
      onUser := true
      level := .user }
  simp only [Core.newChannel, h.next, h.now, h.cfg]
  exact ⟨hChan.online, hChan.con, congrArg (·.add name s.next) h.channels, hChan.chan, hChan.servers, hChan.cfg,
    hChan.now, hChan.next, hChan.user⟩

end Veiled

/-- A local user below moderator and the connection that no one else is on. -/
structure Listener (s : Core) (m : UserId) (con : ConId) : Prop where
  client : s.isUser con = true
  user : (s.con con).user = some m
  peer : con ∉ s.servers
  level : (s.user m).level < .moderator
  only : ∀ u ∈ s.users.values, (s.user u).con = con → u = m

namespace Listener

variable {s : Core} {m : UserId} {con : ConId}

theorem level' (h : Listener s m con) : decide (Level.moderator ≤ (s.user m).level) = false := by
  have hRank : (s.user m).level.rank < Level.moderator.rank := h.level
  exact decide_eq_false (Nat.not_le.2 hRank)

theorem low (h : Listener s m con) : decide (Level.user < (s.user m).level) = false := by
  have hRank : (s.user m).level.rank < Level.moderator.rank := h.level
  exact decide_eq_false (Nat.not_lt.2 (Nat.lt_succ_iff.1 hRank))

theorem congr {t : Core} (h : Listener s m con) (hUsers : t.users = s.users) (hCon : t.con = s.con)
    (hServers : t.servers = s.servers) (hLevel : (t.user m).level = (s.user m).level)
    (hHome : ∀ u, (t.user u).con = (s.user u).con) : Listener t m con where
  client := by
    rw [Core.isUser, hCon]
    exact h.client
  user := by
    rw [hCon]
    exact h.user
  peer := by
    rw [hServers]
    exact h.peer
  level := by
    rw [hLevel]
    exact h.level
  only u hu := by
    rw [hHome]
    exact h.only u (by rwa [← hUsers])

theorem veiled {t : Core} (h : Listener s m con) (hVeiled : Veiled m s t) : Listener t m con where
  client := by
    rw [hVeiled.isUser]
    exact h.client
  user := by
    rw [hVeiled.con]
    exact h.user
  peer := by
    rw [hVeiled.servers]
    exact h.peer
  level := (hVeiled.rank m).2 h.level
  only u hu := by
    rw [hVeiled.home]
    exact h.only u ((hVeiled.online u).1 hu)

end Listener

namespace Server

open Message (unheard elsewhere)

variable {s t : Server} {m : UserId} {con : ConId}

theorem unheard_passMessageArgs (hPeer : con ∉ s.servers) (except : Option ConId) (tag : Nat)
    (body : Str) : Says (Message.Unheard con) s (s.passMessageArgs except tag body) := by
  apply (Says.refl s).passMessageArgs
  rintro other hOther
  apply elsewhere
  rintro rfl
  exact hPeer hOther

/-- What the others are told of a user is the same unless the user is cloaked, and then the listener
is not told. -/
theorem alike_tellMembers (h : Listener s.toCore m con) (hVeiled : Veiled m s.toCore t.toCore)
    {members : List ChanUser} (hMembers : ∀ member ∈ members, member.user ∈ s.users.values)
    {user : UserId} (tag : Nat) {body body' : Str}
    (hBody : (s.user user).cloaked = false → body' = body) :
    Alike con s (s.tellMembers members user tag body) t (t.tellMembers members user tag body') := by
  simp only [tellMembers]
  apply Alike.foldl
  · intro u member
    split <;> rfl
  · intro u member
    split <;> rfl
  · intro member hMember u v hu hv
    rw [hu, hv, hVeiled.home, hVeiled.isUser, hVeiled.cloaked]
    by_cases hCon : (s.user member.user).con = con
    · have hSelf := h.only _ (hMembers member hMember) hCon
      have hLevel' : decide (Level.moderator ≤ (t.user m).level) = false := by
        rw [hVeiled.seen (.inr rfl)]
        exact h.level'
      rw [hSelf, h.level', hLevel', Bool.or_false]
      cases hCloaked : (s.user user).cloaked with
      | true => simpa using Alike.refl con u v
      | false =>
        rw [hBody hCloaked]
        split
        · exact .queueData con _ tag _ u v
        · exact .refl con u v
    · apply Alike.quiet
      · split
        · exact (Says.refl u).queueData (elsewhere hCon)
        · exact .refl u
      · split
        · exact (Says.refl v).queueData (elsewhere hCon)
        · exact .refl v

/-! ### Parting -/

theorem alike_partChannel (h : Listener s.toCore m con) (hVeiled : Veiled m s.toCore t.toCore)
    {chan : ChanId} (hMembers : ∀ member ∈ (s.chan chan).users, member.user ∈ s.users.values)
    (user : UserId) : Alike con s (s.partChannel chan user) t (t.partChannel chan user) := by
  have hLeft : Veiled m (s.onCore (·.channelRemove chan user)).toCore
      (t.onCore (·.channelRemove chan user)).toCore := by
    simp only [toCore_onCore, Core.channelRemove]
    exact hVeiled.modChan chan _
  have hHears : Listener (s.onCore (·.channelRemove chan user)).toCore m con :=
    h.congr rfl rfl rfl rfl fun _ => rfl
  have hStart : Alike con s (s.onCore (·.channelRemove chan user)) t
      (t.onCore (·.channelRemove chan user)) :=
    .quiet (Says.refl s).onCore (Says.refl t).onCore
  have hStay : ∀ member ∈ ((s.onCore (·.channelRemove chan user)).chan chan).users,
      member.user ∈ (s.onCore (·.channelRemove chan user)).users.values := by
    intro member hMember
    refine hMembers member ?_
    simp only [toCore_onCore, Core.channelRemove, Core.modChan_chan, if_true] at hMember
    exact List.mem_of_mem_eraseP hMember
  simp only [partChannel]
  generalize s.onCore (·.channelRemove chan user) = s' at hLeft hHears hStart hStay
  generalize t.onCore (·.channelRemove chan user) = t' at hLeft hHears hStart hStay
  refine hStart.trans ?_
  rw [hLeft.chan]
  by_cases hEmpty : (s'.chan chan).users.isEmpty = true
  · rw [if_pos hEmpty, if_pos hEmpty]
    apply Alike.quiet
    · split
      · exact (Says.refl _).onCore
      · exact .refl _
    · split
      · exact (Says.refl _).onCore
      · exact .refl _
  · rw [if_neg hEmpty, if_neg hEmpty]
    exact alike_tellMembers hHears hLeft hStay msgServerPart fun hSeen =>
      hLeft.memberText chan (.inl hSeen)

/-! ### Talking -/

theorem unheard_sendIfUser {con other : ConId} (body : Str) (s : Server) :
    Says (Message.Unheard con) s (s.sendIfUser other msgServerNosuch body) :=
  (Says.refl s).sendIfUser fun _ => unheard (by decide)

/-- Whether a speaker may talk does not depend on who it is. -/
theorem alike_refusesTalk (hVeiled : Veiled m s.toCore t.toCore) (chan : ChanId) (sender : UserId) :
    (s.refusesTalk chan sender = none ∧ t.refusesTalk chan sender = none) ∨
      ∃ s' t', s.refusesTalk chan sender = some s' ∧ t.refusesTalk chan sender = some t' ∧
        Alike con s s' t t' := by
  have hLow : decide ((t.user sender).level < .moderator) = decide ((s.user sender).level < .moderator) :=
    decide_eq_decide.2 (hVeiled.rank sender)
  have hRefuse (text : Str) : Alike con s (s.sendIfUser (s.user sender).con msgServerNosuch text) t
      (t.sendIfUser (s.user sender).con msgServerNosuch text) :=
    .quiet (unheard_sendIfUser text s) (unheard_sendIfUser text t)
  simp only [refusesTalk, Core.findChanuser, hVeiled.chan, hLow, hVeiled.home]
  cases (s.chan chan).users.find? fun member => member.user == sender with
  | none => exact .inr ⟨s, t, rfl, rfl, .refl con s t⟩
  | some member =>
    simp only
    split
    · split
      · split
        · exact .inl ⟨rfl, rfl⟩
        · exact .inr ⟨_, _, rfl, rfl, hRefuse _⟩
      · split
        · exact .inr ⟨_, _, rfl, rfl, hRefuse _⟩
        · exact .inl ⟨rfl, rfl⟩
    · exact .inl ⟨rfl, rfl⟩

/-- A listener is told the name of a speaker who is not cloaked. -/
theorem alike_talk (h : Listener s.toCore m con) (hVeiled : Veiled m s.toCore t.toCore) {chan : ChanId}
    (hMembers : ∀ member ∈ (s.chan chan).users, member.user ∈ s.users.values) (sender : UserId)
    (tag : Nat) (text : Str) : Alike con s (s.talk chan sender tag text) t (t.talk chan sender tag text) := by
  simp only [talk, hVeiled.chan]
  apply Alike.foldl
  · intro u member
    split
    · split <;> rfl
    · rfl
  · intro u member
    split
    · split <;> rfl
    · rfl
  · intro member hMember u v hu hv
    rw [hu, hv, hVeiled.home, hVeiled.isUser, hVeiled.cloaked]
    by_cases hCon : (s.user member.user).con = con
    · have hSelf := h.only _ (hMembers member hMember) hCon
      have hName : (if (s.user sender).cloaked = true then str "Operator" else (t.user sender).nick) =
          if (s.user sender).cloaked = true then str "Operator" else (s.user sender).nick := by
        split
        · rfl
        · rename_i hSeen
          rw [hVeiled.seen (.inl (Bool.not_eq_true _ ▸ hSeen))]
      rw [hSelf, hVeiled.seen (.inr rfl), h.low, Bool.and_false, hName]
      by_cases hUser : s.isUser (s.user m).con = true
      · rw [if_pos hUser, if_pos hUser]
        simp only [Bool.false_eq_true, if_false]
        exact .queueData con _ tag _ u v
      · rw [if_neg hUser, if_neg hUser]
        exact .refl con u v
    · apply Alike.quiet
      · split
        · split
          · exact (Says.refl u).sendCmd (elsewhere hCon)
          · exact (Says.refl u).queueData (elsewhere hCon)
        · exact .refl u
      · split
        · split
          · exact (Says.refl v).sendCmd (elsewhere hCon)
          · exact (Says.refl v).queueData (elsewhere hCon)
        · exact .refl v

/-- The end of `public` and `emote`: the message goes to the peers and to the members. -/
theorem alike_relayTalk (h : Listener s.toCore m con) (hVeiled : Veiled m s.toCore t.toCore) {chan : ChanId}
    (hMembers : ∀ member ∈ (s.chan chan).users, member.user ∈ s.users.values) (sender : UserId)
    (except : Option ConId) (relayTag tag : Nat) (body body' text : Str) :
    Alike con s ((s.passMessageArgs except relayTag body).talk chan sender tag text) t
      ((t.passMessageArgs except relayTag body').talk chan sender tag text) := by
  have hPeer : con ∉ t.servers := by
    rw [hVeiled.servers]
    exact h.peer
  refine (Alike.quiet (unheard_passMessageArgs h.peer except relayTag body)
    (unheard_passMessageArgs hPeer except relayTag body')).trans ?_
  apply alike_talk
  · rwa [toCore_passMessageArgs]
  · rwa [toCore_passMessageArgs, toCore_passMessageArgs]
  · rwa [toCore_passMessageArgs]

/-- What holds in a state that the server reaches: who is in a channel is on line, and the channels of
a sender are there. -/
structure Peopled (s : Core) (con : ConId) (pkt : Str) : Prop where
  members : ∀ chan ∈ s.channels.values, ∀ member ∈ (s.chan chan).users, member.user ∈ s.users.values
  sender : ∀ user rest, s.popUser con pkt = some (user, rest) → user ∈ s.users.values ∧
    ∀ chan ∈ (s.user user).channels, chan ∈ s.channels.values

theorem Peopled.of_sound (h : Sound s.toCore) {other : ConId} (hOpen : (s.con other).allocated = true)
    (hLogin : (s.con other).cls ≠ .unknown) (pkt : Str) : Peopled s.toCore other pkt := by
  have hGraph := h.membership.graph
  refine ⟨fun chan hChan member hMember => ?_, fun user rest hPop => ?_⟩
  · exact (hGraph.listed chan hChan member.user (List.mem_map_of_mem hMember)).1
  · have hUser : user ∈ s.users.values := by
      simp only [Core.popUser] at hPop
      split at hPop
      · split at hPop
        · split at hPop
          · rename_i hFound
            split at hPop
            · cases hPop
            · cases hPop
              exact Bucket.Table.mem_values_of_lookup hFound
          · cases hPop
        · cases hPop
      · rename_i hServer
        have hClass : (s.con other).cls = .user := by
          cases hCls : (s.con other).cls with
          | user => rfl
          | unknown => exact absurd hCls hLogin
          | server => exact absurd (by simp [Core.isServer, hCls]) hServer
        obtain ⟨v, hv, hOwner, -⟩ := h.registry.client other hOpen hClass
        rw [hOwner] at hPop
        cases hPop
        exact hv
    exact ⟨hUser, fun chan hChan => (hGraph.joined user hUser chan hChan).1⟩

theorem findChannel_veiled (hVeiled : Veiled m s.toCore t.toCore) (sender : UserId) (name : Str) :
    t.findChannel sender name = s.findChannel sender name := by
  rw [Core.findChannel, hVeiled.joined, hVeiled.chan, Core.findChannel]

theorem alike_unparsable (s t : Server) (con other : ConId) :
    Alike con s (s.unparsable other) t (t.unparsable other) :=
  .quiet (unheard_sendIfUser _ s) (unheard_sendIfUser _ t)

theorem alike_publicMessage (h : Listener s.toCore m con) (hVeiled : Veiled m s.toCore t.toCore)
    {other : ConId} {pkt pkt' : Str} (hPeopled : Peopled s.toCore other pkt)
    (hPop : t.popUser other pkt' = s.popUser other pkt) (tag : Nat) :
    Alike con s (s.publicMessage other tag pkt) t (t.publicMessage other tag pkt') := by
  have hNotice (text : Str) : Alike con s (s.sendIfUser other msgServerNosuch text) t
      (t.sendIfUser other msgServerNosuch text) :=
    .quiet (unheard_sendIfUser text s) (unheard_sendIfUser text t)
  simp only [publicMessage, hPop]
  cases hSender : s.popUser other pkt with
  | none => exact .refl con s t
  | some found =>
    obtain ⟨sender, rest⟩ := found
    obtain ⟨-, hChannels⟩ := hPeopled.sender sender rest hSender
    simp only [hVeiled.muzzled]
    by_cases hMuzzled : (s.user sender).muzzled = true
    · rw [if_pos hMuzzled, if_pos hMuzzled]
      exact hNotice _
    · rw [if_neg hMuzzled, if_neg hMuzzled]
      cases rest with
      | none => exact .refl con s t
      | some rest =>
        simp only
        cases nextArgNoskip (if 180 < rest.length then rest.take 180 else rest) with
        | mk name text =>
          cases text with
          | none => exact alike_unparsable s t con other
          | some text =>
            simp only [findChannel_veiled hVeiled]
            cases hFound : s.findChannel sender name with
            | none => exact hNotice _
            | some chan =>
              have hChan := hChannels chan (List.mem_of_find?_eq_some hFound)
              simp only
              rcases alike_refusesTalk hVeiled chan sender with hTalk | ⟨s', t', hs, ht, hAlike⟩
              · rw [hTalk.1, hTalk.2]
                exact alike_relayTalk h hVeiled (hPeopled.members chan hChan) sender _ _ _ _ _ text
              · rw [hs, ht]
                exact hAlike

theorem alike_emote (h : Listener s.toCore m con) (hVeiled : Veiled m s.toCore t.toCore)
    {other : ConId} {pkt pkt' : Str} (hPeopled : Peopled s.toCore other pkt)
    (hPop : t.popUser other pkt' = s.popUser other pkt) (tag : Nat) :
    Alike con s (s.emote other tag pkt) t (t.emote other tag pkt') := by
  have hNotice (text : Str) : Alike con s (s.sendIfUser other msgServerNosuch text) t
      (t.sendIfUser other msgServerNosuch text) :=
    .quiet (unheard_sendIfUser text s) (unheard_sendIfUser text t)
  simp only [emote, hPop]
  cases hSender : s.popUser other pkt with
  | none => exact .refl con s t
  | some found =>
    obtain ⟨sender, rest⟩ := found
    obtain ⟨-, hChannels⟩ := hPeopled.sender sender rest hSender
    simp only [hVeiled.muzzled]
    by_cases hMuzzled : (s.user sender).muzzled = true
    · rw [if_pos hMuzzled, if_pos hMuzzled]
      exact hNotice _
    · rw [if_neg hMuzzled, if_neg hMuzzled]
      cases rest with
      | none => exact .refl con s t
      | some rest =>
        simp only
        split
        · rename_i name text _
          simp only [findChannel_veiled hVeiled]
          cases hFound : s.findChannel sender name with
          | none => exact hNotice _
          | some chan =>
            have hChan := hChannels chan (List.mem_of_find?_eq_some hFound)
            simp only
            rcases alike_refusesTalk hVeiled chan sender with hTalk | ⟨s', t', hs, ht, hAlike⟩
            · rw [hTalk.1, hTalk.2]
              exact alike_relayTalk h hVeiled (hPeopled.members chan hChan) sender _ _ _ _ _ _
            · rw [hs, ht]
              exact hAlike
        · exact alike_unparsable s t con other

/-! ### Joining -/

theorem unheard_notifyOps (s : Server) (con : ConId) (chan : ChanId) (body : Str) :
    Says (Message.Unheard con) s (s.notifyOps chan body) := by
  simp only [notifyOps]
  apply (Says.refl s).foldl
  intro u member
  split
  · exact (Says.refl u).queueData (unheard (by decide))
  · exact .refl u

theorem unheard_sendTopic (s : Server) (con other : ConId) (chan : ChanId) (chanop : Bool) :
    Says (Message.Unheard con) s (s.sendTopic other chan chanop) := by
  simp only [sendTopic]
  split
  · have hTopic : Says (Message.Unheard con) s
        ((s.sendCmd other msgServerChannelUserListEnd (s.chan chan).name).sendCmd other msgServerTopic
          ((s.chan chan).name ++ str " " ++ ((s.sendCmd other msgServerChannelUserListEnd
            (s.chan chan).name).chan chan).topic)) :=
      ((Says.refl s).sendCmd (unheard (by decide))).sendCmd (unheard (by decide))
    split
    · exact hTopic.sendCmd (unheard (by decide))
    · exact hTopic
  · exact .refl s

/-- The notice to the operators, the operator flag and the topic. -/
theorem unheard_endJoin (s : Server) (con other : ConId) (user : UserId) (chan : ChanId) (chanop : Bool)
    (text : Str) : Says (Message.Unheard con) s
      ((if chanop then (s.notifyOps chan text).onCore (·.setOperator chan user true) else s).sendTopic
        other chan chanop) := by
  refine Says.trans ?_ (unheard_sendTopic _ con other chan chanop)
  split
  · exact (unheard_notifyOps s con chan text).onCore
  · exact .refl s

theorem unheard_sendMembers (s : Server) {other : ConId} (hOther : other ≠ con) (user : UserId)
    (chan : ChanId) : Says (Message.Unheard con) s (s.sendMembers other user chan) := by
  simp only [sendMembers]
  split
  · apply ((Says.refl s).sendCmd (elsewhere hOther)).foldl
    intro u member
    split
    · exact (Says.refl u).sendCmd (elsewhere hOther)
    · exact .refl u
  · exact .refl s

/-- The list of members that the listener is sent has those who are not cloaked. -/
theorem alike_sendMembers (h : Listener s.toCore m con) (hVeiled : Veiled m s.toCore t.toCore)
    {other : ConId} {user : UserId} (hOwner : other = con → user = m) (chan : ChanId) :
    Alike con s (s.sendMembers other user chan) t (t.sendMembers other user chan) := by
  by_cases hOther : other = con
  · simp only [sendMembers, hVeiled.chan, hVeiled.isUser]
    by_cases hClient : s.isUser other = true
    · rw [if_pos hClient, if_pos hClient]
      have hAck : Alike con s (s.sendCmd other msgServerJoinAck (s.chan chan).name) t
          (t.sendCmd other msgServerJoinAck (s.chan chan).name) := .queueData con other _ _ s t
      refine hAck.trans (Alike.foldl ?_ ?_ ?_)
      · intro u member
        split <;> rfl
      · intro u member
        split <;> rfl
      · intro member _ u v hu hv
        have hu' : u.toCore = s.toCore := hu
        have hv' : v.toCore = t.toCore := hv
        rw [hu', hv', hVeiled.cloaked, hOwner hOther, hVeiled.seen (.inr rfl), h.level', Bool.or_false]
        by_cases hCloaked : (s.user member.user).cloaked = true
        · rw [hCloaked]
          simpa using Alike.refl con u v
        · have hSeen : (s.user member.user).cloaked = false := by simpa using hCloaked
          rw [hSeen, hVeiled.memberText chan (.inl hSeen)]
          exact .queueData con other _ _ u v
    · rw [if_neg hClient, if_neg hClient]
      exact .refl con s t
  · exact .quiet (unheard_sendMembers s hOther user chan) (unheard_sendMembers t hOther user chan)

/-- The state in which the other members are told of a new one. -/
def entered (s : Server) (user : UserId) (chan : ChanId) : Server :=
  (if (s.chan chan).onInvite then s.onCore (·.uninvite user chan) else s).onCore
    (·.enterChannel user chan)

/-- What the peers, the new member and the other members are sent of a join. -/
def announced (s : Server) (other : ConId) (tag : Nat) (user : UserId) (chan : ChanId) : Server :=
  let s := s.passMessageArgs (some other) tag
    (str ":" ++ (s.user user).nick ++ str " " ++ (s.chan chan).name)
  let s := s.sendMembers other user chan
  s.tellMembers ((s.chan chan).users.filter fun member => member.user != user) user msgServerJoin
    (memberText s.toCore chan user)

theorem joined_eq (s : Server) (other : ConId) (tag : Nat) (user : UserId) (chan : ChanId)
    (chanop : Bool) : ∃ text, s.joined other tag user chan chanop =
      (fun u : Server => (if chanop then (u.notifyOps chan text).onCore (·.setOperator chan user true)
          else u).sendTopic other chan chanop) ((s.entered user chan).announced other tag user chan) :=
  ⟨_, rfl⟩

/-- What the listener needs of a state to be told the same of a join. -/
theorem entered_facts (h : Listener s.toCore m con) {user : UserId} {chan : ChanId}
    (hUser : user ∈ s.users.values)
    (hMembers : ∀ member ∈ (s.chan chan).users, member.user ∈ s.users.values) :
    Listener (s.entered user chan).toCore m con ∧
      ∀ member ∈ ((s.entered user chan).chan chan).users,
        member.user ∈ (s.entered user chan).users.values := by
  have hModUser (c : Core) (f : User → User) (v : UserId) (hf : (f (c.user v)).con = (c.user v).con)
      (hLevel : (f (c.user v)).level = (c.user v).level) (hc : Listener c m con) :
      Listener (c.modUser v f) m con := by
    refine hc.congr rfl rfl rfl ?_ fun u => ?_
    · by_cases hm : m = v
      · rw [← hm] at hLevel ⊢
        simpa using hLevel
      · simp [hm]
    · by_cases hu : u = v
      · rw [hu]
        simpa using hf
      · simp [hu]
  have hInvited : ∃ t : Server, s.entered user chan = t.onCore (·.enterChannel user chan) ∧
      Listener t.toCore m con ∧ t.users = s.users ∧ (t.chan chan).users = (s.chan chan).users := by
    refine ⟨_, rfl, ?_⟩
    split
    · refine ⟨?_, rfl, ?_⟩
      · have hChan : Listener (s.toCore.modChan chan fun c => { c with invited := c.invited.erase user })
            m con := h.congr rfl rfl rfl rfl fun _ => rfl
        exact hModUser _ (fun u => { u with invited := u.invited.erase chan }) user rfl rfl hChan
      · simp [Core.uninvite]
    · exact ⟨h, rfl, rfl⟩
  obtain ⟨t, hEq, hListener, hUsers, hChan⟩ := hInvited
  rw [hEq]
  constructor
  · have hIn := hModUser _ (fun u => { u with channels := chan :: u.channels }) user rfl rfl hListener
    exact hIn.congr rfl rfl rfl rfl fun _ => rfl
  · intro member hMember
    have hCases : member.user = user ∨ member ∈ (t.chan chan).users := by
      simp only [toCore_onCore, Core.enterChannel, Core.modChan_chan, if_true, List.mem_cons] at hMember
      exact hMember.imp (congrArg ChanUser.user) id
    show member.user ∈ t.users.values
    rw [hUsers]
    rcases hCases with hEq | hOld
    · rwa [hEq]
    · exact hMembers member (hChan ▸ hOld)

theorem veiled_entered (hVeiled : Veiled m s.toCore t.toCore) (user : UserId) (chan : ChanId) :
    Veiled m (s.entered user chan).toCore (t.entered user chan).toCore := by
  simp only [entered, hVeiled.chan, toCore_onCore]
  apply Veiled.enterChannel
  by_cases hInvite : (s.chan chan).onInvite = true
  · rw [if_pos hInvite, if_pos hInvite]
    exact hVeiled.uninvite user chan
  · rw [if_neg hInvite, if_neg hInvite]
    exact hVeiled

theorem unheard_entered (s : Server) (con : ConId) (user : UserId) (chan : ChanId) :
    Says (Message.Unheard con) s (s.entered user chan) := by
  simp only [entered]
  apply Says.onCore
  split
  · exact (Says.refl s).onCore
  · exact .refl s

theorem alike_announced (h : Listener s.toCore m con) (hVeiled : Veiled m s.toCore t.toCore)
    {other : ConId} {user : UserId} {chan : ChanId} (hOwner : other = con → user = m)
    (hMembers : ∀ member ∈ (s.chan chan).users, member.user ∈ s.users.values) (tag : Nat) :
    Alike con s (s.announced other tag user chan) t (t.announced other tag user chan) := by
  have hPeer : con ∉ t.servers := by
    rw [hVeiled.servers]
    exact h.peer
  have hPassed := Alike.quiet
    (unheard_passMessageArgs h.peer (some other) tag
      (str ":" ++ (s.user user).nick ++ str " " ++ (s.chan chan).name))
    (unheard_passMessageArgs hPeer (some other) tag
      (str ":" ++ (t.user user).nick ++ str " " ++ (t.chan chan).name))
  have hs := s.toCore_passMessageArgs (some other) tag
    (str ":" ++ (s.user user).nick ++ str " " ++ (s.chan chan).name)
  have ht := t.toCore_passMessageArgs (some other) tag
    (str ":" ++ (t.user user).nick ++ str " " ++ (t.chan chan).name)
  simp only [announced]
  generalize s.passMessageArgs (some other) tag _ = s' at hPassed hs
  generalize t.passMessageArgs (some other) tag _ = t' at hPassed ht
  rw [← hs] at h hVeiled hMembers
  rw [← ht] at hVeiled
  have hSent := alike_sendMembers h hVeiled hOwner chan
  have hs' := s'.toCore_sendMembers other user chan
  have ht' := t'.toCore_sendMembers other user chan
  generalize s'.sendMembers other user chan = s'' at hSent hs'
  generalize t'.sendMembers other user chan = t'' at hSent ht'
  rw [← hs'] at h hVeiled hMembers
  rw [← ht'] at hVeiled
  rw [hVeiled.chan]
  exact (hPassed.trans hSent).trans (alike_tellMembers h hVeiled
    (fun member hMember => hMembers member (List.mem_of_mem_filter hMember)) _
    fun hSeen => hVeiled.memberText chan (.inl hSeen))

theorem alike_joined (h : Listener s.toCore m con) (hVeiled : Veiled m s.toCore t.toCore)
    {other : ConId} {user : UserId} {chan : ChanId} (hOwner : other = con → user = m)
    (hUser : user ∈ s.users.values)
    (hMembers : ∀ member ∈ (s.chan chan).users, member.user ∈ s.users.values) (tag : Nat)
    (chanop : Bool) :
    Alike con s (s.joined other tag user chan chanop) t (t.joined other tag user chan chanop) := by
  obtain ⟨text, hs⟩ := joined_eq s other tag user chan chanop
  obtain ⟨text', ht⟩ := joined_eq t other tag user chan chanop
  obtain ⟨hListener, hStay⟩ := entered_facts h hUser hMembers
  rw [hs, ht]
  exact ((Alike.quiet (unheard_entered s con user chan) (unheard_entered t con user chan)).trans
    (alike_announced hListener (veiled_entered hVeiled user chan) hOwner hStay tag)).trans
      (.quiet (unheard_endJoin _ con other user chan chanop text)
        (unheard_endJoin _ con other user chan chanop text'))

theorem unheard_tellMembers (h : Listener s.toCore m con) {members : List ChanUser}
    (hMembers : ∀ member ∈ members, member.user ∈ s.users.values) {user : UserId}
    (hCloaked : (s.user user).cloaked = true) (tag : Nat) (body : Str) :
    Says (Message.Unheard con) s (s.tellMembers members user tag body) := by
  simp only [tellMembers]
  apply (Says.refl s).foldlSame
  · intro u member hMember hCore
    rw [hCore]
    by_cases hCon : (s.user member.user).con = con
    · rw [h.only _ (hMembers member hMember) hCon, hCloaked, h.level']
      simpa using Says.refl u
    · split
      · exact (Says.refl u).queueData (elsewhere hCon)
      · exact .refl u
  · intro u member
    split <;> rfl

/-- Of a cloaked user who joins, the listener is told nothing. -/
theorem unheard_joined (h : Listener s.toCore m con) {other : ConId} {user : UserId} {chan : ChanId}
    (hOther : other ≠ con) (hCloaked : (s.user user).cloaked = true) (hUser : user ∈ s.users.values)
    (hMembers : ∀ member ∈ (s.chan chan).users, member.user ∈ s.users.values) (tag : Nat)
    (chanop : Bool) : Says (Message.Unheard con) s (s.joined other tag user chan chanop) := by
  obtain ⟨text, hs⟩ := joined_eq s other tag user chan chanop
  obtain ⟨hListener, hStay⟩ := entered_facts h hUser hMembers
  have hEntered : ((s.entered user chan).user user).cloaked = true := by
    simp only [entered]
    split <;> simp [Core.enterChannel, Core.uninvite, hCloaked]
  rw [hs]
  refine ((unheard_entered s con user chan).trans ?_).trans
    (unheard_endJoin _ con other user chan chanop text)
  generalize s.entered user chan = u at hListener hStay hEntered
  simp only [announced, toCore_sendMembers, toCore_passMessageArgs]
  have hPassed := unheard_passMessageArgs hListener.peer (some other) tag
    (str ":" ++ (u.user user).nick ++ str " " ++ (u.chan chan).name)
  refine (hPassed.trans (unheard_sendMembers _ hOther user chan)).trans
    (@unheard_tellMembers _ m con ?_ _ ?_ _ ?_ _ _)
  · rwa [toCore_sendMembers, toCore_passMessageArgs]
  · rw [toCore_sendMembers, toCore_passMessageArgs]
    exact fun member hMember => hStay member (List.mem_of_mem_filter hMember)
  · rwa [toCore_sendMembers, toCore_passMessageArgs]

/-- How a request to join ends that finds no channel, or one, in two states. -/
inductive JoinAlike (con : ConId) (s t : Server) : JoinStep → JoinStep → Prop
  | stop {s' t' : Server} (hs : Says (Message.Unheard con) s s') (ht : Says (Message.Unheard con) t t') :
    JoinAlike con s t (.stop s') (.stop t')
  | again (name : Str) : JoinAlike con s t (.again name) (.again name)
  | known (chan : ChanId) (hChan : chan ∈ s.channels.values) (chanop : Bool) :
    JoinAlike con s t (.found s chan chanop) (.found t chan chanop)
  | new (name : Str) (chanop : Bool) : JoinAlike con s t
    (.found (s.onCore (·.newChannel name)) s.next chanop)
    (.found (t.onCore (·.newChannel name)) s.next chanop)

theorem alike_joinTry (hVeiled : Veiled m s.toCore t.toCore) (other : ConId) {user : UserId}
    (hSame : t.user user = s.user user) (bufLen : Nat) (name : Str) :
    JoinAlike con s t (s.joinTry other user bufLen name) (t.joinTry other user bufLen name) := by
  have hRefuse (c : ConId) (text : Str) : JoinAlike con s t
      (.stop (s.sendIfUser c msgServerNosuch text)) (.stop (t.sendIfUser c msgServerNosuch text)) :=
    .stop (unheard_sendIfUser text s) (unheard_sendIfUser text t)
  simp only [joinTry, hVeiled.channels, hSame, hVeiled.cfg, hVeiled.chan, hVeiled.next]
  cases hFound : s.channels.lookup name with
  | none =>
    simp only
    split
    · exact hRefuse _ _
    · split
      · exact hRefuse _ _
      · exact .new name false
  | some chan =>
    have hChan := Bucket.Table.mem_values_of_lookup hFound
    simp only
    split
    · exact hRefuse _ _
    · split
      · exact hRefuse _ _
      · split
        · split
          · exact hRefuse _ _
          · split
            · exact hRefuse _ _
            · split
              · split
                · exact hRefuse _ _
                · exact .again _
              · exact .known chan hChan _
        · exact .known chan hChan _

theorem alike_joinLoop (hVeiled : Veiled m s.toCore t.toCore) (other : ConId) {user : UserId}
    (hSame : t.user user = s.user user) (bufLen fuel : Nat) (name : Str) :
    JoinAlike con s t (s.joinLoop other user bufLen fuel name)
      (t.joinLoop other user bufLen fuel name) := by
  induction fuel generalizing name with
  | zero => exact .again name
  | succ fuel ih =>
    have hTry := @alike_joinTry s t m con hVeiled other user hSame bufLen name
    rw [joinLoop, joinLoop]
    generalize s.joinTry other user bufLen name = r at hTry
    generalize t.joinTry other user bufLen name = r' at hTry
    cases hTry with
    | stop hs ht => exact .stop hs ht
    | again next => exact ih next
    | known chan hChan chanop => exact .known chan hChan chanop
    | new name chanop => exact .new name chanop

theorem listener_newChannel (h : Listener s.toCore m con) (name : Str) :
    Listener (s.onCore (·.newChannel name)).toCore m con :=
  h.congr rfl rfl rfl rfl fun _ => rfl

theorem members_newChannel (s : Server) (name : Str) :
    ∀ member ∈ ((s.onCore (·.newChannel name)).chan s.next).users,
      member.user ∈ (s.onCore (·.newChannel name)).users.values := by
  intro member hMember
  simp [Core.newChannel] at hMember

theorem unheard_newChannel (s : Server) (con : ConId) (name : Str) :
    Says (Message.Unheard con) s (s.onCore (·.newChannel name)) := (Says.refl s).onCore

/-- A cloaked user's request to join is not heard of. -/
theorem unheard_join (h : Listener s.toCore m con) {other : ConId} {pkt : Str}
    (hPeopled : Peopled s.toCore other pkt) (hOther : other ≠ con)
    (hCloaked : ∀ user rest, s.popUser other pkt = some (user, rest) → (s.user user).cloaked = true)
    (tag bufLen fuel : Nat) : Says (Message.Unheard con) s (s.join other tag pkt bufLen fuel) := by
  simp only [join]
  cases hSender : s.popUser other pkt with
  | none => exact .refl s
  | some found =>
    obtain ⟨user, rest⟩ := found
    have hUser := (hPeopled.sender user rest hSender).1
    have hHidden := hCloaked user rest hSender
    cases rest with
    | none => exact unheard_sendIfUser _ s
    | some rest =>
      cases rest with
      | nil => exact unheard_sendIfUser _ s
      | cons c cs =>
        simp only
        split
        · exact unheard_sendIfUser _ s
        · split
          · exact unheard_sendIfUser _ s
          · generalize (if (c != '#' && c != '&') = true then ('#' :: c :: cs).take 255 else c :: cs) = name
            have hLoop := @alike_joinLoop s s m con (.refl m s.toCore) other user rfl bufLen fuel name
            generalize s.joinLoop other user bufLen fuel name = r at hLoop
            cases hLoop with
            | stop hs ht => exact hs
            | again => exact .refl s
            | known chan hChan chanop =>
              exact unheard_joined h hOther hHidden hUser (hPeopled.members chan hChan) tag chanop
            | new name chanop =>
              refine (unheard_newChannel s con name).trans ?_
              exact unheard_joined (listener_newChannel h name) hOther hHidden hUser
                (members_newChannel s name) tag chanop

theorem peopled_veiled (hVeiled : Veiled m s.toCore t.toCore) {other : ConId} {pkt pkt' : Str}
    (hPeopled : Peopled s.toCore other pkt) (hPop : t.popUser other pkt' = s.popUser other pkt) :
    Peopled t.toCore other pkt' where
  members chan hChan member hMember := by
    rw [hVeiled.channels] at hChan
    rw [hVeiled.chan] at hMember
    exact (hVeiled.online _).2 (hPeopled.members chan hChan member hMember)
  sender user rest hSender := by
    rw [hPop] at hSender
    obtain ⟨hUser, hChannels⟩ := hPeopled.sender user rest hSender
    refine ⟨(hVeiled.online user).2 hUser, ?_⟩
    rwa [hVeiled.joined, hVeiled.channels]

theorem alike_join (h : Listener s.toCore m con) (hVeiled : Veiled m s.toCore t.toCore)
    {other : ConId} {pkt pkt' : Str} (hPeopled : Peopled s.toCore other pkt)
    (hServer : s.isServer con = false) (hPop : t.popUser other pkt' = s.popUser other pkt)
    (tag bufLen fuel : Nat) :
    Alike con s (s.join other tag pkt bufLen fuel) t (t.join other tag pkt' bufLen fuel) := by
  -- the listener is the user of the own connection
  have hOwner (user : UserId) (rest : Option Str) (hSender : s.popUser other pkt = some (user, rest)) :
      other = con → user = m := by
    rintro rfl
    simp only [Core.popUser, hServer, Bool.false_eq_true, if_false, h.user, Option.map_some] at hSender
    cases hSender
    rfl
  cases hSender : s.popUser other pkt with
  | none =>
    simp only [join, hPop, hSender]
    exact .refl con s t
  | some found =>
    obtain ⟨user, rest⟩ := found
    rcases hVeiled.user user with hSame | ⟨hNe, hHidden⟩
    · have hUser := (hPeopled.sender user rest hSender).1
      simp only [join, hPop, hSender]
      cases rest with
      | none => exact alike_unparsable s t con other
      | some rest =>
        cases rest with
        | nil => exact alike_unparsable s t con other
        | cons c cs =>
          simp only [hSame, hVeiled.cfg]
          have hNotice (text : Str) : Alike con s (s.sendIfUser other msgServerNosuch text) t
              (t.sendIfUser other msgServerNosuch text) :=
            .quiet (unheard_sendIfUser text s) (unheard_sendIfUser text t)
          generalize (if (c != '#' && c != '&') = true then ('#' :: c :: cs).take 255 else c :: cs) = name
          split
          · exact hNotice _
          · split
            · exact hNotice _
            · have hLoop := @alike_joinLoop s t m con hVeiled other user hSame bufLen fuel name
              generalize s.joinLoop other user bufLen fuel name = r at hLoop
              generalize t.joinLoop other user bufLen fuel name = r' at hLoop
              cases hLoop with
              | stop hs ht => exact .quiet hs ht
              | again => exact .refl con s t
              | known chan hChan chanop =>
                exact alike_joined h hVeiled (hOwner user _ hSender) hUser
                  (hPeopled.members chan hChan) tag chanop
              | new name chanop =>
                have hNew : Veiled m (s.onCore (·.newChannel name)).toCore
                    (t.onCore (·.newChannel name)).toCore := hVeiled.newChannel name
                refine (Alike.quiet (unheard_newChannel s con name) (unheard_newChannel t con name)).trans ?_
                exact alike_joined (listener_newChannel h name) hNew (hOwner user _ hSender) hUser
                  (members_newChannel s name) tag chanop
    · have hOther : other ≠ con := fun hEq => hNe (hOwner user rest hSender hEq)
      apply Alike.quiet
      · apply unheard_join h hPeopled hOther
        intro v rest' hv
        rw [hSender] at hv
        cases hv
        exact hHidden.before
      · apply unheard_join (h.veiled hVeiled) (peopled_veiled hVeiled hPeopled hPop) hOther
        intro v rest' hv
        rw [hPop, hSender] at hv
        cases hv
        exact hHidden.after

/-! ### The list of members -/

theorem sent_namesList (s : Server) (con : ConId) (chan : ChanId) (l : List ChanUser) :
    (l.foldl (fun s member =>
      s.sendCmd con msgServerNamesList (memberText s.toCore chan member.user)) s).sent =
        s.sent ++ l.map fun member =>
          ⟨con, msgServerNamesList, clip (memberText s.toCore chan member.user)⟩ := by
  induction l generalizing s with
  | nil => simp
  | cons member l ih =>
    rw [List.foldl_cons, ih, List.map_cons]
    simp [sendCmd, queueData]

/-- The list that the listener is sent of a channel. -/
theorem heard_listUsers (h : Listener s.toCore m con) {pkt : Str} {chan : ChanId}
    (hFound : s.channels.lookup pkt = some chan) (hIn : chan ∈ (s.user m).channels) :
    (s.listUsers con pkt).heard con = s.heard con ++ (s.chan chan).users.map fun member =>
      ⟨con, msgServerNamesList, clip (memberText s.toCore chan member.user)⟩ := by
  have hContains : (s.user m).channels.contains chan = true := List.contains_iff_mem.2 hIn
  simp only [listUsers, h.user, hFound, hContains, Bool.not_true, Bool.false_eq_true, if_false]
  generalize hList : (s.chan chan).users.foldl (fun s member =>
    s.sendCmd con msgServerNamesList (memberText s.toCore chan member.user)) s = t
  have hEnd : (t.sendCmd con msgClientNamesList []).heard con = t.heard con :=
    heard_eq ((Says.refl t).sendCmd (unheard (by decide)))
  have hTag : channelTags.contains msgServerNamesList = true := by decide
  rw [hEnd, heard, ← hList, sent_namesList, List.filter_append]
  refine congrArg (_ ++ ·) (List.filter_eq_self.2 fun message hMessage => ?_)
  obtain ⟨member, -, rfl⟩ := List.mem_map.1 hMessage
  simp only [beq_self_eq_true, hTag, Bool.and_self]

/-- What does not fit behind the name of a channel is not sent. -/
theorem clip_memberText (s : Core) (chan : ChanId) (user : UserId) :
    clip (memberText s chan user) = ((s.chan chan).name ++ str " ").take 2043 ++
      ((s.user user).nick ++ str " " ++ showNat (s.user user).shared.toNat ++ str " " ++
        showNat (s.user user).speed).take (2042 - (s.chan chan).name.length) := by
  have hText : memberText s chan user = ((s.chan chan).name ++ str " ") ++
      ((s.user user).nick ++ str " " ++ showNat (s.user user).shared.toNat ++ str " " ++
        showNat (s.user user).speed) := by
    simp [memberText]
  have hLength : ((s.chan chan).name ++ str " ").length = (s.chan chan).name.length + 1 := by
    simp [str]
  rw [hText, clip, List.take_append, hLength]
  congr 2
  omega

end Server

/-! ### The requests -/

/-- The functions that tell members of a channel of each other. -/
inductive ChannelCall
  /-- `join` -/
  | join (con : ConId) (tag : Nat) (pkt : Str) (bufLen fuel : Nat)
  /-- `part_channel` -/
  | part (chan : ChanId) (user : UserId)
  /-- `list_users`, behind its `CHECK_USER_CLASS` -/
  | names (con : ConId) (pkt : Str)
  /-- `public` -/
  | publicMessage (con : ConId) (tag : Nat) (pkt : Str)
  /-- `emote` -/
  | emote (con : ConId) (tag : Nat) (pkt : Str)

/-- The connection is one that packets are read from, and the channel is there. -/
def ChannelCall.Valid (s : Core) : ChannelCall → Prop
  | .join con _ _ _ _ | .publicMessage con _ _ | .emote con _ _ | .names con _ =>
    (s.con con).allocated = true ∧ (s.con con).cls ≠ .unknown
  | .part chan _ => chan ∈ s.channels.values

/-- Two requests that are the same but for the name of the sender in the packet of a peer. -/
inductive SameCall (s t : Core) : ChannelCall → ChannelCall → Prop
  | join (con : ConId) (tag : Nat) {pkt pkt' : Str} (bufLen fuel : Nat)
    (hSender : t.popUser con pkt' = s.popUser con pkt) :
    SameCall s t (.join con tag pkt bufLen fuel) (.join con tag pkt' bufLen fuel)
  | part (chan : ChanId) (user : UserId) : SameCall s t (.part chan user) (.part chan user)
  | names (con : ConId) (pkt : Str) : SameCall s t (.names con pkt) (.names con pkt)
  | publicMessage (con : ConId) (tag : Nat) {pkt pkt' : Str}
    (hSender : t.popUser con pkt' = s.popUser con pkt) :
    SameCall s t (.publicMessage con tag pkt) (.publicMessage con tag pkt')
  | emote (con : ConId) (tag : Nat) {pkt pkt' : Str}
    (hSender : t.popUser con pkt' = s.popUser con pkt) :
    SameCall s t (.emote con tag pkt) (.emote con tag pkt')

/-- A list of members is asked for by a member of the channel in which somebody else is cloaked, and
the name of the channel leaves room for that of a member. -/
def Unveils (s : Core) (m : UserId) : ChannelCall → Prop
  | .names con pkt => con = (s.user m).con ∧ ∃ chan, s.channels.lookup pkt = some chan ∧
      chan ∈ (s.user m).channels ∧ (s.chan chan).name.length < 2042 ∧
      ∃ member ∈ (s.chan chan).users, member.user ≠ m ∧ (s.user member.user).cloaked = true
  | _ => False

namespace Server

open Message (unheard elsewhere)

variable {s t : Server} {m : UserId} {con : ConId}

/-- A request is served. -/
def call (s : Server) : ChannelCall → Server
  | .join con tag pkt bufLen fuel => s.join con tag pkt bufLen fuel
  | .part chan user => s.partChannel chan user
  | .names con pkt => if s.isUser con then s.listUsers con pkt else s
  | .publicMessage con tag pkt => s.publicMessage con tag pkt
  | .emote con tag pkt => s.emote con tag pkt

theorem unheard_listUsers (s : Server) {other : ConId} (hOther : other ≠ con) (pkt : Str) :
    Says (Message.Unheard con) s (s.listUsers other pkt) := by
  simp only [listUsers]
  split
  · exact .refl s
  · split
    · exact unheard_sendIfUser _ s
    · split
      · exact (Says.refl s).sendCmd (elsewhere hOther)
      · apply Says.sendCmd _ (elsewhere hOther)
        exact (Says.refl s).foldl (fun u member => (Says.refl u).sendCmd (elsewhere hOther)) _

theorem alike_listUsers (h : Listener s.toCore m con) (hVeiled : Veiled m s.toCore t.toCore)
    (hHome : con = (s.user m).con) {other : ConId} {pkt : Str}
    (hNot : ¬ Unveils s.toCore m (.names other pkt)) :
    Alike con s (s.listUsers other pkt) t (t.listUsers other pkt) := by
  by_cases hOther : other = con
  · subst hOther
    have hSame := hVeiled.seen (u := m) (.inr rfl)
    cases hFound : s.channels.lookup pkt with
    | none =>
      simp only [listUsers, hVeiled.con, hVeiled.channels, h.user, hFound]
      exact .quiet (unheard_sendIfUser _ s) (unheard_sendIfUser _ t)
    | some chan =>
      by_cases hIn : chan ∈ (s.user m).channels
      · have hFound' : t.channels.lookup pkt = some chan := by rw [hVeiled.channels, hFound]
        have hIn' : chan ∈ (t.user m).channels := by rwa [hSame]
        refine ⟨_, heard_listUsers h hFound hIn, ?_⟩
        rw [heard_listUsers (h.veiled hVeiled) hFound' hIn', hVeiled.chan]
        refine congrArg (_ ++ ·) (List.map_congr_left fun member hMember => ?_)
        refine congrArg (Message.mk other msgServerNamesList) ?_
        by_cases hShort : (s.chan chan).name.length < 2042
        · have hSeen : (s.user member.user).cloaked = false ∨ member.user = m := by
            by_contra hHidden
            rw [not_or] at hHidden
            exact hNot ⟨hHome, chan, hFound, hIn, hShort, member, hMember, hHidden.2, by
              simpa using hHidden.1⟩
          rw [hVeiled.memberText chan hSeen]
        · have hNone : 2042 - (s.chan chan).name.length = 0 := by omega
          rw [clip_memberText, clip_memberText, hVeiled.chan, hNone, List.take_zero, List.take_zero]
      · have hContains : (s.user m).channels.contains chan = false := by
          rw [← Bool.not_eq_true, List.contains_iff_mem]
          exact hIn
        simp only [listUsers, hVeiled.con, hVeiled.channels, h.user, hFound, hSame, hContains,
          Bool.not_false, if_true]
        exact .quiet ((Says.refl s).sendCmd (unheard (by decide))) ((Says.refl t).sendCmd (unheard (by decide)))
  · exact .quiet (unheard_listUsers s hOther pkt) (unheard_listUsers t hOther pkt)

theorem alike_call (hSound : Sound s.toCore) (h : Listener s.toCore m con) (hHome : con = (s.user m).con)
    (hServer : s.isServer con = false) {c c' : ChannelCall} (hValid : c.Valid s.toCore)
    (hVeiled : Veiled m s.toCore t.toCore) (hCall : SameCall s.toCore t.toCore c c')
    (hNot : ¬ Unveils s.toCore m c) : Alike con s (s.call c) t (t.call c') := by
  cases hCall with
  | join other tag bufLen fuel hSender =>
    exact alike_join h hVeiled (.of_sound hSound hValid.1 hValid.2 _) hServer hSender tag bufLen fuel
  | part chan user =>
    refine alike_partChannel h hVeiled (fun member hMember => ?_) user
    exact (hSound.membership.graph.listed chan hValid member.user (List.mem_map_of_mem hMember)).1
  | names other pkt =>
    simp only [call, hVeiled.isUser]
    by_cases hUser : s.isUser other = true
    · rw [if_pos hUser, if_pos hUser]
      exact alike_listUsers h hVeiled hHome hNot
    · rw [if_neg hUser, if_neg hUser]
      exact .refl con s t
  | publicMessage other tag hSender =>
    exact alike_publicMessage h hVeiled (.of_sound hSound hValid.1 hValid.2 _) hSender tag
  | emote other tag hSender =>
    exact alike_emote h hVeiled (.of_sound hSound hValid.1 hValid.2 _) hSender tag

/-- Another name for a cloaked user. -/
def renamed (s : Server) (w : UserId) (nick : Str) : Server :=
  s.onCore (·.modUser w fun u => { u with nick := nick })

theorem veiled_renamed (s : Server) {w : UserId} (hNe : w ≠ m) (hCloaked : (s.user w).cloaked = true)
    (nick : Str) : Veiled m s.toCore (s.renamed w nick).toCore := by
  refine ⟨fun _ => Iff.rfl, rfl, rfl, rfl, rfl, rfl, rfl, rfl, fun u => ?_⟩
  by_cases hu : u = w
  · subst hu
    refine .inr ⟨hNe, ?_⟩
    constructor <;> simp [renamed, hCloaked]
  · exact .inl (by simp [renamed, hu])

theorem sameCall_renamed {s : Server} (con : ConId) (hClient : s.isServer con = false) (w : UserId)
    (nick : Str) (tag : Nat) (pkt : Str) : SameCall s.toCore (s.renamed w nick).toCore
      (.publicMessage con tag pkt) (.publicMessage con tag pkt) := by
  have hClient' : (s.renamed w nick).isServer con = false := hClient
  refine .publicMessage con tag ?_
  simp only [Core.popUser, hClient, hClient', Bool.false_eq_true, if_false]
  rfl

/-- Under another name, a cloaked member changes the list. -/
theorem unveiled (h : Listener s.toCore m con) (hHome : con = (s.user m).con) {c : ChannelCall}
    (hUnveils : Unveils s.toCore m c) : ∃ t, Veiled m s.toCore t.toCore ∧
      SameCall s.toCore t.toCore c c ∧ ¬ Alike con s (s.call c) t (t.call c) := by
  cases c with
  | names other pkt =>
    obtain ⟨hOther, chan, hFound, hIn, hShort, member, hMember, hNe, hCloaked⟩ := hUnveils
    have hOther' : other = con := hOther.trans hHome.symm
    subst hOther'
    -- a letter that the name does not begin with
    obtain ⟨d, hd⟩ : ∃ d : Char, ((s.user member.user).nick ++ str " ").head? ≠ some d := by
      by_cases hFirst : ((s.user member.user).nick ++ str " ").head? = some 'a'
      · exact ⟨'b', by rw [hFirst]; decide⟩
      · exact ⟨'a', hFirst⟩
    have hVeiled := veiled_renamed s hNe hCloaked [d]
    refine ⟨s.renamed member.user [d], hVeiled, .names other pkt, ?_⟩
    rintro ⟨l, hs, ht⟩
    have hFound' : (s.renamed member.user [d]).channels.lookup pkt = some chan := hFound
    have hIn' : chan ∈ ((s.renamed member.user [d]).user m).channels := by
      rw [hVeiled.joined]
      exact hIn
    simp only [call, hVeiled.isUser, h.client, if_true] at hs ht
    rw [heard_listUsers h hFound hIn, List.append_cancel_left_eq] at hs
    rw [heard_listUsers (h.veiled hVeiled) hFound' hIn', List.append_cancel_left_eq, ← hs,
      hVeiled.chan, List.map_inj_left] at ht
    have hText := congrArg Message.body (ht member hMember)
    simp only [clip_memberText, hVeiled.chan, List.append_cancel_left_eq] at hText
    -- the first byte behind the name of the channel
    obtain ⟨k, hk⟩ : ∃ k, 2042 - (s.chan chan).name.length = k + 1 :=
      ⟨2041 - (s.chan chan).name.length, by omega⟩
    have hNick : ((s.renamed member.user [d]).user member.user).nick = [d] := by simp [renamed]
    have hHead := congrArg List.head? hText
    rw [hk, hNick] at hHead
    refine hd ?_
    cases hOld : (s.user member.user).nick with
    | nil =>
      rw [hOld] at hHead
      simpa [str] using hHead.symm
    | cons e es =>
      rw [hOld] at hHead
      simpa [str] using hHead.symm
  | _ => exact hUnveils.elim

/-- A local user below moderator is told the same by a function about a channel whoever the cloaked
others are, unless the user asks for the list of a channel that one of them is in. -/
theorem hidden_iff (f : Startup) (events : List Event) (m : UserId) (c : ChannelCall) :
    let s := Server.reach f events
    m ∈ s.users.values → (s.user m).isLocal = true → (s.user m).level < .moderator →
      c.Valid s.toCore →
      ((∀ (t : Server) (c' : ChannelCall), Veiled m s.toCore t.toCore →
          SameCall s.toCore t.toCore c c' → Alike (s.user m).con s (s.call c) t (t.call c')) ↔
        ¬ Unveils s.toCore m c) := by
  intro s hOnline hLocal hLevel hValid
  have hSound : Sound s.toCore := reach_sound f events
  obtain ⟨hOpen, hClass, hOwner⟩ := hSound.registry.home m hOnline hLocal
  have hListener : Listener s.toCore m (s.user m).con := by
    refine ⟨by simp [Core.isUser, hClass], hOwner, fun hPeer => ?_, hLevel, fun u hu hCon => ?_⟩
    · rw [(hSound.registry.linked _ hPeer).2] at hClass
      cases hClass
    · cases hLocal' : (s.user u).isLocal with
      | true =>
        have hTheirs := (hSound.registry.home u hu hLocal').2.2
        rw [hCon, hOwner] at hTheirs
        exact (Option.some.inj hTheirs).symm
      | false =>
        have hBehind := (hSound.registry.behind u hu hLocal').2
        rw [hCon, hClass] at hBehind
        cases hBehind
  have hServer : s.isServer (s.user m).con = false := by simp [Core.isServer, hClass]
  constructor
  · intro hAll hUnveils
    obtain ⟨t, hVeiled, hCall, hNot⟩ := unveiled hListener rfl hUnveils
    exact hNot (hAll t c hVeiled hCall)
  · intro hNot t c' hVeiled hCall
    exact alike_call hSound hListener rfl hServer hValid hVeiled hCall hNot

/-- A cloaked moderator is in a channel with a user. -/
def cloakedMember : List Event :=
  eliteOnline ++
    [.packet 1 .cloak [] {}, .packet 1 .join (str "#c") {}, .accept 3 (str "client") 6699 8888,
      .packet 4 .login (str "ann pw 6699 \"client\" 3") {}, .packet 4 .join (str "#c") {}]

/-- The cloaked moderator speaks, under two names. -/
theorem hidden_iff_spoken :
    let s := Server.reach (accountOf .moderator false) cloakedMember
    let c := ChannelCall.publicMessage 1 msgClientPublic (str "#c hello")
    let t := s.renamed 2 (str "bob")
    (s.user 2).cloaked = true ∧ Alike (s.user 5).con s (s.call c) t (t.call c) := by
  have hCloaked : ((Server.reach (accountOf .moderator false) cloakedMember).user 2).cloaked = true := by
    decide +kernel
  have hHidden := (hidden_iff (accountOf .moderator false) cloakedMember 5
    (.publicMessage 1 msgClientPublic (str "#c hello")) (by decide +kernel) (by decide +kernel)
    (by decide +kernel) ⟨by decide +kernel, by decide +kernel⟩).2 id
  exact ⟨hCloaked, hHidden _ _ (veiled_renamed _ (by decide) hCloaked (str "bob"))
    (sameCall_renamed 1 (by decide +kernel) 2 (str "bob") _ _)⟩

/-- The list of members gives the name of a cloaked moderator to a user, and is another one when
another moderator is there. -/
theorem cloaked_listed :
    let s := Server.reach (accountOf .moderator false) cloakedMember
    let c := ChannelCall.names 4 (str "#c")
    let t := s.renamed 2 (str "bob")
    ((s.user 2).cloaked = true ∧ (s.user 5).con = 4 ∧ (s.user 5).level = .user) ∧
      s.heard 4 = t.heard 4 ∧
      ⟨4, msgServerNamesList, str "#c joe 0 3"⟩ ∈ (s.call c).heard 4 ∧
      (s.call c).heard 4 ≠ (t.call c).heard 4 := by
  decide +kernel

end Server

end OpenNap
