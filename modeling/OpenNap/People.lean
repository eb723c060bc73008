import OpenNap.Link
import OpenNap.Registry

/-! The commands between servers that are about a user, but leave alone who is on line: what a
server says about a user after the user's login, and what answers that. -/

namespace OpenNap

open CText

/-- A user with only what tells it from others. -/
def User.who (u : User) : User :=
  { nick := u.nick, server := u.server, connected := u.connected, isLocal := u.isLocal, con := u.con }

/-- From `s` to `t` no user comes or goes, and the connections stay as they are. -/
structure SamePeople (s t : Core) : Prop where
  cfg : t.cfg = s.cfg
  users : t.users = s.users
  servers : t.servers = s.servers
  con : t.con = s.con
  hot : t.hot = s.hot
  hotlists : t.hotlists = s.hotlists
  who : ∀ u, (t.user u).who = (s.user u).who

namespace SamePeople

theorem refl (s : Core) : SamePeople s s := ⟨rfl, rfl, rfl, rfl, rfl, rfl, fun _ => rfl⟩

theorem trans {s t u : Core} (h1 : SamePeople s t) (h2 : SamePeople t u) : SamePeople s u where
  cfg := h2.cfg.trans h1.cfg
  users := h2.users.trans h1.users
  servers := h2.servers.trans h1.servers
  con := h2.con.trans h1.con
  hot := h2.hot.trans h1.hot
  hotlists := h2.hotlists.trans h1.hotlists
  who x := (h2.who x).trans (h1.who x)

theorem modUser (s : Core) (user : UserId) {f : User → User} (h : ∀ u, (f u).who = u.who) :
    SamePeople s (s.modUser user f) := by
  refine { refl s with who := fun u => ?_ }
  by_cases hu : u = user
  · simp [hu, h]
  · simp [hu]

theorem modDb (s : Core) (db : UserDbId) (f : UserDb → UserDb) : SamePeople s (s.modDb db f) :=
  { refl s with }

theorem chan {s t : Core} (h : ChanStep s t) : SamePeople s t where
  cfg := (congrArg Core.cfg h.rest :)
  users := (congrArg Core.users h.rest :)
  servers := (congrArg Core.servers h.rest :)
  con := (congrArg Core.con h.rest :)
  hot := (congrArg Core.hot h.rest :)
  hotlists := (congrArg Core.hotlists h.rest :)
  who u := (congrArg User.who (congrFun (congrArg Core.user h.rest) u) :)

theorem isUser {s t : Core} (h : SamePeople s t) (con : ConId) : t.isUser con = s.isUser con := by
  simp only [Core.isUser, h.con]

theorem linkedTo {s t : Core} (h : SamePeople s t) {link : ConId} {peer : Str}
    (hLinked : LinkedTo s link peer) : LinkedTo t link peer where
  opened := by rw [h.con]; exact hLinked.opened
  cls := by rw [h.con]; exact hLinked.cls
  listed := by rw [h.servers]; exact hLinked.listed
  host := by rw [h.con]; exact hLinked.host

end SamePeople

/-- The commands about a user that leave alone who is on line: those that follow the login in what
a server says about a user, and those that answer them. -/
def minorCommands : List Command :=
  [.level, .cloak, .muzzle, .userSharing, .join, .reginfo, .notifyMods]

def Minor (m : Message) : Prop := ∃ cmd ∈ minorCommands, m.tag = cmd.tag

/-- From `s` to `t` it is left alone who is on line, and what is queued for the link does not
concern it either. -/
structure Mild (link : ConId) (s t : Server) : Prop where
  people : SamePeople s.toCore t.toCore
  told : ∀ m ∈ t.queued link, m ∈ s.queued link ∨ Minor m

namespace Mild

variable {link : ConId} {s t : Server}

theorem refl (link : ConId) (s : Server) : Mild link s s := ⟨.refl _, fun _ => .inl⟩

theorem trans {u : Server} (h1 : Mild link s t) (h2 : Mild link t u) : Mild link s u where
  people := h1.people.trans h2.people
  told _ hm := (h2.told _ hm).elim (h1.told _) .inr

/-- A step that queues nothing for the link. -/
theorem silent (h : Mild link s t) {u : Server} (hPeople : SamePeople t.toCore u.toCore)
    (hQueued : u.queued link = t.queued link) : Mild link s u :=
  h.trans ⟨hPeople, fun _ hm => .inl (hQueued ▸ hm)⟩

theorem onCore (h : Mild link s t) {f : Core → Core} (hPeople : SamePeople t.toCore (f t.toCore)) :
    Mild link s (t.onCore f) := h.silent hPeople rfl

theorem modUser (h : Mild link s t) (user : UserId) {f : User → User} (hWho : ∀ u, (f u).who = u.who) :
    Mild link s (t.onCore (·.modUser user f)) := h.onCore (.modUser _ user hWho)

theorem modDb (h : Mild link s t) (db : UserDbId) (f : UserDb → UserDb) :
    Mild link s (t.onCore (·.modDb db f)) := h.onCore (.modDb _ db f)

theorem passOthers (h : Mild link s t) (tag : Nat) (body : Str) :
    Mild link s (t.passMessageArgs (some link) tag body) :=
  h.silent (by rw [Server.toCore_passMessageArgs]; exact .refl _)
    (Server.queued_passMessageArgs_except tag body)

theorem passAll (h : Mild link s t) (cmd : Command) (hMinor : cmd ∈ minorCommands) (body : Str) :
    Mild link s (t.passMessageArgs none cmd.tag body) := by
  refine h.trans ⟨by rw [Server.toCore_passMessageArgs]; exact .refl _, fun m hm => ?_⟩
  rw [Server.queued_passMessageArgs] at hm
  refine (List.mem_append.1 hm).imp_right fun hm => ⟨cmd, hMinor, ?_⟩
  rw [(List.mem_replicate.1 hm).2]

theorem sendCmd (h : Mild link s t) (cmd : Command) (hMinor : cmd ∈ minorCommands) (con : ConId)
    (body : Str) : Mild link s (t.sendCmd con cmd.tag body) := by
  refine h.trans ⟨.refl _, fun m hm => ?_⟩
  rw [Server.sendCmd, Server.queued_queueData] at hm
  refine (List.mem_append.1 hm).imp_right fun hm => ⟨cmd, hMinor, ?_⟩
  split at hm
  · rw [List.mem_singleton.1 hm]
  · cases hm

/-! What goes to local users is nothing for the link. -/

variable (hUser : s.isUser link = false)
include hUser

theorem isUser (h : Mild link s t) : t.isUser link = false := by rw [h.people.isUser, hUser]

theorem sendIfUser (h : Mild link s t) (con : ConId) (tag : Nat) (body : Str) :
    Mild link s (t.sendIfUser con tag body) :=
  h.silent (by rw [Server.toCore_sendIfUser]; exact .refl _)
    (Server.queued_sendIfUser (h.isUser hUser) con tag body)

theorem notifyMods (h : Mild link s t) (mode : Nat) (body : Str) :
    Mild link s (t.notifyMods mode body) :=
  h.silent (by rw [Server.toCore_notifyMods]; exact .refl _)
    (Server.queued_notifyMods (h.isUser hUser) mode body)

theorem notifyOps (h : Mild link s t) (chan : ChanId) (body : Str) :
    Mild link s (t.notifyOps chan body) :=
  h.silent (by rw [Server.toCore_notifyOps]; exact .refl _)
    (Server.queued_notifyOps (h.isUser hUser) chan body)

end Mild

namespace Server

variable {s : Server} {link : ConId} (hUser : s.isUser link = false)
include hUser

theorem dropCloak_mild {t : Server} (h : Mild link s t) (user : UserId) (level : Level) :
    Mild link s (t.dropCloak user level) := by
  unfold dropCloak
  split
  · refine Mild.sendIfUser hUser (Mild.notifyMods hUser ?_ _ _) _ _ _
    exact h.modUser user fun _ => rfl
  · exact h

theorem changeLevel_mild {t : Server} (h : Mild link s t) (tag : Nat) (sender : Str)
    (senderUser : Option UserId) (db : UserDbId) (user : Option UserId) (level : Level) :
    Mild link s (t.changeLevel link tag sender senderUser db user level) := by
  have hRecord : Mild link s (t.onCore (·.setDbLevel db level)) := h.modDb db _
  have hTold (body notice : Str) :=
    (hRecord.passOthers tag body).notifyMods hUser levellogMode notice
  cases user with
  | none => exact hTold _ _
  | some user =>
    have hOnLine (con : ConId) (body notice text : Str) :=
      ((hTold body notice).sendIfUser hUser con msgServerNosuch text).modUser user
        (f := fun u => { u with level := level }) fun _ => rfl
    exact dropCloak_mild hUser (hOnLine _ _ _ _) user level

theorem stampLevel_mild {t : Server} (h : Mild link s t) (tag : Nat) (sender : Str)
    (senderUser : Option UserId) (stamp : Option Str) (db : UserDbId) (user : Option UserId)
    (level : Level) :
    Mild link s (t.stampLevel link tag sender senderUser stamp db user level) := by
  unfold stampLevel
  simp only
  split
  · exact h.sendCmd .level (by decide) _ _
  · have hStamp : Mild link s (t.onCore (·.setStamp db (peerStamp t.toCore link stamp))) := by
      refine h.onCore ?_
      cases peerStamp t.toCore link stamp with
      | none => exact .refl _
      | some ts => exact .modDb _ db fun r => { r with timestamp := ts }
    split
    · exact hStamp.sendIfUser hUser _ _ _
    · exact changeLevel_mild hUser hStamp _ _ _ _ _ _

theorem level_mild (tag : Nat) (pkt random : Str) : Mild link s (s.level link tag pkt random) := by
  have hSame := Mild.refl link s
  unfold level
  split
  · exact hSame
  · split
    · split
      · exact hSame.sendIfUser hUser _ _ _
      · simp only
        split
        · exact hSame.sendIfUser hUser _ _ _
        · split
          · split
            · exact hSame
            · split
              · exact hSame
              · exact stampLevel_mild hUser hSame _ _ _ _ _ _ _
          · split
            · exact hSame.sendIfUser hUser _ _ _
            · split
              · exact hSame
              · exact stampLevel_mild hUser (hSame.onCore { SamePeople.refl _ with }) _ _ _ _ _ _ _
    · exact hSame.sendIfUser hUser _ _ _

theorem cloak_mild (tag : Nat) (pkt : Str) : Mild link s (s.cloak link tag pkt) := by
  have hSame := Mild.refl link s
  unfold cloak
  split
  · exact hSame
  · split
    · exact hSame.sendIfUser hUser _ _ _
    · split
      · exact hSame
      · have hToggled (user : UserId) :
            Mild link s (s.onCore (·.modUser user fun u => { u with cloaked := !u.cloaked })) :=
          hSame.modUser user fun _ => rfl
        simp only
        split
        · exact hToggled _
        · refine Mild.sendIfUser hUser (Mild.notifyMods hUser (Mild.passOthers ?_ _ _) _ _) _ _ _
          exact (hToggled _).modDb _ _

omit hUser in
theorem markMuzzled_mild {t : Server} (h : Mild link s t) (user : Option UserId) (db : UserDbId)
    (value : Bool) : Mild link s (t.markMuzzled user db value) := by
  refine h.onCore ?_
  cases user with
  | none => exact .modDb _ db _
  | some user =>
    have hOnLine := SamePeople.modUser t.toCore user (f := fun u => { u with muzzled := value }) fun _ => rfl
    exact hOnLine.trans (.modDb _ db _)

theorem tellMuzzled_mild {t : Server} (h : Mild link s t) (tag : Nat) (sender : Str)
    (senderUser user : Option UserId) (nick reason : Str) :
    Mild link s (t.tellMuzzled link tag sender senderUser user nick reason) := by
  refine Mild.notifyMods hUser ?_ _ _
  cases user with
  | none => exact h.passOthers _ _
  | some user => exact (h.passOthers _ _).sendIfUser hUser _ _ _

theorem muzzle_mild (tag : Nat) (pkt random : Str) : Mild link s (s.muzzle link tag pkt random) := by
  have hSame := Mild.refl link s
  unfold muzzle
  split
  · exact hSame
  · split
    · simp only
      split
      · exact hSame.sendIfUser hUser _ _ _
      · split
        · exact hSame.sendIfUser hUser _ _ _
        · split
          · have hRecord (user : UserId) : Mild link s (s.onCore (·.createDb user random)) :=
              hSame.onCore { SamePeople.refl _ with }
            split
            · split
              · exact (hRecord _).sendIfUser hUser _ _ _
              · exact tellMuzzled_mild hUser (markMuzzled_mild (hRecord _) _ _ _) _ _ _ _ _ _
            · split
              · exact hSame.sendIfUser hUser _ _ _
              · exact tellMuzzled_mild hUser (markMuzzled_mild hSame _ _ _) _ _ _ _ _ _
          · split
            · exact hSame.sendIfUser hUser _ _ _
            · split
              · exact hSame.sendIfUser hUser _ _ _
              · exact tellMuzzled_mild hUser (markMuzzled_mild hSame _ _ _) _ _ _ _ _ _
    · exact hSame.sendIfUser hUser _ _ _

omit hUser in
theorem userSharing_mild (tag : Nat) (pkt : Str) : Mild link s (s.userSharing link tag pkt) := by
  unfold userSharing
  split
  · split
    · exact .refl link s
    · refine Mild.passOthers ?_ _ _
      have hCounted (user : UserId) (files gigs : Int) (shared : UInt16) (libsize : UInt32) :
          SamePeople s.toCore ({ s.toCore with numFiles := files, numGigs := gigs }.modUser user
            fun u => { u with shared := shared, libsize := libsize }) := by
        refine SamePeople.trans ?_ (.modUser _ user fun _ => rfl)
        exact { SamePeople.refl _ with }
      split
      · exact (Mild.refl link s).onCore (hCounted _ _ _ _ _)
      · exact (Mild.refl link s).onCore (hCounted _ _ _ _ _)
  · exact .refl link s

omit hUser in
theorem storeReginfo_mild {t : Server} (h : Mild link s t) (tag : Nat) (db : UserDbId)
    (server nick pass email level timestamp lastSeen : Str) :
    Mild link s (t.storeReginfo link tag db server nick pass email level timestamp lastSeen) :=
  (h.passOthers _ _).modDb db _

omit hUser in
theorem reginfo_mild (tag : Nat) (pkt : Str) : Mild link s (s.reginfo link tag pkt) := by
  have hSame := Mild.refl link s
  unfold reginfo
  split
  · split
    · exact hSame
    · split
      · split
        · split
          · exact hSame.passAll .reginfo (by decide) _
          · exact storeReginfo_mild hSame _ _ _ _ _ _ _ _ _
        · split
          · exact hSame
          · exact storeReginfo_mild (hSame.onCore { SamePeople.refl _ with }) _ _ _ _ _ _ _ _ _
      · exact hSame
  · exact hSame

theorem remoteNotifyMods_mild (tag : Nat) (pkt : Str) :
    Mild link s (s.remoteNotifyMods link tag pkt) := by
  unfold remoteNotifyMods
  split
  · exact ((Mild.refl link s).notifyMods hUser _ _).passOthers _ _
  · exact .refl link s

/-! ### Joining -/

theorem queued_tellMembers (members : List ChanUser) (user : UserId) (tag : Nat) (body : Str) :
    (s.tellMembers members user tag body).queued link = s.queued link := by
  refine queued_foldl members fun t hSame member => ?_
  simp only
  split
  · rename_i hTo
    have hNe : (t.user member.user).con ≠ link := by
      intro hEq
      rw [hEq, hSame, hUser] at hTo
      cases hTo
    exact ⟨hSame, by rw [queued_queueData, if_neg hNe, List.append_nil]⟩
  · exact ⟨hSame, rfl⟩

theorem tellMembers_mild {t : Server} (h : Mild link s t) (members : List ChanUser) (user : UserId)
    (tag : Nat) (body : Str) : Mild link s (t.tellMembers members user tag body) :=
  h.silent (by rw [toCore_tellMembers]; exact .refl _)
    (queued_tellMembers (h.isUser hUser) members user tag body)

theorem sendMembers_mild {t : Server} (h : Mild link s t) (user : UserId) (chan : ChanId) :
    Mild link s (t.sendMembers link user chan) := by
  simp only [sendMembers, h.isUser hUser, Bool.false_eq_true, if_false]
  exact h

theorem sendTopic_mild {t : Server} (h : Mild link s t) (chan : ChanId) (chanop : Bool) :
    Mild link s (t.sendTopic link chan chanop) := by
  simp only [sendTopic, h.isUser hUser, Bool.false_eq_true, if_false]
  exact h

/-- What a pass through the loop of `join` leaves behind is mild. -/
def MildStep (link : ConId) (s : Server) : JoinStep → Prop
  | .stop t => Mild link s t
  | .found t _ _ => Mild link s t
  | .again _ => True

theorem joinTry_mild (user : UserId) (bufLen : Nat) (name : Str) :
    MildStep link s (s.joinTry link user bufLen name) := by
  have hSame := Mild.refl link s
  have hSend (con : ConId) (text : Str) := hSame.sendIfUser hUser con msgServerNosuch text
  simp only [joinTry]
  split
  · split
    · exact hSend _ _
    · split
      · exact hSend _ _
      · exact hSame.onCore (.chan (s.toCore.chanStep_newChannel name))
  · split
    · exact hSend _ _
    · split
      · exact hSend _ _
      · split
        · split
          · exact hSend _ _
          · split
            · exact hSend _ _
            · split
              · split
                · exact hSend _ _
                · trivial
              · exact hSame
        · exact hSame

theorem joinLoop_mild (user : UserId) (bufLen fuel : Nat) (name : Str) :
    MildStep link s (s.joinLoop link user bufLen fuel name) := by
  induction fuel generalizing name with
  | zero => trivial
  | succ fuel ih =>
    have hTry := joinTry_mild hUser user bufLen name
    simp only [joinLoop]
    cases hStep : s.joinTry link user bufLen name with
    | again next => exact ih next
    | stop t => rwa [hStep] at hTry
    | found t chan chanop => rwa [hStep] at hTry

theorem joined_mild {t : Server} (h : Mild link s t) (tag : Nat) (user : UserId) (chan : ChanId)
    (chanop : Bool) : Mild link s (t.joined link tag user chan chanop) := by
  unfold joined
  refine sendTopic_mild hUser ?_ _ _
  have hUninvited : Mild link s
      (if (t.chan chan).onInvite then t.onCore (·.uninvite user chan) else t) := by
    split
    · refine h.onCore (.chan ?_)
      simp only [Core.uninvite]
      exact (t.toCore.chanStep_modChan chan _).trans (Core.chanStep_modUser _ user rfl)
    · exact h
  have hEntered := hUninvited.onCore (f := (·.enterChannel user chan))
    (.chan (Core.chanStep_enterChannel _ user chan))
  have hTold (body text : Str) (others : List ChanUser) :=
    tellMembers_mild hUser (sendMembers_mild hUser (hEntered.passOthers tag body) user chan) others user
      msgServerJoin text
  split
  · exact ((hTold _ _ _).notifyOps hUser _ _).onCore (.chan (Core.chanStep_modChan _ chan _))
  · exact hTold _ _ _

theorem join_mild (tag : Nat) (pkt : Str) (bufLen fuel : Nat) :
    Mild link s (s.join link tag pkt bufLen fuel) := by
  have hSame := Mild.refl link s
  unfold join
  split
  · exact hSame
  · exact hSame.sendIfUser hUser _ _ _
  · exact hSame.sendIfUser hUser _ _ _
  · rename_i user c cs _
    simp only
    split
    · exact hSame.sendIfUser hUser _ _ _
    · split
      · exact hSame.sendIfUser hUser _ _ _
      · have hLoop := joinLoop_mild hUser user bufLen fuel
          (if c != '#' && c != '&' then ('#' :: c :: cs).take 255 else c :: cs)
        split
        · exact hSame
        · rename_i hStep
          rwa [hStep] at hLoop
        · rename_i hStep
          rw [hStep] at hLoop
          exact joined_mild hUser hLoop _ _ _ _

/-- On a link, a message of one of these commands leaves alone who is on line. -/
theorem dispatch_mild {cmd : Command} (hMinor : cmd ∈ minorCommands) (pkt : Str) (env : Env) :
    Mild link s (s.dispatch link cmd pkt env) := by
  have hGuard {c : Prop} [Decidable c] {t : Server} (h : Mild link s t) :
      Mild link s (if c then t else s) := by
    split
    · exact h
    · exact .refl link s
  simp only [minorCommands, List.mem_cons, List.not_mem_nil, or_false] at hMinor
  rcases hMinor with rfl | rfl | rfl | rfl | rfl | rfl | rfl
  · exact level_mild hUser _ _ _
  · exact cloak_mild hUser _ _
  · exact muzzle_mild hUser _ _ _
  · exact hGuard (userSharing_mild _ _)
  · exact join_mild hUser _ _ _ _
  · exact hGuard (reginfo_mild _ _)
  · exact remoteNotifyMods_mild hUser _ _

omit hUser in
theorem party_minor {s t : Server} {link : ConId} {peer : Str} (h : LinkedTo s.toCore link peer)
    {m : Message} {out : List Message} (hParty : party link s m t out) (hMinor : Minor m) :
    SamePeople s.toCore t.toCore ∧ ∀ o ∈ out, Minor o := by
  obtain ⟨cmd, hCmd, hTag⟩ := hMinor
  obtain ⟨seconds, env, rfl, rfl⟩ := party_linked h hParty cmd hTag
  have hUser : (s.reading seconds).isUser link = false := h.isUser
  have hMild := dispatch_mild hUser hCmd m.body env
  have hReading : SamePeople s.toCore (s.reading seconds).toCore := { SamePeople.refl _ with }
  exact ⟨hReading.trans hMild.people,
    fun o ho => (hMild.told o ho).resolve_left (by simp)⟩

end Server

end OpenNap
