import OpenNap.Invitations

/-! Who gets into a channel.  The checks of `join` are spread over a loop that may go on to another
channel; whatever way it takes, the channel that it ends on has passed all of them.  A request that
lets nobody in leaves the channels, their members and the invitations as they are. -/

namespace OpenNap

open CText

/-- The checks that operators of the channel and moderators are not subject to. -/
structure Cleared (c : Channel) (u : User) (chan : ChanId) : Prop where
  notBanned : ∀ ban ∈ c.bans, globMatch ban.target (userMask u.nick (myNtoa u.ip)) = false
  invited : c.onInvite = true → chan ∈ u.invited
  room : 0 < c.limit → c.users.length < c.limit.toNat

/-- What `join` has checked of a user whom it lets into a channel that is there. -/
structure LetsIn (c : Channel) (u : User) (chan : ChanId) : Prop where
  absent : chan ∉ u.channels
  level : c.level ≤ u.level
  cleared : u.level < .moderator → (∀ op ∈ c.ops, sameText u.nick op = false) → Cleared c u chan

/-- What the user shares plays no part. -/
theorem LetsIn.sharing {c : Channel} {u v : User} {chan : ChanId} (h : LetsIn c v chan)
    (hSame : { v with sharing := false, unsharing := false } =
      { u with sharing := false, unsharing := false }) : LetsIn c u chan := by
  have hBlank : LetsIn c { v with sharing := false, unsharing := false } chan :=
    ⟨h.absent, h.level, fun hLow hNoOp =>
      have hClear := h.cleared hLow hNoOp
      ⟨hClear.notBanned, hClear.invited, hClear.room⟩⟩
  rw [hSame] at hBlank
  exact ⟨hBlank.absent, hBlank.level, fun hLow hNoOp =>
    have hClear := hBlank.cleared hLow hNoOp
    ⟨hClear.notBanned, hClear.invited, hClear.room⟩⟩

namespace Core

/-- The channels, their members and who is invited to them are the same. -/
structure SameLists (s t : Core) : Prop where
  channels : t.channels = s.channels
  chan : t.chan = s.chan
  joined : ∀ u, (t.user u).channels = (s.user u).channels
  invited : ∀ u, (t.user u).invited = (s.user u).invited

/-- The user gets an entry for the channel, or the channel one for the user. -/
def Enters (s t : Core) (user : UserId) (chan : ChanId) : Prop :=
  (s.user user).channels.count chan < (t.user user).channels.count chan ∨
    (s.chan chan).members.count user < (t.chan chan).members.count user

/-- The user is let in. -/
def letIn (s : Core) (user : UserId) (chan : ChanId) (chanop : Bool) : Core :=
  let t := if (s.chan chan).onInvite then s.uninvite user chan else s
  let t := t.enterChannel user chan
  if chanop then t.setOperator chan user true else t

section

variable (s : Core) (user : UserId) (chan : ChanId) (chanop : Bool)

theorem channels_letIn : (s.letIn user chan chanop).channels = s.channels := by
  cases chanop <;> cases hInvite : (s.chan chan).onInvite <;>
    simp [letIn, hInvite, enterChannel, uninvite, setOperator]

/-- Only the user gets an entry, and for that channel. -/
theorem user_letIn (u : UserId) : ((s.letIn user chan chanop).user u).channels =
    if u = user then chan :: (s.user user).channels else (s.user u).channels := by
  cases chanop <;> cases hInvite : (s.chan chan).onInvite <;> by_cases hu : u = user <;>
    simp [letIn, hInvite, enterChannel, uninvite, setOperator, hu]

/-- The channel gets the entry of the user, and no other one changes. -/
theorem members_letIn (c : ChanId) : ((s.letIn user chan chanop).chan c).members =
    if c = chan then user :: (s.chan chan).members else (s.chan c).members := by
  have hOperator (t : Core) (value : Bool) (c : ChanId) :
      ((t.setOperator chan user value).chan c).members = (t.chan c).members := by
    by_cases hc : c = chan
    · have hKeep : (fun member : ChanUser => (if member.user = user then
          { member with operator := value } else member).user) = fun member => member.user := by
        funext member
        split <;> rfl
      simp [hc, setOperator, Channel.members, Function.comp_def, hKeep]
    · simp [setOperator, hc]
  have hUninvite (d : ChanId) : ((s.uninvite user chan).chan d).members = (s.chan d).members := by
    by_cases hd : d = chan <;> simp [uninvite, hd, Channel.members]
  cases chanop <;> cases hInvite : (s.chan chan).onInvite <;> by_cases hc : c = chan <;>
    simp [letIn, hInvite, hOperator, members_enterChannel, hUninvite, hc]

/-- An invitation to a channel that asks for one is used up. -/
theorem invited_letIn (h : (s.chan chan).onInvite = true) :
    ((s.letIn user chan chanop).user user).invited = (s.user user).invited.erase chan ∧
      ((s.letIn user chan chanop).chan chan).invited = (s.chan chan).invited.erase user := by
  cases chanop <;> simp [letIn, h, enterChannel, uninvite, setOperator]

/-- Nobody else gets an entry, and none for another channel. -/
theorem of_enters_letIn {u : UserId} {c : ChanId} (h : s.Enters (s.letIn user chan chanop) u c) :
    u = user ∧ c = chan := by
  by_cases hUser : u = user <;> by_cases hChan : c = chan
  · exact ⟨hUser, hChan⟩
  · refine absurd h (not_or.2 ⟨?_, ?_⟩)
    · have hOther : ¬ chan = c := fun hEq => hChan hEq.symm
      simp [user_letIn, hUser, hOther]
    · simp [members_letIn, hChan]
  · refine absurd h (not_or.2 ⟨?_, ?_⟩)
    · simp [user_letIn, hUser]
    · have hOther : ¬ user = u := fun hEq => hUser hEq.symm
      simp [members_letIn, hChan, hOther]
  · refine absurd h (not_or.2 ⟨?_, ?_⟩)
    · simp [user_letIn, hUser]
    · simp [members_letIn, hChan]

theorem enters_letIn : s.Enters (s.letIn user chan chanop) user chan := by
  left
  rw [user_letIn, if_pos rfl, List.count_cons_self]
  exact Nat.lt_succ_self _

end

/-- Entries are counted in these lists alone. -/
theorem SameLists.enters {s r t : Core} (h : s.SameLists r) (user : UserId) (chan : ChanId) :
    r.Enters t user chan ↔ s.Enters t user chan := by
  rw [Enters, Enters, h.joined, h.chan]

end Core

namespace Server

variable {s t : Server} {con : ConId} {user : UserId} {bufLen fuel : Nat} {name : Str} {chan : ChanId}
  {chanop : Bool}

/-- A pass that finds a channel has made all checks of it, unless the channel is created. -/
theorem joinTry_found (h : s.joinTry con user bufLen name = .found t chan chanop) :
    (t = s ∧ chan ∈ s.channels.values ∧ LetsIn (s.chan chan) (s.user user) chan) ∨
      ∃ name, t = s.onCore (·.newChannel name) ∧ chan = s.next := by
  simp only [joinTry] at h
  split at h
  · right
    split at h
    · cases h
    · split at h
      · cases h
      · cases h
        exact ⟨name, rfl, rfl⟩
  · rename_i c hLookup
    left
    split at h
    · cases h
    · rename_i hAbsent
      split at h
      · cases h
      · rename_i hLevel
        have hIn : LetsIn (s.chan c) (s.user user) c ∧ t = s ∧ c = chan := by
          split at h
          · split at h
            · cases h
            · rename_i hNoBan
              split at h
              · cases h
              · rename_i hInvited
                split at h
                · split at h <;> cases h
                · rename_i hRoom
                  cases h
                  refine ⟨⟨by simpa using hAbsent, Nat.not_lt.1 hLevel, fun _ _ => ⟨?_, ?_, ?_⟩⟩, rfl, rfl⟩
                  · intro ban hBan
                    simpa using List.find?_eq_none.1 hNoBan ban hBan
                  · simpa using hInvited
                  · simpa using hRoom
          · rename_i hFree
            cases h
            refine ⟨⟨by simpa using hAbsent, Nat.not_lt.1 hLevel, fun hLow hNoOp => ?_⟩, rfl, rfl⟩
            have hNone : ((s.chan chan).ops.any (sameText (s.user user).nick)) = false :=
              List.any_eq_false.2 fun op hOp => Bool.eq_false_iff.1 (hNoOp op hOp)
            exact absurd (by rw [hNone, decide_eq_true hLow]; rfl) hFree
        obtain ⟨hLets, rfl, rfl⟩ := hIn
        exact ⟨rfl, Bucket.Table.mem_values_of_lookup hLookup, hLets⟩

/-- The loop ends as its last pass does. -/
theorem joinLoop_found (h : s.joinLoop con user bufLen fuel name = .found t chan chanop) :
    ∃ last, s.joinTry con user bufLen last = .found t chan chanop := by
  induction fuel generalizing name with
  | zero => cases h
  | succ fuel ih =>
    rw [joinLoop] at h
    cases hTry : s.joinTry con user bufLen name with
    | again next =>
      rw [hTry] at h
      exact ih h
    | stop t' =>
      rw [hTry] at h
      cases h
    | found t' chan' chanop' =>
      rw [hTry] at h
      exact ⟨name, hTry.trans h⟩

/-- A request changes nothing but what is queued, or it lets its sender into a channel that is there
or that it creates. -/
theorem toCore_join (s : Server) (con : ConId) (tag : Nat) (pkt : Str) (bufLen fuel : Nat) :
    (s.join con tag pkt bufLen fuel).toCore = s.toCore ∨
      ∃ user rest, s.popUser con pkt = some (user, rest) ∧
        ((s.user user).level < .moderator → (s.user user).muzzled = false) ∧
        ((∃ chan chanop, chan ∈ s.channels.values ∧ LetsIn (s.chan chan) (s.user user) chan ∧
            (s.join con tag pkt bufLen fuel).toCore = s.toCore.letIn user chan chanop) ∨
          ∃ name chanop, (s.join con tag pkt bufLen fuel).toCore =
            (s.toCore.newChannel name).letIn user s.next chanop) := by
  simp only [join]
  split
  · exact .inl rfl
  · exact .inl (toCore_unparsable s con)
  · exact .inl (toCore_unparsable s con)
  · rename_i user c cs hPop
    split
    · exact .inl (toCore_sendIfUser ..)
    · split
      · exact .inl (toCore_sendIfUser ..)
      · rename_i hMuzzle
        have hFree : (s.user user).level < .moderator → (s.user user).muzzled = false :=
          fun hLow => by simpa [hLow] using hMuzzle
        split
        · exact .inl rfl
        · rename_i hLoop
          have hStop := s.joinLoop_spec con user bufLen fuel
            (if (c != '#' && c != '&') = true then ('#' :: c :: cs).take 255 else c :: cs)
          rw [hLoop] at hStop
          exact .inl hStop
        · rename_i t chan chanop hLoop
          obtain ⟨last, hTry⟩ := joinLoop_found hLoop
          refine .inr ⟨user, _, hPop, hFree, ?_⟩
          rcases joinTry_found hTry with ⟨rfl, hThere, hLets⟩ | ⟨name, rfl, rfl⟩
          · exact .inl ⟨chan, chanop, hThere, hLets, toCore_joined ..⟩
          · exact .inr ⟨name, chanop, toCore_joined ..⟩

/-- What a request to join makes of the lists: nothing, or its sender is let into a channel. -/
theorem step_join (h : Sound s.toCore) (con : ConId) (pkt : Str) (env : Env) :
    s.SameLists (s.step (.packet con .join pkt env)).toCore ∨
      ∃ r : Core, s.SameLists r ∧ r.next = s.next ∧ ∃ user ∈ s.users.values,
        ((s.user user).level < .moderator → (s.user user).muzzled = false) ∧
        ((∃ chan chanop, chan ∈ s.channels.values ∧ LetsIn (s.chan chan) (s.user user) chan ∧
            (s.step (.packet con .join pkt env)).toCore = r.letIn user chan chanop) ∨
          ∃ name chanop, (s.step (.packet con .join pkt env)).toCore =
            (r.newChannel name).letIn user r.next chanop) := by
  have hSame : s.SameLists s.toCore := ⟨rfl, rfl, fun _ => rfl, fun _ => rfl⟩
  simp only [step]
  split
  · rename_i hReads
    simp only [handlePacket]
    split
    · exact .inl ⟨rfl, rfl, fun _ => rfl, fun _ => rfl⟩
    · rename_i hKnown
      have hOpen : (s.con con).allocated = true := (Bool.and_eq_true_iff.1 hReads).1
      have hClass : (s.con con).cls ≠ .unknown := by
        simpa [Core.isUnknown] using hKnown
      obtain ⟨v, g, hReport, hg⟩ := s.toCore_reportSharing con .join
      have hReg := (h.quiet (Core.skeleton_of_outline (s.outline_reportSharing con .join))).registry
      generalize s.reportSharing con .join = r at hReport hReg ⊢
      -- the report only takes back what the user shares
      have hUser (u : UserId) : { r.user u with sharing := false, unsharing := false } =
          { s.user u with sharing := false, unsharing := false } := by
        rw [hReport]
        by_cases hu : u = v
        · simpa [hu] using hg (s.user v)
        · simp [hu]
      have hLists : s.SameLists r.toCore :=
        ⟨by rw [hReport]; rfl, by rw [hReport]; rfl, fun u => (congrArg User.channels (hUser u) :),
          fun u => (congrArg User.invited (hUser u) :)⟩
      have hNext : r.next = s.next := by rw [hReport]; rfl
      rcases r.toCore_join con Command.join.tag pkt env.bufLen env.fuel with
        hQuiet | ⟨user, rest, hPop, hFree, hDone⟩
      · left
        show s.SameLists (r.join con Command.join.tag pkt env.bufLen env.fuel).toCore
        rw [hQuiet]
        exact hLists
      · refine .inr ⟨r.toCore, hLists, hNext, user, ?_, ?_, ?_⟩
        · have hCon : r.con = s.con := by rw [hReport]; rfl
          have hUsers : r.users = s.users := by rw [hReport]; rfl
          rw [← hUsers]
          exact Core.popUser_mem hReg (by rwa [hCon]) (by rwa [hCon]) hPop
        · have hLevel : (r.user user).level = (s.user user).level :=
            (congrArg User.level (hUser user) :)
          have hMuzzled : (r.user user).muzzled = (s.user user).muzzled :=
            (congrArg User.muzzled (hUser user) :)
          rwa [hLevel, hMuzzled] at hFree
        · rcases hDone with ⟨chan, chanop, hThere, hLets, hEq⟩ | ⟨name, chanop, hEq⟩
          · rw [hLists.channels] at hThere
            rw [hLists.chan] at hLets
            exact .inl ⟨chan, chanop, hThere, hLets.sharing (hUser user), hEq⟩
          · exact .inr ⟨name, chanop, hEq⟩
  · exact .inl hSame

/-- Whoever gets into a channel that was there was not in it, has the level that the channel asks for
and, below moderator level, is not muzzled; who is no operator of the channel either is not banned
there, is invited where that is asked for, and finds a place.  The invitation is used up.  A request
that lets nobody in changes no list of members or of invited users and creates no channel. -/
theorem join_authorized (f : Startup) (events : List Event) (con : ConId) (pkt : Str) (env : Env) :
    let s := Server.reach f events
    let t := s.step (.packet con .join pkt env)
    (∀ user, ∀ chan ∈ s.channels.values, s.Enters t.toCore user chan →
      let u := s.user user
      let c := s.chan chan
      (chan ∉ u.channels ∧ user ∉ c.members) ∧
      c.level ≤ u.level ∧
      (u.level < .moderator → u.muzzled = false) ∧
      (u.level < .moderator → (∀ op ∈ c.ops, sameText u.nick op = false) →
        (∀ ban ∈ c.bans, globMatch ban.target (userMask u.nick (myNtoa u.ip)) = false) ∧
        (c.onInvite = true → chan ∈ u.invited) ∧
        (0 < c.limit → (t.chan chan).members.length ≤ c.limit.toNat)) ∧
      (c.onInvite = true → chan ∉ (t.user user).invited ∧ user ∉ (t.chan chan).invited)) ∧
    ((∀ user chan, ¬ s.Enters t.toCore user chan) →
      t.channels = s.channels ∧ (∀ chan, t.chan chan = s.chan chan) ∧
        ∀ user, (t.user user).channels = (s.user user).channels ∧
          (t.user user).invited = (s.user user).invited) := by
  intro s t
  have hSound : Sound s.toCore := reach_sound f events
  have hInvitations : Invitations s.toCore :=
    (reach_keeps (fun _ _ hSound hOp h => h.op hOp hSound) (Invitations.start f) events).2
  have hGraph := hSound.membership.graph
  rcases step_join hSound con pkt env with
    hQuiet | ⟨r, hLists, hNext, user, hUser, hFree, ⟨chan, chanop, hChan, hLets, hEq⟩ | ⟨name, chanop, hEq⟩⟩
  · refine ⟨fun user chan _ hEnters => ?_, fun _ =>
      ⟨hQuiet.channels, congrFun hQuiet.chan, fun u => ⟨hQuiet.joined u, hQuiet.invited u⟩⟩⟩
    rw [Core.Enters, hQuiet.joined, hQuiet.chan] at hEnters
    omega
  · have hEnters : t.toCore = r.letIn user chan chanop := hEq
    rw [hEnters]
    refine ⟨fun u c hc hIn => ?_, fun hNone => ?_⟩
    · obtain ⟨hUserEq, hChanEq⟩ := r.of_enters_letIn user chan chanop ((hLists.enters u c).2 hIn)
      subst hUserEq hChanEq
      have hAbsent : u ∉ (s.chan c).members := fun hIn => hLets.absent (hGraph.listed c hc u hIn).2
      refine ⟨⟨hLets.absent, hAbsent⟩, hLets.level, hFree, fun hLow hNoOp => ?_, fun hInvite => ?_⟩
      · have hClear := hLets.cleared hLow hNoOp
        refine ⟨hClear.notBanned, hClear.invited, fun hLimit => ?_⟩
        have hRoom := hClear.room hLimit
        have hLength : (s.chan c).members.length = (s.chan c).users.length := List.length_map ..
        rw [r.members_letIn, if_pos rfl, hLists.chan, List.length_cons, hLength]
        exact hRoom
      · obtain ⟨hUserSide, hChanSide⟩ := r.invited_letIn u c chanop (by rwa [hLists.chan])
        rw [hUserSide, hChanSide, hLists.invited, hLists.chan]
        exact ⟨(hInvitations.mirror.onceLeft u hUser).not_mem_erase,
          (hInvitations.mirror.onceRight c hc).not_mem_erase⟩
    · exact absurd ((hLists.enters user chan).1 (r.enters_letIn user chan chanop)) (hNone user chan)
  · have hEnters : t.toCore = (r.newChannel name).letIn user r.next chanop := hEq
    rw [hEnters]
    refine ⟨fun u c hc hIn => ?_, fun hNone => ?_⟩
    · -- the new channel is not one that was there
      have hOld : c ≠ r.next := by
        rw [hNext]
        exact Nat.ne_of_lt (hGraph.known c hc)
      have hNew : (r.newChannel name).Enters ((r.newChannel name).letIn user r.next chanop) u c := by
        rw [← hLists.enters] at hIn
        simpa [Core.Enters, Core.newChannel, hOld] using hIn
      exact absurd ((r.newChannel name).of_enters_letIn user r.next chanop hNew).2 hOld
    · refine absurd ?_ (hNone user r.next)
      left
      have hFresh : r.next ∉ (s.user user).channels := fun hIn => by
        have hKnown := hGraph.known _ (hGraph.joined user hUser _ hIn).1
        rw [hNext] at hKnown
        exact Nat.lt_irrefl _ hKnown
      rw [Core.user_letIn, if_pos rfl, List.count_cons_self, List.count_eq_zero_of_not_mem hFresh]
      exact Nat.succ_pos _

end Server

end OpenNap
