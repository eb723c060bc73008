import OpenNap.BanFile
import OpenNap.Link

/-! The timer that takes out the bans that have expired tells the peers so.  It speaks in the name of
the server, and the handler of its message only listens to users. -/

namespace OpenNap

open CText

/-- The message about a ban that has expired. -/
def expiryText (me : Str) (b : Ban) : Str :=
  str ":" ++ me ++ str " " ++ b.target ++ str " \"" ++
    (str "expired after " ++ showInt b.timeout ++ str " seconds") ++ str "\""

namespace Core

/-- The ban is the first one on a target, and in the list once. -/
def FirstBan (s : Core) (target : Str) (b : Ban) : Prop :=
  ∃ front back, s.bans = front ++ b :: back ∧ b ∉ front ++ back ∧
    (∀ c ∈ front, ¬ sameText target c.target = true) ∧ sameText target b.target = true

/-- A message of a peer lifts a ban: the sender that it names is a user of another server who may do
so, and the target that it names is that of the ban. -/
def Lifts (s : Core) (message : Str) (b : Ban) : Prop :=
  ∃ text sender rest user target more,
    message = ':' :: text ∧ nextArg text = (sender, some rest) ∧
    s.users.lookup sender = some user ∧ (s.user user).isLocal = false ∧
    Level.moderator ≤ (s.user user).level ∧
    splitLine 2 rest = some (target :: more) ∧ s.FirstBan (normalizeBan s.cfg target) b

/-- Taking out the first ban on a target takes out this one exactly when it is the first. -/
theorem not_mem_removeBan_iff {s : Core} {target : Str} {b : Ban} (h : b ∈ s.bans) :
    b ∉ (s.removeBan target).bans ↔ s.FirstBan target b := by
  constructor
  · intro hGone
    by_cases hSome : ∃ c ∈ s.bans, sameText target c.target = true
    · obtain ⟨c, hc, hSame⟩ := hSome
      obtain ⟨d, front, back, hFront, hd, hList, hRest⟩ :=
        List.exists_of_eraseP (p := fun c => sameText target c.target) hc hSame
      have hGone' : b ∉ front ++ back := by
        rw [← hRest]
        exact hGone
      have hEq : b = d := by
        rw [hList] at h
        rcases List.mem_append.1 h with hIn | hIn
        · exact absurd (List.mem_append_left back hIn) hGone'
        · rcases List.mem_cons.1 hIn with rfl | hIn
          · rfl
          · exact absurd (List.mem_append_right front hIn) hGone'
      subst hEq
      exact ⟨front, back, hList, hGone', hFront, hd⟩
    · refine absurd h ?_
      have hSame : (s.removeBan target).bans = s.bans :=
        List.eraseP_of_forall_not fun c hc hSame => hSome ⟨c, hc, hSame⟩
      rwa [hSame] at hGone
  · rintro ⟨front, back, hList, hGone, hFront, hSame⟩
    have hRest : (s.removeBan target).bans = front ++ back := by
      show s.bans.eraseP _ = _
      rw [hList, List.eraseP_append_right _ hFront]
      exact congrArg (front ++ ·) (List.eraseP_cons_of_pos hSame)
    rw [hRest]
    exact hGone

end Core

namespace Server

/-! ### The sender -/

theorem toCore_tellExpired (s : Server) (b : Ban) : (s.tellExpired b).toCore = s.toCore := by
  simp [tellExpired]

/-- Each ban that has expired is reported to a peer, in the order of the list, and taken out. -/
theorem queued_expireBans {s : Server} {link : ConId} {peer : Str}
    (h : LinkedTo s.toCore link peer) :
    s.expireBans.queued link = s.queued link ++ (s.bans.filter s.expired).map fun b =>
      ⟨link, msgClientUnban, clip (expiryText s.cfg.serverName b)⟩ := by
  have hTell (l : List Ban) (t : Server) (hSame : t.toCore = s.toCore) :
      (l.foldl tellExpired t).queued link = t.queued link ++ l.map fun b =>
        ⟨link, msgClientUnban, clip (expiryText s.cfg.serverName b)⟩ := by
    induction l generalizing t with
    | nil => simp
    | cons b l ih =>
      have hNext : (t.tellExpired b).toCore = s.toCore := (toCore_tellExpired t b).trans hSame
      have hQueued : (t.tellExpired b).queued link =
          t.queued link ++ [⟨link, msgClientUnban, clip (expiryText s.cfg.serverName b)⟩] := by
        have hUser : t.isUser link = false := by
          rw [hSame]
          exact h.isUser
        rw [tellExpired, queued_notifyMods (by simpa using hUser), queued_passMessageArgs, hSame,
          h.listed]
        rfl
      rw [List.foldl_cons, ih _ hNext, hQueued, List.map_cons, List.append_assoc, List.singleton_append]
  rw [expireBans, queued_onCore, hTell _ s rfl]

theorem bans_expireBans (s : Server) : s.expireBans.bans = s.bans.filter fun b => !s.expired b := by
  have hTold (l : List Ban) : (l.foldl tellExpired s).toCore = s.toCore :=
    toCore_foldl (fun s b => toCore_tellExpired s b) l s
  simp only [expireBans, onCore, hTold]
  rfl

/-! ### The other server -/

/-- What `unban` makes of a message of a peer. -/
theorem unban_peer_iff {s : Server} {link : ConId} {peer : Str} (h : LinkedTo s.toCore link peer)
    (tag : Nat) (message : Str) {b : Ban} (hBan : b ∈ s.bans) :
    b ∉ (s.unban link tag message).bans ↔ s.Lifts message b := by
  have hPop := Core.popUser_peer h.isServer message
  -- a message that does nothing is not one that lifts the ban
  have hQuiet {t : Server} (hSame : t.toCore = s.toCore) (hNot : ¬ s.Lifts message b) :
      b ∉ t.bans ↔ s.Lifts message b := by
    rw [hSame]
    exact ⟨fun hGone => absurd hBan hGone, fun hLifts => absurd hLifts hNot⟩
  have hRead : s.Lifts message b ↔ ∃ user rest target more,
      s.popUser link message = some (user, some rest) ∧ Level.moderator ≤ (s.user user).level ∧
      splitLine 2 rest = some (target :: more) ∧ s.FirstBan (normalizeBan s.cfg target) b := by
    simp only [Core.Lifts, hPop]
    constructor
    · rintro ⟨text, sender, rest, user, target, more, hText, hArg, hUser, hRemote, hLevel, hLine, hFirst⟩
      exact ⟨user, rest, target, more, ⟨text, sender, hText, hArg, hUser, hRemote⟩, hLevel, hLine, hFirst⟩
    · rintro ⟨user, rest, target, more, ⟨text, sender, hText, hArg, hUser, hRemote⟩, hLevel, hLine, hFirst⟩
      exact ⟨text, sender, rest, user, target, more, hText, hArg, hUser, hRemote, hLevel, hLine, hFirst⟩
  unfold unban
  split
  · rename_i hNone
    exact hQuiet rfl (by simp [hRead, hNone])
  · rename_i user rest hSome
    split
    · rename_i target more hFields
      obtain ⟨text, rfl, hLine⟩ := Option.bind_eq_some_iff.1 hFields
      have hThis : s.Lifts message b ↔ Level.moderator ≤ (s.user user).level ∧
          s.FirstBan (normalizeBan s.cfg target) b := by
        rw [hRead, hSome]
        constructor
        · rintro ⟨_, _, _, _, hEq, hLevel, hLine', hFirst⟩
          cases hEq
          rw [hLine] at hLine'
          cases hLine'
          exact ⟨hLevel, hFirst⟩
        · rintro ⟨hLevel, hFirst⟩
          exact ⟨user, text, target, more, rfl, hLevel, hLine, hFirst⟩
      simp only
      split
      · rename_i hLow
        exact hQuiet (by simp) fun hLifts => absurd (hThis.1 hLifts).1 (Nat.not_le.2 hLow)
      · rename_i hMay
        split
        · rename_i hNone
          refine hQuiet (by simp) fun hLifts => ?_
          obtain ⟨front, back, hList, -, -, hSame⟩ := (hThis.1 hLifts).2
          exact absurd hSame (List.find?_eq_none.1 hNone b hBan)
        · rw [toCore_passMessageArgs, toCore_notifyMods, toCore_onCore, hThis,
            Core.not_mem_removeBan_iff hBan]
          exact ⟨fun hFirst => ⟨Nat.not_lt.1 hMay, hFirst⟩, fun hBoth => hBoth.2⟩
    · rename_i hNone
      refine hQuiet (by simp) ?_
      rw [hRead, hSome]
      rintro ⟨_, text, target, more, hEq, -, hLine, -⟩
      cases hEq
      exact hNone target more hLine

/-- The sender that the message names is the server that sent it. -/
theorem nextArg_expiryText {me : Str} (hName : Word me) (hFits : me.length ≤ 2000) (b : Ban) :
    ∃ rest, clip (expiryText me b) = ':' :: (me ++ ' ' :: rest) ∧
      (nextArg (me ++ ' ' :: rest)).1 = me := by
  have hText : expiryText me b = ':' :: (me ++ ' ' :: (b.target ++ str " \"" ++
      (str "expired after " ++ showInt b.timeout ++ str " seconds") ++ str "\"")) := by
    simp [expiryText, str]
  refine ⟨(b.target ++ str " \"" ++ (str "expired after " ++ showInt b.timeout ++ str " seconds") ++
      str "\"").take (2041 - me.length), ?_, by rw [hName.token.nextArg (by decide)]⟩
  have hRoom : 2042 - me.length = (2041 - me.length) + 1 := by omega
  rw [clip, hText, List.take_succ_cons, List.take_append, List.take_of_length_le (by omega), hRoom,
    List.take_succ_cons]

/-- A ban that has expired is taken out, and the peer is told; the peer then takes out its own ban
exactly when the message lifts that ban there.  For that a user of moderator level or above, on line
behind another server, has to have the name of the server for a nick. -/
theorem expired_ban_lifted_iff {a b : Server} {link back : ConId}
    (hA : LinkedTo a.toCore link b.cfg.serverName) (hB : LinkedTo b.toCore back a.cfg.serverName)
    {ban other : Ban} (hBan : ban ∈ a.bans) (hExpired : a.expired ban = true) (hOther : other ∈ b.bans)
    (seconds : Nat) (env : Env) :
    let notice := clip (expiryText a.cfg.serverName ban)
    let t := (b.reading seconds).step (.packet back .unban notice env)
    (ban ∉ a.expireBans.bans ∧ ⟨link, msgClientUnban, notice⟩ ∈ a.expireBans.queued link) ∧
    (other ∉ t.bans ↔ b.Lifts notice other) ∧
    (Word a.cfg.serverName → a.cfg.serverName.length ≤ 2000 → b.Lifts notice other →
      ∃ user, b.users.lookup a.cfg.serverName = some user ∧ (b.user user).isLocal = false ∧
        Level.moderator ≤ (b.user user).level) := by
  intro notice t
  refine ⟨⟨?_, ?_⟩, ?_, ?_⟩
  · rw [bans_expireBans]
    simp [hExpired]
  · rw [queued_expireBans hA]
    exact List.mem_append_right _ (List.mem_map_of_mem (List.mem_filter.2 ⟨hBan, hExpired⟩))
  · show other ∉ ((b.reading seconds).step (.packet back .unban notice env)).bans ↔ _
    rw [step_linked (linkedTo_reading hB seconds)]
    exact unban_peer_iff (linkedTo_reading hB seconds) _ notice hOther
  · rintro hName hFits ⟨text, sender, rest, user, _, _, hText, hArg, hUser, hRemote, hLevel, -, -⟩
    obtain ⟨more, hClip, hSender⟩ := nextArg_expiryText hName hFits ban
    have hEq : ':' :: text = ':' :: (a.cfg.serverName ++ ' ' :: more) := by
      rw [← hText, ← hClip]
    obtain rfl := List.tail_eq_of_cons_eq hEq
    obtain rfl : a.cfg.serverName = sender := by rw [← hSender, hArg]
    exact ⟨user, hUser, hRemote, hLevel⟩

/-- A server that its peer has told of a ban on bob for a minute, and then of other things. -/
def toldOfBan (name peer : Str) (more : List Event) : Server :=
  (Server.start { hub with cfg := { hub.cfg with serverName := name } }).run
    ([.accept 1 peer 0 0, .link 0, .packet 0 .ban (str ":" ++ peer ++ str " bob spam 60") {}] ++ more)

/-- The server of the ban a minute later, and a peer where a moderator has the name of that server. -/
theorem expired_ban_lifted_iff_namesake :
    let a := toldOfBan (str "hub") (str "peer") [.tick 61]
    let b := toldOfBan (str "peer") (str "hub")
      [.packet 0 .login (str "hub x 0 c 0 unknown 0 1 other 0") {},
        .packet 0 .level (str ":hub hub Moderator") {}]
    b.Lifts (clip (expiryText a.cfg.serverName ⟨str "bob!*", str "peer", str "spam", 0, 60⟩))
      ⟨str "bob!*", str "hub", str "spam", 0, 60⟩ := by
  intro a b
  have hA : LinkedTo a.toCore 0 b.cfg.serverName ∧
      a.expired ⟨str "bob!*", str "peer", str "spam", 0, 60⟩ = true ∧
      ⟨str "bob!*", str "peer", str "spam", 0, 60⟩ ∈ a.bans := by decide +kernel
  have hB : LinkedTo b.toCore 0 a.cfg.serverName ∧
      ⟨str "bob!*", str "hub", str "spam", 0, 60⟩ ∈ b.bans := by decide +kernel
  refine (@expired_ban_lifted_iff a b 0 0 hA.1 hB.1 _ _ hA.2.2 hA.2.1 hB.2 0 {}).2.1.1 ?_
  decide +kernel

/-- Both servers have the ban; a minute later the one takes it out and says so, and the other keeps
it. -/
theorem expired_ban_stays :
    let a := toldOfBan (str "hub") (str "peer") [.tick 61]
    let b := toldOfBan (str "peer") (str "hub") []
    (a.bans.map (·.target) = [str "bob!*"] ∧ b.bans.map (·.target) = [str "bob!*"]) ∧
    (a.expireBans.bans.map (·.target) = [] ∧ (a.expireBans.queued 0).getLast? =
      some ⟨0, Command.unban.tag, str ":hub bob!* \"expired after 60 seconds\""⟩) ∧
    (b.step (.packet 0 .unban (str ":hub bob!* \"expired after 60 seconds\"") {})).bans.map
      (·.target) = [str "bob!*"] := by
  decide +kernel

end Server

end OpenNap
