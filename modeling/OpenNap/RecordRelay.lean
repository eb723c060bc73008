import OpenNap.Cluster

/-! What servers know of the users of other servers.  A user changes its port and its speed, and tells
of the transfers that start and end; the server of the user tells its peers, and each of them keeps the
same record of the user. -/

namespace OpenNap

open CText

/-! ### Changes -/

/-- What a user changes in its own record. -/
inductive Change
  | port (n : Int)
  | speed (n : Int)
  | transfer (cmd : TransferCommand)
deriving DecidableEq

/-- The part of a user's record that the user changes. -/
structure Personal where
  port : UInt16
  speed : Nat
  transfers : Transfers
deriving DecidableEq

namespace Change

/-- The number of the message. -/
def tag : Change → Nat
  | port _ => msgClientChangeDataPort
  | speed _ => msgClientChangeSpeed
  | transfer cmd => cmd.tag

/-- What stands behind the name in a message between servers. -/
def shown : Change → Str
  | port n | speed n => ' ' :: showInt n
  | transfer _ => []

/-- What a user asks for with a message. -/
def read (tag : Nat) (text : Str) : Option Change :=
  if tag = msgClientChangeDataPort then
    if 0 ≤ atoi text ∧ atoi text ≤ 65535 then some (port (atoi text)) else none
  else if tag = msgClientChangeSpeed then
    if 0 ≤ atoi text ∧ atoi text ≤ 10 then some (speed (atoi text)) else none
  else (TransferCommand.all.find? (·.tag = tag)).map transfer

/-- The numbers that are accepted. -/
def InRange : Change → Prop
  | port n => 0 ≤ n ∧ n ≤ 65535
  | speed n => 0 ≤ n ∧ n ≤ 10
  | transfer _ => True

/-- The change of a record. -/
def set : Change → Personal → Personal
  | port n, r => { r with port := toUshort n }
  | speed n, r => { r with speed := n.toNat }
  | transfer cmd, r => { r with transfers := cmd.count r.transfers }

/-- The change of a user on a server. -/
def apply (n : Station) (user : UserId) : Change → Station
  | port k => { n with toCore := n.modUser user fun u => { u with port := toUshort k } }
  | speed k => { n with toCore := n.modUser user fun u => { u with speed := k.toNat } }
  | transfer cmd =>
    { n with transfers := Function.update n.transfers user (cmd.count (n.transfers user)) }

/-- The messages of changes. -/
def tags : List Nat :=
  [msgClientChangeDataPort, msgClientChangeSpeed] ++ TransferCommand.all.map (·.tag)

theorem inRange_of_read {tag : Nat} {text : Str} {c : Change} (h : read tag text = some c) :
    c.InRange := by
  simp only [read] at h
  split at h
  · split at h
    · rename_i hRange
      cases h
      exact hRange
    · cases h
  · split at h
    · split at h
      · rename_i hRange
        cases h
        exact hRange
      · cases h
    · obtain ⟨cmd, -, rfl⟩ := Option.map_eq_some_iff.1 h
      trivial

end Change

/-- The part of a user's record on a server. -/
def Station.personal (n : Station) (user : UserId) : Personal :=
  ⟨(n.user user).port, (n.user user).speed, n.transfers user⟩

/-- A change is one of the user's record. -/
theorem Change.personal_apply (c : Change) (n : Station) (user other : UserId) :
    (c.apply n user).personal other =
      if other = user then c.set (n.personal other) else n.personal other := by
  cases c <;> by_cases hSame : other = user <;>
    simp [apply, set, Station.personal, hSame, Function.update]

section

variable {P U : Type} {wire : P → ConId → Option (P × ConId)} {d : Roll P U} {p : P} {n : Station}
  {con : ConId} {u : U}

theorem Attends.modUser {s : Core} (h : Attends wire d p s) (user : UserId) {f : User → User}
    (hNick : ∀ u, (f u).nick = u.nick) (hLocal : ∀ u, (f u).isLocal = u.isLocal)
    (hSharing : ∀ u, (f u).sharing = u.sharing) (hUnsharing : ∀ u, (f u).unsharing = u.unsharing) :
    Attends wire d p (s.modUser user f) where
  wired := ⟨h.wired.distinct, h.wired.listed, h.wired.cls⟩
  listed := h.listed
  name u := by
    rw [Core.modUser_user]
    split
    · rw [hNick, h.name]
    · exact h.name u
  isLocal u := by
    rw [Core.modUser_user]
    split
    · rw [hLocal]
      exact h.isLocal u
    · exact h.isLocal u
  seated con hOn := h.seated con ⟨hOn.opened, hOn.user⟩
  calm u := by
    rw [Core.modUser_user]
    split
    · rw [hSharing, hUnsharing]
      exact h.calm u
    · exact h.calm u

/-- A change leaves alone who is where. -/
theorem Attends.apply (h : Attends wire d p n.toCore) (c : Change) (user : UserId) :
    Attends wire d p (c.apply n user).toCore := by
  cases c with
  | port k =>
    exact h.modUser user (f := fun u => { u with port := toUshort k }) (fun _ => rfl) (fun _ => rfl)
      (fun _ => rfl) fun _ => rfl
  | speed k =>
    exact h.modUser user (f := fun u => { u with speed := k.toNat }) (fun _ => rfl) (fun _ => rfl)
      (fun _ => rfl) fun _ => rfl
  | transfer cmd => exact h

end

/-! ### What a server reads -/

namespace Server

section

variable {s : Core} {con : ConId} {user : UserId} {pkt text : Str} {bound : Int}

/-- A number in range is set, and the peers are told. -/
theorem changeNumber_set (hPop : s.popUser con pkt = some (user, some text))
    (hRange : 0 ≤ atoi text ∧ atoi text ≤ bound) {f : Int → User → User}
    (hNick : ∀ n u, (f n u).nick = u.nick) (tag : Nat) (invalid : Str) :
    (({ s with } : Server).changeNumber con tag pkt bound f invalid).toCore =
        s.modUser user (f (atoi text)) ∧
      (({ s with } : Server).changeNumber con tag pkt bound f invalid).mail =
        s.relay con (tag, clip (str ":" ++ (s.user user).nick ++ str " " ++ showInt (atoi text))) := by
  simp only [changeNumber, hPop, hRange, and_self, if_true, passMessageArgs]
  refine ⟨by rw [toCore_passMessage]; rfl, ?_⟩
  rw [mail_passMessage]
  simp only [onCore, Core.modUser_user, if_true, hNick]
  rfl

/-- Else the user is told so. -/
theorem changeNumber_refused (hPop : s.popUser con pkt = some (user, some text))
    (hRange : ¬(0 ≤ atoi text ∧ atoi text ≤ bound)) (f : Int → User → User) (tag : Nat)
    (invalid : Str) :
    (({ s with } : Server).changeNumber con tag pkt bound f invalid).toCore = s ∧
      Notices s (({ s with } : Server).changeNumber con tag pkt bound f invalid).mail := by
  simp only [changeNumber, hPop, if_neg hRange]
  exact ⟨toCore_sendIfUser .., notices_sendIfUser s _ _⟩

end

end Server

section

variable {P U : Type} {wire : P → ConId → Option (P × ConId)} {d : Roll P U} {p : P} {n : Station}
  {con : ConId} {user : UserId} {pkt text : Str}

/-- The text of a change between servers fits into a message. -/
theorem Change.clip_shown {nick : Str} (hFits : nick.length ≤ 1800) {k : Int}
    (hRange : 0 ≤ k ∧ k ≤ 65535) :
    clip (str ":" ++ nick ++ str " " ++ showInt k) = ':' :: (nick ++ ' ' :: showInt k) := by
  have hDigits : (showInt k).length ≤ 6 :=
    showInt_length_le (by decide) (by omega) (by omega)
  rw [clip_of_fits]
  · simp [str]
  · simp only [str, List.length_append, show ":".toList.length = 1 from rfl,
      show " ".toList.length = 1 from rfl]
    omega

theorem Attends.reads_port (h : Attends wire d p n.toCore)
    (hKnown : n.Seats con ∨ n.isServer con = true)
    (hPop : n.popUser con pkt = some (user, some text)) (hFits : (n.user user).nick.length ≤ 1800)
    (hRange : 0 ≤ atoi text ∧ atoi text ≤ 65535) :
    n.reads con (msgClientChangeDataPort, pkt) =
      ((Change.port (atoi text)).apply n user, n.relay con (msgClientChangeDataPort,
        ':' :: ((n.user user).nick ++ (Change.port (atoi text)).shown))) := by
  obtain ⟨hCore, hMail⟩ := Server.changeNumber_set hPop hRange
    (f := fun n u => { u with port := toUshort n }) (fun _ _ => rfl) msgClientChangeDataPort
    (str "invalid data port")
  rw [h.reads_handled hKnown
    (show ProtocolEntry.find msgClientChangeDataPort = .handled .changeDataPort by decide)]
  simp only [Server.dispatch, Station.runs, Server.changeDataPort, Command.tag, hCore, hMail,
    Change.clip_shown hFits hRange]
  rfl

theorem Attends.reads_speed (h : Attends wire d p n.toCore)
    (hKnown : n.Seats con ∨ n.isServer con = true)
    (hPop : n.popUser con pkt = some (user, some text)) (hFits : (n.user user).nick.length ≤ 1800)
    (hRange : 0 ≤ atoi text ∧ atoi text ≤ 10) :
    n.reads con (msgClientChangeSpeed, pkt) =
      ((Change.speed (atoi text)).apply n user, n.relay con (msgClientChangeSpeed,
        ':' :: ((n.user user).nick ++ (Change.speed (atoi text)).shown))) := by
  obtain ⟨hCore, hMail⟩ := Server.changeNumber_set hPop hRange
    (f := fun n u => { u with speed := n.toNat }) (fun _ _ => rfl) msgClientChangeSpeed
    (str "invalid speed")
  rw [h.reads_handled hKnown
    (show ProtocolEntry.find msgClientChangeSpeed = .handled .changeSpeed by decide)]
  simp only [Server.dispatch, Station.runs, Server.changeSpeed, Command.tag, hCore, hMail,
    Change.clip_shown hFits ⟨hRange.1, by omega⟩]
  rfl

theorem Attends.reads_transfer (h : Attends wire d p n.toCore)
    (hKnown : n.Seats con ∨ n.isServer con = true) {rest : Option Str}
    (hPop : n.popUser con pkt = some (user, rest)) (hFits : (n.user user).nick.length ≤ 1800)
    (cmd : TransferCommand) :
    n.reads con (cmd.tag, pkt) =
      ((Change.transfer cmd).apply n user, n.relay con (cmd.tag,
        ':' :: ((n.user user).nick ++ (Change.transfer cmd).shown))) := by
  have hText : clip (str ":" ++ (n.user user).nick) = ':' :: ((n.user user).nick ++ []) := by
    rw [clip_of_fits]
    · simp [str]
    · simp only [str, List.length_append, show ":".toList.length = 1 from rfl]
      omega
  have hFind : ProtocolEntry.find cmd.tag = .counted cmd := by cases cmd <;> decide
  simp only [Station.reads, hFind, h.admits_eq hKnown, Station.countTransfer, hPop, Station.runs,
    Server.passMessageArgs, Server.mail_passMessage, hText]
  rfl

variable {u : U} {tag : Nat} {c : Change}

/-- A user makes a change, and the peers are told. -/
theorem Attends.reads_change (h : Attends wire d p n.toCore) (hProper : d.Proper) (hOn : n.Seats con)
    (hSeat : d.seat p con = some u) (hRead : Change.read tag text = some c) :
    n.reads con (tag, text) =
      (c.apply n (d.who p u), n.relay con (c.tag, ':' :: (d.nick u ++ c.shown))) := by
  obtain ⟨-, hPop⟩ := h.client hOn hSeat text
  have hFits : (n.user (d.who p u)).nick.length ≤ 1800 := by
    rw [h.name]
    exact hProper.fits u
  rw [← h.name u]
  simp only [Change.read] at hRead
  split at hRead
  · rename_i hTag
    split at hRead
    · rename_i hRange
      cases hRead
      rw [hTag]
      exact h.reads_port (.inl hOn) hPop hFits hRange
    · cases hRead
  · split at hRead
    · rename_i hTag
      split at hRead
      · rename_i hRange
        cases hRead
        rw [hTag]
        exact h.reads_speed (.inl hOn) hPop hFits hRange
      · cases hRead
    · obtain ⟨cmd, hFind, rfl⟩ := Option.map_eq_some_iff.1 hRead
      have hTag := List.find?_some hFind
      rw [decide_eq_true_eq] at hTag
      rw [← hTag]
      exact h.reads_transfer (.inl hOn) hPop hFits cmd

/-- A number out of range changes nothing, and only the user hears of it. -/
theorem Attends.reads_unchanged (h : Attends wire d p n.toCore) (hOn : n.Seats con)
    (hSeat : d.seat p con = some u) (hIn : tag ∈ Change.tags) (hRead : Change.read tag text = none) :
    ∃ mail, n.reads con (tag, text) = (n, mail) ∧ Server.Notices n.toCore mail := by
  obtain ⟨-, hPop⟩ := h.client hOn hSeat text
  simp only [Change.read] at hRead
  split at hRead
  · rename_i hTag
    split at hRead
    · cases hRead
    · rename_i hRange
      obtain ⟨hCore, hNotices⟩ := Server.changeNumber_refused hPop hRange
        (fun n u => { u with port := toUshort n }) msgClientChangeDataPort (str "invalid data port")
      rw [hTag, h.reads_handled (.inl hOn)
        (show ProtocolEntry.find msgClientChangeDataPort = .handled .changeDataPort by decide)]
      exact ⟨_, Station.runs_eq hCore, hNotices⟩
  · split at hRead
    · rename_i hTag
      split at hRead
      · cases hRead
      · rename_i hRange
        obtain ⟨hCore, hNotices⟩ := Server.changeNumber_refused hPop hRange
          (fun n u => { u with speed := n.toNat }) msgClientChangeSpeed (str "invalid speed")
        rw [hTag, h.reads_handled (.inl hOn)
          (show ProtocolEntry.find msgClientChangeSpeed = .handled .changeSpeed by decide)]
        exact ⟨_, Station.runs_eq hCore, hNotices⟩
    · rename_i hPort hSpeed
      have hNone := List.find?_eq_none.1 (Option.map_eq_none_iff.1 hRead)
      rcases List.mem_append.1 hIn with hNumber | hTransfer
      · simp only [List.mem_cons, List.not_mem_nil, or_false] at hNumber
        exact absurd hNumber (not_or.2 ⟨hPort, hSpeed⟩)
      · obtain ⟨cmd, hCmd, hTag⟩ := List.mem_map.1 hTransfer
        exact absurd (decide_eq_true hTag) (hNone cmd hCmd)

/-- A peer makes the same change, and tells its other peers. -/
theorem Attends.reads_told (h : Attends wire d p n.toCore) (hProper : d.Proper)
    (hServer : n.isServer con = true) (hAway : p ≠ d.home u) (hRange : c.InRange) :
    n.reads con (c.tag, ':' :: (d.nick u ++ c.shown)) =
      (c.apply n (d.who p u), n.relay con (c.tag, ':' :: (d.nick u ++ c.shown))) := by
  have hFits : (n.user (d.who p u)).nick.length ≤ 1800 := by
    rw [h.name]
    exact hProper.fits u
  have hName := h.name u
  have hNumber (k : Int) : skipSpace (showInt k) = showInt k ∧ showInt k ≠ [] := by
    have hSkip := (word_showInt k).skipSpace []
    rw [List.append_nil] at hSkip
    exact ⟨hSkip, (word_showInt k).nonempty⟩
  have hPop (k : Int) : n.popUser con (':' :: (d.nick u ++ ' ' :: showInt k)) =
      some (d.who p u, some (showInt k)) := by
    have hPeer := h.popUser_peer hProper hServer hAway (showInt k) (by
      rw [(hNumber k).1]
      exact (hNumber k).2)
    rwa [(hNumber k).1] at hPeer
  have hBack {k : Int} (hLow : 0 ≤ k) (hHigh : k ≤ 65535) : atoi (showInt k) = k := by
    have hSame : toInt32 k = k := toInt32_eq (by omega) (by omega)
    rw [← hSame, atoi_showInt32, hSame]
  cases c with
  | port k =>
    have hSame := hBack hRange.1 hRange.2
    have hReads := h.reads_port (.inr hServer) (hPop k) hFits (by rw [hSame]; exact hRange)
    rwa [hSame, hName] at hReads
  | speed k =>
    have hSame := hBack hRange.1 (hRange.2.trans (by decide))
    have hReads := h.reads_speed (.inr hServer) (hPop k) hFits (by rw [hSame]; exact hRange)
    rwa [hSame, hName] at hReads
  | transfer cmd =>
    have hBare : n.popUser con (':' :: (d.nick u ++ [])) = some (d.who p u, none) := by
      rw [List.append_nil]
      exact h.popUser_bare hProper hServer hAway
    have hReads := h.reads_transfer (.inr hServer) hBare hFits cmd
    rwa [hName] at hReads

end

/-! ### Records are the same everywhere -/

/-- A change of a user. -/
structure Update (U : Type) where
  user : U
  change : Change
deriving DecidableEq

section

variable {P U : Type} (d : Roll P U)

/-- The server of the user. -/
def Update.home (c : Update U) : P := d.home c.user

/-- The message between servers. -/
def Update.message (c : Update U) : Nat × Str :=
  (c.change.tag, ':' :: (d.nick c.user ++ c.change.shown))

/-- The change that a request of a client is. -/
def updateOf (p : P) (request : Request) : Option (Update U) :=
  (d.seat p request.1).bind fun u => (Change.read request.2.1 request.2.2).map fun c => ⟨u, c⟩

/-- The station after some changes. -/
def updated (p : P) (n : Station) (log : List (Update U)) : Station :=
  log.foldl (fun n c => c.change.apply n (d.who p c.user)) n

/-- Users make changes of their own records. -/
def Updates (core : P → Core) (p : P) (request : Request) : Prop :=
  (core p).Seats request.1 ∧ request.2.1 ∈ Change.tags

/-- What a server has done with changes: it has made them, and its own users asked for the part that is
theirs. -/
structure Followed [DecidableEq P] (station : P → Station) (p : P) (log : List (Update U))
    (x : Broadcast.Party ConId Request Station (Nat × Str)) : Prop where
  store : x.store = updated d p (station p) log
  own : x.asked.filterMap (updateOf d p) = Broadcast.ofOrigin (Update.home d) p log

/-- What a user changes with the requests that came to a server. -/
def changesOf [DecidableEq U] (u : U) (requests : List Request) : List Change :=
  requests.filterMap fun r => if d.seat (d.home u) r.1 = some u then Change.read r.2.1 r.2.2 else none

end

section

variable {P U : Type} {wire : P → ConId → Option (P × ConId)} {up : P → P → ConId}
  {depth : P → P → Nat} {d : Roll P U} {station : P → Station} {p : P}

theorem updated_append (n : Station) (log log' : List (Update U)) :
    updated d p n (log ++ log') = updated d p (updated d p n log) log' :=
  List.foldl_append ..

/-- Changes leave alone who is where, and which connections there are. -/
theorem Attends.updated {n : Station} (h : Attends wire d p n.toCore) (log : List (Update U)) :
    Attends wire d p (updated d p n log).toCore ∧ (updated d p n log).con = n.con := by
  induction log generalizing n with
  | nil => exact ⟨h, rfl⟩
  | cons c log ih =>
    obtain ⟨hAttends, hCon⟩ := ih (h.apply c.change (d.who p c.user))
    refine ⟨hAttends, hCon.trans ?_⟩
    cases c.change <;> rfl

/-- The record of a user after changes. -/
theorem personal_updated [DecidableEq U] {n : Station} (h : Attends wire d p n.toCore)
    (hProper : d.Proper) (log : List (Update U)) (u : U) :
    (updated d p n log).personal (d.who p u) =
      ((log.filter fun c => c.user = u).map (·.change)).foldl (fun r c => c.set r)
        (n.personal (d.who p u)) := by
  induction log generalizing n with
  | nil => rfl
  | cons c log ih =>
    have hStep := ih (h.apply c.change (d.who p c.user))
    have hSame : d.who p u = d.who p c.user ↔ c.user = u := by
      constructor
      · intro hWho
        have hName := h.name u
        rw [hWho, h.name] at hName
        exact hProper.distinct hName
      · rintro rfl
        rfl
    have hFirst : (c.change.apply n (d.who p c.user)).personal (d.who p u) =
        if c.user = u then c.change.set (n.personal (d.who p u)) else n.personal (d.who p u) := by
      rw [Change.personal_apply]
      by_cases hUser : c.user = u
      · rw [if_pos hUser, if_pos (hSame.2 hUser)]
      · rw [if_neg hUser, if_neg fun hWho => hUser (hSame.1 hWho)]
    rw [updated, List.foldl_cons]
    rw [updated, hFirst] at hStep
    rw [hStep, List.filter_cons]
    by_cases hUser : c.user = u
    · simp [hUser]
    · simp [hUser]

/-- Each server makes the changes of its own users and those that its peers tell of. -/
theorem update_replicates [DecidableEq P] (hTree : ∀ o, Network.Tree wire o (up o) (depth o))
    (hProper : d.Proper) (hAttends : ∀ p, Attends wire d p (station p).toCore) :
    Broadcast.Replicates (cluster wire) (Updates (fun p => (station p).toCore)) up (Update.home d)
      (Update.message d) (fun _ c => c.change.InRange) (Followed d station) where
  ask := by
    rintro p ⟨con, tag, text⟩ log x ⟨hOn, hIn⟩ hFollowed
    obtain ⟨hNow, hCon⟩ := (hAttends p).updated log
    rw [← hFollowed.store] at hNow hCon
    have hSeats : x.store.Seats con := ⟨by rw [hCon]; exact hOn.opened, by
      simp only [Core.isUser, hCon]
      exact hOn.user⟩
    obtain ⟨u, hSeat, hHome, -⟩ := hNow.seated con hSeats
    have hFree := hNow.unwired hSeats.user
    simp only [cluster]
    cases hRead : Change.read tag text with
    | none =>
      obtain ⟨mail, hReads, hNotices⟩ := hNow.reads_unchanged hSeats hSeat hIn hRead
      have hUnwired : ∀ o ∈ mail, wire p o.1 = none := fun o ho => hNow.unwired (hNotices o ho).1
      refine ⟨[], fun before c after hSplit => by simp at hSplit, fun b e hWire => ?_, ?_⟩
      · rw [hReads]
        exact onPort_unwired hWire hUnwired
      · rw [hReads, List.append_nil]
        refine ⟨hFollowed.store, ?_⟩
        simp only [Broadcast.Net.after, List.filterMap_append, hFollowed.own]
        simp [updateOf, hSeat, hRead]
    | some c =>
      have hReads := hNow.reads_change hProper hSeats hSeat hRead
      refine ⟨[⟨u, c⟩], fun before e after hSplit => ?_, fun b e hWire => ?_, ?_⟩
      · obtain ⟨rfl, rfl, rfl⟩ : before = [] ∧ e = ⟨u, c⟩ ∧ after = [] := by
          cases before with
          | nil => simpa [eq_comm] using hSplit
          | cons f before => simp at hSplit
        exact ⟨hHome, Change.inRange_of_read hRead⟩
      · have hOther : b ≠ con := by
          rintro rfl
          rw [hFree] at hWire
          cases hWire
        rw [hReads, hNow.onPort_told _ _ hWire, if_neg hOther]
        rfl
      · rw [hReads]
        refine ⟨?_, ?_⟩
        · rw [updated_append, ← hFollowed.store]
          rfl
        · simp only [Broadcast.Net.after, List.filterMap_append, hFollowed.own,
            Broadcast.ofOrigin_append]
          rw [Broadcast.ofOrigin_one (show Update.home d ⟨u, c⟩ = p from hHome)]
          simp [updateOf, hSeat, hRead]
  read := by
    rintro p c log x hAway hRange hFollowed
    obtain ⟨hNow, -⟩ := (hAttends p).updated log
    rw [← hFollowed.store] at hNow
    obtain ⟨q, e, hWire, -⟩ := (hTree (c.home d)).above hAway
    have hReads := hNow.reads_told hProper (hNow.isServer hWire) hAway hRange
    simp only [cluster, Update.message]
    refine ⟨fun b e hWire => ?_, ?_⟩
    · rw [hReads, hNow.onPort_told _ _ hWire]
    · rw [hReads]
      refine ⟨?_, ?_⟩
      · rw [updated_append, ← hFollowed.store]
        rfl
      · simp only [Broadcast.Net.after, List.append_nil, hFollowed.own, Broadcast.ofOrigin_append]
        rw [Broadcast.ofOrigin_none (Ne.symm hAway), List.append_nil]

/-- The changes of one user. -/
def changesIn [DecidableEq U] (u : U) (log : List (Update U)) : List Change :=
  (log.filter fun c => c.user = u).map (·.change)

/-- The changes of a user are among those of its server. -/
theorem changesIn_home [DecidableEq P] [DecidableEq U] (u : U) (log : List (Update U)) :
    changesIn u (Broadcast.ofOrigin (Update.home d) (d.home u) log) = changesIn u log := by
  rw [changesIn, Broadcast.ofOrigin, List.filter_filter, changesIn]
  congr 1
  refine List.filter_congr fun c _ => ?_
  by_cases hUser : c.user = u
  · simp [hUser, Update.home]
  · simp [hUser]

/-- What a user asked its server for is what the server did for it. -/
theorem changesOf_eq [DecidableEq U] (u : U) (requests : List Request) :
    changesOf d u requests = changesIn u (requests.filterMap (updateOf d (d.home u))) := by
  rw [changesOf, changesIn, List.filter_filterMap, List.map_filterMap]
  refine List.filterMap_congr fun r _ => ?_
  rw [updateOf]
  cases hSeat : d.seat (d.home u) r.1 with
  | none => simp
  | some v =>
    by_cases hUser : v = u
    · cases Change.read r.2.1 r.2.2 <;> simp [hUser]
    · cases Change.read r.2.1 r.2.2 <;> simp [hUser]

/-- The servers of a tree start with the same records.  Whatever requests to change records their
clients send, in whatever order the servers read, the record that a server has of a user is the one
that the user's first changes make, in the order of the requests; the server of the user has made all
of them.  When nothing is under way all servers have the record that the user's server has, and that
comes to be so when no client asks for more. -/
theorem records_follow [Finite P] [DecidableEq P] [DecidableEq U]
    (hTree : ∀ o, Network.Tree wire o (up o) (depth o)) (hProper : d.Proper)
    (hAttends : ∀ p, Attends wire d p (station p).toCore)
    (hSame : ∀ p u, (station p).personal (d.who p u) =
      (station (d.home u)).personal (d.who (d.home u) u))
    {t : Broadcast.State P ConId Request Station (Nat × Str)}
    (hRun : (cluster wire).Run (Updates (fun p => (station p).toCore)) (.start station) t) :
    (∀ p u, ∃ k, (t.party p).store.personal (d.who p u) =
      ((changesOf d u (t.party (d.home u)).asked).take k).foldl (fun r c => c.set r)
        ((station (d.home u)).personal (d.who (d.home u) u))) ∧
    (∀ u, (t.party (d.home u)).store.personal (d.who (d.home u) u) =
      (changesOf d u (t.party (d.home u)).asked).foldl (fun r c => c.set r)
        ((station (d.home u)).personal (d.who (d.home u) u))) ∧
    (t.Quiet → ∀ p u, (t.party p).store.personal (d.who p u) =
      (t.party (d.home u)).store.personal (d.who (d.home u) u)) ∧
    ∃ u, (cluster wire).Run (fun _ _ => False) t u ∧ u.Quiet := by
  have hRep := update_replicates hTree hProper hAttends
  have hStart : ∀ p, Followed d station p [] { store := station p } := fun p => ⟨rfl, rfl⟩
  obtain ⟨log, hAgreed⟩ := hRep.agreed hTree hStart hRun
  have hRecord (p : P) (u : U) : (t.party p).store.personal (d.who p u) =
      (changesIn u (log p)).foldl (fun r c => c.set r)
        ((station (d.home u)).personal (d.who (d.home u) u)) := by
    rw [(hAgreed.inv p).store, personal_updated (hAttends p) hProper, hSame]
    rfl
  have hAsked (u : U) : changesOf d u (t.party (d.home u)).asked = changesIn u (log (d.home u)) := by
    rw [changesOf_eq, (hAgreed.inv (d.home u)).own, changesIn_home]
  have hPart (p : P) (u : U) : changesIn u (log p) <+: changesIn u (log (d.home u)) := by
    rw [← changesIn_home (d := d) u (log p), ← changesIn_home (d := d) u (log (d.home u))]
    exact ((hAgreed.part p (d.home u)).filter _).map _
  refine ⟨fun p u => ⟨(changesIn u (log p)).length, ?_⟩, fun u => ?_, fun hQuiet p u => ?_,
    hRep.settles hTree hStart hRun⟩
  · rw [hRecord, hAsked, ← List.prefix_iff_eq_take.1 (hPart p u)]
  · rw [hRecord, hAsked]
  · rw [hRecord, hRecord, ← changesIn_home (d := d) u (log p),
      hAgreed.whole hQuiet p (d.home u), changesIn_home]

end

namespace Server

/-- Joe changes its data port, and the other server has it too. -/
theorem records_follow_lobby : ∃ t : Broadcast.State (Fin 2) ConId Request Station (Nat × Str),
    (t.party 1).asked = [] ∧ ∃ k, ((t.party 1).store.user 3).port.toNat = 6800 ∧
      (t.party 1).store.personal 3 = (([.port 6800] : List Change).take k).foldl (fun r c => c.set r)
        ((lobbyStation 0).personal 2) := by
  have hUpdates : Updates (fun p => (lobbyStation p).toCore) 0
      (1, (msgClientChangeDataPort, str "6800")) :=
    ⟨⟨by decide +kernel, by decide +kernel⟩, by decide⟩
  have hInbox : ((cluster pairWire).goes (.start lobbyStation) 0
      [(1, (msgClientChangeDataPort, str "6800"))] ((cluster pairWire).act 0 (lobbyStation 0)
        (1, (msgClientChangeDataPort, str "6800")))).inbox 1 0 =
      [(msgClientChangeDataPort, str ":joe 6800")] := by decide +kernel
  have hSame : ∀ p u, (lobbyStation p).personal (lobbyRoll.who p u) =
      (lobbyStation (lobbyRoll.home u)).personal (lobbyRoll.who (lobbyRoll.home u) u) := by
    decide +kernel
  obtain ⟨hFollows, -⟩ := records_follow lobby_tree lobby_proper lobby_attends hSame
    (.tail (.single (.ask 0 _ hUpdates)) (.read 1 0 _ [] hInbox))
  obtain ⟨k, hRecord⟩ := hFollows 1 0
  refine ⟨_, ?_, k, ?_, hRecord⟩
  · decide +kernel
  · decide +kernel

end Server

end OpenNap
