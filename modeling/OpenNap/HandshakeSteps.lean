import OpenNap.Handshake

/-! What the handshake handlers can do, said once, and from it: when the program goes wrong in the
middle of a handshake, and when two links to one peer arise. -/

namespace OpenNap

open CText

namespace Peer

variable {cfg : LinkConfig} {linked : Str → Option Link} {env : LinkEnv} {pkt : Str} {c : Peer}

/-! ### What the handlers do to a connection -/

/-- None of the messages answers a challenge. -/
def Quiet (replies : List (Nat × Str)) : Prop := ∀ r ∈ replies, r.1 ≠ msgServerLoginAck

/-- A challenge of the peer was answered. -/
def answered (sent : List (Nat × Str)) : Bool := sent.any fun r => r.1 == msgServerLoginAck

theorem answered_append {sent replies : List (Nat × Str)} (h : Quiet replies) :
    answered (sent ++ replies) = answered sent := by
  have hNone : (replies.any fun r => r.1 == msgServerLoginAck) = false := by
    simpa using fun t body hr => h (t, body) hr
  rw [answered, List.any_append, hNone, Bool.or_false, answered]

theorem answered_ack (sent hello : List (Nat × Str)) (body : Str) :
    answered (sent ++ (hello ++ [(msgServerLoginAck, body)])) = true := by
  simp [answered]

/-- A name for the connection: the one it has, or one with the address of the peer. -/
def Placed (cfg : LinkConfig) (c : Peer) (host : Str) : Prop :=
  host = c.host ∨ cfg.lookupIp host = c.ip

/-- Everything that a handler can do to a connection. -/
inductive Move (cfg : LinkConfig) (c : Peer) : Greeting → Outcome → Prop
  | told {cmd : Greeting} {replies : List (Nat × Str)} (hQuiet : Quiet replies) :
      Move cfg c cmd { peer := c, replies := replies }
  | refused {cmd : Greeting} {host : Str} {compress : Nat} {replies : List (Nat × Str)}
      (hHost : Placed cfg c host) (hQuiet : Quiet replies) :
      Move cfg c cmd
        { peer := { c with host := host, compress := compress, destroy := true }
          replies := replies }
  | failed {host : Str} {compress : Nat} {auth : AuthPtr} {replies : List (Nat × Str)}
      (hClass : c.cls = .unknown) (hHost : cfg.lookupIp host = c.ip) (hAuth : auth ≠ .freed)
      (hNonce : ∀ a, auth = .live a → c.serverLogin = true →
        ∃ sendernonce, c.auth = .live ⟨a.nonce, sendernonce⟩)
      (hQuiet : Quiet replies) :
      Move cfg c .serverLogin
        { peer :=
            { c with
              host := host, compress := compress, serverLogin := true, auth := auth
              destroy := true }
          replies := replies }
  | answered {host pass own sendernonce nonce : Str} {compress : Nat} {hello : List (Nat × Str)}
      (hClass : c.cls = .unknown) (hHost : cfg.lookupIp host = c.ip)
      (hEntry : cfg.entry host = some (pass, own))
      (hNonce : c.serverLogin = true → ∃ sendernonce, c.auth = .live ⟨some nonce, sendernonce⟩)
      (hQuiet : Quiet hello) :
      Move cfg c .serverLogin
        { peer :=
            { c with
              host := host, compress := compress, serverLogin := true
              auth := .live ⟨some nonce, some sendernonce⟩ }
          replies := hello ++ [(msgServerLoginAck, cfg.response sendernonce nonce own)] }
  | joined {nonce sendernonce : Str} (hClass : c.cls = .unknown) (hLogin : c.serverLogin = true)
      (hAuth : c.auth = .live ⟨some nonce, some sendernonce⟩) :
      Move cfg c .serverLoginAck
        { peer := { c with auth := .freed, serverLogin := false, cls := .server }, joined := true }
  | unlisted (hClass : c.cls = .unknown) (hLogin : c.serverLogin = true) :
      Move cfg c .serverLoginAck
        { peer := { c with auth := .freed, serverLogin := false, destroy := true } }
  | faulty {cmd : Greeting} {peer : Peer} (hClass : peer.cls = c.cls) :
      Move cfg c cmd { peer := peer, fault := true }

theorem quiet_nil : Quiet [] := by simp [Quiet]

theorem quiet_one {tag : Nat} {body : Str} (h : tag ≠ msgServerLoginAck) : Quiet [(tag, body)] := by
  simpa [Quiet] using h

theorem move_refuse {cmd : Greeting} {host : Str} {compress : Nat} (hHost : Placed cfg c host)
    (text : Str) : Move cfg c cmd (refuse { c with host := host, compress := compress } text) :=
  .refused hHost (quiet_one (by decide))

theorem move_negotiate {host pass own : Str} (hClass : c.cls = .unknown)
    (hHost : cfg.lookupIp host = c.ip) (hEntry : cfg.entry host = some (pass, own))
    (sendernonce level : Str) :
    Move cfg c .serverLogin (negotiate cfg env sendernonce level own { c with host := host }) := by
  simp only [negotiate]
  split
  · exact .refused (.inr hHost) (quiet_one (by decide))
  · by_cases hLogin : c.serverLogin = true
    · simp only [hLogin, if_true, respond]
      split
      · rename_i auth hAuth
        split
        · split
          · rename_i nonce hNonce
            obtain ⟨n, old⟩ := auth
            obtain rfl : n = some nonce := hNonce
            have hMove := @Move.answered cfg c _ _ _ sendernonce _
              (min (atoi level) cfg.compressionLevel % 16).toNat [] hClass hHost hEntry
              (fun _ => ⟨old, hAuth⟩) quiet_nil
            simpa [hLogin] using hMove
          · exact .faulty rfl
        · have hMove := @Move.failed cfg c _ (min (atoi level) cfg.compressionLevel % 16).toNat
            (.live { auth with sendernonce := none }) _ hClass hHost
            (by simp) (fun a ha _ => ⟨auth.sendernonce, by cases ha; exact hAuth⟩) quiet_nil
          simpa [hLogin] using hMove
      · exact .faulty rfl
    · have hNew : c.serverLogin = false := by simpa using hLogin
      have hNever {P : Prop} (h : c.serverLogin = true) : P := absurd h hLogin
      simp only [hNew, Bool.false_eq_true, if_false]
      split
      · exact .failed hClass hHost (by simp) (fun _ _ => hNever) quiet_nil
      · split
        · exact .failed hClass hHost (by simp) (fun _ _ => hNever) (quiet_one (by decide))
        · rename_i nonce hNonce
          simp only [Outcome.andThen, respond]
          split
          · exact .answered hClass hHost hEntry hNever (quiet_one (by decide))
          · simp only [List.append_nil]
            exact .failed hClass hHost (by simp) (fun _ _ => hNever) (quiet_one (by decide))

theorem move_login (hClass : c.cls = .unknown) :
    Move cfg c .serverLogin (login cfg linked env pkt c) := by
  rw [login, if_neg (by simp [hClass])]
  split
  · rename_i name sendernonce level hFields
    split
    · exact move_refuse (.inl rfl) _
    · simp only []
      split
      · exact move_refuse (.inl rfl) _
      · rename_i hIp
        have hHost : cfg.lookupIp name = c.ip := by simpa using hIp
        cases hPass : cfg.getServerPass env name with
        | none => exact move_refuse (.inr hHost) _
        | some p =>
          obtain ⟨pass, own⟩ := p
          have hEntry : cfg.entry name = some (pass, own) := by
            rw [LinkConfig.getServerPass] at hPass
            split at hPass
            · exact hPass
            · cases hPass
          exact move_negotiate hClass hHost hEntry sendernonce level
  · exact move_refuse (.inl rfl) _

theorem move_loginAck (hClass : c.cls = .unknown) :
    Move cfg c .serverLoginAck (loginAck cfg env pkt c) := by
  rw [loginAck, if_neg (by simp [hClass])]
  split
  · exact move_refuse (.inl rfl) _
  · rename_i hLogin
    have hLogin : c.serverLogin = true := by simpa using hLogin
    split
    · exact move_refuse (.inl rfl) _
    · split
      · rename_i nonce sendernonce hAuth
        split
        · exact move_refuse (.inl rfl) _
        · simp only [join]
          split
          · exact .joined hClass hLogin hAuth
          · exact .unlisted hClass hLogin
      · exact .faulty rfl

theorem dispatch_move (cmd : Greeting) : Move cfg c cmd (dispatch cfg linked env cmd pkt c) := by
  by_cases hClass : c.cls = .unknown
  · cases cmd with
    | serverLogin => exact move_login hClass
    | serverLoginAck => exact move_loginAck hClass
  · cases cmd with
    | serverLogin =>
      rw [dispatch, login, if_pos hClass]
      exact move_refuse (.inl rfl) _
    | serverLoginAck =>
      rw [dispatch, loginAck, if_pos hClass]
      exact .told (quiet_one (by decide))

/-! ### What holds of a connection and what was sent on it -/

/-- A property of a connection and of what was sent on it that everything keeps. -/
structure Kept (cfg : LinkConfig) (Q : Peer → List (Nat × Str) → Prop) : Prop where
  accepted : ∀ ip host port localPort, Q (.accepted ip host port localPort) []
  opened : ∀ nonce host port localPort, Q (.opened cfg nonce host port localPort) []
  marked : ∀ c sent, Q c sent → Q { c with destroy := true } sent
  read : ∀ linked env cmd pkt c sent, Q c sent → c.reads = true →
    (c.read cfg linked env cmd pkt).fault = false →
    Q (c.read cfg linked env cmd pkt).peer (sent ++ (c.read cfg linked env cmd pkt).replies)
  connected : ∀ env c sent, Q c sent → c.connecting = true →
    (c.completeConnect cfg env).fault = false →
    Q (c.completeConnect cfg env).peer (sent ++ (c.completeConnect cfg env).replies)

theorem completeConnect_peer (env : LinkEnv) (c : Peer)
    (hFault : (c.completeConnect cfg env).fault = false) :
    Quiet (c.completeConnect cfg env).replies ∧ (c.completeConnect cfg env).joined = false ∧
      ((c.completeConnect cfg env).peer = { c with destroy := true } ∨
        (c.completeConnect cfg env).peer = { c with connecting := false }) := by
  unfold completeConnect at hFault ⊢
  split at hFault
  · rename_i hFails
    rw [if_pos hFails]
    exact ⟨quiet_nil, rfl, .inl rfl⟩
  · rename_i hFails
    rw [if_neg hFails]
    simp only at hFault ⊢
    split at hFault
    · exact ⟨quiet_one (by decide), rfl, .inr rfl⟩
    · cases hFault

/-- What is kept by a handler, and by the completion of the connection after it, is kept by a
turn. -/
theorem read_kept {Q : Peer → List (Nat × Str) → Prop} {sent : List (Nat × Str)} {cmd : Greeting}
    (hDispatch : (c.dispatch cfg linked env cmd pkt).fault = false →
      Q (c.dispatch cfg linked env cmd pkt).peer
        (sent ++ (c.dispatch cfg linked env cmd pkt).replies))
    (hMarked : ∀ c sent, Q c sent → Q { c with destroy := true } sent)
    (hDone : ∀ c sent, Q c sent → Q { c with connecting := false } sent)
    (hQuiet : ∀ c sent replies, Quiet replies → Q c sent → Q c (sent ++ replies))
    (hFault : (c.read cfg linked env cmd pkt).fault = false) :
    Q (c.read cfg linked env cmd pkt).peer (sent ++ (c.read cfg linked env cmd pkt).replies) := by
  simp only [read] at hFault ⊢
  split at hFault
  · rename_i hConnecting
    simp only [Outcome.andThen, Bool.or_eq_false_iff] at hFault
    rw [if_pos hConnecting]
    simp only [Outcome.andThen, ← List.append_assoc]
    have hNow := hDispatch hFault.1
    obtain ⟨hNothing, -, hMark | hConnected⟩ := completeConnect_peer env _ hFault.2
    · rw [hMark]
      exact hQuiet _ _ _ hNothing (hMarked _ _ hNow)
    · rw [hConnected]
      exact hQuiet _ _ _ hNothing (hDone _ _ hNow)
  · rename_i hConnecting
    rw [if_neg hConnecting]
    exact hDispatch hFault

end Peer

namespace Node

variable {s : Node}

/-- Connections have numbers that were handed out, and so have those that something was sent on. -/
structure Numbered (s : Node) : Prop where
  con : ∀ con, (s.con con).allocated = true → con < s.next
  sent : ∀ m ∈ s.sent, m.con < s.next

/-- Every connection has the property. -/
def Each (Q : Peer → List (Nat × Str) → Prop) (s : Node) : Prop :=
  ∀ con, (s.con con).allocated = true → Q (s.con con) (s.sentTo con)

theorem sentTo_apply (s : Node) (con other : ConId) (o : Outcome) :
    (s.apply con o).sentTo other = s.sentTo other ++ if con = other then o.replies else [] := by
  have hMap : ((o.replies.map fun r => (⟨con, r.1, r.2⟩ : Message)).filter fun m => m.con == other) =
      if con = other then o.replies.map fun r => ⟨con, r.1, r.2⟩ else [] := by
    by_cases h : con = other <;> simp [List.filter_map, Function.comp_def, h]
  simp only [sentTo, apply_sent, List.filter_append, List.map_append, hMap]
  by_cases h : con = other <;> simp [h, Function.comp_def]

theorem Numbered.sentTo_next (h : s.Numbered) : s.sentTo s.next = [] := by
  have hNone : (s.sent.filter fun m => m.con == s.next) = [] := by
    rw [List.filter_eq_nil_iff]
    intro m hm
    simpa using Nat.ne_of_lt (h.sent m hm)
  rw [sentTo, hNone, List.map_nil]

theorem Numbered.add (h : s.Numbered) (c : Peer) : (s.add c).Numbered where
  con con hOpen := by
    simp only [add_con, add_next] at hOpen ⊢
    split at hOpen
    · rename_i hNew
      exact hNew ▸ Nat.lt_succ_self _
    · exact Nat.lt_succ_of_lt (h.con con hOpen)
  sent m hm := Nat.lt_succ_of_lt (h.sent m hm)

theorem Numbered.modCon (h : s.Numbered) {con : ConId} {f : Peer → Peer}
    (hOpen : ∀ c, (f c).allocated = true → c.allocated = true) : (s.modCon con f).Numbered where
  con other hOther := by
    simp only [modCon_con, modCon_next] at hOther ⊢
    split at hOther
    · exact h.con other (hOpen _ hOther)
    · exact h.con other hOther
  sent := h.sent

theorem Numbered.apply (h : s.Numbered) {con : ConId} (hOpen : (s.con con).allocated = true)
    (o : Outcome) : (s.apply con o).Numbered where
  con other hOther := by
    simp only [apply_con, apply_next] at hOther ⊢
    split at hOther
    · rename_i hSame
      rw [hSame]
      exact h.con con hOpen
    · exact h.con other hOther
  sent m hm := by
    simp only [apply_sent, apply_next, List.mem_append, List.mem_map] at hm ⊢
    rcases hm with hm | ⟨r, -, rfl⟩
    · exact h.sent m hm
    · exact h.con con hOpen

theorem Each.add {Q : Peer → List (Nat × Str) → Prop} (h : s.Each Q) (hNum : s.Numbered) {c : Peer}
    (hNew : Q c []) : (s.add c).Each Q := by
  intro con hOpen
  simp only [add_con] at hOpen ⊢
  split
  · rename_i hSame
    rw [hSame]
    exact hNum.sentTo_next ▸ hNew
  · rename_i hOther
    rw [if_neg hOther] at hOpen
    exact h con hOpen

theorem Each.modCon {Q : Peer → List (Nat × Str) → Prop} (h : s.Each Q) {con : ConId}
    {f : Peer → Peer} (hCon : ∀ c sent, (f c).allocated = true →
      c.allocated = true ∧ (Q c sent → Q (f c) sent)) : (s.modCon con f).Each Q := by
  intro other hOpen
  simp only [modCon_con] at hOpen ⊢
  split
  · rename_i hSame
    rw [if_pos hSame] at hOpen
    obtain ⟨hBefore, hKeep⟩ := hCon (s.con other) (s.sentTo other) hOpen
    exact hKeep (h other hBefore)
  · rename_i hOther
    rw [if_neg hOther] at hOpen
    exact h other hOpen

theorem Each.apply {Q : Peer → List (Nat × Str) → Prop} (h : s.Each Q) {con : ConId} {o : Outcome}
    (hCon : Q o.peer (s.sentTo con ++ o.replies)) : (s.apply con o).Each Q := by
  intro other hOpen
  rw [sentTo_apply]
  simp only [apply_con] at hOpen ⊢
  by_cases hSame : other = con
  · subst hSame
    simpa using hCon
  · rw [if_neg hSame] at hOpen ⊢
    rw [if_neg (Ne.symm hSame), List.append_nil]
    exact h other hOpen

/-- Closing a connection leaves the others as they are. -/
theorem removeConnection_fields (s : Node) (con : ConId) :
    (s.removeConnection con).con = (s.modCon con fun c => { c with allocated := false }).con ∧
      (s.removeConnection con).sent = s.sent ∧ (s.removeConnection con).next = s.next ∧
      (s.removeConnection con).cfg = s.cfg := by
  simp only [removeConnection]
  cases (s.con con).cls <;> exact ⟨rfl, rfl, rfl, rfl⟩

theorem disconnect_cases (s : Node) (host : Str) :
    s.disconnect host = s ∨ ∃ peer ∈ s.servers, s.disconnect host =
      { s.modCon peer fun c => { c with destroy := true } with servers := s.servers.erase peer } := by
  simp only [disconnect]
  split
  · rename_i peer hFind
    exact .inr ⟨peer, List.mem_of_find?_eq_some hFind, rfl⟩
  · exact .inl rfl

theorem connect_cases (s : Node) (host : Str) (port localPort : UInt16) (env : LinkEnv) :
    s.connect host port localPort env = s ∨
      ∃ nonce, s.connect host port localPort env = s.add (.opened s.cfg nonce host port localPort) := by
  simp only [connect]
  split
  · exact .inl rfl
  · split
    · exact .inl rfl
    · exact .inr ⟨_, rfl⟩

theorem turn_cfg (s : Node) (e : LinkEvent) : (s.turn e).cfg = s.cfg := by
  cases e with
  | accept => rfl
  | connect host port localPort env =>
    obtain h | ⟨nonce, h⟩ := s.connect_cases host port localPort env <;> simp [turn, h]
  | connected con env =>
    simp only [turn]
    split <;> rfl
  | packet con cmd pkt env =>
    simp only [turn]
    split <;> rfl
  | mark => rfl
  | close con =>
    simp only [turn]
    split
    · exact (s.removeConnection_fields con).2.2.2
    · rfl
  | disconnect host =>
    obtain h | ⟨peer, -, h⟩ := s.disconnect_cases host <;> simp [turn, h]
  | links => rfl

theorem Numbered.turn (h : s.Numbered) (e : LinkEvent) : (s.turn e).Numbered := by
  cases e with
  | accept => exact h.add _
  | connect host port localPort env =>
    obtain hSame | ⟨nonce, hNew⟩ := s.connect_cases host port localPort env
    · simpa only [Node.turn, hSame] using h
    · simpa only [Node.turn, hNew] using h.add _
  | connected con env =>
    simp only [Node.turn]
    split
    · rename_i hOpen
      simp only [Bool.and_eq_true] at hOpen
      exact h.apply hOpen.1 _
    · exact h
  | packet con cmd pkt env =>
    simp only [Node.turn]
    split
    · rename_i hReads
      simp only [Peer.reads, Bool.and_eq_true] at hReads
      exact h.apply hReads.1 _
    · exact h
  | mark con => exact h.modCon (f := fun c => { c with destroy := true }) fun c hOpen => hOpen
  | close con =>
    simp only [Node.turn]
    split
    · obtain ⟨hCon, hSent, hNext, -⟩ := s.removeConnection_fields con
      have hMod := @Numbered.modCon s h con (fun c => { c with allocated := false })
        fun c hOpen => by cases hOpen
      exact ⟨by rw [hCon, hNext]; exact hMod.con, by rw [hSent, hNext]; exact hMod.sent⟩
    · exact h
  | disconnect host =>
    obtain hSame | ⟨peer, -, hUnlinked⟩ := s.disconnect_cases host
    · simpa only [Node.turn, hSame] using h
    · simp only [Node.turn, hUnlinked]
      have hMod := @Numbered.modCon s h peer (fun c => { c with destroy := true })
        fun c hOpen => hOpen
      exact ⟨hMod.con, hMod.sent⟩
  | links => exact ⟨h.con, h.sent⟩

/-- What the handlers keep of each connection holds of each connection after a turn that does not
go wrong. -/
theorem Each.turn {Q : Peer → List (Nat × Str) → Prop} (hKept : Peer.Kept s.cfg Q)
    (hNum : s.Numbered) (h : s.Each Q) (hGood : s.fault = false) (e : LinkEvent)
    (hFault : (s.turn e).fault = false) : (s.turn e).Each Q := by
  have hMark (con : ConId) : (s.modCon con fun c => { c with destroy := true }).Each Q :=
    h.modCon fun c sent hOpen => ⟨hOpen, hKept.marked c sent⟩
  cases e with
  | accept => exact h.add hNum (hKept.accepted _ _ _ _)
  | connect host port localPort env =>
    obtain hSame | ⟨nonce, hNew⟩ := s.connect_cases host port localPort env
    · simpa only [Node.turn, hSame] using h
    · simpa only [Node.turn, hNew] using h.add hNum (hKept.opened _ _ _ _)
  | connected con env =>
    simp only [Node.turn] at hFault ⊢
    split
    · rename_i hOpen
      rw [if_pos hOpen] at hFault
      simp only [apply_fault, hGood, Bool.false_or] at hFault
      simp only [Bool.and_eq_true] at hOpen
      exact h.apply (hKept.connected env _ _ (h con hOpen.1) hOpen.2 hFault)
    · exact h
  | packet con cmd pkt env =>
    simp only [Node.turn] at hFault ⊢
    split
    · rename_i hReads
      rw [if_pos hReads] at hFault
      simp only [apply_fault, hGood, Bool.false_or] at hFault
      have hOpen : (s.con con).allocated = true := by
        simp only [Peer.reads, Bool.and_eq_true] at hReads
        exact hReads.1
      exact h.apply (hKept.read _ env cmd pkt _ _ (h con hOpen) hReads hFault)
    · exact h
  | mark con => exact hMark con
  | close con =>
    simp only [Node.turn]
    split
    · obtain ⟨hCon, hSent, -, -⟩ := s.removeConnection_fields con
      have hMod : (s.modCon con fun c => { c with allocated := false }).Each Q :=
        h.modCon fun c sent hOpen => by cases hOpen
      intro other hOpen
      rw [hCon] at hOpen ⊢
      rw [sentTo, hSent]
      exact hMod other hOpen
    · exact h
  | disconnect host =>
    obtain hSame | ⟨peer, -, hUnlinked⟩ := s.disconnect_cases host
    · simpa only [Node.turn, hSame] using h
    · simp only [Node.turn, hUnlinked]
      exact hMark peer
  | links => exact h

end Node

/-! ### The order of the two messages -/

namespace Peer

variable {cfg : LinkConfig} {linked : Str → Option Link} {env : LinkEnv} {pkt : Str} {c : Peer}
  {sent : List (Nat × Str)}

/-- How far the handshake of a connection of no class has come: its record is there, with our nonce
in it, and with that of the peer once a challenge was answered. -/
structure Ordered (c : Peer) (sent : List (Nat × Str)) : Prop where
  kept : c.cls = .unknown → c.serverLogin = true → c.auth ≠ .freed
  ready : c.cls = .unknown → c.serverLogin = true → c.destroy = false →
    ∃ nonce sendernonce, c.auth = .live ⟨some nonce, sendernonce⟩ ∧
      sendernonce.isSome = answered sent
  first : c.cls = .unknown → c.destroy = false → c.outgoing = false →
    c.serverLogin = answered sent
  begun : c.cls = .unknown → c.destroy = false → c.outgoing = true → c.serverLogin = true

/-- A connection that is still being opened has answered no challenge. -/
def Waiting (c : Peer) (sent : List (Nat × Str)) : Prop :=
  c.connecting = true → c.destroy = false →
    c.cls = .unknown ∧ c.serverLogin = true ∧ answered sent = false

theorem Ordered.quiet (h : Ordered c sent) {replies : List (Nat × Str)} (hQuiet : Quiet replies) :
    Ordered c (sent ++ replies) := by
  have hSame := @answered_append sent _ hQuiet
  exact ⟨h.kept, hSame ▸ h.ready, hSame ▸ h.first, h.begun⟩

theorem Ordered.marked (h : Ordered c sent) : Ordered { c with destroy := true } sent where
  kept := h.kept
  ready _ _ hDestroy := by cases hDestroy
  first _ hDestroy := by cases hDestroy
  begun _ hDestroy := by cases hDestroy

theorem Ordered.dispatch (h : Ordered c sent) {cmd : Greeting}
    (hFault : (c.dispatch cfg linked env cmd pkt).fault = false) :
    Ordered (c.dispatch cfg linked env cmd pkt).peer
      (sent ++ (c.dispatch cfg linked env cmd pkt).replies) := by
  have hMove := @dispatch_move cfg linked env pkt c cmd
  generalize c.dispatch cfg linked env cmd pkt = o at hMove hFault ⊢
  cases hMove with
  | told hQuiet => exact h.quiet hQuiet
  | refused hHost hQuiet =>
    refine Ordered.quiet ?_ hQuiet
    exact
      { kept := h.kept
        ready := fun _ _ hDestroy => by cases hDestroy
        first := fun _ hDestroy => by cases hDestroy
        begun := fun _ hDestroy => by cases hDestroy }
  | failed hClass hHost hAuth hNonce hQuiet =>
    exact
      { kept := fun _ _ => hAuth
        ready := fun _ _ hDestroy => by cases hDestroy
        first := fun _ hDestroy => by cases hDestroy
        begun := fun _ hDestroy => by cases hDestroy }
  | answered hClass hHost hEntry hNonce hQuiet =>
    have hAnswered := answered_ack sent
    exact
      { kept := fun _ _ => by simp
        ready := fun _ _ _ => ⟨_, _, rfl, by rw [hAnswered]; rfl⟩
        first := fun _ _ _ => (hAnswered _ _).symm
        begun := fun _ _ _ => rfl }
  | joined hClass hLogin hAuth =>
    exact
      { kept := fun hClass => by cases hClass
        ready := fun hClass => by cases hClass
        first := fun hClass => by cases hClass
        begun := fun hClass => by cases hClass }
  | unlisted hClass hLogin =>
    exact
      { kept := fun _ hLogin => by cases hLogin
        ready := fun _ hLogin => by cases hLogin
        first := fun _ hDestroy => by cases hDestroy
        begun := fun _ hDestroy => by cases hDestroy }
  | faulty => cases hFault

theorem ordered_kept : Kept cfg Ordered where
  accepted ip host port localPort :=
    { kept := fun _ hLogin => by cases hLogin
      ready := fun _ hLogin => by cases hLogin
      first := fun _ _ _ => rfl
      begun := fun _ _ hOut => by cases hOut }
  opened nonce host port localPort :=
    { kept := fun _ _ => by simp [opened]
      ready := fun _ _ _ => ⟨nonce, none, rfl, rfl⟩
      first := fun _ _ hOut => by cases hOut
      begun := fun _ _ _ => rfl }
  marked c sent h := h.marked
  read linked env cmd pkt c sent h _ hFault :=
    read_kept (fun hDispatch => h.dispatch hDispatch) (fun _ _ h => h.marked)
      (fun _ _ h => ⟨h.kept, h.ready, h.first, h.begun⟩) (fun _ _ _ hQuiet h => h.quiet hQuiet)
      hFault
  connected env c sent h _ hFault := by
    obtain ⟨hQuiet, -, hMark | hConnected⟩ := completeConnect_peer env c hFault
    · exact hMark ▸ h.marked.quiet hQuiet
    · rw [hConnected]
      exact Ordered.quiet (c := { c with connecting := false })
        ⟨h.kept, h.ready, h.first, h.begun⟩ hQuiet

theorem dispatch_connecting {cmd : Greeting}
    (hFault : (c.dispatch cfg linked env cmd pkt).fault = false) :
    (c.dispatch cfg linked env cmd pkt).peer.connecting = c.connecting := by
  have hMove := @dispatch_move cfg linked env pkt c cmd
  generalize c.dispatch cfg linked env cmd pkt = o at hMove hFault ⊢
  cases hMove with
  | faulty => cases hFault
  | _ => rfl

/-- Once completed, a connection is not being opened any more, or is about to be removed. -/
theorem completeConnect_done (env : LinkEnv) (c : Peer)
    (hFault : (c.completeConnect cfg env).fault = false)
    (hConnecting : (c.completeConnect cfg env).peer.connecting = true) :
    (c.completeConnect cfg env).peer.destroy = true := by
  obtain ⟨-, -, hMark | hConnected⟩ := completeConnect_peer env c hFault
  · rw [hMark]
  · rw [hConnected] at hConnecting
    cases hConnecting

theorem waiting_kept : Kept cfg Waiting where
  accepted ip host port localPort hConnecting := by cases hConnecting
  opened nonce host port localPort _ _ := ⟨rfl, rfl, rfl⟩
  marked c sent h _ hDestroy := by cases hDestroy
  read linked env cmd pkt c sent h _ hFault hConnecting hDestroy := by
    unfold read at hFault hConnecting hDestroy
    split at hFault
    · rename_i hWas
      rw [if_pos hWas] at hConnecting hDestroy
      simp only [Outcome.andThen, Bool.or_eq_false_iff] at hFault hConnecting hDestroy
      rw [completeConnect_done env _ hFault.2 hConnecting] at hDestroy
      cases hDestroy
    · rename_i hWas
      rw [if_neg hWas] at hConnecting
      rw [dispatch_connecting hFault] at hConnecting
      exact absurd hConnecting hWas
  connected env c sent h _ hFault hConnecting hDestroy := by
    rw [completeConnect_done env c hFault hConnecting] at hDestroy
    cases hDestroy

/-- `server_login` never uses a record that is not there. -/
theorem login_fault (h : c.cls = .unknown → c.serverLogin = true →
    ∃ nonce sendernonce, c.auth = .live ⟨some nonce, sendernonce⟩) :
    (login cfg linked env pkt c).fault = false := by
  have hRespond (sendernonce own nonce : Str) (old : Option Str) (d : Peer)
      (hAuth : d.auth = .live ⟨some nonce, old⟩) :
      (respond cfg env sendernonce own d).fault = false := by
    simp only [respond, hAuth]
    split <;> rfl
  rw [login]
  split
  · rfl
  · rename_i hClass
    have hReady := h (by simpa using hClass)
    split
    · split
      · rfl
      · simp only []
        split
        · rfl
        · split
          · rfl
          · simp only [negotiate]
            split
            · rfl
            · split
              · rename_i hLogin
                obtain ⟨nonce, old, hAuth⟩ := hReady hLogin
                exact hRespond _ _ nonce old _ hAuth
              · split
                · rfl
                · split
                  · rfl
                  · rename_i nonce hNonce
                    simp only [Outcome.andThen, Bool.false_or]
                    exact hRespond _ _ nonce none _ rfl
    · rfl

/-- `server_login_ack` hashes a null string exactly when it checks a response without there being
two nonces. -/
theorem loginAck_fault : (loginAck cfg env pkt c).fault = true ↔
    c.cls = .unknown ∧ c.serverLogin = true ∧ (cfg.getPeerPass env c.host).isSome = true ∧
      ∀ nonce sendernonce, c.auth ≠ .live ⟨some nonce, some sendernonce⟩ := by
  rw [loginAck]
  split
  · rename_i hClass
    simp [hClass]
  · rename_i hClass
    have hClass : c.cls = .unknown := by simpa using hClass
    split
    · rename_i hLogin
      have hLogin : c.serverLogin = false := by simpa using hLogin
      simp [refuse, hLogin]
    · rename_i hLogin
      have hLogin : c.serverLogin = true := by simpa using hLogin
      split
      · rename_i hNone
        simp [refuse, hNone]
      · rename_i pass hPass
        split
        · rename_i nonce sendernonce hAuth
          have hGood : (if cfg.response nonce sendernonce pass ≠ pkt then
              c.refuse (str "Permission Denied") else c.join env).fault = false := by
            split
            · rfl
            · simp only [join]
              split <;> rfl
          rw [hGood]
          simp [hAuth]
        · rename_i hAuth
          simpa [hClass, hLogin, hPass] using hAuth

/-- A handler goes wrong exactly when a response comes in on a connection that we opened, before a
challenge was answered on it. -/
theorem Ordered.dispatch_fault (h : Ordered c sent) (hReads : c.reads = true) (cmd : Greeting) :
    (c.dispatch cfg linked env cmd pkt).fault = true ↔
      cmd = .serverLoginAck ∧ c.cls = .unknown ∧ c.outgoing = true ∧
        (cfg.getPeerPass env c.host).isSome = true ∧ answered sent = false := by
  have hOpen (hClass : c.cls = .unknown) : c.destroy = false := by
    simp only [reads, hClass, Bool.and_eq_true, Bool.or_eq_true, Bool.not_eq_true'] at hReads
    exact hReads.2.resolve_left (by decide)
  cases cmd with
  | serverLogin =>
    have hGood : (login cfg linked env pkt c).fault = false := login_fault fun hClass hLogin => by
      obtain ⟨nonce, sendernonce, hAuth, -⟩ := h.ready hClass hLogin (hOpen hClass)
      exact ⟨nonce, sendernonce, hAuth⟩
    simp [Peer.dispatch, hGood]
  | serverLoginAck =>
    rw [Peer.dispatch, loginAck_fault]
    constructor
    · rintro ⟨hClass, hLogin, hEntry, hNever⟩
      obtain ⟨nonce, sendernonce, hAuth, hSome⟩ := h.ready hClass hLogin (hOpen hClass)
      have hNone : sendernonce = none := by
        cases sendernonce with
        | none => rfl
        | some n => exact absurd hAuth (hNever nonce n)
      have hNot : answered sent = false := by rw [← hSome, hNone]; rfl
      refine ⟨rfl, hClass, ?_, hEntry, hNot⟩
      -- on a connection that was accepted, the request of the peer comes first
      by_contra hOut
      have hFirst := h.first hClass (hOpen hClass) (by simpa using hOut)
      rw [hLogin, hNot] at hFirst
      cases hFirst
    · rintro ⟨-, hClass, hOut, hEntry, hNot⟩
      have hLogin := h.begun hClass (hOpen hClass) hOut
      refine ⟨hClass, hLogin, hEntry, fun nonce sendernonce hAuth => ?_⟩
      obtain ⟨n, other, hOther, hSome⟩ := h.ready hClass hLogin (hOpen hClass)
      rw [hAuth] at hOther
      cases hOther
      rw [hNot] at hSome
      cases hSome

theorem Ordered.completeConnect_fault (h : Ordered c sent)
    (hLogin : c.destroy = false → c.cls = .unknown ∧ c.serverLogin = true) :
    (c.completeConnect cfg env).fault = false := by
  rw [completeConnect]
  split
  · rfl
  · rename_i hFails
    simp only [Bool.or_eq_true, not_or, Bool.not_eq_true] at hFails
    obtain ⟨hClass, hLogin⟩ := hLogin hFails.1
    obtain ⟨nonce, sendernonce, hAuth, -⟩ := h.ready hClass hLogin hFails.1
    simp only [hAuth]

/-- Completing the connection after a handler does not go wrong. -/
theorem Ordered.read_fault (h : Ordered c sent) (hWait : Waiting c sent) (cmd : Greeting) :
    (c.read cfg linked env cmd pkt).fault =
      (c.dispatch cfg linked env cmd pkt).fault := by
  simp only [read]
  split
  · rename_i hConnecting
    cases hFault : (c.dispatch cfg linked env cmd pkt).fault with
    | true => simp [Outcome.andThen, hFault]
    | false =>
      simp only [Outcome.andThen, hFault, Bool.false_or]
      refine (h.dispatch hFault).completeConnect_fault fun hDestroy => ?_
      have hMove :=
        @dispatch_move cfg linked env pkt c cmd
      generalize c.dispatch cfg linked env cmd pkt = o at hMove hFault hDestroy ⊢
      cases hMove with
      | told =>
        obtain ⟨hClass, hLogin, -⟩ := hWait hConnecting hDestroy
        exact ⟨hClass, hLogin⟩
      | refused => cases hDestroy
      | failed => cases hDestroy
      | answered hClass => exact ⟨hClass, rfl⟩
      | joined hClass hLogin hAuth =>
        -- no challenge was answered, so the nonce of the peer is not there
        obtain ⟨-, -, hNot⟩ := hWait hConnecting hDestroy
        obtain ⟨n, other, hOther, hSome⟩ := h.ready hClass hLogin hDestroy
        rw [hAuth] at hOther
        cases hOther
        rw [hNot] at hSome
        cases hSome
      | unlisted => cases hDestroy
      | faulty => cases hFault
  · rfl

end Peer

namespace Node

variable {s : Node}

/-- The order of the handshake on every connection. -/
structure Sound (s : Node) : Prop where
  numbered : s.Numbered
  ordered : s.Each Peer.Ordered
  waiting : s.Each Peer.Waiting

theorem Sound.turn (h : s.Sound) (hGood : s.fault = false) (e : LinkEvent)
    (hFault : (s.turn e).fault = false) : (s.turn e).Sound where
  numbered := h.numbered.turn e
  ordered := h.ordered.turn Peer.ordered_kept h.numbered hGood e hFault
  waiting := h.waiting.turn Peer.waiting_kept h.numbered hGood e hFault

/-- The messages of the peer come in the right order: on a connection that we opened, a response
that would be checked comes only after a challenge was answered. -/
def InOrder (s : Node) : LinkEvent → Prop
  | .packet con .serverLoginAck _ env =>
    (s.con con).reads = true → (s.con con).cls = .unknown → (s.con con).outgoing = true →
      (s.cfg.getPeerPass env (s.con con).host).isSome = true →
      ∃ m ∈ s.sent, m.con = con ∧ m.tag = msgServerLoginAck
  | _ => True

theorem answered_sentTo (s : Node) (con : ConId) : Peer.answered (s.sentTo con) = true ↔
    ∃ m ∈ s.sent, m.con = con ∧ m.tag = msgServerLoginAck := by
  simp only [Peer.answered, sentTo, List.any_map, List.any_eq_true, List.mem_filter, beq_iff_eq,
    Function.comp_apply]
  exact exists_congr fun m => and_assoc

theorem Sound.packet_fault (h : s.Sound) (hGood : s.fault = false) (con : ConId) (cmd : Greeting)
    (pkt : Str) (env : LinkEnv) : (s.turn (.packet con cmd pkt env)).fault = false ↔
      s.InOrder (.packet con cmd pkt env) := by
  simp only [Node.turn]
  by_cases hReads : (s.con con).reads = true
  · have hOpen : (s.con con).allocated = true := by
      simp only [Peer.reads, Bool.and_eq_true] at hReads
      exact hReads.1
    have hOrdered := h.ordered con hOpen
    have hFault :=
      @Peer.Ordered.dispatch_fault s.cfg s.findLink env pkt _ _ hOrdered hReads cmd
    rw [if_pos hReads, apply_fault, hGood, Bool.false_or,
      hOrdered.read_fault (h.waiting con hOpen), ← Bool.not_eq_true, hFault]
    cases cmd with
    | serverLogin => simp [InOrder]
    | serverLoginAck =>
      simp only [true_and, InOrder, ← answered_sentTo, not_and, Bool.not_eq_false]
      exact ⟨fun h _ => h, fun h => h hReads⟩
  · rw [if_neg hReads]
    cases cmd with
    | serverLogin => simp [InOrder, hGood]
    | serverLoginAck => simp [InOrder, hGood, hReads]

theorem Sound.turn_fault (h : s.Sound) (hGood : s.fault = false) (e : LinkEvent) :
    (s.turn e).fault = false ↔ s.InOrder e := by
  cases e with
  | packet con cmd pkt env => exact h.packet_fault hGood con cmd pkt env
  | accept => simp [Node.turn, hGood, InOrder]
  | connect host port localPort env =>
    obtain hSame | ⟨nonce, hNew⟩ := s.connect_cases host port localPort env
    · simp [Node.turn, hSame, hGood, InOrder]
    · simp [Node.turn, hNew, hGood, InOrder]
  | connected con env =>
    simp only [Node.turn, InOrder, iff_true]
    split
    · rename_i hOpen
      simp only [Bool.and_eq_true] at hOpen
      have hWait := h.waiting con hOpen.1 hOpen.2
      have hFault := @Peer.Ordered.completeConnect_fault s.cfg env _ _ (h.ordered con hOpen.1)
        fun hDestroy => ⟨(hWait hDestroy).1, (hWait hDestroy).2.1⟩
      simp [hGood, hFault]
    · exact hGood
  | mark con => simp [Node.turn, hGood, InOrder]
  | close con =>
    simp only [Node.turn, InOrder, iff_true]
    split
    · rename_i hOpen
      simp only [Bool.and_eq_true] at hOpen
      simp only [removeConnection]
      cases hClass : (s.con con).cls with
      | user => exact hGood
      | server => exact hGood
      | unknown =>
        have hKept := (h.ordered con hOpen.1).kept hClass
        cases hLogin : (s.con con).serverLogin with
        | false => simp [hGood]
        | true => simp [hGood, hKept hLogin]
    · exact hGood
  | disconnect host =>
    obtain hSame | ⟨peer, -, hUnlinked⟩ := s.disconnect_cases host
    · simp [Node.turn, hSame, hGood, InOrder]
    · simp [Node.turn, hUnlinked, hGood, InOrder]
  | links => simp [Node.turn, hGood, InOrder]

theorem sound_start (cfg : LinkConfig) : Sound { cfg := cfg } where
  numbered :=
    { con := fun con hOpen => by cases hOpen
      sent := fun m hm => by cases hm }
  ordered con hOpen := by cases hOpen
  waiting con hOpen := by cases hOpen

/-- No null string is hashed and no freed record used, in any part of a run, exactly when every
message of the run comes in the right order. -/
theorem run_ordered (cfg : LinkConfig) (events : List LinkEvent) :
    (∀ n, (run cfg (events.take n)).fault = false) ↔
      Runs.Meets step InOrder { cfg := cfg } events := by
  refine Runs.meets_iff (I := fun s : Node => s.fault = false)
    (J := fun s : Node => s.fault = false → s.Sound)
    (fun s e hSound hFault => ?_) (fun s e hSound hGood => ?_) (fun _ => sound_start cfg) rfl events
  · rw [step] at hFault ⊢
    split at hFault
    · rename_i hWrong
      rw [hWrong] at hFault
      cases hFault
    · rename_i hGood
      have hGood : s.fault = false := by simpa using hGood
      rw [if_neg (by simp [hGood])]
      exact (hSound hGood).turn hGood e hFault
  · rw [step, if_neg (by simp [hGood])]
    exact (hSound hGood).turn_fault hGood e

/-- A peer that we connect to sends its response at once, and the nonce that it should have sent
before is hashed. -/
theorem early_response :
    (run twin
      [.connect (str "peer") 8888 8888 calm, .connected 0 calm,
        .packet 0 .serverLoginAck (str "00000000000000000000000000000000") calm]).fault = true := by
  decide +kernel

end Node

end OpenNap
