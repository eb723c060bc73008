import OpenNap.HandshakeSteps

/-! Parallel links: the check for a link to the same server is made with the first message of the
handshake, and the link exists from the second.  The servers in the list have different names
exactly as long as the name of every server that joins is not that of another in the list. -/

namespace OpenNap

open CText

namespace Peer

variable {cfg : LinkConfig} {linked : Str → Option Link} {env : LinkEnv} {pkt : Str} {c : Peer}

/-- The response is the one that makes the connection a server's. -/
def Admits (cfg : LinkConfig) (env : LinkEnv) (pkt : Str) (c : Peer) : Prop :=
  c.cls = .unknown ∧ c.serverLogin = true ∧ env.memory .list = true ∧
    ∃ pass nonce sendernonce, cfg.getPeerPass env c.host = some pass ∧
      c.auth = .live ⟨some nonce, some sendernonce⟩ ∧
      pkt = cfg.response nonce sendernonce pass

theorem loginAck_joined : (loginAck cfg env pkt c).joined = true ↔ c.Admits cfg env pkt := by
  rw [loginAck, Admits]
  split
  · rename_i hClass
    simp [hClass]
  · rename_i hClass
    have hClass : c.cls = .unknown := by simpa using hClass
    split
    · rename_i hLogin
      have hLogin : c.serverLogin = false := by simpa using hLogin
      simp [refuse, hLogin]
    · rename_i hLogin
      have hLogin : c.serverLogin = true := by simpa using hLogin
      split
      · rename_i hNone
        simp [refuse, hNone]
      · rename_i pass hPass
        split
        · rename_i nonce sendernonce hAuth
          split
          · rename_i hOther
            simp [refuse, hPass, hAuth, Ne.symm hOther]
          · rename_i hSame
            have hSame : cfg.response nonce sendernonce pass = pkt := by simpa using hSame
            simp only [join]
            split
            · rename_i hMemory
              simp [hClass, hLogin, hMemory, hPass, hAuth, hSame]
            · rename_i hMemory
              simp [hMemory]
        · rename_i hAuth
          constructor
          · intro hJoined
            cases hJoined
          · rintro ⟨-, -, -, _, nonce, sendernonce, -, hBoth, -⟩
            exact absurd hBoth (hAuth nonce sendernonce)

theorem completeConnect_keeps (env : LinkEnv) (c : Peer) :
    (c.completeConnect cfg env).joined = false ∧
      (c.completeConnect cfg env).peer.cls = c.cls ∧
      (c.completeConnect cfg env).peer.host = c.host ∧
      (c.completeConnect cfg env).peer.allocated = c.allocated := by
  simp only [completeConnect]
  split
  · exact ⟨rfl, rfl, rfl, rfl⟩
  · split <;> exact ⟨rfl, rfl, rfl, rfl⟩

theorem dispatch_joined (cmd : Greeting) : (c.dispatch cfg linked env cmd pkt).joined = true ↔
    cmd = .serverLoginAck ∧ c.Admits cfg env pkt := by
  cases cmd with
  | serverLogin =>
    have hMove := @dispatch_move cfg linked env pkt c
      .serverLogin
    generalize c.dispatch cfg linked env .serverLogin pkt = o at hMove ⊢
    cases hMove <;> simp
  | serverLoginAck => simp [dispatch, loginAck_joined]

/-- A server joins exactly when the response is right. -/
theorem read_joined (cmd : Greeting) : (c.read cfg linked env cmd pkt).joined = true ↔
    cmd = .serverLoginAck ∧ c.Admits cfg env pkt := by
  rw [read, ← @dispatch_joined cfg linked env pkt c]
  split
  · have hNot := (@completeConnect_keeps cfg env (c.dispatch cfg linked env cmd pkt).peer).1
    simp [Outcome.andThen, hNot]
  · exact Iff.rfl

theorem dispatch_server (hClass : c.cls = .server) (cmd : Greeting) :
    (c.dispatch cfg linked env cmd pkt).peer.cls = .server ∧
      (c.dispatch cfg linked env cmd pkt).peer.host = c.host ∧
      (c.dispatch cfg linked env cmd pkt).peer.allocated = c.allocated := by
  have hOther : c.cls ≠ .unknown := by simp [hClass]
  cases cmd with
  | serverLogin =>
    rw [dispatch, login, if_pos hOther]
    exact ⟨hClass, rfl, rfl⟩
  | serverLoginAck =>
    rw [dispatch, loginAck, if_pos hOther]
    exact ⟨hClass, rfl, rfl⟩

/-- The handshake leaves the connection of a server what it is. -/
theorem read_server (hClass : c.cls = .server) (cmd : Greeting) :
    (c.read cfg linked env cmd pkt).peer.cls = .server ∧
      (c.read cfg linked env cmd pkt).peer.host = c.host ∧
      (c.read cfg linked env cmd pkt).peer.allocated = c.allocated := by
  obtain ⟨hCls, hHost, hOpen⟩ :=
    @dispatch_server cfg linked env pkt c hClass cmd
  rw [read]
  split
  · obtain ⟨-, hCls', hHost', hOpen'⟩ :=
      @completeConnect_keeps cfg env (c.dispatch cfg linked env cmd pkt).peer
    exact ⟨hCls'.trans hCls, hHost'.trans hHost, hOpen'.trans hOpen⟩
  · exact ⟨hCls, hHost, hOpen⟩

/-- A server that joins keeps the name under which it was looked up. -/
theorem Admits.read (h : c.Admits cfg env pkt) :
    (c.read cfg linked env .serverLoginAck pkt).peer.cls = .server ∧
      (c.read cfg linked env .serverLoginAck pkt).peer.host = c.host ∧
      (c.read cfg linked env .serverLoginAck pkt).peer.allocated = c.allocated := by
  have hDispatch : c.dispatch cfg linked env .serverLoginAck pkt =
      { peer := { c with auth := .freed, serverLogin := false, cls := .server }, joined := true } := by
    have hJoined := (@dispatch_joined cfg linked env pkt c .serverLoginAck).2 ⟨rfl, h⟩
    have hMove := @dispatch_move cfg linked env pkt c
      .serverLoginAck
    generalize c.dispatch cfg linked env .serverLoginAck pkt = o at hMove hJoined ⊢
    cases hMove with
    | joined => rfl
    | _ => cases hJoined
  rw [Peer.read, hDispatch]
  split
  · obtain ⟨-, hCls, hHost, hOpen⟩ := @completeConnect_keeps cfg env
      { c with auth := .freed, serverLogin := false, cls := .server }
    exact ⟨hCls, hHost, hOpen⟩
  · exact ⟨rfl, rfl, rfl⟩

end Peer

namespace Node

variable {s : Node}

/-- The list of servers holds connections of servers, each once. -/
structure Listed (s : Node) : Prop where
  numbered : s.Numbered
  opened : ∀ con ∈ s.servers, (s.con con).allocated = true
  cls : ∀ con ∈ s.servers, (s.con con).cls = .server
  once : s.servers.Nodup

/-- The names of the servers in the list, as they are compared. -/
def names (s : Node) : List Str := s.servers.map fun con => strlower (s.con con).host

/-- No two connections in the list of servers are to servers of one name. -/
def Distinct (s : Node) : Prop := s.names.Nodup

/-- What a turn leaves of the servers, when none joins: some of them, under the names they have. -/
structure Fewer (s t : Node) : Prop where
  sub : t.servers.Sublist s.servers
  host : ∀ con ∈ t.servers, (t.con con).host = (s.con con).host
  cls : ∀ con ∈ t.servers, (t.con con).cls = (s.con con).cls
  opened : ∀ con ∈ t.servers, (t.con con).allocated = (s.con con).allocated

theorem Fewer.refl (s : Node) : Fewer s s :=
  ⟨.refl _, fun _ _ => rfl, fun _ _ => rfl, fun _ _ => rfl⟩

theorem Fewer.listed {t : Node} (h : Fewer s t) (hListed : s.Listed) (hNum : t.Numbered) :
    t.Listed where
  numbered := hNum
  opened con hCon := by rw [h.opened con hCon, hListed.opened con (h.sub.subset hCon)]
  cls con hCon := by rw [h.cls con hCon, hListed.cls con (h.sub.subset hCon)]
  once := hListed.once.sublist h.sub

theorem Fewer.distinct {t : Node} (h : Fewer s t) (hDistinct : s.Distinct) : t.Distinct := by
  have hNames : t.names = t.servers.map fun con => strlower (s.con con).host :=
    List.map_congr_left fun con hCon => by rw [h.host con hCon]
  rw [Distinct, hNames]
  exact List.Nodup.sublist (h.sub.map _) hDistinct

theorem Listed.fewer_add (h : s.Listed) (c : Peer) : Fewer s (s.add c) := by
  have hOld (con : ConId) (hCon : con ∈ s.servers) : (s.add c).con con = s.con con := by
    have hLess : con < s.next := h.numbered.con con (h.opened con hCon)
    rw [add_con, if_neg (Nat.ne_of_lt hLess)]
  exact
    { sub := .refl _
      host := fun con hCon => by rw [hOld con hCon]
      cls := fun con hCon => by rw [hOld con hCon]
      opened := fun con hCon => by rw [hOld con hCon] }

theorem fewer_mark (s : Node) (con : ConId) :
    Fewer s (s.modCon con fun c => { c with destroy := true }) := by
  refine ⟨.refl _, fun other _ => ?_, fun other _ => ?_, fun other _ => ?_⟩ <;>
    · simp only [modCon_con]
      split <;> rfl

/-- A handler that lets nobody join leaves the servers as they are. -/
theorem Listed.fewer_apply (h : s.Listed) {con : ConId} {o : Outcome} (hJoined : o.joined = false)
    (hServer : (s.con con).cls = .server → o.peer.cls = .server ∧
      o.peer.host = (s.con con).host ∧ o.peer.allocated = (s.con con).allocated) :
    Fewer s (s.apply con o) := by
  have hServers : (s.apply con o).servers = s.servers := by simp [hJoined]
  have hKeep (other : ConId) (hOther : other ∈ s.servers) :
      ((s.apply con o).con other).host = (s.con other).host ∧
        ((s.apply con o).con other).cls = (s.con other).cls ∧
        ((s.apply con o).con other).allocated = (s.con other).allocated := by
    simp only [apply_con]
    split
    · rename_i hSame
      subst hSame
      obtain ⟨hCls, hHost, hOpen⟩ := hServer (h.cls other hOther)
      exact ⟨hHost, by rw [hCls, h.cls other hOther], hOpen⟩
    · exact ⟨rfl, rfl, rfl⟩
  refine ⟨by rw [hServers], ?_, ?_, ?_⟩ <;> rw [hServers]
  · exact fun other hOther => (hKeep other hOther).1
  · exact fun other hOther => (hKeep other hOther).2.1
  · exact fun other hOther => (hKeep other hOther).2.2

theorem Listed.fewer_close (h : s.Listed) (con : ConId) : Fewer s (s.removeConnection con) := by
  have hServers : (s.removeConnection con).servers =
      if (s.con con).cls = .server then s.servers.erase con else s.servers := by
    simp only [removeConnection]
    cases (s.con con).cls <;> rfl
  -- a connection that is left is not the one that was closed
  have hOther (other : ConId) (hMem : other ∈ (s.removeConnection con).servers) : other ≠ con := by
    rw [hServers] at hMem
    split at hMem
    · exact (h.once.mem_erase_iff.1 hMem).1
    · rename_i hClass
      rintro rfl
      exact hClass (h.cls other hMem)
  have hKeep (other : ConId) (hMem : other ∈ (s.removeConnection con).servers) :
      (s.removeConnection con).con other = s.con other := by
    rw [(s.removeConnection_fields con).1, modCon_con, if_neg (hOther other hMem)]
  refine ⟨?_, fun other hMem => ?_, fun other hMem => ?_, fun other hMem => ?_⟩
  · rw [hServers]
    split
    · exact List.erase_sublist
    · exact .refl _
  all_goals rw [hKeep other hMem]

theorem fewer_disconnect (host : Str) : Fewer s (s.disconnect host) := by
  obtain hSame | ⟨peer, -, hUnlinked⟩ := s.disconnect_cases host
  · rw [hSame]
    exact Fewer.refl s
  · rw [hUnlinked]
    have hMark := s.fewer_mark peer
    have hSub : (s.servers.erase peer).Sublist s.servers := List.erase_sublist
    exact
      { sub := hSub
        host := fun con hCon => hMark.host con (hSub.subset hCon)
        cls := fun con hCon => hMark.cls con (hSub.subset hCon)
        opened := fun con hCon => hMark.opened con (hSub.subset hCon) }

/-- The event makes a connection a server's. -/
def Joins (s : Node) : LinkEvent → Prop
  | .packet con .serverLoginAck pkt env =>
    (s.con con).reads = true ∧ (s.con con).Admits s.cfg env pkt
  | _ => False

theorem Listed.turn_fewer (h : s.Listed) {e : LinkEvent} (hNot : ¬ s.Joins e) :
    Fewer s (s.turn e) := by
  cases e with
  | accept => exact h.fewer_add _
  | connect host port localPort env =>
    obtain hSame | ⟨nonce, hNew⟩ := s.connect_cases host port localPort env
    · simpa only [Node.turn, hSame] using Fewer.refl s
    · simpa only [Node.turn, hNew] using h.fewer_add _
  | connected con env =>
    simp only [Node.turn]
    split
    · obtain ⟨hJoined, hCls, hHost, hOpen⟩ :=
        @Peer.completeConnect_keeps s.cfg env (s.con con)
      exact h.fewer_apply hJoined fun hServer => ⟨hCls.trans hServer, hHost, hOpen⟩
    · exact Fewer.refl s
  | packet con cmd pkt env =>
    simp only [Node.turn]
    split
    · rename_i hReads
      refine h.fewer_apply ?_ fun hServer => Peer.read_server hServer cmd
      rw [← Bool.not_eq_true, Peer.read_joined]
      rintro ⟨rfl, hAdmits⟩
      exact hNot ⟨hReads, hAdmits⟩
    · exact Fewer.refl s
  | mark con => exact s.fewer_mark con
  | close con =>
    simp only [Node.turn]
    split
    · exact h.fewer_close con
    · exact Fewer.refl s
  | disconnect host => exact fewer_disconnect host
  | links => exact ⟨.refl _, fun _ _ => rfl, fun _ _ => rfl, fun _ _ => rfl⟩

/-! ### A server that joins -/

/-- The turn in which a server joins puts it at the end of the list, under its name. -/
theorem turn_joins {con : ConId} {pkt : Str} {env : LinkEnv}
    (hReads : (s.con con).reads = true) (hAdmits : (s.con con).Admits s.cfg env pkt) :
    (s.turn (.packet con .serverLoginAck pkt env)).servers = s.servers ++ [con] ∧
      (∀ other ≠ con, (s.turn (.packet con .serverLoginAck pkt env)).con other = s.con other) ∧
      ((s.turn (.packet con .serverLoginAck pkt env)).con con).host = (s.con con).host ∧
      ((s.turn (.packet con .serverLoginAck pkt env)).con con).cls = .server ∧
      ((s.turn (.packet con .serverLoginAck pkt env)).con con).allocated =
        (s.con con).allocated := by
  obtain ⟨hCls, hHost, hOpen⟩ := @Peer.Admits.read _ s.findLink _ _ _ hAdmits
  have hJoined := (@Peer.read_joined _ s.findLink _ _ _ .serverLoginAck).2 ⟨rfl, hAdmits⟩
  simp only [Node.turn, if_pos hReads, apply_servers, hJoined, if_true, apply_con]
  exact ⟨trivial, fun other hOther => if_neg hOther, hHost, hCls, hOpen⟩

theorem Listed.not_mem (h : s.Listed) {con : ConId} (hClass : (s.con con).cls = .unknown) :
    con ∉ s.servers := by
  intro hMem
  have hServer := h.cls con hMem
  rw [hClass] at hServer
  cases hServer

theorem Listed.turn (h : s.Listed) (e : LinkEvent) : (s.turn e).Listed := by
  by_cases hJoins : s.Joins e
  · match e, hJoins with
    | .packet con .serverLoginAck pkt env, ⟨hReads, hAdmits⟩ =>
      obtain ⟨hServers, hOthers, -, hCls, hOpen⟩ := turn_joins hReads hAdmits
      have hNot := h.not_mem hAdmits.1
      have hNew : (s.con con).allocated = true := by
        simp only [Peer.reads, Bool.and_eq_true] at hReads
        exact hReads.1
      have hCases (other : ConId)
          (hMem : other ∈ (s.turn (.packet con .serverLoginAck pkt env)).servers) :
          other = con ∨ other ∈ s.servers ∧
            (s.turn (.packet con .serverLoginAck pkt env)).con other = s.con other := by
        rw [hServers, List.mem_append, List.mem_singleton] at hMem
        rcases hMem with hMem | rfl
        · exact .inr ⟨hMem, hOthers other (ne_of_mem_of_not_mem hMem hNot)⟩
        · exact .inl rfl
      refine ⟨h.numbered.turn _, fun other hMem => ?_, fun other hMem => ?_, ?_⟩
      · rcases hCases other hMem with rfl | ⟨hOld, hSame⟩
        · rw [hOpen, hNew]
        · rw [hSame, h.opened other hOld]
      · rcases hCases other hMem with rfl | ⟨hOld, hSame⟩
        · exact hCls
        · rw [hSame, h.cls other hOld]
      · rw [hServers]
        exact List.nodup_append.2 ⟨h.once, by simp, by
          rintro a ha b hb rfl
          rw [List.mem_singleton] at hb
          exact hNot (hb ▸ ha)⟩
  · exact (h.turn_fewer hJoins).listed h (h.numbered.turn e)

end Node

end OpenNap
