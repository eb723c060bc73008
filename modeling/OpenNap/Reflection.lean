import OpenNap.HandshakeLinks
import OpenNap.Lib.Lists

/-! Reflection: whether a response that we sent to a peer is one that we would take from it.  We
hash the peer's nonce, our nonce and our password, and expect our nonce, the peer's nonce and the
peer's password, each time without anything in between.  The peer chooses its nonce after it has
seen ours, so all depends on the passwords. -/

namespace OpenNap

open CText

/-- Two challenges to which the response is the same exist exactly when one of the two strings that
the peer does not choose ends with the other. -/
theorem exists_collision {nonce own pass : Str} :
    (∃ first last, first ++ nonce ++ own = nonce ++ last ++ pass) ↔
      pass <:+ nonce ++ own ∨ nonce ++ own <:+ pass := by
  constructor
  · rintro ⟨first, last, hSame⟩
    have hPass : pass <:+ first ++ nonce ++ own := hSame ▸ List.suffix_append _ _
    have hOwn : nonce ++ own <:+ first ++ nonce ++ own := by
      rw [List.append_assoc]
      exact List.suffix_append _ _
    exact List.suffix_or_suffix_of_suffix hPass hOwn
  · rintro (⟨front, hFront⟩ | ⟨front, hFront⟩)
    · refine ⟨nonce, front, ?_⟩
      rw [List.append_assoc, ← hFront, List.append_assoc]
    · refine ⟨nonce ++ front, [], ?_⟩
      simp only [← hFront, List.append_assoc, List.nil_append]

theorem hexDigits_inj {m n : Nat} (hm : m < 16) (hn : n < 16)
    (h : hexDigits.getD m '0' = hexDigits.getD n '0') : m = n := by
  have hIndex : ∀ k < 16, hexDigits.idxOf (hexDigits.getD k '0') = k := by decide
  rw [← hIndex m hm, h, hIndex n hn]

/-- The text of a digest determines the digest. -/
theorem expandHex_injective : Function.Injective expandHex := by
  refine fun v w h => Lists.flatMap_injective (n := 2) (fun _ => rfl) (by decide) ?_ h
  intro a b hBlock
  simp only [List.cons.injEq, and_true] at hBlock
  have ha := a.toNat_lt
  have hb := b.toNat_lt
  have hHigh : a.toNat / 16 = b.toNat / 16 :=
    hexDigits_inj (by omega) (by omega) hBlock.1
  have hLow : a.toNat % 16 = b.toNat % 16 :=
    hexDigits_inj (Nat.mod_lt _ (by decide)) (Nat.mod_lt _ (by decide)) hBlock.2
  apply UInt8.toNat_inj.1
  omega

theorem wideBytes_injective : Function.Injective wideBytes := by
  refine fun v w h => Lists.flatMap_injective (n := 3) (fun _ => rfl) (by decide) ?_ h
  intro a b hBlock
  simp only [List.cons.injEq, and_true] at hBlock
  obtain ⟨hLow, hMid, hHigh⟩ := hBlock
  have hToNat {m n : Nat} (hByte : UInt8.ofNat m = UInt8.ofNat n) : m % 256 = n % 256 := by
    have hValue := congrArg UInt8.toNat hByte
    rwa [UInt8.toNat_ofNat', UInt8.toNat_ofNat'] at hValue
  have hLow := hToNat hLow
  have hMid := hToNat hMid
  have hHigh := hToNat hHigh
  have hBound (c : Char) : c.toNat < 1114112 := by
    have hValid := c.valid
    simp only [UInt32.isValidChar, Nat.isValidChar] at hValid
    have hNat : c.toNat = c.val.toNat := rfl
    omega
  have ha := hBound a
  have hb := hBound b
  apply Char.toNat_inj.1
  omega

namespace LinkConfig

/-- No password that a peer at the address may have to know ends with our nonce and a password of
ours for that address, nor the other way round. -/
def Apart (cfg : LinkConfig) (nonce : Str) (ip : UInt32) : Prop :=
  ∀ name other pass own pass' own', cfg.lookupIp name = ip → cfg.lookupIp other = ip →
    cfg.entry name = some (pass, own) → cfg.entry other = some (pass', own') →
    ¬ pass' <:+ nonce ++ own ∧ ¬ nonce ++ own <:+ pass'

end LinkConfig

namespace Peer

variable {cfg : LinkConfig} {linked : Str → Option Link} {env : LinkEnv} {pkt : Str} {c : Peer}
  {sent : List (Nat × Str)}

/-- The response that `server_login_ack` computes. -/
def expected (cfg : LinkConfig) (c : Peer) : Option Str :=
  match c.auth, cfg.entry c.host with
  | .live ⟨some nonce, some sendernonce⟩, some (pass, _) =>
    if c.cls = .unknown ∧ c.serverLogin = true then some (cfg.response nonce sendernonce pass)
    else none
  | _, _ => none

/-- What we sent in answer to challenges was made of our nonce and a password of ours for a name
with the address of the peer. -/
structure Answers (cfg : LinkConfig) (c : Peer) (sent : List (Nat × Str)) : Prop where
  placed : c.serverLogin = true → cfg.lookupIp c.host = c.ip
  own : ∀ body, (msgServerLoginAck, body) ∈ sent → ∀ nonce sendernonce,
    c.auth = .live ⟨some nonce, sendernonce⟩ →
    ∃ first name pass own, cfg.lookupIp name = c.ip ∧ cfg.entry name = some (pass, own) ∧
      body = cfg.response first nonce own
  none : c.cls = .unknown → c.serverLogin = false → c.destroy = false → answered sent = false

theorem not_mem_of_quiet {replies : List (Nat × Str)} (h : Quiet replies) (body : Str) :
    (msgServerLoginAck, body) ∉ replies :=
  fun hMem => h _ hMem rfl

theorem mem_quiet {replies : List (Nat × Str)} (h : Quiet replies) {body : Str} :
    (msgServerLoginAck, body) ∈ sent ++ replies ↔ (msgServerLoginAck, body) ∈ sent := by
  simp [List.mem_append, not_mem_of_quiet h body]

theorem not_mem_of_not_answered (h : answered sent = false) (body : Str) :
    (msgServerLoginAck, body) ∉ sent := by
  intro hMem
  have hAnswered : answered sent = true := List.any_eq_true.2 ⟨_, hMem, by simp⟩
  rw [h] at hAnswered
  cases hAnswered

theorem Answers.quiet (h : Answers cfg c sent) {replies : List (Nat × Str)}
    (hQuiet : Quiet replies) : Answers cfg c (sent ++ replies) where
  placed := h.placed
  own body hMem := h.own body ((mem_quiet hQuiet).1 hMem)
  none hClass hLogin hDestroy := by rw [answered_append hQuiet, h.none hClass hLogin hDestroy]

theorem Answers.dispatch (h : Answers cfg c sent) (hReads : c.reads = true) {cmd : Greeting}
    (hFault : (c.dispatch cfg linked env cmd pkt).fault = false) :
    Answers cfg (c.dispatch cfg linked env cmd pkt).peer
      (sent ++ (c.dispatch cfg linked env cmd pkt).replies) := by
  -- before the record is set up, no challenge was answered
  have hNever (hClass : c.cls = .unknown) (hLogin : c.serverLogin = false) (body : Str) :
      (msgServerLoginAck, body) ∉ sent := by
    have hOpen : c.destroy = false := by
      simp only [reads, hClass, Bool.and_eq_true, Bool.or_eq_true, Bool.not_eq_true'] at hReads
      exact hReads.2.resolve_left (by decide)
    exact not_mem_of_not_answered (h.none hClass hLogin hOpen) body
  have hMove := @dispatch_move cfg linked env pkt c cmd
  generalize c.dispatch cfg linked env cmd pkt = o at hMove hFault ⊢
  cases hMove with
  | told hQuiet => exact h.quiet hQuiet
  | refused hHost hQuiet =>
    refine Answers.quiet ?_ hQuiet
    exact
      { placed := fun hLogin => hHost.elim (fun hSame => hSame ▸ h.placed hLogin) id
        own := h.own
        none := fun _ _ hDestroy => by cases hDestroy }
  | failed hClass hHost hAuth hNonce hQuiet =>
    refine Answers.quiet ?_ hQuiet
    refine
      { placed := fun _ => hHost
        own := fun body hMem nonce sendernonce hLive => ?_
        none := fun _ hLogin => by cases hLogin }
    cases hLogin : c.serverLogin with
    | false => exact absurd hMem (hNever hClass hLogin body)
    | true =>
      obtain ⟨old, hOld⟩ := hNonce _ hLive hLogin
      exact h.own body hMem nonce old hOld
  | @answered host pass own sendernonce nonce compress hello hClass hHost hEntry hNonce hQuiet =>
    refine
      { placed := fun _ => hHost
        own := fun body hMem nonce' sendernonce' hLive => ?_
        none := fun _ hLogin => by cases hLogin }
    cases hLive
    rw [List.mem_append, List.mem_append, List.mem_singleton] at hMem
    rcases hMem with hMem | hMem | hMem
    · cases hLogin : c.serverLogin with
      | false => exact absurd hMem (hNever hClass hLogin body)
      | true =>
        obtain ⟨old, hOld⟩ := hNonce hLogin
        exact h.own body hMem nonce old hOld
    · exact absurd hMem (not_mem_of_quiet hQuiet body)
    · cases hMem
      exact ⟨sendernonce, host, pass, own, hHost, hEntry, rfl⟩
  | joined hClass hLogin hAuth =>
    exact
      { placed := fun hLogin => by cases hLogin
        own := fun _ _ _ _ hLive => by cases hLive
        none := fun hClass => by cases hClass }
  | unlisted hClass hLogin =>
    exact
      { placed := fun hLogin => by cases hLogin
        own := fun _ _ _ _ hLive => by cases hLive
        none := fun _ _ hDestroy => by cases hDestroy }
  | faulty => cases hFault

theorem answers_kept : Kept cfg (Answers cfg) where
  accepted ip host port localPort :=
    { placed := fun hLogin => by cases hLogin
      own := fun _ hMem => by cases hMem
      none := fun _ _ _ => rfl }
  opened nonce host port localPort :=
    { placed := fun _ => rfl
      own := fun _ hMem => by cases hMem
      none := fun _ hLogin => by cases hLogin }
  marked c sent h := ⟨h.placed, h.own, fun _ _ hDestroy => by cases hDestroy⟩
  read linked env cmd pkt c sent h hReads hFault :=
    read_kept (fun hDispatch => h.dispatch hReads hDispatch)
      (fun _ _ h => ⟨h.placed, h.own, fun _ _ hDestroy => by cases hDestroy⟩)
      (fun _ _ h => ⟨h.placed, h.own, h.none⟩) (fun _ _ _ hQuiet h => h.quiet hQuiet) hFault
  connected env c sent h _ hFault := by
    obtain ⟨hQuiet, -, hMark | hConnected⟩ := completeConnect_peer env c hFault
    · rw [hMark]
      exact Answers.quiet (c := { c with destroy := true })
        ⟨h.placed, h.own, fun _ _ hDestroy => by cases hDestroy⟩ hQuiet
    · rw [hConnected]
      exact Answers.quiet (c := { c with connecting := false }) ⟨h.placed, h.own, h.none⟩ hQuiet

/-- What we sent is not what we expect, when the passwords are apart. -/
theorem Answers.not_expected (h : Answers cfg c sent) (hInj : Function.Injective cfg.md5)
    (hApart : ∀ nonce sendernonce, c.auth = .live ⟨some nonce, sendernonce⟩ → cfg.Apart nonce c.ip)
    {body : Str} (hSent : (msgServerLoginAck, body) ∈ sent) : c.expected cfg ≠ some body := by
  intro hExpected
  unfold expected at hExpected
  split at hExpected
  · rename_i nonce sendernonce pass _ hAuth hEntry
    split at hExpected
    · rename_i hNow
      cases hExpected
      obtain ⟨first, name, pass', own, hIp, hName, hBody⟩ := h.own _ hSent nonce _ hAuth
      have hText : nonce ++ sendernonce ++ pass = first ++ nonce ++ own :=
        hInj (expandHex_injective hBody)
      have hEnds := exists_collision.1 ⟨first, sendernonce, hText.symm⟩
      obtain ⟨hNot, hNot'⟩ :=
        hApart nonce _ hAuth name c.host pass' own pass _ hIp (h.placed hNow.2) hName hEntry
      exact hEnds.elim hNot hNot'
    · cases hExpected
  · cases hExpected

theorem dispatch_class {cmd : Greeting} (h : c.cls = .unknown)
    (hServer : (c.dispatch cfg linked env cmd pkt).peer.cls = .server) :
    (c.dispatch cfg linked env cmd pkt).joined = true := by
  have hMove := @dispatch_move cfg linked env pkt c cmd
  generalize c.dispatch cfg linked env cmd pkt = o at hMove hServer ⊢
  cases hMove with
  | joined => rfl
  | faulty hClass =>
    rw [hClass, h] at hServer
    cases hServer
  | _ => exact absurd (h.symm.trans hServer) (by decide)

/-- Only the expected response makes a connection a server's. -/
theorem read_server_expected (h : c.cls = .unknown)
    (hServer : (c.read cfg linked env .serverLoginAck pkt).peer.cls = .server) :
    c.expected cfg = some pkt := by
  have hDispatch : (c.dispatch cfg linked env .serverLoginAck pkt).peer.cls = .server := by
    rw [read] at hServer
    split at hServer
    · simpa [Outcome.andThen, (@completeConnect_keeps cfg env _).2.1] using hServer
    · exact hServer
  obtain ⟨-, -, hLogin, -, pass, nonce, sendernonce, hPass, hAuth, rfl⟩ :=
    (dispatch_joined .serverLoginAck).1 (dispatch_class h hDispatch)
  have hEntry : ∃ own, cfg.entry c.host = some (pass, own) := by
    rw [LinkConfig.getPeerPass] at hPass
    split at hPass
    · obtain ⟨⟨p, own⟩, hEntry, rfl⟩ := Option.map_eq_some_iff.1 hPass
      exact ⟨own, hEntry⟩
    · cases hPass
  obtain ⟨own, hEntry⟩ := hEntry
  simp only [expected, hAuth, hEntry, h, hLogin, and_self, if_true]

end Peer

namespace Node

/-- The response that makes the peer on a connection a server, if it is read now. -/
def accepts (s : Node) (con : ConId) : Option Str :=
  if s.fault || !(s.con con).reads then none else (s.con con).expected s.cfg

theorem run_cfg (cfg : LinkConfig) (events : List LinkEvent) : (run cfg events).cfg = cfg := by
  refine Runs.run_invariant (I := fun s : Node => s.cfg = cfg) (fun s e h => ?_) rfl events
  rw [step]
  split
  · exact h
  · rw [turn_cfg, h]

theorem run_answers (cfg : LinkConfig) (events : List LinkEvent)
    (hGood : (run cfg events).fault = false) : (run cfg events).Each (Peer.Answers cfg) := by
  have hRun := @Runs.run_invariant _ _ step
    (fun s : Node => s.cfg = cfg ∧ s.Numbered ∧ (s.fault = false → s.Each (Peer.Answers cfg)))
    (fun s e ⟨hCfg, hNum, hEach⟩ => ?_) { cfg := cfg }
    ⟨rfl, (sound_start cfg).numbered, fun _ con hOpen => by cases hOpen⟩ events
  · exact hRun.2.2 hGood
  · rw [step]
    split
    · exact ⟨hCfg, hNum, hEach⟩
    · rename_i hFault
      have hFault : s.fault = false := by simpa using hFault
      subst hCfg
      exact ⟨s.turn_cfg e, hNum.turn e,
        fun hNow => (hEach hFault).turn Peer.answers_kept hNum hFault e hNow⟩

/-- Where the passwords are apart, no response that was sent on a connection is one that would be
taken from its peer, and a peer that sends it back does not become a server. -/
theorem run_not_reflected (cfg : LinkConfig) (hInj : Function.Injective cfg.md5)
    (events : List LinkEvent) (con : ConId)
    (hApart : ∀ nonce sendernonce,
      ((run cfg events).con con).auth = .live ⟨some nonce, sendernonce⟩ →
        cfg.Apart nonce ((run cfg events).con con).ip)
    (m : Message) (hSent : m ∈ (run cfg events).sent) (hCon : m.con = con)
    (hTag : m.tag = msgServerLoginAck) :
    (run cfg events).accepts con ≠ some m.body ∧
      ∀ env, ((run cfg events).con con).cls = .unknown →
        (((run cfg events).step (.packet con .serverLoginAck m.body env)).con con).cls ≠
          .server := by
  have hAccepts : (run cfg events).accepts con ≠ some m.body := by
    rw [accepts]
    split
    · simp
    · rename_i hOpen
      simp only [Bool.or_eq_true, Bool.not_eq_true', not_or, Bool.not_eq_true,
        Bool.not_eq_false] at hOpen
      have hAllocated : ((run cfg events).con con).allocated = true := by
        have hReads := hOpen.2
        simp only [Peer.reads, Bool.and_eq_true] at hReads
        exact hReads.1
      have hMem : (msgServerLoginAck, m.body) ∈ (run cfg events).sentTo con :=
        List.mem_map.2 ⟨m, List.mem_filter.2 ⟨hSent, by simp [hCon]⟩, by rw [hTag]⟩
      rw [run_cfg]
      exact (run_answers cfg events hOpen.1 con hAllocated).not_expected hInj hApart hMem
  refine ⟨hAccepts, fun env hClass hServer => ?_⟩
  rw [step] at hServer
  split at hServer
  · rw [hClass] at hServer
    cases hServer
  · rename_i hFault
    simp only [turn] at hServer
    split at hServer
    · rename_i hReads
      simp only [apply_con, if_true] at hServer
      have hExpected := Peer.read_server_expected hClass hServer
      refine hAccepts ?_
      rw [accepts, if_neg (by simp [hFault, hReads]), hExpected]
    · rw [hClass] at hServer
      cases hServer

/-- A server with different passwords for the two directions. -/
def pair : LinkConfig := { twin with servers := [str "peer alpha beta\n"] }

theorem pair_apart (ip : UInt32) : pair.Apart ours ip := by
  have hEntry (name pass own : Str) (h : pair.entry name = some (pass, own)) :
      pass = str "alpha" ∧ own = str "beta" := by
    have hFields : splitLine 3 (str "peer alpha beta\n") =
        some [str "peer", str "alpha", str "beta"] := by decide
    have hSkip : LinkConfig.skipsLine (str "peer alpha beta\n") = false := by decide
    simp only [LinkConfig.entry, pair, List.findSome?_cons, List.findSome?_nil,
      LinkConfig.linePass, hSkip, hFields, Bool.false_eq_true, if_false] at h
    by_cases hSame : sameText name (str "peer") = true
    · simp only [hSame, if_true, List.head?_cons, Option.getD_some, Option.some.injEq,
        Prod.mk.injEq] at h
      exact ⟨h.1.symm, h.2.symm⟩
    · simp [hSame] at h
  intro name other pass own pass' own' _ _ hName hOther
  obtain ⟨-, rfl⟩ := hEntry _ _ _ hName
  obtain ⟨rfl, -⟩ := hEntry _ _ _ hOther
  decide

theorem run_not_reflected_pair :
    (run pair [.accept 7 (str "peer") 5000 8888,
      .packet 0 .serverLogin (str "peer AAAA 0") calm]).accepts 0 ≠
        some (pair.response (str "AAAA") ours (str "beta")) := by
  have hAuth : ((run pair [.accept 7 (str "peer") 5000 8888,
      .packet 0 .serverLogin (str "peer AAAA 0") calm]).con 0).auth =
        .live ⟨some ours, some (str "AAAA")⟩ := by decide +kernel
  refine (run_not_reflected pair wideBytes_injective
    [.accept 7 (str "peer") 5000 8888, .packet 0 .serverLogin (str "peer AAAA 0") calm] 0 ?_
    ⟨0, msgServerLoginAck, pair.response (str "AAAA") ours (str "beta")⟩ ?_ rfl rfl).1
  · intro nonce sendernonce hLive
    rw [hAuth] at hLive
    cases hLive
    exact pair_apart _
  · decide +kernel

/-- With one password for both directions, a peer that sends our nonce as its own in a second login
message is sent the response that it needs, and becomes a server with it. -/
theorem reflected : Function.Injective twin.md5 ∧
    let s := run twin
      [.accept 7 (str "peer") 5000 8888, .packet 0 .serverLogin (str "peer AAAA 0") calm,
        .packet 0 .serverLogin (str "peer 0123456789ABCDEF 0") calm]
    ∃ m ∈ s.sent, m.con = 0 ∧ m.tag = msgServerLoginAck ∧ s.accepts 0 = some m.body ∧
      (s.con 0).cls = .unknown ∧
      ((s.step (.packet 0 .serverLoginAck m.body calm)).con 0).cls = .server := by
  refine ⟨wideBytes_injective,
    ⟨0, msgServerLoginAck, twin.response ours ours (str "secret")⟩, ?_, rfl, rfl, ?_⟩
  · decide +kernel
  · decide +kernel

end Node

end OpenNap
