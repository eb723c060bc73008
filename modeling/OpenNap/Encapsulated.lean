import OpenNap.Lib.Network
import OpenNap.ArgBuffers
import OpenNap.Link
import OpenNap.Reach

/-! A message for a user of another server.  It travels as the body of a message that the servers
pass on as they received it, and the server of the user takes it out and queues it. -/

namespace OpenNap

open CText Memory

/-- The bytes that `queue_data` gets for a message. -/
def Message.bytes (m : Message) : Str := Server.packetHeader m.body.length m.tag ++ m.body

/-- The number in two bytes, the low one first. -/
def twoBytes (low high : Char) : Nat := low.toNat + 256 * high.toNat

namespace Core

/-- `encapsulated`: `:<server> <target> <packet>`, in the receive buffer of the connection, of which
`consumed` bytes are processed.  The result is what is queued. -/
def encapsulated (s : Core) (con : ConId) (b : Bytes) (consumed len : Nat) :
    Checked (List (ConId × Str)) := do
  let pkt := consumed + 4
  if !s.isServer con then return []
  if (← load b pkt) ≠ ':' then return []
  match ← search (· == ' ') b (pkt + 1) with
  | none => return []
  | some p =>
    let nick := p + 1
    match ← search (· == ' ') b nick with
    | none => return []
    | some ptr =>
      let ch ← load b ptr
      let b ← store b ptr nul
      match s.users.lookup (← text b nick) with
      | none => return []
      | some user =>
        let u := s.user user
        if u.isLocal then return [(u.con, ← piece b (ptr + 1) (len - (ptr + 1 - pkt)))]
        else
          let b ← store b ptr ch
          let raw ← piece b consumed (4 + len)
          return (s.servers.filter (· != con)).map fun peer => (peer, raw)

/-- A packet in the receive buffer, all of which is there: the loop of `handle_connection` reads its
header, and `dispatch_command` ends it with a NUL for the handler.  Only those are of interest here
that go to `encapsulated`. -/
def readEncapsulated (s : Core) (con : ConId) (b : Bytes) (consumed : Nat) :
    Checked (List (ConId × Str)) := do
  let len := twoBytes (← load b consumed) (← load b (consumed + 1))
  let tag := twoBytes (← load b (consumed + 2)) (← load b (consumed + 3))
  if tag ≠ msgServerEncapsulated then return []
  let b ← store b (consumed + 4 + len) nul
  s.encapsulated con b consumed len

end Core

/-! ### What a server makes of such a message -/

/-- A text without a blank that a C string may hold. -/
def Unbroken (w : Str) : Prop := ∀ c ∈ w, c ≠ ' ' ∧ c ≠ nul

/-- The body of a message for a user of another server. -/
def wrapped (name nick : Str) (inner : Str) : Str := ':' :: (name ++ ' ' :: (nick ++ ' ' :: inner))

theorem twoBytes_eq {n : Nat} (h : n < 65536) :
    twoBytes (Char.ofNat (n % 256)) (Char.ofNat (n / 256 % 256)) = n := by
  have hByte : ∀ k < 256, (Char.ofNat k).toNat = k := by decide +kernel
  rw [twoBytes, hByte _ (Nat.mod_lt _ (by decide)), hByte _ (Nat.mod_lt _ (by decide))]
  omega

section

variable {s : Core} {con : ConId} {name nick inner before after : Str} {c : Char}

/-- What is queued for a message that arrived. -/
def passedOn (s : Core) (con : ConId) (nick inner raw : Str) : List (ConId × Str) :=
  match s.users.lookup nick with
  | none => []
  | some user =>
    if (s.user user).isLocal then [((s.user user).con, inner)]
    else (s.servers.filter (· != con)).map fun peer => (peer, raw)

/-- In a buffer where the packet is ended by a NUL, the handler finds the target, and either queues the
packet behind it for the target or passes all of it on. -/
theorem encapsulated_eq {header : Bytes} (hServer : s.isServer con = true) (hName : Unbroken name)
    (hNick : Unbroken nick) (hHeader : header.length = 4) :
    s.encapsulated con (before ++ (header ++ wrapped name nick inner ++ nul :: after)) before.length
        (wrapped name nick inner).length =
      .ok (passedOn s con nick inner (header ++ wrapped name nick inner)) := by
  generalize hb : before ++ (header ++ wrapped name nick inner ++ nul :: after) = b
  have hLength : (wrapped name nick inner).length = name.length + nick.length + inner.length + 3 := by
    simp only [wrapped, List.length_cons, List.length_append]
    omega
  have hBlank : ∀ w, Unbroken w → ∀ d ∈ w, (d == ' ') = false ∧ d ≠ nul :=
    fun w hw d hd => ⟨by simpa using (hw d hd).1, (hw d hd).2⟩
  -- the buffer from the colon, from the name, from the nick and from the blank behind it
  have hColon : b = (before ++ header) ++
      ':' :: (name ++ ' ' :: (nick ++ ' ' :: (inner ++ nul :: after))) := by
    rw [← hb, wrapped]
    simp
  have hAtName : b = (before ++ header ++ [':']) ++
      (name ++ ' ' :: (nick ++ ' ' :: (inner ++ nul :: after))) := by
    rw [hColon]
    simp
  have hAtNick : b = (before ++ header ++ ':' :: (name ++ [' '])) ++
      (nick ++ ' ' :: (inner ++ nul :: after)) := by
    rw [hColon]
    simp
  have hAtBlank : b = (before ++ header ++ ':' :: (name ++ ' ' :: nick)) ++
      ' ' :: (inner ++ nul :: after) := by
    rw [hColon]
    simp
  have hLoad : load b (before.length + 4) = .ok ':' := load_part hColon (by simp [hHeader])
  have hFirst : search (· == ' ') b (before.length + 4 + 1) =
      .ok (some (before.length + 4 + 1 + name.length)) :=
    search_part hAtName (by simp [hHeader]) (hBlank name hName) rfl
  have hSecond : search (· == ' ') b (before.length + 4 + 1 + name.length + 1) =
      .ok (some (before.length + 4 + 1 + name.length + 1 + nick.length)) :=
    search_part hAtNick (by simp [hHeader]; omega) (hBlank nick hNick) rfl
  generalize hPtr : before.length + 4 + 1 + name.length + 1 + nick.length = ptr at hSecond
  have hFront : ptr = (before ++ header ++ ':' :: (name ++ ' ' :: nick)).length := by
    simp [hHeader]
    omega
  have hChar : load b ptr = .ok ' ' := load_part hAtBlank hFront
  have hCut := store_part hAtBlank hFront nul
  generalize hc : (before ++ header ++ ':' :: (name ++ ' ' :: nick)) ++
    nul :: (inner ++ nul :: after) = c at hCut
  have hText : text c (before.length + 4 + 1 + name.length + 1) = .ok nick := by
    have hAt : c = (before ++ header ++ ':' :: (name ++ [' '])) ++
        (nick ++ nul :: (inner ++ nul :: after)) := by
      rw [← hc]
      simp
    exact text_part hAt (by simp [hHeader]; omega) fun hIn => (hNick nul hIn).2 rfl
  have hInner : piece c (ptr + 1)
      ((wrapped name nick inner).length - (ptr + 1 - (before.length + 4))) = .ok inner := by
    have hAt : c = (before ++ header ++ ':' :: (name ++ ' ' :: (nick ++ [nul]))) ++
        (inner ++ nul :: after) := by
      rw [← hc]
      simp
    exact piece_part hAt (by simp [hHeader]; omega) (by omega)
  -- the blank is put back before the message is passed on
  have hBack : store c ptr ' ' = .ok b := by
    rw [hAtBlank]
    exact store_part hc.symm hFront ' '
  have hRaw : piece b before.length (4 + (wrapped name nick inner).length) =
      .ok (header ++ wrapped name nick inner) :=
    piece_part hb.symm rfl (by rw [List.length_append, hHeader])
  simp only [Core.encapsulated, hServer, Bool.not_true, Bool.false_eq_true, if_false, hLoad, hFirst,
    hSecond, hChar, hCut, hText, ok_bind, ne_eq, not_true_eq_false, passedOn]
  cases s.users.lookup nick with
  | none => rfl
  | some user =>
    simp only
    split
    · rw [hInner]
      rfl
    · rw [hBack, ok_bind, hRaw]
      rfl

/-- Wherever a message stands in the receive buffer, it is read. -/
theorem readEncapsulated_eq (hServer : s.isServer con = true) (hName : Unbroken name)
    (hNick : Unbroken nick) (hFits : (wrapped name nick inner).length < 65536) {origin : ConId} :
    s.readEncapsulated con
        (before ++ ((Message.bytes ⟨origin, msgServerEncapsulated, wrapped name nick inner⟩) ++
          c :: after)) before.length =
      .ok (passedOn s con nick inner
        (Message.bytes ⟨origin, msgServerEncapsulated, wrapped name nick inner⟩)) := by
  have hTag : msgServerEncapsulated < 65536 := by decide
  generalize hLen : (wrapped name nick inner).length = len at hFits
  generalize h0 : Char.ofNat (len % 256) = l0
  generalize h1 : Char.ofNat (len / 256 % 256) = l1
  generalize h2 : Char.ofNat (msgServerEncapsulated % 256) = t0
  generalize h3 : Char.ofNat (msgServerEncapsulated / 256 % 256) = t1
  have hRaw : Message.bytes ⟨origin, msgServerEncapsulated, wrapped name nick inner⟩ =
      [l0, l1, t0, t1] ++ wrapped name nick inner := by
    simp only [Message.bytes, Server.packetHeader, hLen, h0, h1, h2, h3]
  have hReadLen : twoBytes l0 l1 = len := by rw [← h0, ← h1, twoBytes_eq hFits]
  have hReadTag : twoBytes t0 t1 = msgServerEncapsulated := by rw [← h2, ← h3, twoBytes_eq hTag]
  rw [hRaw]
  generalize hb : before ++ ([l0, l1, t0, t1] ++ wrapped name nick inner ++ c :: after) = b
  have hAt0 : b = before ++ l0 :: (l1 :: t0 :: t1 :: (wrapped name nick inner ++ c :: after)) := by
    rw [← hb]
    simp
  have hAt1 : b = (before ++ [l0]) ++ l1 :: (t0 :: t1 :: (wrapped name nick inner ++ c :: after)) := by
    rw [hAt0]
    simp
  have hAt2 : b = (before ++ [l0, l1]) ++ t0 :: (t1 :: (wrapped name nick inner ++ c :: after)) := by
    rw [hAt0]
    simp
  have hAt3 : b = (before ++ [l0, l1, t0]) ++ t1 :: (wrapped name nick inner ++ c :: after) := by
    rw [hAt0]
    simp
  have hEnd : b = (before ++ ([l0, l1, t0, t1] ++ wrapped name nick inner)) ++ c :: after := by
    rw [hAt0]
    simp
  have hStore : store b (before.length + 4 + len) nul =
      .ok (before ++ ([l0, l1, t0, t1] ++ wrapped name nick inner ++ nul :: after)) := by
    rw [store_part hEnd (by simp [hLen]; omega) nul]
    simp
  rw [Core.readEncapsulated, load_part hAt0 rfl, load_part hAt1 (by simp), load_part hAt2 (by simp),
    load_part hAt3 (by simp)]
  simp only [ok_bind, hReadLen, hReadTag, ne_eq, not_true_eq_false, if_false, hStore]
  rw [← hLen]
  exact encapsulated_eq hServer hName hNick rfl

end

/-! ### A tree of linked servers -/

/-- A server of a tree, and what else stands in the receive buffer of each of its connections when a
message is read there. -/
structure Site where
  server : Server
  before : ConId → Bytes
  next : ConId → Char
  after : ConId → Bytes

/-- What a server queues for a message that it reads on a connection. -/
def Site.reads (p : Site) (con : ConId) (raw : Str) : List (ConId × Str) :=
  match p.server.readEncapsulated con (p.before con ++ (raw ++ p.next con :: p.after con))
    (p.before con).length with
  | .ok out => out
  | .error _ => []

/-- The servers and the links between them. -/
def network {P : Type} (site : P → Site) (wire : P → ConId → Option (P × ConId)) :
    Network.Net P ConId Str where
  react p con raw := (site p).reads con raw
  wire := wire

/-- The links of a server are its server connections. -/
structure Wired (s : Core) (link : ConId → Bool) : Prop where
  distinct : s.servers.Nodup
  listed : ∀ con, con ∈ s.servers ↔ link con = true
  cls : ∀ con ∈ s.servers, s.isServer con = true

/-- A user that all servers of a tree know: local on one of them, and on each of the others behind the
link towards that one. -/
structure Located {P : Type} (core : P → Core) (wire : P → ConId → Option (P × ConId)) (home : P)
    (up : P → ConId) (user : P → UserId) (nick : Str) : Prop where
  wired : ∀ p, Wired (core p) fun con => (wire p con).isSome
  listed : ∀ p, (core p).users.lookup nick = some (user p)
  isLocal : ∀ p, ((core p).user (user p)).isLocal = true ↔ p = home
  behind : ∀ p, p ≠ home → ((core p).user (user p)).con = up p
  client : wire home ((core home).user (user home)).con = none

section

variable {P : Type} {site : P → Site} {core : P → Core} {wire : P → ConId → Option (P × ConId)} {home : P}
  {up : P → ConId} {depth : P → Nat} {user : P → UserId} {nick name inner : Str} {origin : ConId}

/-- The message that carries a packet. -/
def carrier (origin : ConId) (name nick inner : Str) : Message :=
  ⟨origin, msgServerEncapsulated, wrapped name nick inner⟩

theorem Site.reads_carrier (hName : Unbroken name) (hNick : Unbroken nick)
    (hFits : (wrapped name nick inner).length < 65536) {p : Site} {con : ConId}
    (hServer : p.server.isServer con = true) :
    p.reads con (carrier origin name nick inner).bytes =
      passedOn p.server.toCore con nick inner (carrier origin name nick inner).bytes := by
  rw [reads, carrier, readEncapsulated_eq hServer hName hNick hFits]

namespace Located

section

variable (h : Located core wire home up user nick)

include h

theorem isServer {p : P} {con : ConId} {e : P × ConId} (hWire : wire p con = some e) :
    (core p).isServer con = true :=
  (h.wired p).cls con (((h.wired p).listed con).2 (by rw [hWire]; rfl))

theorem away {p : P} (hNe : p ≠ home) : ((core p).user (user p)).isLocal = false := by
  simpa using fun hLocal => hNe ((h.isLocal p).1 hLocal)

/-- The user's server queues the packet for the user. -/
theorem passedOn_home (con : ConId) (inner raw : Str) :
    passedOn (core home) con nick inner raw = [(((core home).user (user home)).con, inner)] := by
  simp only [passedOn, h.listed home, (h.isLocal home).2 rfl, if_true]

/-- Each other server passes the message on to all others. -/
theorem passedOn_away {p : P} (hNe : p ≠ home) (con : ConId) (inner raw : Str) :
    passedOn (core p) con nick inner raw =
      ((core p).servers.filter (· != con)).map fun peer => (peer, raw) := by
  simp only [passedOn, h.listed p, h.away hNe, Bool.false_eq_true, if_false]

end

/-- The message is flooded over the tree, and comes out at the user's server. -/
theorem carries (h : Located (fun p => (site p).server.toCore) wire home up user nick)
    (hTree : Network.Tree wire home up depth) (hName : Unbroken name)
    (hNick : Unbroken nick) (hFits : (wrapped name nick inner).length < 65536) :
    Network.Carries (network site wire) (· = (carrier origin name nick inner).bytes) home up
      (((site home).server.user (user home)).con, inner) := by
  have hHome {f : Network.Flight P ConId Str}
      (hKnown : Network.Known (network site wire) (· = (carrier origin name nick inner).bytes) f)
      (hRoot : f.party = home) : (network site wire).react f.party f.port f.text =
        [(((site home).server.user (user home)).con, inner)] := by
    obtain ⟨hText, e, hWire⟩ := hKnown
    rw [hText, hRoot]
    rw [hRoot] at hWire
    exact (Site.reads_carrier hName hNick hFits (h.isServer hWire)).trans (h.passedOn_home ..)
  have hAway {f : Network.Flight P ConId Str}
      (hKnown : Network.Known (network site wire) (· = (carrier origin name nick inner).bytes) f)
      (hNe : f.party ≠ home) : (network site wire).react f.party f.port f.text =
        ((site f.party).server.servers.filter (· != f.port)).map fun peer => (peer, f.text) := by
    obtain ⟨hText, e, hWire⟩ := hKnown
    rw [hText]
    exact (Site.reads_carrier hName hNick hFits (h.isServer hWire)).trans (h.passedOn_away hNe ..)
  refine ⟨⟨?_, ?_, ?_⟩, ?_, ?_, fun hKnown hRoot => hHome hKnown hRoot⟩
  · intro f o hKnown hNe hOut
    rw [hAway hKnown hNe] at hOut
    obtain ⟨peer, -, rfl⟩ := List.mem_map.1 hOut
    exact hKnown.1
  · intro f o hKnown hNe hPort hOut
    rw [hAway hKnown hNe] at hOut
    obtain ⟨peer, hPeer, rfl⟩ := List.mem_map.1 hOut
    rw [← hPort]
    simpa using (List.mem_filter.1 hPeer).2
  · intro f o hKnown hRoot hOut
    rw [hHome hKnown hRoot] at hOut
    rw [List.mem_singleton.1 hOut]
    exact h.client
  · intro f o hKnown hNe hOut
    rw [hAway hKnown hNe] at hOut
    obtain ⟨peer, hPeer, rfl⟩ := List.mem_map.1 hOut
    exact Option.isSome_iff_exists.1 (((h.wired f.party).listed peer).1 (List.mem_filter.1 hPeer).1)
  · intro f hKnown hNe hPort
    obtain ⟨q, b, hUp, -⟩ := hTree.above hNe
    have hListed : up f.party ∈ (site f.party).server.servers :=
      ((h.wired f.party).listed _).2 (by rw [hUp]; rfl)
    have hDistinct := (h.wired f.party).distinct.filter (· != f.port)
    rw [hAway hKnown hNe, List.countP_map]
    have hCount : ((site f.party).server.servers.filter (· != f.port)).count (up f.party) = 1 :=
      List.count_eq_one_of_mem hDistinct (List.mem_filter.2 ⟨hListed, by simpa using Ne.symm hPort⟩)
    rw [← hCount, List.count]
    exact List.countP_congr fun peer _ => by simp

/-- A server queues one message for each link at most, or one for the user. -/
theorem width (h : Located (fun p => (site p).server.toCore) wire home up user nick)
    (hName : Unbroken name) (hNick : Unbroken nick) (hFits : (wrapped name nick inner).length < 65536)
    {f : Network.Flight P ConId Str}
    (hKnown : Network.Known (network site wire) (· = (carrier origin name nick inner).bytes) f) :
    ((network site wire).react f.party f.port f.text).length ≤
      (site f.party).server.servers.length + 1 := by
  obtain ⟨hText, e, hLink⟩ := hKnown
  simp only [network, hText, Site.reads_carrier hName hNick hFits (h.isServer hLink)]
  by_cases hRoot : f.party = home
  · rw [hRoot, h.passedOn_home, List.length_singleton]
    omega
  · have hSub := List.length_filter_le (· != f.port) (site f.party).server.servers
    rw [h.passedOn_away hRoot, List.length_map]
    exact Nat.le_succ_of_le hSub

end Located

/-! ### What `send_user` leads to -/

/-- What an action queues, as bytes. -/
def Server.posts (s : Server) (act : Server → Server) : List (ConId × Str) :=
  (act { s with sent := [] }).sent.map fun m => (m.con, m.bytes)

/-- The text in front of a packet for a user of another server. -/
def address (name nick : Str) : Str := ':' :: (name ++ ' ' :: (nick ++ [' ']))

theorem posts_sendUser_local {s : Server} {u : UserId} (h : (s.user u).isLocal = true) (tag : Nat)
    {body : Str} (hFits : body.length ≤ 2043) :
    s.posts (·.sendUser u tag body) =
      [((s.user u).con, Message.bytes ⟨(s.user u).con, tag, body⟩)] := by
  simp [Server.posts, Server.sendUser, h, Server.queueData, clip_of_fits hFits]

theorem posts_sendUser_remote {s : Server} {u : UserId} (h : (s.user u).isLocal = false) (tag : Nat)
    {body : Str} (hFits : body.length + (address s.cfg.serverName (s.user u).nick).length ≤ 2039) :
    s.posts (·.sendUser u tag body) =
      [((s.user u).con, (carrier (s.user u).con s.cfg.serverName (s.user u).nick
        (Message.bytes ⟨(s.user u).con, tag, body⟩)).bytes)] := by
  have hTarget : str ":" ++ s.cfg.serverName ++ str " " ++ (s.user u).nick ++ str " " =
      address s.cfg.serverName (s.user u).nick := by simp [address, str]
  have hClip : clip (address s.cfg.serverName (s.user u).nick) =
      address s.cfg.serverName (s.user u).nick := clip_of_fits (by omega)
  have hBody : body.take (2039 - (address s.cfg.serverName (s.user u).nick).length) = body :=
    List.take_of_length_le (by omega)
  have hWrapped : wrapped s.cfg.serverName (s.user u).nick
      (Message.bytes ⟨(s.user u).con, tag, body⟩) =
        address s.cfg.serverName (s.user u).nick ++ Server.packetHeader body.length tag ++ body := by
    simp [wrapped, address, Message.bytes]
  simp only [Server.posts, Server.sendUser, h, Bool.false_eq_true, if_false, Server.queueData,
    List.nil_append, List.map_singleton, carrier, hWrapped]
  rw [hTarget, hClip, hBody]

/-- What left a network is what should be queued at one of the parties, or nothing as yet. -/
structure DeliversTo (home : P) (out : List (ConId × Str)) (t : Network.State P ConId Str) :
    Prop where
  party : ∀ g ∈ t.left, g.party = home
  part : (t.left.map fun g => (g.port, g.text)) <+: out
  whole : t.flying = [] → (t.left.map fun g => (g.port, g.text)) = out

/-- `send_user` for a user of another server of a tree queues one message for a link.  In whatever
order the servers read, this ends, and all that was queued for clients is then what `send_user` queues
for the user on the user's own server. -/
theorem sendUser_delivered [Finite P] (hTree : Network.Tree wire home up depth)
    (h : Located (fun p => (site p).server.toCore) wire home up user nick) {a : P} (hAway : a ≠ home)
    (hNick : ((site a).server.user (user a)).nick = nick)
    (hPlain : Unbroken nick) (hName : Unbroken (site a).server.cfg.serverName) (tag : Nat) (body : Str)
    (hFits : body.length + (address (site a).server.cfg.serverName nick).length ≤ 2039) :
    ∃ f, ((site a).server.posts (·.sendUser (user a) tag body)).map
          ((network site wire).crosses a) = [some f] ∧
      (∃ t, (network site wire).Run (.start f) t ∧ t.flying = []) ∧
      ∀ t, (network site wire).Run (.start f) t →
        DeliversTo home ((site home).server.posts (·.sendUser (user home) tag body)) t := by
  have hRemote : ((site a).server.user (user a)).isLocal = false := h.away hAway
  have hPosts := posts_sendUser_remote hRemote tag (hNick.symm ▸ hFits)
  have hBehind : ((site a).server.user (user a)).con = up a := h.behind a hAway
  rw [hNick, hBehind] at hPosts
  obtain ⟨q, b, hWire, -⟩ := hTree.above hAway
  generalize hInner : Message.bytes ⟨up a, tag, body⟩ = inner at hPosts
  have hLength : (wrapped (site a).server.cfg.serverName nick inner).length < 65536 := by
    have hInnerLength : inner.length = body.length + 4 := by
      rw [← hInner, Message.bytes, List.length_append, Server.packetHeader]
      simp only [List.length_cons, List.length_nil]
      omega
    simp only [address, wrapped, List.length_cons, List.length_append, List.length_nil] at hFits ⊢
    omega
  have hCarries : Network.Carries (network site wire)
      (· = (carrier (up a) (site a).server.cfg.serverName nick inner).bytes) home up
      (((site home).server.user (user home)).con, inner) := h.carries hTree hName hPlain hLength
  have hKnown : Network.Known (network site wire)
      (· = (carrier (up a) (site a).server.cfg.serverName nick inner).bytes)
      ⟨q, b, (carrier (up a) (site a).server.cfg.serverName nick inner).bytes⟩ :=
    ⟨rfl, _, hTree.back hWire⟩
  have hHome : (site home).server.posts (·.sendUser (user home) tag body) =
      [(((site home).server.user (user home)).con, inner)] := by
    rw [posts_sendUser_local ((h.isLocal home).2 rfl) tag (by omega), ← hInner]
    rfl
  refine ⟨⟨q, b, (carrier (up a) (site a).server.cfg.serverName nick inner).bytes⟩, ?_, ?_, ?_⟩
  · rw [hPosts, List.map_singleton, Network.Net.crosses]
    simp only [network, hWire, Option.map_some]
  · exact hCarries.toSpreads.ends hTree (fun p => (site p).server.servers.length + 1)
      (fun f hf => h.width hName hPlain hLength hf) hKnown
  · intro t hRun
    have hOnce := hCarries.once hTree hKnown (hTree.rises hAway hWire) hRun
    rw [hHome]
    have hParty : ∀ g ∈ t.left, g.party = home := fun g hg => by rw [hOnce.out g hg]
    have hWhole : t.flying = [] → (t.left.map fun g => (g.port, g.text)) =
        [(((site home).server.user (user home)).con, inner)] := fun hDone => by
      rw [hOnce.left_eq hDone]
      rfl
    refine ⟨hParty, ?_, hWhole⟩
    have hLess := hOnce.once
    cases hLeft : t.left with
    | nil => exact List.nil_prefix
    | cons g rest =>
      have hRest : rest = [] := by
        rw [hLeft, List.length_cons] at hLess
        exact List.eq_nil_of_length_eq_zero (by omega)
      rw [hRest, hOnce.out g (by simp [hLeft])]
      exact List.prefix_refl _

end

namespace Server

/-- A server at one end of a line of three, on which the user is known from its link. -/
def farServer : Server :=
  reach hub [.accept 1 (str "middle") 8888 8888, .link 0,
    .packet 0 .login (str "nick pw 0 \"client\" 3 unknown 4 5 other 0") {}]

/-- The server in the middle. -/
def middleServer : Server :=
  reach hub [.accept 1 (str "far") 8888 8888, .link 0, .accept 2 (str "near") 8888 8888, .link 1,
    .packet 1 .login (str "nick pw 0 \"client\" 3 unknown 4 5 other 0") {}]

/-- The server at the other end, with the user. -/
def nearServer : Server :=
  reach hub [.accept 1 (str "middle") 8888 8888, .link 0, .accept 2 (str "pc") 6699 8888,
    .packet 1 .login (str "nick pw 6699 \"client\" 3") {}]

/-- The three servers, each with nothing else in its receive buffers. -/
def lineSite (p : Fin 3) : Site :=
  ⟨if p = 0 then farServer else if p = 1 then middleServer else nearServer, fun _ => [], fun _ => nul,
    fun _ => []⟩

/-- The links of the line. -/
def lineWire : Fin 3 → ConId → Option (Fin 3 × ConId)
  | 0, 0 => some (1, 0)
  | 1, 0 => some (0, 0)
  | 1, 1 => some (2, 0)
  | 2, 0 => some (1, 1)
  | _, _ => none

/-- The link towards the user. -/
def lineUp (p : Fin 3) : ConId := if p = 1 then 1 else 0

/-- The record of the user. -/
def lineUser (p : Fin 3) : UserId := if p = 0 then 1 else 2

theorem tree_line : Network.Tree lineWire 2 lineUp fun p => 2 - p.val where
  back {p a q b} h := by
    unfold lineWire at h
    split at h <;> cases h <;> rfl
  above {p} h := by
    obtain rfl | rfl : p = 0 ∨ p = 1 := by omega
    · exact ⟨1, 0, rfl, by decide⟩
    · exact ⟨2, 0, rfl, by decide⟩
  below {p a q b} h hDown := by
    unfold lineWire at h
    split at h <;> cases h <;> revert hDown <;> decide

/-- What is looked up in the three servers. -/
theorem located_line :
    Located (fun p => (lineSite p).server.toCore) lineWire 2 lineUp lineUser (str "nick") where
  wired p := by
    have hServers : (lineSite p).server.servers =
        if p = 1 then [0, 1] else [0] := by revert p; decide +kernel
    have hCls : ∀ con ∈ (lineSite p).server.servers, (lineSite p).server.isServer con = true := by
      revert p; decide +kernel
    refine ⟨by rw [hServers]; split <;> decide, fun con => ?_, hCls⟩
    rw [hServers]
    obtain rfl | rfl | rfl : p = 0 ∨ p = 1 ∨ p = 2 := by omega
    all_goals rcases con with _ | _ | con <;> simp [lineWire]
  listed p := by revert p; decide +kernel
  isLocal p := by revert p; decide +kernel
  behind p := by revert p; decide +kernel
  client := by decide +kernel

/-- A message to the user is sent from the other end of the line. -/
theorem sendUser_delivered_line : ∃ t, (network lineSite lineWire).Run
      (.start ⟨1, 0, (carrier 0 (str "hub") (str "nick")
        (Message.bytes ⟨0, 205, str "joe hello"⟩)).bytes⟩) t ∧ t.flying = [] ∧
      (t.left.map fun g => (g.port, g.text)) =
        (lineSite 2).server.posts (·.sendUser (lineUser 2) 205 (str "joe hello")) := by
  have hNick : ((lineSite 0).server.user (lineUser 0)).nick = str "nick" := by decide +kernel
  have hName : (lineSite 0).server.cfg.serverName = str "hub" := by decide +kernel
  obtain ⟨f, hPosts, ⟨t, hRun, hDone⟩, hAll⟩ :=
    sendUser_delivered tree_line located_line (show (0 : Fin 3) ≠ 2 by decide) hNick
      (by simp [Unbroken, str, nul]) (by rw [hName]; simp [Unbroken, str, nul]) 205 (str "joe hello")
      (by rw [hName]; decide +kernel)
  have hFirst : ((lineSite 0).server.posts (·.sendUser (lineUser 0) 205 (str "joe hello"))).map
      ((network lineSite lineWire).crosses 0) =
        [some ⟨1, 0, (carrier 0 (str "hub") (str "nick")
          (Message.bytes ⟨0, 205, str "joe hello"⟩)).bytes⟩] := by decide +kernel
  rw [hFirst, List.cons.injEq, Option.some.injEq] at hPosts
  rw [hPosts.1]
  exact ⟨t, hRun, hDone, (hAll t hRun).whole hDone⟩

end Server

end OpenNap
