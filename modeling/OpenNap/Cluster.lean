import OpenNap.Lib.Broadcast
import OpenNap.Announce
import OpenNap.UploadRelay

/-! Linked servers and their clients.  A server reads packets of its clients and of its peers, one at
a time; what it queues for a peer comes to that peer in the same order.  The servers know the same
users, each of whom is logged on at one of them. -/

namespace OpenNap

open CText

/-! ### The counts of transfers -/

/-- The part of `USER` that counts transfers. -/
structure Transfers where
  uploads : UInt16 := 0
  downloads : UInt16 := 0
  totalup : UInt16 := 0
  totaldown : UInt16 := 0
deriving DecidableEq, Repr

namespace Transfers

/-- What `upload_start` counts. -/
def uploadStart (t : Transfers) : Transfers :=
  { t with uploads := t.uploads + 1, totalup := t.totalup + 1 }

/-- What `upload_end` counts. -/
def uploadEnd (t : Transfers) : Transfers :=
  if 0 < t.uploads then { t with uploads := t.uploads - 1 } else t

/-- What `download_start` counts. -/
def downloadStart (t : Transfers) : Transfers :=
  { t with downloads := t.downloads + 1, totaldown := t.totaldown + 1 }

/-- What `download_end` counts. -/
def downloadEnd (t : Transfers) : Transfers :=
  if 0 < t.downloads then { t with downloads := t.downloads - 1 } else t

end Transfers

/-- The messages that count transfers. -/
inductive TransferCommand
  | downloadStart
  | downloadEnd
  | uploadStart
  | uploadEnd
deriving DecidableEq, Repr

namespace TransferCommand

/-- The number of the message. -/
def tag : TransferCommand → Nat
  | downloadStart => msgClientDownloadStart
  | downloadEnd => msgClientDownloadEnd
  | uploadStart => msgClientUploadStart
  | uploadEnd => msgClientUploadEnd

/-- What the handler counts. -/
def count : TransferCommand → Transfers → Transfers
  | downloadStart => Transfers.downloadStart
  | downloadEnd => Transfers.downloadEnd
  | uploadStart => Transfers.uploadStart
  | uploadEnd => Transfers.uploadEnd

/-- The entries of the protocol table. -/
def all : List TransferCommand := [downloadStart, downloadEnd, uploadStart, uploadEnd]

end TransferCommand

/-! ### A server in a network -/

/-- What a message number stands for in the protocol table. -/
inductive ProtocolEntry
  | handled (cmd : Command)
  | counted (cmd : TransferCommand)
  | announce
  | wallop
  | missing
deriving DecidableEq, Repr

/-- `find_handler`, among the modelled handlers. -/
def ProtocolEntry.find (tag : Nat) : ProtocolEntry :=
  match Command.all.find? (·.tag = tag), TransferCommand.all.find? (·.tag = tag) with
  | some cmd, _ => .handled cmd
  | none, some cmd => .counted cmd
  | none, none =>
    if tag = msgClientAnnounce then .announce
    else if tag = msgClientWallop then .wallop
    else .missing

/-- A server, and the counts of its users' transfers. -/
structure Station extends Core where
  transfers : UserId → Transfers := fun _ => {}

/-- Messages of a server for its connections. -/
abbrev Mail := List (ConId × (Nat × Str))

/-- The messages that a server has queued. -/
def Server.mail (s : Server) : Mail := s.sent.map fun m => (m.con, (m.tag, m.body))

namespace Station

/-- What an action does and queues. -/
def runs (n : Station) (act : Server → Server) : Station × Mail :=
  let t := act { n.toCore with }
  ({ n with toCore := t.toCore }, t.mail)

/-- `transfer_count_wrapper`, and what the handler counts for the user it returns. -/
def countTransfer (n : Station) (con : ConId) (pkt : Str) (cmd : TransferCommand) : Station × Mail :=
  match n.popUser con pkt with
  | none => (n, [])
  | some (user, _) =>
    let relayed := (n.runs (·.passMessageArgs (some con) cmd.tag (str ":" ++ (n.user user).nick))).2
    ({ n with transfers := Function.update n.transfers user (cmd.count (n.transfers user)) }, relayed)

/-- What `handle_connection` does for a packet before its handler is called: a connection must log in
first, and what the user shares is reported.  These handlers share and remove no files. -/
def admits (n : Station) (con : ConId) (handler : Station → Station × Mail) : Station × Mail :=
  if n.isUnknown con then n.runs (·.refuse con msgServerError (str "invalid command"))
  else
    let reported := n.runs (·.reportSharing con .part)
    ((handler reported.1).1, reported.2 ++ (handler reported.1).2)

/-- A server reads a packet. -/
def reads (n : Station) (con : ConId) (m : Nat × Str) : Station × Mail :=
  match ProtocolEntry.find m.1 with
  | .handled cmd => n.runs (·.handlePacket con cmd m.2 {})
  | .counted cmd => n.admits con (·.countTransfer con m.2 cmd)
  | .announce => n.admits con (·.runs (·.announce con m.1 m.2))
  | .wallop => n.admits con (·.runs (·.wallop con m.1 m.2))
  | .missing => (n, [])

end Station

/-- A packet of a client, on its connection. -/
abbrev Request := ConId × (Nat × Str)

/-- Servers, the links between them, and what they do with packets of clients and of peers. -/
def cluster {P : Type} (wire : P → ConId → Option (P × ConId)) :
    Broadcast.Net P ConId Request Station (Nat × Str) where
  act _ n request := n.reads request.1 request.2
  react _ n con m := n.reads con m
  wire := wire

/-! ### Users of all servers -/

/-- The users of a network: the server of each, its name, its record on each server, and who is on a
connection of a server. -/
structure Roll (P U : Type) where
  home : U → P
  nick : U → Str
  who : P → U → UserId
  seat : P → ConId → Option U

/-- Names that the servers accept, and that fit into a message, one for each user. -/
structure Roll.Proper {P U : Type} (d : Roll P U) : Prop where
  word : ∀ u, Word (d.nick u)
  fits : ∀ u, (d.nick u).length ≤ 1800
  distinct : Function.Injective d.nick

/-- The open connection of a client. -/
structure Core.Seats (s : Core) (con : ConId) : Prop where
  opened : (s.con con).allocated = true
  user : s.isUser con = true

/-- A server knows the users of a network, those that are logged on at it and those behind its links.
Nobody has just shared a file. -/
structure Attends {P U : Type} (wire : P → ConId → Option (P × ConId)) (d : Roll P U) (p : P)
    (s : Core) : Prop where
  wired : Wired s fun con => (wire p con).isSome
  listed : ∀ u, s.users.lookup (d.nick u) = some (d.who p u)
  name : ∀ u, (s.user (d.who p u)).nick = d.nick u
  isLocal : ∀ u, (s.user (d.who p u)).isLocal = true ↔ p = d.home u
  seated : ∀ con, s.Seats con → ∃ u, d.seat p con = some u ∧ d.home u = p ∧
    (s.con con).user = some (d.who p u)
  calm : ∀ u, (s.user (d.who p u)).sharing = false ∧ (s.user (d.who p u)).unsharing = false

section

variable {P U : Type} {wire : P → ConId → Option (P × ConId)} {d : Roll P U} {p : P} {s : Core}
  {con : ConId}

namespace Attends

variable (h : Attends wire d p s)

include h

theorem isServer {e : P × ConId} (hWire : wire p con = some e) : s.isServer con = true :=
  h.wired.cls con ((h.wired.listed con).2 (by rw [hWire]; rfl))

theorem unwired (hUser : s.isUser con = true) : wire p con = none := by
  cases hWire : wire p con with
  | none => rfl
  | some e =>
    have hServer := h.isServer hWire
    simp only [Core.isUser, Core.isServer, beq_iff_eq] at hUser hServer
    rw [hUser] at hServer
    cases hServer

/-- The sender of a packet of a client. -/
theorem client (hOn : s.Seats con) {u : U} (hSeat : d.seat p con = some u) (pkt : Str) :
    (s.con con).user = some (d.who p u) ∧ s.popUser con pkt = some (d.who p u, some pkt) := by
  obtain ⟨v, hV, -, hUser⟩ := h.seated con hOn
  rw [hSeat, Option.some.injEq] at hV
  subst hV
  have hNot : s.isServer con = false := by
    have hCls := hOn.user
    simp only [Core.isUser, beq_iff_eq] at hCls
    simp [Core.isServer, hCls]
  exact ⟨hUser, by simp [Core.popUser, hNot, hUser]⟩

/-- The sender of a packet of a peer. -/
theorem popUser_peer (hProper : d.Proper) {u : U} (hServer : s.isServer con = true)
    (hAway : p ≠ d.home u) (rest : Str) (hRest : skipSpace rest ≠ []) :
    s.popUser con (':' :: (d.nick u ++ ' ' :: rest)) = some (d.who p u, some (skipSpace rest)) := by
  have hRemote : (s.user (d.who p u)).isLocal = false := by
    simpa using fun hLocal => hAway ((h.isLocal u).1 hLocal)
  simp only [Core.popUser, hServer, if_true, nextArg_word (hProper.word u) hRest, h.listed, hRemote,
    Bool.false_eq_true, if_false]

/-- The sender of a packet of a peer with nothing else in it. -/
theorem popUser_bare (hProper : d.Proper) {u : U} (hServer : s.isServer con = true)
    (hAway : p ≠ d.home u) : s.popUser con (':' :: d.nick u) = some (d.who p u, none) := by
  have hRemote : (s.user (d.who p u)).isLocal = false := by
    simpa using fun hLocal => hAway ((h.isLocal u).1 hLocal)
  simp only [Core.popUser, hServer, if_true, nextArg_last (hProper.word u), h.listed, hRemote,
    Bool.false_eq_true, if_false]

/-- There is nothing to report before a packet is handled. -/
theorem reportSharing_eq (hKnown : s.Seats con ∨ s.isServer con = true) (cmd : Command) :
    ({ s with } : Server).reportSharing con cmd = { s with } := by
  simp only [Server.reportSharing]
  cases hOn : (s.con con).user with
  | none => rfl
  | some user =>
    simp only
    rcases hKnown with hOpen | hServer
    · obtain ⟨u, -, -, hSeat⟩ := h.seated con hOpen
      rw [hOn, Option.some.injEq] at hSeat
      rw [hSeat, (h.calm u).1, (h.calm u).2]
      simp
    · have hNot : s.isUser con = false := by
        simp only [Core.isServer, beq_iff_eq] at hServer
        simp [Core.isUser, hServer]
      rw [if_pos (by simp [hNot])]

end Attends

/-- Users and peers have logged in. -/
theorem Core.isUnknown_of_known (hKnown : s.Seats con ∨ s.isServer con = true) :
    s.isUnknown con = false := by
  rcases hKnown with hOn | hServer
  · have hCls := hOn.user
    simp only [Core.isUser, beq_iff_eq] at hCls
    simp [Core.isUnknown, hCls]
  · simp only [Core.isServer, beq_iff_eq] at hServer
    simp [Core.isUnknown, hServer]

variable {n : Station}

/-- An action that leaves the data alone queues messages. -/
theorem Station.runs_eq {act : Server → Server} (hCore : (act { n.toCore with }).toCore = n.toCore) :
    n.runs act = (n, (act { n.toCore with }).mail) := by
  simp only [runs, hCore]

/-- The handlers of users and peers are called. -/
theorem Attends.runs_handlePacket (h : Attends wire d p n.toCore)
    (hKnown : n.Seats con ∨ n.isServer con = true) (cmd : Command) (pkt : Str) (env : Env) :
    n.runs (·.handlePacket con cmd pkt env) = n.runs (·.dispatch con cmd pkt env) := by
  have hReport := h.reportSharing_eq hKnown cmd
  have hUnknown : ({ n.toCore with } : Server).isUnknown con = false :=
    Core.isUnknown_of_known hKnown
  simp only [Station.runs, Server.handlePacket, hUnknown, Bool.false_and, Bool.false_eq_true, if_false,
    hReport]

theorem Attends.admits_eq (h : Attends wire d p n.toCore)
    (hKnown : n.Seats con ∨ n.isServer con = true) (handler : Station → Station × Mail) :
    n.admits con handler = handler n := by
  have hReport : n.runs (·.reportSharing con .part) = (n, []) := by
    simp only [Station.runs, h.reportSharing_eq hKnown]
    rfl
  simp only [Station.admits, Core.isUnknown_of_known hKnown, Bool.false_eq_true, if_false, hReport,
    List.nil_append]

theorem Attends.reads_handled (h : Attends wire d p n.toCore)
    (hKnown : n.Seats con ∨ n.isServer con = true) {tag : Nat} {cmd : Command}
    (hFind : ProtocolEntry.find tag = .handled cmd) (pkt : Str) :
    n.reads con (tag, pkt) = n.runs (·.dispatch con cmd pkt {}) := by
  simp only [Station.reads, hFind, h.runs_handlePacket hKnown]

/-! ### Relaying -/

/-- What `pass_message` queues. -/
def Core.relay (s : Core) (con : ConId) (m : Nat × Str) : Mail :=
  (s.servers.filter (· != con)).map fun peer => (peer, m)

namespace Server

theorem mail_queueData (s : Server) (con : ConId) (tag : Nat) (body : Str) :
    (s.queueData con tag body).mail = s.mail ++ [(con, (tag, body))] := by
  simp [mail, queueData]

theorem mail_passMessage (s : Server) (con : ConId) (tag : Nat) (body : Str) :
    (s.passMessage (some con) tag body).mail = s.mail ++ s.relay con (tag, body) := by
  simp only [mail, sent_passMessage, List.map_append, List.map_map, Core.relay]
  rfl

/-- A notice for the client that sent a packet, if it was one. -/
theorem mail_sendIfUser (s : Server) (con : ConId) (tag : Nat) (body : Str) :
    (s.sendIfUser con tag body).mail =
      s.mail ++ if s.isUser con then [(con, (tag, clip body))] else [] := by
  simp only [sendIfUser]
  split
  · exact mail_queueData ..
  · rw [List.append_nil]

/-- Every message is for a local user, and is a notice. -/
def Notices (s : Core) (mail : Mail) : Prop :=
  ∀ o ∈ mail, s.isUser o.1 = true ∧ o.2.1 = msgServerNosuch

theorem notices_sendIfUser (s : Core) (con : ConId) (body : Str) :
    Notices s (({ s with } : Server).sendIfUser con msgServerNosuch body).mail := by
  rw [mail_sendIfUser]
  intro o ho
  have hIn : o ∈ if s.isUser con then [(con, (msgServerNosuch, clip body))] else [] := ho
  split at hIn
  · rename_i hUser
    rw [List.mem_singleton.1 hIn]
    exact ⟨hUser, rfl⟩
  · cases hIn

end Server

/-- Nothing comes to a port with a wire when all goes to other ports. -/
theorem onPort_unwired {b : ConId} {e : P × ConId} (hWire : wire p b = some e) {heard : Mail}
    (hHeard : ∀ o ∈ heard, wire p o.1 = none) : Broadcast.onPort b heard = [] := by
  refine List.map_eq_nil_iff.2 (List.filter_eq_nil_iff.2 fun o ho hSame => ?_)
  rw [decide_eq_true_eq] at hSame
  have hFree := hHeard o ho
  rw [hSame, hWire] at hFree
  cases hFree

/-- Each server behind a link is passed the message, but not the one it came from. -/
theorem Attends.onPort_relay (h : Attends wire d p s) {b : ConId} {e : P × ConId}
    (hWire : wire p b = some e) {m : Nat × Str} {heard : Mail}
    (hHeard : ∀ o ∈ heard, wire p o.1 = none) :
    Broadcast.onPort b (s.relay con m ++ heard) = if b = con then [] else [m] := by
  have hListed : b ∈ s.servers := (h.wired.listed b).2 (by rw [hWire]; rfl)
  have hNone := onPort_unwired hWire hHeard
  rw [Broadcast.onPort] at hNone
  rw [Broadcast.onPort, List.filter_append, List.map_append, hNone, List.append_nil, Core.relay,
    List.filter_map, List.map_map, List.filter_filter]
  by_cases hSame : b = con
  · have hEmpty : s.servers.filter (fun a => (decide ((fun o : ConId × (Nat × Str) => o.1) (a, m) = b) &&
        (a != con))) = [] := by
      rw [List.filter_eq_nil_iff]
      intro a _
      simp [hSame]
    rw [if_pos hSame]
    exact List.map_eq_nil_iff.2 hEmpty
  · rw [if_neg hSame]
    have hOnly : s.servers.filter (fun a => (decide (a = b) && (a != con))) = [b] := by
      have hSplit : s.servers.filter (fun a => (decide (a = b) && (a != con))) =
          s.servers.filter (fun a => decide (a = b)) := by
        refine List.filter_congr fun a _ => ?_
        by_cases ha : a = b
        · simp [ha, hSame]
        · simp [ha]
      rw [hSplit, List.filter_eq, List.count_eq_one_of_mem h.wired.distinct hListed]
      rfl
    exact (congrArg (List.map _) hOnly).trans rfl

/-- Each peer is told once, but for the one that told of it. -/
theorem Attends.onPort_told (h : Attends wire d p s) (con : ConId) (m : Nat × Str) {b : ConId}
    {e : P × ConId} (hWire : wire p b = some e) :
    Broadcast.onPort b (s.relay con m) = if b = con then [] else [m] := by
  rw [← h.onPort_relay hWire (List.forall_mem_nil _), List.append_nil]

end

/-! ### Two servers -/

namespace Server

/-- Two servers with a client each, both of them in a channel. -/
def lobbyEvents (p : Fin 2) : List Event :=
  if p.val = 0 then
    [.accept 1 (str "other") 8888 8888, .link 0, .accept 2 (str "pc") 6700 8888,
      .packet 1 .login (str "joe pw 6700 \"client\" 3") {},
      .packet 0 .login (str "nick pw 6699 \"client\" 3 unknown 4 5 other 0") {},
      .packet 1 .join (str "#lobby") {}, .packet 0 .join (str ":nick #lobby") {}]
  else
    [.accept 1 (str "other") 8888 8888, .link 0, .accept 2 (str "pc") 6699 8888,
      .packet 1 .login (str "nick pw 6699 \"client\" 3") {},
      .packet 0 .login (str "joe pw 6700 \"client\" 3 unknown 4 5 other 0") {},
      .packet 1 .join (str "#lobby") {}, .packet 0 .join (str ":joe #lobby") {}]

/-- The two servers, with no transfers counted. -/
def lobbyStation (p : Fin 2) : Station := { (reach hub (lobbyEvents p)).toCore with }

/-- Their users, joe and nick. -/
def lobbyRoll : Roll (Fin 2) (Fin 2) where
  home u := u
  nick u := if u.val = 0 then str "joe" else str "nick"
  who p u := if p.val = u.val then 2 else 3
  seat p con := if con = 1 then some p else none

theorem lobby_proper : lobbyRoll.Proper where
  word u := by revert u; decide +kernel
  fits u := by revert u; decide +kernel
  distinct := by decide +kernel

theorem lobby_tree (o : Fin 2) :
    Network.Tree pairWire o (fun _ => 0) fun p => if p = o then 0 else 1 where
  back {p a q b} h := by
    unfold pairWire at h
    split at h <;> cases h <;> rfl
  above {p} h := by
    obtain ⟨rfl, rfl⟩ | ⟨rfl, rfl⟩ : p = 0 ∧ o = 1 ∨ p = 1 ∧ o = 0 := by omega
    · exact ⟨1, 0, rfl, by decide⟩
    · exact ⟨0, 0, rfl, by decide⟩
  below {p a q b} h hDown := by
    unfold pairWire at h
    split at h <;> cases h <;> revert o <;> decide

theorem lobby_local (p : Fin 2) : ∀ v ∈ (lobbyStation p).users.values,
    ((lobbyStation p).user v).isLocal = true → v = 2 ∧ ((lobbyStation p).user v).con = 1 := by
  revert p; decide +kernel

theorem lobby_attends (p : Fin 2) : Attends pairWire lobbyRoll p (lobbyStation p).toCore where
  wired := by
    have hServers : (lobbyStation p).servers = [0] := by revert p; decide +kernel
    have hCls : ∀ con ∈ (lobbyStation p).servers, (lobbyStation p).isServer con = true := by
      revert p; decide +kernel
    refine ⟨by rw [hServers]; decide, fun con => ?_, hCls⟩
    rw [hServers]
    obtain rfl | rfl : p = 0 ∨ p = 1 := by omega
    all_goals rcases con with _ | con <;> simp [pairWire]
  listed u := by revert p u; decide +kernel
  name u := by revert p u; decide +kernel
  isLocal u := by revert p u; decide +kernel
  seated con hOn := by
    have hReg : Registry (lobbyStation p).toCore := (reach_sound hub (lobbyEvents p)).registry
    have hCls := hOn.user
    simp only [Core.isUser, beq_iff_eq] at hCls
    obtain ⟨user, hIn, hUser, hCon, hLocal⟩ := hReg.client con hOn.opened hCls
    obtain ⟨rfl, hOne⟩ := lobby_local p user hIn hLocal
    rw [hOne] at hCon
    subst hCon
    exact ⟨p, rfl, rfl, by rw [hUser]; simp [lobbyRoll]⟩
  calm u := by revert p u; decide +kernel

end Server

end OpenNap
