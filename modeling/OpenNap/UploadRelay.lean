import OpenNap.Encapsulated

/-! Requests for files of users of other servers.  The server of the downloader hands a request to the
next server towards the owner of the file.  A server in between passes it on to all servers but the
next one towards the owner, so that it comes to the owner's server only over a direct link. -/

namespace OpenNap

open CText

/-- The text of a request between servers. -/
def relayText (sender nick filename : Str) : Str :=
  str ":" ++ sender ++ str " " ++ nick ++ str " \"" ++ filename ++ str "\""

/-- The text of a request for the owner of the file. -/
def requestFor (sender filename : Str) : Str := sender ++ str " \"" ++ filename ++ str "\""

namespace Server

/-- What an action queues. -/
def queues (s : Server) (act : Server → Server) : List (ConId × (Nat × Str)) :=
  (act { s with sent := [] }).sent.map fun m => (m.con, (m.tag, m.body))

theorem sent_passMessage (s : Server) (except : ConId) (tag : Nat) (body : Str) :
    (s.passMessage (some except) tag body).sent =
      s.sent ++ (s.servers.filter (· != except)).map fun con => ⟨con, tag, body⟩ := by
  have hWalk (l : List ConId) (t : Server) :
      (l.foldl (fun s con => if some con = some except then s else s.queueData con tag body) t).sent =
        t.sent ++ (l.filter (· != except)).map fun con => ⟨con, tag, body⟩ := by
    induction l generalizing t with
    | nil => simp
    | cons con l ih =>
      rw [List.foldl_cons, ih]
      by_cases hSame : con = except
      · simp [hSame]
      · simp [hSame, queueData]
  exact hWalk s.servers s

end Server

/-- Servers that read such requests, and the links between them. -/
def uploads {P : Type} (srv : P → Server) (wire : P → ConId → Option (P × ConId)) :
    Network.Net P ConId (Nat × Str) where
  react p con m :=
    if m.1 = msgServerUploadRequest then
      (srv p).queues fun s => s.dispatch con .uploadRequest m.2 {}
    else []
  wire := wire

/-- A request from a user for a file of another one, or a text that is not one at all. -/
def Asks (sender nick : Str) (m : Nat × Str) : Prop :=
  m.1 = msgServerUploadRequest ∧ ∀ a b c, splitLine 3 m.2 = some [a, b, c] →
    a = ':' :: sender ∧ sameText b nick = true

section

variable {sender nick name filename : Str}

end

/-! ### What a server makes of a request -/

namespace Server

section

variable {s : Server} {con : ConId} {pkt sender name filename : Str} {owner : UserId}

/-- A text that is not a request is dropped. -/
theorem queues_unread (hServer : s.isServer con = true)
    (h : ∀ sender name filename, splitLine 3 pkt ≠ some [':' :: sender, name, filename]) :
    s.queues (·.dispatch con .uploadRequest pkt {}) = [] := by
  have hCls : ({ s with sent := [] } : Server).isServer con = true := hServer
  simp only [queues, dispatch, hCls, if_true, uploadRequest]
  rfl

/-- The owner's server asks the owner for a file that is shared. -/
theorem queues_owner (hServer : s.isServer con = true)
    (hSplit : splitLine 3 pkt = some [':' :: sender, name, filename])
    (hOwner : s.users.lookup name = some owner) (hUser : s.isUser (s.user owner).con = true) :
    s.queues (·.dispatch con .uploadRequest pkt {}) =
      if (s.lookupFile (s.user owner).con filename).isSome then
        [((s.user owner).con, (msgServerUploadRequest, clip (requestFor sender filename)))]
      else [] := by
  have hCls : ({ s with sent := [] } : Server).isServer con = true := hServer
  simp only [queues, dispatch, hCls, if_true, uploadRequest, hSplit, hOwner, hUser]
  cases s.lookupFile (s.user owner).con filename with
  | none => rfl
  | some d => rfl

/-- Another server passes the request on to all but the next one towards the owner. -/
theorem queues_between (hServer : s.isServer con = true)
    (hSplit : splitLine 3 pkt = some [':' :: sender, name, filename])
    (hOwner : s.users.lookup name = some owner) (hUser : s.isUser (s.user owner).con = false) :
    s.queues (·.dispatch con .uploadRequest pkt {}) =
      (s.servers.filter (· != (s.user owner).con)).map fun peer =>
        (peer, (msgServerUploadRequest, clip (relayText sender (s.user owner).nick filename))) := by
  have hCls : ({ s with sent := [] } : Server).isServer con = true := hServer
  simp only [queues, dispatch, hCls, if_true, uploadRequest, hSplit, hOwner, hUser,
    Bool.false_eq_true, if_false, passMessageArgs, sent_passMessage, List.nil_append, List.map_map]
  rfl

end

end Server

/-! ### The way of a request -/

section

variable {P : Type} {srv : P → Server} {wire : P → ConId → Option (P × ConId)} {home : P}
  {up : P → ConId} {depth : P → Nat} {owner : P → UserId} {nick sender : Str}

/-- The owner of a file on all servers of a tree: a user of one of them, with the name that every
server has. -/
structure Owned (srv : P → Server) (wire : P → ConId → Option (P × ConId)) (home : P)
    (up : P → ConId) (owner : P → UserId) (nick : Str) : Prop
    extends Located (fun p => (srv p).toCore) wire home up owner nick where
  name : ∀ p, ((srv p).user (owner p)).nick = nick
  online : (srv home).isUser ((srv home).user (owner home)).con = true

theorem Owned.notUser (h : Owned srv wire home up owner nick) (hTree : Network.Tree wire home up depth)
    {p : P} (hNe : p ≠ home) : (srv p).isUser ((srv p).user (owner p)).con = false := by
  have hBehind : ((srv p).user (owner p)).con = up p := h.behind p hNe
  obtain ⟨q, b, hWire, -⟩ := hTree.above hNe
  have hServer : (srv p).isServer (up p) = true := h.toLocated.isServer hWire
  rw [hBehind]
  simp only [Core.isServer, beq_iff_eq] at hServer
  simp [Core.isUser, hServer]

/-- The owner's server asks the owner, or does nothing. -/
theorem Owned.react_home (h : Owned srv wire home up owner nick)
    {f : Network.Flight P ConId (Nat × Str)}
    (hKnown : Network.Known (uploads srv wire) (Asks sender nick) f) (hHome : f.party = home) :
    (uploads srv wire).react f.party f.port f.text = [] ∨ ∃ filename,
      (uploads srv wire).react f.party f.port f.text = [(((srv home).user (owner home)).con,
        (msgServerUploadRequest, clip (requestFor sender filename)))] := by
  obtain ⟨⟨hTag, hAsks⟩, e, hWire⟩ := hKnown
  have hServer : (srv f.party).isServer f.port = true := h.toLocated.isServer hWire
  simp only [uploads, hTag, if_true]
  by_cases hRead : ∃ a b c, splitLine 3 f.text.2 = some [':' :: a, b, c]
  · obtain ⟨a, b, c, hSplit⟩ := hRead
    obtain ⟨hSender, hSame⟩ := hAsks _ _ _ hSplit
    cases hSender
    have hOwner : (srv f.party).users.lookup b = some (owner f.party) :=
      (Bucket.Table.lookup_congr (sameText_iff.1 hSame)).trans (h.listed f.party)
    rw [Server.queues_owner hServer hSplit hOwner (by rw [hHome]; exact h.online), hHome]
    split
    · exact .inr ⟨c, rfl⟩
    · exact .inl rfl
  · exact .inl (Server.queues_unread hServer fun a b c hSplit => hRead ⟨a, b, c, hSplit⟩)

/-- Another server passes a request on to all servers but the next one towards the owner, or does
nothing. -/
theorem Owned.react_away (h : Owned srv wire home up owner nick)
    (hTree : Network.Tree wire home up depth) {f : Network.Flight P ConId (Nat × Str)}
    (hKnown : Network.Known (uploads srv wire) (Asks sender nick) f) (hNe : f.party ≠ home) :
    (uploads srv wire).react f.party f.port f.text = [] ∨ ∃ filename,
      (uploads srv wire).react f.party f.port f.text =
        ((srv f.party).servers.filter (· != up f.party)).map fun peer =>
          (peer, (msgServerUploadRequest, clip (relayText sender nick filename))) := by
  obtain ⟨⟨hTag, hAsks⟩, e, hWire⟩ := hKnown
  have hServer : (srv f.party).isServer f.port = true := h.toLocated.isServer hWire
  simp only [uploads, hTag, if_true]
  by_cases hRead : ∃ a b c, splitLine 3 f.text.2 = some [':' :: a, b, c]
  · obtain ⟨a, b, c, hSplit⟩ := hRead
    obtain ⟨hSender, hSame⟩ := hAsks _ _ _ hSplit
    cases hSender
    have hOwner : (srv f.party).users.lookup b = some (owner f.party) :=
      (Bucket.Table.lookup_congr (sameText_iff.1 hSame)).trans (h.listed f.party)
    have hBehind : ((srv f.party).user (owner f.party)).con = up f.party := h.behind f.party hNe
    rw [Server.queues_between hServer hSplit hOwner (h.notUser hTree hNe), hBehind, h.name f.party]
    exact .inr ⟨c, rfl⟩
  · exact .inl (Server.queues_unread hServer fun a b c hSplit => hRead ⟨a, b, c, hSplit⟩)

/-- A server passes on no more than one message to each server, or one to the owner. -/
theorem Owned.width (h : Owned srv wire home up owner nick) (hTree : Network.Tree wire home up depth)
    {f : Network.Flight P ConId (Nat × Str)}
    (hKnown : Network.Known (uploads srv wire) (Asks sender nick) f) :
    ((uploads srv wire).react f.party f.port f.text).length ≤ (srv f.party).servers.length + 1 := by
  by_cases hHome : f.party = home
  · obtain hNone | ⟨filename, hSome⟩ := h.react_home hKnown hHome
    · rw [hNone]
      exact Nat.zero_le _
    · rw [hSome]
      exact Nat.succ_le_succ (Nat.zero_le _)
  · obtain hNone | ⟨filename, hSome⟩ := h.react_away hTree hKnown hHome
    · rw [hNone]
      exact Nat.zero_le _
    · rw [hSome, List.length_map]
      exact (List.length_filter_le ..).trans (Nat.le_succ _)

end

namespace Server

/-- The link between them. -/
def pairWire : Fin 2 → ConId → Option (Fin 2 × ConId)
  | 0, 0 => some (1, 0)
  | 1, 0 => some (0, 0)
  | _, _ => none

end Server

end OpenNap
