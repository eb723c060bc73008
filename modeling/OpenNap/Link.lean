import OpenNap.Dispatch
import OpenNap.Lib.Duplex

/-! Two servers on one link: what one of them queues for the link is what the other reads from it,
and each processes it with its own handlers. -/

namespace OpenNap

open CText

/-- The connection is a link to the server that calls itself `peer`. -/
structure LinkedTo (s : Core) (link : ConId) (peer : Str) : Prop where
  opened : (s.con link).allocated = true
  cls : (s.con link).cls = .server
  listed : s.servers.count link = 1
  host : sameText peer (s.con link).host = true

instance (s : Core) (link : ConId) (peer : Str) : Decidable (LinkedTo s link peer) :=
  decidable_of_iff
    ((s.con link).allocated = true ∧ (s.con link).cls = .server ∧ s.servers.count link = 1 ∧
      sameText peer (s.con link).host = true)
    ⟨fun h => ⟨h.1, h.2.1, h.2.2.1, h.2.2.2⟩, fun h => ⟨h.opened, h.cls, h.listed, h.host⟩⟩

theorem LinkedTo.isServer {s : Core} {link : ConId} {peer : Str} (h : LinkedTo s link peer) :
    s.isServer link = true := by
  simp [Core.isServer, h.cls]

theorem LinkedTo.isUser {s : Core} {link : ConId} {peer : Str} (h : LinkedTo s link peer) :
    s.isUser link = false := by
  simp [Core.isUser, h.cls]

theorem LinkedTo.isServerName {s : Core} {link : ConId} {peer : Str} (h : LinkedTo s link peer) :
    s.isServerName peer = true := by
  have hMem : link ∈ s.servers := List.count_pos_iff.1 (by rw [h.listed]; decide)
  have hAny : s.servers.any (fun con => sameText peer (s.con con).host) = true :=
    List.any_eq_true.2 ⟨link, hMem, h.host⟩
  simp only [Core.isServerName, hAny, Bool.true_or]

namespace Server

/-- What was queued for a connection, in order. -/
def queued (s : Server) (con : ConId) : List Message := s.sent.filter fun m => m.con == con

/-- The server that is about to read a message, some time after the last one. -/
def reading (s : Server) (seconds : Nat) : Server := { s with now := s.now + seconds, sent := [] }

@[simp] theorem queued_reading (s : Server) (seconds : Nat) (con : ConId) :
    (s.reading seconds).queued con = [] := rfl

/-- A server as a party on its link: the command of the message is handled, and what is queued for
the link meanwhile are the answers. -/
def party (link : ConId) : Duplex.Party Server Message := fun s m t out =>
  ∃ seconds cmd env, Command.tag cmd = m.tag ∧
    t = (s.reading seconds).step (.packet link cmd m.body env) ∧ out = t.queued link

theorem party_total (link : ConId) (s : Server) {m : Message} (cmd : Command)
    (hTag : m.tag = cmd.tag) : ∃ t out, party link s m t out :=
  ⟨_, _, 0, cmd, {}, hTag.symm, rfl, rfl⟩

theorem linkedTo_reading {s : Server} {link : ConId} {peer : Str} (h : LinkedTo s.toCore link peer)
    (seconds : Nat) : LinkedTo (s.reading seconds).toCore link peer :=
  { h with }

/-- What comes in on a link goes straight to its handler. -/
theorem step_linked {s : Server} {link : ConId} {peer : Str} (h : LinkedTo s.toCore link peer)
    (cmd : Command) (pkt : Str) (env : Env) :
    s.step (.packet link cmd pkt env) = s.dispatch link cmd pkt env := by
  have hUnknown : s.isUnknown link = false := by simp [Core.isUnknown, h.cls]
  have hReads : reads s.toCore link = true := by simp [reads, h.opened, h.isServer]
  have hReport : s.reportSharing link cmd = s := by
    unfold reportSharing
    split
    · rfl
    · simp [h.isUser]
  simp only [step, hReads, if_true, handlePacket, hUnknown, Bool.false_and, Bool.false_eq_true,
    if_false, hReport]

/-- On a link, a party runs the handler of the message. -/
theorem party_linked {s t : Server} {link : ConId} {peer : Str} (h : LinkedTo s.toCore link peer)
    {m : Message} {out : List Message} (hParty : party link s m t out) (cmd : Command)
    (hTag : m.tag = cmd.tag) : ∃ seconds env,
      t = (s.reading seconds).dispatch link cmd m.body env ∧ out = t.queued link := by
  obtain ⟨seconds, cmd', env, hTag', rfl, rfl⟩ := hParty
  obtain rfl := Command.tag_injective (hTag'.trans hTag)
  refine ⟨seconds, env, ?_, rfl⟩
  exact step_linked (linkedTo_reading h seconds) cmd' m.body env

/-! ### What the functions that queue messages queue for one connection -/

section

variable {s : Server} {con : ConId}

@[simp] theorem queued_onCore (f : Core → Core) : (s.onCore f).queued con = s.queued con := rfl

theorem queued_queueData (other : ConId) (tag : Nat) (body : Str) :
    (s.queueData other tag body).queued con =
      s.queued con ++ if other = con then [⟨other, tag, body⟩] else [] := by
  by_cases h : other = con <;> simp [queued, queueData, h]

@[simp] theorem queued_sendCmd (tag : Nat) (body : Str) :
    (s.sendCmd con tag body).queued con = s.queued con ++ [⟨con, tag, clip body⟩] := by
  simp [sendCmd, queued_queueData]

/-- A walk queues nothing for a connection when none of its steps does, each of them taken with the
same data. -/
theorem queued_foldl {α : Type} {f : Server → α → Server} (l : List α)
    (h : ∀ t : Server, t.toCore = s.toCore → ∀ a,
      (f t a).toCore = s.toCore ∧ (f t a).queued con = t.queued con) :
    (l.foldl f s).queued con = s.queued con := by
  have hWalk : ∀ t : Server, t.toCore = s.toCore → (l.foldl f t).queued con = t.queued con := by
    induction l with
    | nil => exact fun t _ => rfl
    | cons a l ih =>
      intro t hSame
      obtain ⟨hNext, hQueued⟩ := h t hSame a
      rw [List.foldl_cons, ih _ hNext, hQueued]
  exact hWalk s rfl

/-- Nothing is queued for a connection that is left out. -/
@[simp] theorem queued_passMessageArgs_except (tag : Nat) (body : Str) :
    (s.passMessageArgs (some con) tag body).queued con = s.queued con := by
  refine queued_foldl s.servers fun t hSame other => ?_
  by_cases h : other = con
  · simp [h, hSame]
  · simp [queued_queueData, h, hSame]

/-- A message for the peers is queued for one of them once for each time that it is in the list. -/
theorem queued_passMessageArgs_of_ne {except : Option ConId} (h : except ≠ some con) (tag : Nat)
    (body : Str) : (s.passMessageArgs except tag body).queued con =
      s.queued con ++ List.replicate (s.servers.count con) ⟨con, tag, clip body⟩ := by
  have hFold (l : List ConId) (s : Server) :
      (l.foldl (fun s con =>
          if some con = except then s else s.queueData con tag (clip body)) s).queued con =
        s.queued con ++ List.replicate (l.count con) ⟨con, tag, clip body⟩ := by
    induction l generalizing s with
    | nil => simp
    | cons other l ih =>
      rw [List.foldl_cons, ih]
      by_cases hSame : other = con
      · subst hSame
        simp [Ne.symm h, queued_queueData, List.replicate_succ]
      · by_cases hExcept : some other = except <;> simp [hExcept, hSame, queued_queueData]
  exact hFold s.servers s

theorem queued_passMessageArgs (tag : Nat) (body : Str) :
    (s.passMessageArgs none tag body).queued con =
      s.queued con ++ List.replicate (s.servers.count con) ⟨con, tag, clip body⟩ :=
  queued_passMessageArgs_of_ne (by simp) tag body

/-- What goes to connections of users is nothing for a link. -/
theorem queued_sendIfUser (h : s.isUser con = false) (other : ConId) (tag : Nat) (body : Str) :
    (s.sendIfUser other tag body).queued con = s.queued con := by
  unfold sendIfUser
  split
  · rename_i hOther
    have hNe : other ≠ con := by
      rintro rfl
      rw [h] at hOther
      cases hOther
    simp [sendCmd, queued_queueData, hNe]
  · rfl

theorem queued_notifyMods (h : s.isUser con = false) (mode : Nat) (body : Str) :
    (s.notifyMods mode body).queued con = s.queued con := by
  refine queued_foldl s.clients fun t hSame slot => ?_
  cases slot with
  | none => exact ⟨hSame, rfl⟩
  | some other =>
    simp only
    split
    · rename_i hWants
      have hNe : other ≠ con := by
        rintro rfl
        simp only [wantsNotice, hSame, h] at hWants
        split at hWants <;> simp at hWants
      exact ⟨hSame, by rw [queued_queueData, if_neg hNe, List.append_nil]⟩
    · exact ⟨hSame, rfl⟩

theorem queued_notifyOps (h : s.isUser con = false) (chan : ChanId) (body : Str) :
    (s.notifyOps chan body).queued con = s.queued con := by
  refine queued_foldl (s.chan chan).users fun t hSame member => ?_
  simp only
  split
  · rename_i hTo
    have hNe : (t.user member.user).con ≠ con := by
      intro hEq
      rw [hEq, hSame, h] at hTo
      cases hTo
    exact ⟨hSame, by rw [queued_queueData, if_neg hNe, List.append_nil]⟩
  · exact ⟨hSame, rfl⟩

end

end Server

end OpenNap
