import OpenNap.ChannelFile
import OpenNap.Reach
import OpenNap.Sent

/-! The operators that a peer takes over from the message in which a server lists the operators of a
channel.  The list is cut when it does not fit the buffer, and the peer takes the piece of the nick
that is cut for a nick. -/

namespace OpenNap

open CText

/-! ### What is sent -/

/-- What stands in front of the operators. -/
def opsHeader (serverName name : Str) : Str := str ":" ++ serverName ++ str " " ++ name

/-- The text of `MSG_CLIENT_OP` in `sync_chan`. -/
def opsMessage (serverName : Str) (c : Channel) : Str :=
  clip (opsHeader serverName c.name ++ (opsText c.ops).take 2047)

/-- The room that is left for the operators. -/
def opsRoom (serverName name : Str) : Nat := 2043 - (opsHeader serverName name).length

/-- The names that are read from the list, cut to the room that is left. -/
def sentNames (room : Nat) (ops : List Str) : List Str :=
  args (restAfter (some ((opsText ops).take room)))

/-- What is left of the nick in which the list is cut, if it is cut in one. -/
def cutPiece : Nat → List Str → Option Str
  | _, [] => none
  | room, op :: ops =>
    if room ≤ 1 then none
    else if op.length + 1 ≤ room then cutPiece (room - (op.length + 1)) ops
    else some (op.take (room - 1))

namespace Server

/-- `sync_chan` sends the operators in that one message. -/
theorem syncChan_ops (s : Server) (con : ConId) (chan : ChanId) :
    (s.syncChan con chan).sent.filter (·.tag == msgClientOp) =
      s.sent.filter (·.tag == msgClientOp) ++
        if (s.chan chan).ops = [] then []
        else [⟨con, msgClientOp, opsMessage s.cfg.serverName (s.chan chan)⟩] := by
  have hSend (u : Server) {tag : Nat} (hTag : tag ≠ msgClientOp) (body : Str) :
      (u.sendCmd con tag body).sent.filter (·.tag == msgClientOp) =
        u.sent.filter (·.tag == msgClientOp) :=
    Says.filter_eq (P := (·.tag ≠ msgClientOp)) ((Says.refl u).sendCmd hTag)
      fun m hm => by simpa using hm
  have hWalk (u : Server) (l : List ChanUser) {f : Server → ChanUser → Server}
      (hf : ∀ v member, (f v member).sent.filter (·.tag == msgClientOp) =
        v.sent.filter (·.tag == msgClientOp)) :
      (l.foldl f u).sent.filter (·.tag == msgClientOp) = u.sent.filter (·.tag == msgClientOp) := by
    induction l generalizing u with
    | nil => rfl
    | cons member l ih => exact (ih _).trans (hf u member)
  simp only [syncChan]
  rw [hWalk _ _ fun v member => ?walk]
  case walk =>
    split
    · exact hSend v (by decide) _
    · split
      · exact hSend v (by decide) _
      · rfl
  have hFront (u : Server) {c : Prop} [Decidable c] {tag : Nat} {body : Str}
      (hTag : tag ≠ msgClientOp) :
      (if c then u else u.sendCmd con tag body).sent.filter (·.tag == msgClientOp) =
        u.sent.filter (·.tag == msgClientOp) := by
    split
    · rfl
    · exact hSend u hTag body
  have hMode (u : Server) {c : Prop} [Decidable c] {tag : Nat} {body : Str}
      (hTag : tag ≠ msgClientOp) :
      (if c then u.sendCmd con tag body else u).sent.filter (·.tag == msgClientOp) =
        u.sent.filter (·.tag == msgClientOp) := by
    split
    · exact hSend u hTag body
    · rfl
  have hOps (u : Server) (body : Str) :
      (u.sendCmd con msgClientOp body).sent.filter (·.tag == msgClientOp) =
        u.sent.filter (·.tag == msgClientOp) ++ [⟨con, msgClientOp, clip body⟩] := by
    simp [sendCmd, queueData]
  have hText : (s.chan chan).ops.flatMap (str " " ++ ·) = opsText (s.chan chan).ops := rfl
  rw [hMode _ (by decide), hText]
  by_cases hNone : (s.chan chan).ops = []
  · rw [if_pos hNone, List.append_nil, if_pos (by simp [hNone]), hFront _ (by decide),
      hFront _ (by decide)]
  · rw [if_neg hNone, if_neg (by simp [hNone]), hOps, hFront _ (by decide), hFront _ (by decide)]
    rfl

end Server

/-! ### How the text is cut -/

theorem word_take {w : Str} (h : Word w) {k : Nat} (hk : 0 < k) : Word (w.take k) := by
  obtain ⟨c, cs, rfl, hc, hQuote⟩ := h.cons
  obtain ⟨k, rfl⟩ : ∃ j, k = j + 1 := ⟨k - 1, by omega⟩
  refine ⟨by simp, fun d hd => h.plain d (List.mem_of_mem_take hd), ?_⟩
  simpa using h.unquoted

theorem opsText_take (room : Nat) (ops : List Str) :
    (opsText ops).take room = [] ∨ ∃ rest, (opsText ops).take room = ' ' :: rest := by
  cases ops with
  | nil => exact .inl List.take_nil
  | cons op ops =>
    cases room with
    | zero => exact .inl rfl
    | succ room => exact .inr ⟨_, rfl⟩

/-- The first word of a list. -/
theorem args_cons {w rest : Str} (h : Word w) (hRest : rest = [] ∨ ∃ tail, rest = ' ' :: tail) :
    args (restAfter (some (' ' :: (w ++ rest)))) = w :: args (restAfter (some rest)) := by
  have hSome : w ++ rest ≠ [] := by simp [h.nonempty]
  rw [restAfter, skipSpace_blank, h.token.skipSpace, if_neg hSome, args_some]
  rcases hRest with rfl | ⟨tail, rfl⟩
  · rw [List.append_nil, nextArg_last h]
    rfl
  · rw [h.token.nextArg (by decide), restAfter, restAfter, skipSpace_blank]

/-- A list of nicks is read as the nicks that fit, and the piece of the one that is cut. -/
theorem sentNames_eq {ops : List Str} (h : ∀ op ∈ ops, Word op) (room : Nat) :
    ∃ whole, whole <+: ops ∧ sentNames room ops = whole ++ (cutPiece room ops).toList := by
  induction ops generalizing room with
  | nil => exact ⟨[], List.prefix_rfl, by cases room <;> rfl⟩
  | cons op ops ih =>
    have hOp : Word op := h op (by simp)
    have hText : opsText (op :: ops) = ' ' :: (op ++ opsText ops) := by simp [opsText]
    by_cases hNone : room ≤ 1
    · refine ⟨[], List.nil_prefix, ?_⟩
      have hRoom : room = 0 ∨ room = 1 := by omega
      rw [cutPiece, if_pos hNone, sentNames, hText]
      rcases hRoom with rfl | rfl <;> rfl
    · obtain ⟨room, rfl⟩ : ∃ k, room = k + 1 := ⟨room - 1, by omega⟩
      by_cases hFits : op.length + 1 ≤ room + 1
      · obtain ⟨whole, hWhole, hNames⟩ := ih (fun o ho => h o (by simp [ho])) (room - op.length)
        refine ⟨op :: whole, by simpa using hWhole, ?_⟩
        have hLeft : room + 1 - (op.length + 1) = room - op.length := by omega
        have hTake : op.take room = op := List.take_of_length_le (by omega)
        rw [sentNames, hText, List.take_succ_cons, List.take_append, hTake,
          args_cons hOp (opsText_take _ _), cutPiece, if_neg hNone, if_pos hFits, hLeft,
          List.cons_append, ← hNames, sentNames]
      · refine ⟨[], List.nil_prefix, ?_⟩
        have hPiece : Word (op.take room) := word_take hOp (by omega)
        have hLeft : room - op.length = 0 := by omega
        have hOne := args_cons hPiece (.inl rfl)
        rw [List.append_nil] at hOne
        rw [sentNames, hText, List.take_succ_cons, List.take_append, hLeft, List.take_zero,
          List.append_nil, hOne, cutPiece, if_neg hNone, if_neg hFits]
        rfl

/-! ### What the peer takes over -/

/-- The list of operators after a peer has read a name. -/
def addNick (cfg : Config) (ops : List Str) (name : Str) : List Str :=
  if invalidNick cfg name || ops.any (sameText · name) then ops else ops ++ [name]

theorem mem_addNick {cfg : Config} {ops : List Str} {name nick : Str} :
    nick ∈ addNick cfg ops name ↔
      nick ∈ ops ∨ nick = name ∧ invalidNick cfg name = false ∧ ops.any (sameText · name) = false := by
  rw [addNick]
  split
  · rename_i hOut
    refine ⟨.inl, ?_⟩
    rintro (hIn | ⟨-, hValid, hNew⟩)
    · exact hIn
    · rw [hValid, hNew] at hOut
      cases hOut
  · rename_i hIn
    rw [Bool.not_eq_true, Bool.or_eq_false_iff] at hIn
    rw [List.mem_append, List.mem_singleton]
    exact or_congr_right ⟨fun h => ⟨h, hIn⟩, fun h => h.1⟩

theorem subset_foldl_addNick (cfg : Config) (names ops : List Str) :
    ops ⊆ names.foldl (addNick cfg) ops := by
  induction names generalizing ops with
  | nil => exact fun _ h => h
  | cons name names ih => exact fun _ h => ih _ (mem_addNick.2 (.inl h))

theorem any_addNick {cfg : Config} {ops : List Str} {first name : Str}
    (h : (addNick cfg ops first).any (sameText · name) = true) :
    ops.any (sameText · name) = true ∨ sameText first name = true ∧
      invalidNick cfg first = false ∧ ops.any (sameText · first) = false := by
  obtain ⟨op, hOp, hSame⟩ := List.any_eq_true.1 h
  rcases mem_addNick.1 hOp with hOp | ⟨rfl, hNew⟩
  · exact .inl (List.any_eq_true.2 ⟨op, hOp, hSame⟩)
  · exact .inr ⟨hSame, hNew⟩

/-- What is added to a list of operators is wanted exactly when every name that is read is wanted,
or is no nick, or is on the list already. -/
theorem addNick_foldl {cfg : Config} {Q : Str → Prop}
    (hQ : ∀ a b, sameText a b = true → Q a → Q b) (names ops : List Str) :
    (∀ nick ∈ names.foldl (addNick cfg) ops, nick ∈ ops ∨ Q nick) ↔
      ∀ name ∈ names, invalidNick cfg name = true ∨ ops.any (sameText · name) = true ∨ Q name := by
  induction names generalizing ops with
  | nil => exact ⟨fun _ name hName => (by cases hName), fun _ nick hNick => .inl hNick⟩
  | cons first names ih =>
    rw [List.foldl_cons, List.forall_mem_cons]
    constructor
    · intro h
      have hFirst : invalidNick cfg first = true ∨ ops.any (sameText · first) = true ∨ Q first := by
        cases hValid : invalidNick cfg first with
        | true => exact .inl rfl
        | false =>
          cases hNew : ops.any (sameText · first) with
          | true => exact .inr (.inl rfl)
          | false =>
            have hIn : first ∈ addNick cfg ops first := mem_addNick.2 (.inr ⟨rfl, hValid, hNew⟩)
            refine .inr (.inr ((h first (subset_foldl_addNick cfg names _ hIn)).resolve_left ?_))
            intro hOld
            exact Bool.eq_false_iff.1 hNew
              (List.any_eq_true.2 ⟨first, hOld, sameText_iff.2 rfl⟩)
      have hRest := (ih (addNick cfg ops first)).1 fun nick hNick =>
        (h nick hNick).imp_left fun hOld => mem_addNick.2 (.inl hOld)
      refine ⟨hFirst, fun name hName => ?_⟩
      rcases hRest name hName with hBad | hListed | hWanted
      · exact .inl hBad
      · rcases any_addNick hListed with hOld | ⟨hSame, hValid, hNew⟩
        · exact .inr (.inl hOld)
        · rw [hValid, hNew] at hFirst
          have hWanted : Q first := by simpa using hFirst
          exact .inr (.inr (hQ first name hSame hWanted))
      · exact .inr (.inr hWanted)
    · rintro ⟨hFirst, hRest⟩ nick hNick
      have hMore (name : Str) (hName : ops.any (sameText · name) = true) :
          (addNick cfg ops first).any (sameText · name) = true := by
        obtain ⟨op, hOp, hSame⟩ := List.any_eq_true.1 hName
        exact List.any_eq_true.2 ⟨op, mem_addNick.2 (.inl hOp), hSame⟩
      have hAll := (ih (addNick cfg ops first)).2 fun name hName =>
        (hRest name hName).imp_right fun h => h.imp_left (hMore name)
      rcases hAll nick hNick with hIn | hWanted
      · rcases mem_addNick.1 hIn with hOld | ⟨rfl, hValid, hNew⟩
        · exact .inl hOld
        · rw [hValid, hNew] at hFirst
          exact .inr (by simpa using hFirst)
      · exact .inr hWanted

namespace Server

theorem opNick_ops (s : Server) (con : ConId) (sender : Str) (chan : ChanId) (nick : Str) :
    (s.opNick con msgClientOp sender chan nick).cfg = s.cfg ∧
      ∀ c, ((s.opNick con msgClientOp sender chan nick).chan c).ops =
        if c = chan then addNick s.cfg (s.chan chan).ops nick else (s.chan c).ops := by
  have hSame (c : ChanId) (hOps : addNick s.cfg (s.chan chan).ops nick = (s.chan chan).ops) :
      (s.chan c).ops =
        if c = chan then addNick s.cfg (s.chan chan).ops nick else (s.chan c).ops := by
    split
    · rename_i hc
      rw [hOps, hc]
    · rfl
  have hDeop : msgClientOp ≠ msgClientDeop := by decide
  simp only [opNick, hDeop, if_false, if_true]
  by_cases hBad : invalidNick s.cfg nick = true
  · rw [if_pos hBad, toCore_invalidNickMsg]
    exact ⟨rfl, fun c => hSame c (by simp [addNick, hBad])⟩
  · rw [if_neg hBad]
    by_cases hListed : ((s.chan chan).ops.any fun op => sameText op nick) = true
    · rw [if_pos hListed]
      exact ⟨rfl, fun c => hSame c (by simp [addNick, hListed])⟩
    · rw [if_neg hListed]
      have hAdd : addNick s.cfg (s.chan chan).ops nick = (s.chan chan).ops ++ [nick] := by
        rw [addNick, if_neg]
        rw [Bool.or_eq_true, not_or]
        exact ⟨hBad, hListed⟩
      rw [hAdd]
      cases (s.users.lookup nick).filter fun user => (s.findChanuser chan user).isSome with
      | none =>
        simp only [toCore_onCore]
        refine ⟨rfl, fun c => ?_⟩
        by_cases hc : c = chan <;> simp [hc]
      | some user =>
        simp only [toCore_onCore, toCore_notifyOps, toCore_sendIfUser]
        refine ⟨rfl, fun c => ?_⟩
        by_cases hc : c = chan <;> simp [hc, Core.setOperator]

theorem opNicks_ops (names : List Str) (s : Server) (con : ConId) (sender : Str) (chan : ChanId)
    (c : ChanId) :
    ((names.foldl (fun s nick => s.opNick con msgClientOp sender chan nick) s).chan c).ops =
      if c = chan then names.foldl (addNick s.cfg) (s.chan chan).ops else (s.chan c).ops := by
  induction names generalizing s with
  | nil =>
    split
    · rename_i hc
      rw [hc]
      rfl
    · rfl
  | cons nick names ih =>
    obtain ⟨hCfg, hOps⟩ := s.opNick_ops con sender chan nick
    rw [List.foldl_cons, List.foldl_cons, ih, hCfg, hOps, hOps, if_pos rfl]
    split <;> rfl

/-- Where a packet names no nicks, no list of operators changes. -/
theorem channelOp_none {s : Server} {con : ConId} {pkt : Str}
    (h : ∀ sender user rest, s.popUserServer con pkt = some (sender, user, rest) →
      ∀ name nicks, rest.map nextArg ≠ some (name, some nicks)) (tag : Nat) :
    (s.channelOp con tag pkt).toCore = s.toCore := by
  simp only [channelOp]
  cases hPop : s.popUserServer con pkt with
  | none => rfl
  | some sent =>
    obtain ⟨sender, user, rest⟩ := sent
    simp only
    split
    · exact toCore_permissionDenied ..
    · split
      · rename_i hArg
        exact absurd hArg (h sender user rest hPop _ _)
      · exact toCore_unparsable ..

end Server

/-- What two words that are cut leave has no third one. -/
theorem no_third {v w : Str} (hv : Word v) (hw : Word w) (k : Nat) :
    ∀ first second, (nextArg ((v ++ ' ' :: w).take k)).2.map nextArg ≠ some (first, some second) := by
  have hPrefix {u : Str} (hu : Word u) (j : Nat) : (nextArg (u.take j)).2 = none := by
    cases j with
    | zero => rfl
    | succ j => rw [nextArg_last (word_take hu (Nat.succ_pos j))]
  intro first second h
  rw [List.take_append] at h
  by_cases hCut : k ≤ v.length
  · rw [Nat.sub_eq_zero_of_le hCut, List.take_zero, List.append_nil, hPrefix hv] at h
    cases h
  · obtain ⟨j, hj⟩ : ∃ j, k - v.length = j + 1 := ⟨k - v.length - 1, by omega⟩
    have hAll : v.take k = v := List.take_of_length_le (by omega)
    rw [hj, hAll, List.take_succ_cons, hv.token.nextArg (by decide)] at h
    cases j with
    | zero => cases h
    | succ j =>
      have hPart := word_take hw (Nat.succ_pos j)
      have hSkip := hPart.token.skipSpace []
      rw [List.append_nil] at hSkip
      rw [restAfter, hSkip, if_neg hPart.nonempty, Option.map_some, nextArg_last hPart] at h
      cases h

theorem opsMessage_eq (serverName : Str) (c : Channel) :
    opsMessage serverName c =
      ':' :: ((serverName ++ ' ' :: c.name).take 2042 ++
        (opsText c.ops).take (opsRoom serverName c.name)) := by
  have hHeader : opsHeader serverName c.name = ':' :: (serverName ++ ' ' :: c.name) := by
    simp [opsHeader, str]
  have hLess : min (2043 - (opsHeader serverName c.name).length) 2047 =
      2043 - (opsHeader serverName c.name).length := by omega
  rw [opsMessage, clip, List.take_append, List.take_take, hLess, opsRoom, hHeader,
    List.take_succ_cons, List.cons_append]

namespace Server

/-- A peer that knows the server takes the names that are left over into the channel's list. -/
theorem channelOp_opsMessage {t : Server} {con : ConId} {serverName : Str} {c : Channel}
    (hLink : t.isServer con = true) (hKnown : t.isServerName serverName = true)
    (hServer : Word serverName) (hName : Word c.name) (k : ChanId) :
    ((t.channelOp con msgClientOp (opsMessage serverName c)).chan k).ops =
      if t.channels.lookup c.name = some k then
        (sentNames (opsRoom serverName c.name) c.ops).foldl (addNick t.cfg) (t.chan k).ops
      else (t.chan k).ops := by
  have hSame (hNone : sentNames (opsRoom serverName c.name) c.ops = [])
      (hEq : (t.channelOp con msgClientOp (opsMessage serverName c)).toCore = t.toCore) :
      ((t.channelOp con msgClientOp (opsMessage serverName c)).chan k).ops =
        if t.channels.lookup c.name = some k then
          (sentNames (opsRoom serverName c.name) c.ops).foldl (addNick t.cfg) (t.chan k).ops
        else (t.chan k).ops := by
    rw [hEq, hNone, List.foldl_nil, ite_self]
  by_cases hFits : (serverName ++ ' ' :: c.name).length ≤ 2042
  · have hHead := opsMessage_eq serverName c
    rw [List.take_of_length_le hFits, List.append_assoc, List.cons_append] at hHead
    have hSkip := hName.token.skipSpace ((opsText c.ops).take (opsRoom serverName c.name))
    have hSome : c.name ++ (opsText c.ops).take (opsRoom serverName c.name) ≠ [] := by
      simp [hName.nonempty]
    have hPop : t.popUserServer con (opsMessage serverName c) = some (serverName, none,
        some (c.name ++ (opsText c.ops).take (opsRoom serverName c.name))) := by
      simp only [hHead, Core.popUserServer, hLink, if_true, hServer.token.nextArg (by decide : isBlank ' ' = true),
        hKnown, restAfter, hSkip, hSome, if_false]
    rcases opsText_take (opsRoom serverName c.name) c.ops with hNil | ⟨tail, hTail⟩
    · refine hSame (by rw [sentNames, hNil]; rfl) (channelOp_none ?_ _)
      intro sender user rest hEq first second hArg
      rw [hPop] at hEq
      cases hEq
      rw [hNil, List.append_nil, Option.map_some, nextArg_last hName] at hArg
      cases hArg
    · have hNames : sentNames (opsRoom serverName c.name) c.ops = args (restAfter (some tail)) := by
        rw [sentNames, hTail, restAfter, restAfter, skipSpace_blank]
      have hArg : nextArg (c.name ++ (opsText c.ops).take (opsRoom serverName c.name)) =
          (c.name, restAfter (some tail)) := by
        rw [hTail, hName.token.nextArg (by decide)]
      cases hNicks : restAfter (some tail) with
      | none =>
        refine hSame (by rw [hNames, hNicks]; rfl) (channelOp_none ?_ _)
        intro sender user rest hEq first second hThird
        rw [hPop] at hEq
        cases hEq
        rw [Option.map_some, hArg, hNicks] at hThird
        cases hThird
      | some nicks =>
        rw [hNames, hNicks]
        simp only [channelOp, hPop, Option.any_none, Bool.false_eq_true, if_false, Option.map_some,
          hArg, hNicks]
        cases hChan : t.channels.lookup c.name with
        | none =>
          simp only [toCore_nosuchchannel]
          rfl
        | some chan =>
          simp only [opNicks_ops, toCore_passMessageArgs, Option.some.injEq, eq_comm]
          by_cases hk : k = chan
          · subst hk
            rfl
          · simp [hk]
  · -- the message ends in the names of the server and the channel
    have hRoom : opsRoom serverName c.name = 0 := by
      have hLen : (opsHeader serverName c.name).length = (serverName ++ ' ' :: c.name).length + 1 := by
        simp [opsHeader, str]
      rw [opsRoom, hLen]
      omega
    have hHead := opsMessage_eq serverName c
    rw [hRoom, List.take_zero, List.append_nil] at hHead
    refine hSame (by rw [hRoom]; rfl) (channelOp_none ?_ _)
    intro sender user rest hPop first second hArg
    simp only [hHead, Core.popUserServer, hLink, if_true] at hPop
    refine no_third hServer hName 2042 first second ?_
    split at hPop
    · cases hPop
      exact hArg
    · obtain ⟨u, -, hEq⟩ := Option.map_eq_some_iff.1 hPop
      cases hEq
      exact hArg

/-- Who is an operator afterwards was one before, or is on the list that was sent. -/
def GrantsOnly (s t : Core) (ops : List Str) : Prop :=
  ∀ chan, ∀ nick ∈ (t.chan chan).ops, nick ∈ (s.chan chan).ops ∨ ops.any (sameText · nick) = true

/-- A name gives nobody a right that the list does not give. -/
def Harmless (t : Core) (c : Channel) (name : Str) : Prop :=
  ∀ chan, t.channels.lookup c.name = some chan → invalidNick t.cfg name = true ∨
    (t.chan chan).ops.any (sameText · name) = true ∨ c.ops.any (sameText · name) = true

theorem grantsOnly_iff {t : Server} {con : ConId} {serverName : Str} {c : Channel}
    (hLink : t.isServer con = true) (hKnown : t.isServerName serverName = true)
    (hServer : Word serverName) (hName : Word c.name) :
    GrantsOnly t.toCore (t.channelOp con msgClientOp (opsMessage serverName c)).toCore c.ops ↔
      ∀ name ∈ sentNames (opsRoom serverName c.name) c.ops, Harmless t.toCore c name := by
  have hQ (a b : Str) (hSame : sameText a b = true) (ha : c.ops.any (sameText · a) = true) :
      c.ops.any (sameText · b) = true := by
    obtain ⟨op, hOp, hEq⟩ := List.any_eq_true.1 ha
    refine List.any_eq_true.2 ⟨op, hOp, ?_⟩
    rw [sameText_iff] at hEq hSame ⊢
    exact hEq.trans hSame
  have hOps := channelOp_opsMessage hLink hKnown hServer hName
  constructor
  · intro h name hIn chan hChan
    have hFold := h chan
    rw [hOps, if_pos hChan] at hFold
    exact (addNick_foldl hQ _ _).1 hFold name hIn
  · intro h chan
    rw [hOps]
    split
    · rename_i hChan
      exact (addNick_foldl hQ _ _).2 fun name hIn => h name hIn chan hChan
    · exact fun nick hNick => .inl hNick

/-- A peer that takes over the operators of a channel adds only nicks of the sender's list exactly
when every name that is read from the list, cut at the end of the buffer, gives no right that the
list does not give; for a list of plain nicks that is when the piece gives none that is left of the
nick in which the list is cut. -/
theorem syncOps_grants_iff {t : Server} {con : ConId} {serverName : Str} {c : Channel}
    (hLink : t.isServer con = true) (hKnown : t.isServerName serverName = true)
    (hServer : Word serverName) (hName : Word c.name) :
    (GrantsOnly t.toCore (t.channelOp con msgClientOp (opsMessage serverName c)).toCore c.ops ↔
      ∀ name ∈ sentNames (opsRoom serverName c.name) c.ops, Harmless t.toCore c name) ∧
    ((∀ op ∈ c.ops, Word op) →
      (GrantsOnly t.toCore (t.channelOp con msgClientOp (opsMessage serverName c)).toCore c.ops ↔
        ∀ piece ∈ cutPiece (opsRoom serverName c.name) c.ops, Harmless t.toCore c piece)) := by
  have hAll := grantsOnly_iff hLink hKnown hServer hName
  refine ⟨hAll, fun hWords => hAll.trans ?_⟩
  obtain ⟨whole, hWhole, hNames⟩ := sentNames_eq hWords (opsRoom serverName c.name)
  rw [hNames]
  constructor
  · intro h piece hPiece
    exact h piece (List.mem_append_right _ (Option.mem_toList.2 hPiece))
  · intro h name hIn
    rcases List.mem_append.1 hIn with hIn | hIn
    · -- a nick that fits is on the list
      intro chan _
      exact .inr (.inr (List.any_eq_true.2 ⟨name, hWhole.subset hIn, sameText_iff.2 rfl⟩))
    · exact h name (Option.mem_toList.1 hIn)

/-- A channel with more operators than one message holds. -/
def busyLobby : Channel where
  name := str "#lobby"
  ops := (List.range 102).map fun i => str "operator-number-" ++ showNat (100 + i)

theorem busyLobby_words : ∀ op ∈ busyLobby.ops, Word op := by
  decide +kernel

/-- A user of the peer is in the channel. -/
def inLobby : List Event :=
  [.accept 1 (str "peer") 0 0, .link 0, .accept 2 (str "client") 6699 8888,
    .packet 1 .login (str "joe pw 6699 \"client\" 3") {}, .packet 1 .join (str "#lobby") {}]

/-- The peer knows the server and the channel. -/
theorem inLobby_known :
    let t := Server.reach hub inLobby
    t.isServer 0 = true ∧ t.isServerName (str "peer") = true ∧
      t.channels.lookup busyLobby.name = some 3 ∧ (t.chan 3).ops = [] ∧
      invalidNick t.cfg (str "operator-n") = false := by
  decide +kernel

theorem syncOps_grants_iff_lobby :
    GrantsOnly (Server.reach hub inLobby).toCore
      ((Server.reach hub inLobby).channelOp 0 msgClientOp (opsMessage (str "peer") busyLobby)).toCore
      busyLobby.ops ↔
        ∀ piece ∈ cutPiece (opsRoom (str "peer") busyLobby.name) busyLobby.ops,
          Harmless (Server.reach hub inLobby).toCore busyLobby piece :=
  (syncOps_grants_iff inLobby_known.1 inLobby_known.2.1 (by decide) (by decide)).2 busyLobby_words

/-- The last nick is cut, and the peer makes what is left of it an operator. -/
theorem syncOps_grants_stranger :
    ¬ GrantsOnly (Server.reach hub inLobby).toCore
      ((Server.reach hub inLobby).channelOp 0 msgClientOp (opsMessage (str "peer") busyLobby)).toCore
      busyLobby.ops := by
  obtain ⟨hLink, hKnown, hChan, hOps, hValid⟩ := inLobby_known
  have hCut : cutPiece (opsRoom (str "peer") busyLobby.name) busyLobby.ops =
      some (str "operator-n") := by decide +kernel
  have hStranger : busyLobby.ops.any (sameText · (str "operator-n")) = false := by decide +kernel
  obtain ⟨whole, -, hNames⟩ :=
    sentNames_eq busyLobby_words (opsRoom (str "peer") busyLobby.name)
  intro h
  have hIn : str "operator-n" ∈ sentNames (opsRoom (str "peer") busyLobby.name) busyLobby.ops := by
    rw [hNames, hCut]
    exact List.mem_append_right _ (List.mem_singleton_self _)
  rcases (grantsOnly_iff hLink hKnown (by decide) (by decide)).1 h _ hIn 3 hChan with
    hBad | hListed | hSent
  · rw [hValid] at hBad
    cases hBad
  · rw [hOps] at hListed
    cases hListed
  · rw [hStranger] at hSent
    cases hSent

end Server

end OpenNap
