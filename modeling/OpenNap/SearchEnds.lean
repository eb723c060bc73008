import OpenNap.SearchLedger

/-! The counting of ends.  A pending request holds how many peers were asked and how many ends came
in, and not which; the two numbers stand for the peers whose end is still to come as long as only
those peers send an end, or go. -/

namespace OpenNap

open CText

/-! ### The peers of a request -/

/-- The peers that a request was passed on to. -/
def askedPeers (traffic : List Traffic) (id : Str) : List ConId :=
  traffic.filterMap fun
    | .asked i peer => if i = id then some peer else none
    | _ => none

/-- The peers whose end of a request is still to come. -/
def awaited (traffic : List Traffic) (id : Str) : List ConId :=
  (askedPeers traffic id).filter fun peer =>
    .answered id peer ∉ traffic ∧ .leaving peer ∉ traffic

/-- Whether an entry of the record matters to who is awaited. -/
def Traffic.concernsPeer : Traffic → Bool
  | .asked _ _ | .answered _ _ | .leaving _ => true
  | .begun _ _ | .result _ _ | .ended _ _ _ | .removed _ => false

section Peers

variable {l : List Traffic} {id : Str} {peer : ConId}

@[simp] theorem mem_askedPeers : peer ∈ askedPeers l id ↔ .asked id peer ∈ l := by
  simp only [askedPeers, List.mem_filterMap]
  constructor
  · rintro ⟨t, ht, hEq⟩
    cases t with
    | asked i p =>
      simp only [Option.ite_none_right_eq_some, Option.some.injEq] at hEq
      obtain ⟨rfl, rfl⟩ := hEq
      exact ht
    | begun | answered | result | ended | leaving | removed => cases hEq
  · intro h
    exact ⟨_, h, by simp⟩

@[simp] theorem mem_awaited :
    peer ∈ awaited l id ↔ .asked id peer ∈ l ∧ .answered id peer ∉ l ∧ .leaving peer ∉ l := by
  simp [awaited]

theorem askedPeers_append (l m : List Traffic) (id : Str) :
    askedPeers (l ++ m) id = askedPeers l id ++ askedPeers m id := List.filterMap_append

/-- Entries that concern no peer. -/
theorem askedPeers_eq_nil {m : List Traffic} (h : ∀ t ∈ m, t.concernsPeer = false) (id : Str) :
    askedPeers m id = [] := by
  refine List.eq_nil_iff_forall_not_mem.2 fun p hp => ?_
  have hFalse := h _ (mem_askedPeers.1 hp)
  cases hFalse

theorem awaited_append {m : List Traffic} (h : ∀ t ∈ m, t.concernsPeer = false) :
    awaited (l ++ m) id = awaited l id := by
  have hNot {t : Traffic} (ht : t.concernsPeer = true) : t ∉ m := fun hIn => by
    rw [h t hIn] at ht
    cases ht
  have hAnswered (p : ConId) : Traffic.answered id p ∉ m := hNot rfl
  have hLeaving (p : ConId) : Traffic.leaving p ∉ m := hNot rfl
  simp [awaited, askedPeers_append, askedPeers_eq_nil h, hAnswered, hLeaving]

/-- An end for another request. -/
theorem awaited_answered_of_ne {i : Str} (h : i ≠ id) (p : ConId) :
    awaited (l ++ [.answered i p]) id = awaited l id := by
  have hAsked : askedPeers [.answered i p] id = [] := rfl
  simp [awaited, askedPeers_append, hAsked, Ne.symm h]

theorem awaited_answered (p : ConId) :
    awaited (l ++ [.answered id p]) id = (awaited l id).filter (· != p) := by
  have hAsked : askedPeers [.answered id p] id = [] := rfl
  simp only [awaited, askedPeers_append, hAsked, List.append_nil, List.filter_filter]
  refine List.filter_congr fun q _ => ?_
  by_cases hq : q = p <;> simp [hq]

theorem awaited_leaving (p : ConId) :
    awaited (l ++ [.leaving p]) id = (awaited l id).filter (· != p) := by
  have hAsked : askedPeers [.leaving p] id = [] := rfl
  simp only [awaited, askedPeers_append, hAsked, List.append_nil, List.filter_filter]
  refine List.filter_congr fun q _ => ?_
  by_cases hq : q = p <;> simp [hq]

/-- Another request is passed on. -/
theorem awaited_asked_of_ne {i : Str} (h : i ≠ id) (peers : List ConId) :
    awaited (l ++ peers.map (.asked i ·)) id = awaited l id := by
  have hAsked : askedPeers (peers.map (.asked i ·)) id = [] := by
    refine List.eq_nil_iff_forall_not_mem.2 fun p hp => ?_
    obtain ⟨_, _, hEq⟩ := List.mem_map.1 (mem_askedPeers.1 hp)
    cases hEq
    exact h rfl
  simp [awaited, askedPeers_append, hAsked]

theorem askedPeers_map (peers : List ConId) : askedPeers (peers.map (.asked id ·)) id = peers := by
  simp [askedPeers, List.filterMap_map]

/-- A new request is passed on to peers that stay. -/
theorem awaited_asked {peers : List ConId} (hNone : askedPeers l id = [])
    (hAnswered : ∀ p, .answered id p ∉ l) (hLeaving : ∀ p ∈ peers, .leaving p ∉ l) :
    awaited (l ++ peers.map (.asked id ·)) id = peers := by
  simp only [awaited, askedPeers_append, hNone, askedPeers_map, List.nil_append]
  refine List.filter_eq_self.2 fun p hp => ?_
  simpa [hAnswered] using hLeaving p hp

/-- One peer less is awaited when one of them sends its end, or goes. -/
theorem length_awaited_filter (h : (askedPeers l id).Nodup) (hIn : peer ∈ awaited l id) :
    ((awaited l id).filter (· != peer)).length + 1 = (awaited l id).length := by
  have hNodup : (awaited l id).Nodup := h.filter _
  rw [← hNodup.erase_eq_filter, List.length_erase_of_mem hIn]
  have hPos := List.length_pos_of_mem hIn
  omega

end Peers

/-! ### What the record says -/

/-- What holds of the record of a server. -/
structure Recorded (s : Core) : Prop where
  begun : ∀ id peer, .asked id peer ∈ s.traffic ∨ .answered id peer ∈ s.traffic →
    id ∈ begunIds s.traffic
  peers : ∀ id peer, .asked id peer ∈ s.traffic →
    peer < s.next ∧ ((s.con peer).allocated = true → (s.con peer).cls = .server)
  once : ∀ id, (askedPeers s.traffic id).Nodup
  settled : ∀ before after id con, s.traffic = before ++ .ended id con .counted :: after →
    awaited before id = []
  late : ∀ id con age, .ended id con (.expired age) ∈ s.traffic → s.cfg.searchTimeout < age
  atOnce : ∀ id con, .ended id con .immediate ∈ s.traffic → ∀ peer, .asked id peer ∉ s.traffic

theorem begunIds_append (l m : List Traffic) : begunIds (l ++ m) = begunIds l ++ begunIds m :=
  List.filterMap_append

/-- Where an entry stands when some were added. -/
theorem settled_append {l m : List Traffic}
    (hOld : ∀ before after id con, l = before ++ .ended id con .counted :: after →
      awaited before id = [])
    (hNew : ∀ before after id con, m = before ++ .ended id con .counted :: after →
      awaited (l ++ before) id = []) (before after : List Traffic) (id : Str) (con : ConId)
    (h : l ++ m = before ++ .ended id con .counted :: after) : awaited before id = [] := by
  rcases List.append_eq_append_iff.1 h with ⟨mid, hBefore, hM⟩ | ⟨mid, hL, hAfter⟩
  · rw [hBefore]
    exact hNew mid after id con hM
  · cases mid with
    | nil =>
      simp only [List.append_nil] at hL
      rw [← hL]
      simpa using hNew [] after id con (by simpa using hAfter.symm)
    | cons t mid =>
      obtain ⟨rfl, -⟩ : Traffic.ended id con .counted = t ∧ after = mid ++ m := by
        simpa using hAfter
      exact hOld before mid id con hL

namespace Recorded

variable {s t : Core}

theorem calm (h : Recorded s) (hCalm : Calm s t) : Recorded t where
  begun id peer hIn := by
    rw [hCalm.traffic] at hIn ⊢
    exact h.begun id peer hIn
  peers id peer hIn := by
    rw [hCalm.traffic] at hIn
    obtain ⟨hLt, hServer⟩ := h.peers id peer hIn
    refine ⟨hLt.trans_le hCalm.next, fun hOpen => ?_⟩
    rw [hCalm.allocated peer hLt] at hOpen
    exact hCalm.server peer hLt hOpen (hServer hOpen)
  once id := by
    rw [hCalm.traffic]
    exact h.once id
  settled := by
    rw [hCalm.traffic]
    exact h.settled
  late := by
    rw [hCalm.traffic, hCalm.cfg]
    exact h.late
  atOnce := by
    rw [hCalm.traffic]
    exact h.atOnce

/-- Entries that concern no peer are added. -/
theorem write (h : Recorded s) (added : List Traffic)
    (hQuiet : ∀ t ∈ added, t.concernsPeer = false)
    (hCounted : ∀ id con, .ended id con .counted ∈ added → awaited s.traffic id = [])
    (hLate : ∀ id con age, .ended id con (.expired age) ∈ added → s.cfg.searchTimeout < age)
    (hAtOnce : ∀ id con, .ended id con .immediate ∈ added → ∀ peer, .asked id peer ∉ s.traffic)
    (pending : List DSearch) :
    Recorded { s with remoteSearch := pending, traffic := s.traffic ++ added } := by
  have hOld {t : Traffic} (ht : t.concernsPeer = true) (hIn : t ∈ s.traffic ++ added) :
      t ∈ s.traffic := by
    refine (List.mem_append.1 hIn).resolve_right fun hIn => ?_
    rw [hQuiet t hIn] at ht
    cases ht
  exact {
    begun := by
      intro id peer hIn
      rw [begunIds_append]
      exact List.mem_append_left _ (h.begun id peer (hIn.imp (hOld rfl) (hOld rfl)))
    peers := fun id peer hIn => h.peers id peer (hOld rfl hIn)
    once := by
      intro id
      rw [askedPeers_append, askedPeers_eq_nil hQuiet, List.append_nil]
      exact h.once id
    settled := by
      refine settled_append h.settled fun before after id con hEq => ?_
      rw [awaited_append fun t ht => hQuiet t (by rw [hEq]; simp [ht])]
      exact hCounted id con (by rw [hEq]; simp)
    late := fun id con age hIn => (List.mem_append.1 hIn).elim (h.late id con age) (hLate id con age)
    atOnce := fun id con hIn peer hAsked => (List.mem_append.1 hIn).elim
      (fun hIn => h.atOnce id con hIn peer (hOld rfl hAsked))
      (fun hIn => hAtOnce id con hIn peer (hOld rfl hAsked)) }

/-- An end comes in, or a connection begins to go. -/
theorem note (h : Recorded s) {entry : Traffic}
    (hEntry : (∃ id con, entry = .answered id con ∧ id ∈ begunIds s.traffic) ∨
      ∃ con, entry = .leaving con) : Recorded (s.note entry) := by
  have hNotAsked (id : Str) (peer : ConId) : entry ≠ .asked id peer := by
    obtain ⟨_, _, rfl, _⟩ | ⟨_, rfl⟩ := hEntry <;> simp
  have hNotEnded (id : Str) (con : ConId) (reason : EndReason) : entry ≠ .ended id con reason := by
    obtain ⟨_, _, rfl, _⟩ | ⟨_, rfl⟩ := hEntry <;> simp
  have hOldAsked {id : Str} {peer : ConId} (hIn : .asked id peer ∈ s.traffic ++ [entry]) :
      .asked id peer ∈ s.traffic :=
    (List.mem_append.1 hIn).resolve_right fun hIn => hNotAsked _ _ (List.mem_singleton.1 hIn).symm
  have hOldEnded {id : Str} {con : ConId} {reason : EndReason}
      (hIn : .ended id con reason ∈ s.traffic ++ [entry]) : .ended id con reason ∈ s.traffic :=
    (List.mem_append.1 hIn).resolve_right fun hIn => hNotEnded _ _ _ (List.mem_singleton.1 hIn).symm
  exact {
    begun := by
      intro id peer hIn
      simp only [Core.note_traffic, begunIds_append]
      refine List.mem_append_left _ ?_
      rcases hIn with hIn | hIn
      · exact h.begun id peer (.inl (hOldAsked hIn))
      · rcases List.mem_append.1 hIn with hIn | hIn
        · exact h.begun id peer (.inr hIn)
        · obtain ⟨_, _, rfl, hBegun⟩ | ⟨_, rfl⟩ := hEntry
          · cases List.mem_singleton.1 hIn
            exact hBegun
          · cases List.mem_singleton.1 hIn
    peers := fun id peer hIn => h.peers id peer (hOldAsked hIn)
    once := by
      intro id
      have hNone : askedPeers [entry] id = [] :=
        List.eq_nil_iff_forall_not_mem.2 fun p hp =>
          hNotAsked id p (List.mem_singleton.1 (mem_askedPeers.1 hp)).symm
      simp only [Core.note_traffic, askedPeers_append, hNone, List.append_nil]
      exact h.once id
    settled := by
      refine settled_append h.settled fun before after id con hEq => ?_
      have hIn : Traffic.ended id con .counted ∈ [entry] := by
        rw [hEq]
        simp
      exact absurd (List.mem_singleton.1 hIn).symm (hNotEnded _ _ _)
    late := fun id con age hIn => h.late id con age (hOldEnded hIn)
    atOnce := fun id con hIn peer hAsked => h.atOnce id con (hOldEnded hIn) peer (hOldAsked hAsked) }

/-- A request that came in for the first time is passed on to servers. -/
theorem asked (h : Recorded s) {id : Str} (hNew : id ∈ begunIds s.traffic)
    (hFirst : ∀ peer, .asked id peer ∉ s.traffic) {peers : List ConId} (hNodup : peers.Nodup)
    (hServers : ∀ peer ∈ peers, peer < s.next ∧
      ((s.con peer).allocated = true → (s.con peer).cls = .server))
    (hEnd : ∀ con reason, .ended id con reason ∉ s.traffic) (pending : List DSearch) :
    Recorded { s with remoteSearch := pending, traffic := s.traffic ++ peers.map (.asked id ·) } := by
  have hEnded {i : Str} {con : ConId} {reason : EndReason}
      (hIn : .ended i con reason ∈ s.traffic ++ peers.map (.asked id ·)) :
      .ended i con reason ∈ s.traffic := by
    simpa using hIn
  exact {
    begun := by
      intro i peer hIn
      rw [begunIds_append]
      refine List.mem_append_left _ ?_
      rcases hIn with hIn | hIn
      · rcases List.mem_append.1 hIn with hIn | hIn
        · exact h.begun i peer (.inl hIn)
        · obtain ⟨_, _, hEq⟩ := List.mem_map.1 hIn
          cases hEq
          exact hNew
      · exact h.begun i peer (.inr (by simpa using hIn))
    peers := by
      intro i peer hIn
      rcases List.mem_append.1 hIn with hIn | hIn
      · exact h.peers i peer hIn
      · obtain ⟨_, hPeer, hEq⟩ := List.mem_map.1 hIn
        cases hEq
        exact hServers peer hPeer
    once := by
      intro i
      rw [askedPeers_append]
      by_cases hi : i = id
      · subst hi
        have hNone : askedPeers s.traffic i = [] :=
          List.eq_nil_iff_forall_not_mem.2 fun p hp => hFirst p (mem_askedPeers.1 hp)
        rw [hNone, askedPeers_map]
        exact hNodup
      · have hNone : askedPeers (peers.map (.asked id ·)) i = [] := by
          refine List.eq_nil_iff_forall_not_mem.2 fun p hp => ?_
          obtain ⟨_, _, hEq⟩ := List.mem_map.1 (mem_askedPeers.1 hp)
          cases hEq
          exact hi rfl
        rw [hNone, List.append_nil]
        exact h.once i
    settled := by
      refine settled_append h.settled fun before after i con hEq => ?_
      have hIn : Traffic.ended i con .counted ∈ peers.map (.asked id ·) := by
        rw [hEq]
        simp
      simp at hIn
    late := fun i con age hIn => h.late i con age (hEnded hIn)
    atOnce := by
      intro i con hIn peer hAsked
      rcases List.mem_append.1 hAsked with hAsked | hAsked
      · exact h.atOnce i con (hEnded hIn) peer hAsked
      · obtain ⟨_, _, hEq⟩ := List.mem_map.1 hAsked
        cases hEq
        exact hEnd con _ (hEnded hIn) }

end Recorded

/-! ### The counters -/

/-- The two numbers of a pending request, and the peers whose end is still to come. -/
structure Due (traffic : List Traffic) (d : DSearch) : Prop where
  count : 0 ≤ d.count
  more : d.count < d.numServers
  short : d.numServers ≤ 32767
  total : d.numServers = d.count + (awaited traffic d.id).length

theorem Due.congr {l m : List Traffic} {d : DSearch} (h : Due l d)
    (hAwaited : awaited m d.id = awaited l d.id) : Due m d :=
  ⟨h.count, h.more, h.short, by rw [hAwaited]; exact h.total⟩

theorem toShort_eq {i : Int} (h0 : 0 ≤ i) (h1 : i ≤ 32767) : toShort i = i := by
  simp only [toShort, Int.bmod]
  omega

/-- The counters stand for what the record says. -/
structure Counting (s : Core) : Prop where
  recorded : Recorded s
  due : ∀ d ∈ s.remoteSearch, Due s.traffic d

/-- The operations that keep the counters right: a request is passed on for a server that is in the
list of servers, an end comes in from a peer whose end is awaited, and a server that goes is
awaited by every request that stays. -/
def countsRight : Label → Core → Prop
  | .forward con _, s => (s.isServer con = true → con ∈ s.servers) ∧ s.servers.length ≤ 32767 ∧
      ∀ peer ∈ s.servers, .leaving peer ∉ s.traffic
  | .answer con id, s => ∀ d ∈ s.remoteSearch, d.id = id → con ∈ awaited s.traffic id
  | .cancel con, s => s.isServer con = true → ∀ d ∈ s.remoteSearch, d.con ≠ con →
      con ∈ awaited s.traffic d.id
  | _, _ => True

namespace Counting

variable {s t : Core}

theorem calm (h : Counting s) (hCalm : Calm s t) : Counting t where
  recorded := h.recorded.calm hCalm
  due d hd := by
    rw [hCalm.remoteSearch] at hd
    rw [hCalm.traffic]
    exact h.due d hd

/-- Entries that concern no peer are added, and some requests are no longer pending. -/
theorem write (h : Counting s) (rest : List DSearch) {added : List Traffic}
    (hQuiet : ∀ t ∈ added, t.concernsPeer = false)
    (hCounted : ∀ id con, .ended id con .counted ∈ added → awaited s.traffic id = [])
    (hLate : ∀ id con age, .ended id con (.expired age) ∈ added → s.cfg.searchTimeout < age)
    (hAtOnce : ∀ id con, .ended id con .immediate ∈ added → ∀ peer, .asked id peer ∉ s.traffic)
    (hRest : ∀ d ∈ rest, d ∈ s.remoteSearch) :
    Counting { s with remoteSearch := rest, traffic := s.traffic ++ added } where
  recorded := h.recorded.write added hQuiet hCounted hLate hAtOnce rest
  due d hd := (h.due d (hRest d hd)).congr (awaited_append hQuiet)

/-- A connection is freed. -/
theorem free (h : Counting s) (con : ConId) :
    Counting ((s.freeConnection con).note (.removed con)) where
  recorded := by
    have hWrite := h.recorded.write [.removed con]
      (by simp [Traffic.concernsPeer]) (by simp) (by simp) (by simp) s.remoteSearch
    exact {
      begun := hWrite.begun
      peers := by
        intro id peer hIn
        obtain ⟨hLt, hServer⟩ := hWrite.peers id peer hIn
        refine ⟨hLt, fun hOpen => ?_⟩
        by_cases hc : peer = con
        · subst hc
          simp [Core.freeConnection] at hOpen
        · simp only [Core.note_con, Core.freeConnection, Core.modCon_con, hc, if_false] at hOpen ⊢
          exact hServer hOpen
      once := hWrite.once
      settled := hWrite.settled
      late := hWrite.late
      atOnce := hWrite.atOnce }
  due d hd := by
    refine (h.due d hd).congr (awaited_append ?_)
    simp [Traffic.concernsPeer]

/-- A request comes in for the first time, and results are sent for it. -/
theorem begun (h : Counting s) (con : ConId) (id : Str) (n : Nat) :
    Counting { s with traffic := s.traffic ++ .begun id con :: List.replicate n (.result id con) } := by
  refine h.write s.remoteSearch ?_ ?_ ?_ ?_ fun _ hd => hd
  · rintro t (_ | ⟨_, ht⟩)
    · rfl
    · rw [List.eq_of_mem_replicate ht]
      rfl
  all_goals
    intro id con
    simp

theorem finishSearch (h : Counting s) (con : ConId) {id : Str} (n : Nat)
    (hNew : id ∉ begunIds s.traffic) : Counting (s.finishSearch con id n) := by
  refine h.write s.remoteSearch ?_ ?_ ?_ ?_ fun _ hd => hd
  · simp [Traffic.concernsPeer, or_imp, forall_and]
  · simp
  · simp
  · intro i c hIn peer hAsked
    have hId : i = id := by
      have hEnd : i = id ∧ c = con := by simpa using hIn
      exact hEnd.1
    exact hNew (hId ▸ h.recorded.begun i peer (.inl hAsked))

/-- The peers that a request is passed on to are as many as are counted. -/
theorem length_peers (hReg : Registry s) {con : ConId}
    (hLinked : s.isServer con = true → con ∈ s.servers) :
    ((s.servers.filter (· != con)).length : Int) =
      s.servers.length - if s.isServer con then 1 else 0 := by
  rw [← hReg.once.erase_eq_filter]
  by_cases hServer : s.isServer con = true
  · have hIn := hLinked hServer
    have hPos := List.length_pos_of_mem hIn
    rw [List.length_erase_of_mem hIn, if_pos hServer]
    omega
  · have hNot : con ∉ s.servers := fun hIn =>
      hServer (by simp [Core.isServer, (hReg.linked con hIn).2])
    rw [List.erase_of_not_mem hNot, if_neg hServer, sub_zero]

theorem forwardSearch (h : Counting s) (hReg : Registry s) (hTidy : Ledger.Tidy s.book)
    {con : ConId} (nick : Str) {id : Str} (n : Nat) (hPeers : Server.hasPeers s con = true)
    (hOk : countsRight (.forward con id) s) (hNew : id ∉ begunIds s.traffic) :
    Counting (s.forwardSearch con nick id n) := by
  obtain ⟨hLinked, hShort, hStay⟩ := hOk
  have hFirst := h.begun con id n
  -- nothing was noted about the request before
  have hNotAsked (peer : ConId) : .asked id peer ∉ s.traffic := fun hIn =>
    hNew (h.recorded.begun id peer (.inl hIn))
  have hNotAnswered (peer : ConId) : .answered id peer ∉ s.traffic := fun hIn =>
    hNew (h.recorded.begun id peer (.inr hIn))
  have hNotEnded (c : ConId) (reason : EndReason) : .ended id c reason ∉ s.traffic := fun hIn => by
    have hBegun := hTidy.ended id c (mem_log rfl hIn)
    exact hNew (opened_book s ▸ Ledger.mem_opened.2 ⟨c, hBegun⟩)
  have hPending : ∀ d ∈ s.remoteSearch, d.id ≠ id := by
    rintro d hd rfl
    have hBegun := hTidy.begun d.key (List.mem_map_of_mem hd)
    exact hNew (opened_book s ▸ Ledger.mem_opened.2 ⟨_, hBegun⟩)
  have hLength := length_peers hReg hLinked
  have hEntries : s.traffic ++ .begun id con :: (List.replicate n (.result id con) ++
      (s.servers.filter (· != con)).map (.asked id ·)) =
      (s.traffic ++ .begun id con :: List.replicate n (.result id con)) ++
        (s.servers.filter (· != con)).map (.asked id ·) := by simp
  constructor
  · simp only [Core.forwardSearch, hEntries]
    refine hFirst.recorded.asked ?_ ?_ (hReg.once.filter _) ?_ ?_ _
    · simp [begunIds]
    · simpa using hNotAsked
    · intro peer hPeer
      have hServer := hReg.linked peer (List.mem_filter.1 hPeer).1
      exact ⟨hReg.knownCon peer hServer.1, fun _ => hServer.2⟩
    · simpa using hNotEnded
  · intro d hd
    simp only [Core.forwardSearch, hEntries] at hd ⊢
    rcases List.mem_append.1 hd with hd | hd
    · have hNe := hPending d hd
      exact (hFirst.due d hd).congr (awaited_asked_of_ne hNe.symm _)
    · obtain rfl := List.mem_singleton.1 hd
      have hAwaited : awaited ((s.traffic ++ .begun id con :: List.replicate n (.result id con)) ++
          (s.servers.filter (· != con)).map (.asked id ·)) id = s.servers.filter (· != con) := by
        refine awaited_asked ?_ ?_ ?_
        · exact List.eq_nil_iff_forall_not_mem.2 fun p hp =>
            hNotAsked p (by simpa using mem_askedPeers.1 hp)
        · simpa using hNotAnswered
        · intro p hp
          simpa using hStay p (List.mem_filter.1 hp).1
      have hSome : 0 < (s.servers.length : Int) - if s.isServer con then 1 else 0 := by
        simp only [Server.hasPeers, Bool.or_eq_true, Bool.and_eq_true, decide_eq_true_eq,
          Bool.not_eq_true'] at hPeers
        rcases hPeers with ⟨hServer, hMany⟩ | ⟨hUser, hAny⟩
        · rw [if_pos hServer]
          omega
        · have hServer : ¬ s.isServer con = true := by
            simp only [Core.isUser, Core.isServer, beq_iff_eq] at hUser ⊢
            rw [hUser]
            decide
          have hPos : 0 < s.servers.length := by
            rw [List.length_pos_iff]
            simpa using hAny
          rw [if_neg hServer]
          omega
      have hBound : (s.servers.length : Int) - (if s.isServer con then 1 else 0) ≤ 32767 := by
        split <;> omega
      have hNumber := toShort_eq hSome.le hBound
      exact ⟨le_refl _, by rw [hNumber]; exact hSome, by rw [hNumber]; exact hBound,
        by rw [hNumber, hAwaited, hLength]; simp⟩

theorem answerSearch (h : Counting s) (hTidy : Ledger.Tidy s.book) {con : ConId} {id : Str}
    (hOk : countsRight (.answer con id) s) : Counting (s.answerSearch con id) := by
  have hIds : (s.remoteSearch.map (·.id)).Nodup := by
    have hPending := hTidy.ids
    simpa [Core.book, DSearch.key, Function.comp_def] using hPending
  simp only [Core.answerSearch]
  split
  · exact h
  · rename_i d hFind
    have hIn : d ∈ s.remoteSearch := List.mem_of_find?_eq_some hFind
    have hId : d.id = id := by simpa using List.find?_some hFind
    have hDue := h.due d hIn
    have hAwaited := hOk d hIn hId
    have hBegun : id ∈ begunIds s.traffic :=
      h.recorded.begun id con (.inl (mem_awaited.1 hAwaited).1)
    have hNote : Recorded (s.note (.answered id con)) :=
      h.recorded.note (.inl ⟨id, con, rfl, hBegun⟩)
    have hOther (e : DSearch) (he : e ∈ s.remoteSearch) (hNe : e.id ≠ id) :
        Due (s.note (.answered id con)).traffic e :=
      (h.due e he).congr (awaited_answered_of_ne hNe.symm con)
    -- one peer less is awaited
    have hFewer : (awaited (s.note (.answered id con)).traffic id).length + 1 =
        (awaited s.traffic id).length := by
      simp only [Core.note_traffic, awaited_answered]
      exact length_awaited_filter (h.recorded.once id) hAwaited
    have hTotal := hDue.total
    rw [hId] at hTotal
    have hPos := hDue.count
    have hMore := hDue.more
    have hShort := hDue.short
    have hCount : toShort (d.count + 1) = d.count + 1 := toShort_eq (by omega) (by omega)
    rw [hCount]
    split
    · rename_i hLast
      have hNone : awaited (s.note (.answered id con)).traffic id = [] :=
        List.eq_nil_of_length_eq_zero (by omega)
      constructor
      · refine hNote.write [.ended d.id d.con .counted] ?_ ?_ ?_ ?_ _
        · simp [Traffic.concernsPeer]
        · intro i c hEnd
          cases List.mem_singleton.1 hEnd
          rw [hId]
          exact hNone
        · simp
        · simp
      · intro e he
        have hPerm := Lists.perm_eraseP_of_find hFind
        have hNe : e.id ≠ id := by
          have hNodup := (hPerm.map (·.id)).nodup_iff.1 hIds
          intro hEq
          exact (List.nodup_cons.1 hNodup).1 (List.mem_map.2 ⟨e, he, hEq.trans hId.symm⟩)
        have hOld := hOther e (hPerm.mem_iff.2 (List.mem_cons_of_mem _ he)) hNe
        refine hOld.congr (awaited_append ?_)
        simp [Traffic.concernsPeer]
    · rename_i hLast
      refine ⟨{ hNote with }, fun e he => ?_⟩
      simp only [Core.note_remoteSearch] at he
      rw [Lists.replaceF_eq_map (fun e => { e with count := d.count + 1 }) hIds] at he
      obtain ⟨e, hOld, rfl⟩ := List.mem_map.1 he
      split
      · rename_i hEq
        have hSame : e = d := by
          have hInj := List.inj_on_of_nodup_map hIds
          exact hInj hOld hIn (hEq.trans hId.symm)
        subst hSame
        have hLess : e.count + 1 ≠ e.numServers := hLast
        refine ⟨?_, ?_, hShort, ?_⟩
        · simp only
          omega
        · simp only
          omega
        · simp only [hId]
          omega
      · rename_i hNe
        exact hOther e hOld hNe

theorem cancelSearch (h : Counting s) {con : ConId} (hOpen : (s.con con).allocated = true)
    (hOk : countsRight (.cancel con) s) :
    Counting ((s.note (.leaving con)).cancelSearch con) := by
  have hNote : Recorded (s.note (.leaving con)) := h.recorded.note (.inr ⟨con, rfl⟩)
  -- what is left of a request of another connection
  have hView (d : DSearch) (hd : d ∈ s.remoteSearch) (hOther : d.con ≠ con) :
      let e := (s.note (.leaving con)).cancelView con d
      0 ≤ e.count ∧ e.numServers ≤ 32767 ∧ e.id = d.id ∧
        e.numServers = e.count + (awaited (s.note (.leaving con)).traffic d.id).length := by
    have hDue := h.due d hd
    have hCount := hDue.count
    have hMore := hDue.more
    have hShort := hDue.short
    have hTotal := hDue.total
    have hServer : (s.note (.leaving con)).isServer con = s.isServer con := rfl
    simp only [Core.cancelView, hServer, Core.note_traffic, awaited_leaving]
    by_cases hIs : s.isServer con = true
    · have hFewer := length_awaited_filter (h.recorded.once d.id) (hOk hIs d hd hOther)
      have hNumber : toShort (d.numServers - 1) = d.numServers - 1 :=
        toShort_eq (by omega) (by omega)
      simp only [if_pos hIs, hNumber]
      refine ⟨hCount, ?_, trivial, ?_⟩ <;> omega
    · have hSame : (awaited s.traffic d.id).filter (· != con) = awaited s.traffic d.id := by
        refine List.filter_eq_self.2 fun p hp => ?_
        have hPeer := (h.recorded.peers d.id p (mem_awaited.1 hp).1).2
        rw [bne_iff_ne]
        rintro rfl
        exact hIs (by simp [Core.isServer, hPeer hOpen])
      simp only [if_neg hIs, hSame]
      exact ⟨hCount, hShort, trivial, hTotal⟩
  have hMem {d : DSearch} {p : DSearch → Bool}
      (hd : d ∈ ((s.note (.leaving con)).remoteSearch.map
        ((s.note (.leaving con)).cancelView con)).filter fun d => d.con != con && p d) :
      ∃ e ∈ s.remoteSearch, e.con ≠ con ∧ (s.note (.leaving con)).cancelView con e = d ∧
        p d = true := by
    obtain ⟨hd, hKept⟩ := List.mem_filter.1 hd
    obtain ⟨e, he, rfl⟩ := List.mem_map.1 hd
    simp only [Bool.and_eq_true, bne_iff_ne] at hKept
    refine ⟨e, he, ?_, rfl, hKept.2⟩
    have hCon : ((s.note (.leaving con)).cancelView con e).con = e.con := by
      simp only [Core.cancelView]
      split <;> rfl
    rw [← hCon]
    exact hKept.1
  constructor
  · refine hNote.write _ ?_ ?_ ?_ ?_ _
    · simp [Traffic.concernsPeer]
    · intro id c hIn
      obtain ⟨d, hd, hEq⟩ := List.mem_map.1 hIn
      cases hEq
      obtain ⟨e, he, hOther, rfl, hDone⟩ := hMem hd
      obtain ⟨hCount, hShort, hId, hTotal⟩ := hView e he hOther
      rw [decide_eq_true_eq] at hDone
      rw [hId]
      exact List.eq_nil_of_length_eq_zero (by omega)
    · simp
    · simp
  · intro d hd
    obtain ⟨e, he, hOther, rfl, hKept⟩ := hMem hd
    obtain ⟨hCount, hShort, hId, hTotal⟩ := hView e he hOther
    have hDue : Due (s.note (.leaving con)).traffic ((s.note (.leaving con)).cancelView con e) :=
      ⟨hCount, by simpa using hKept, hShort, by rw [hId]; exact hTotal⟩
    refine hDue.congr (awaited_append ?_)
    simp [Traffic.concernsPeer]

theorem op (hOp : SearchOp countsRight s t) (hReg : Registry s) (hTidy : Ledger.Tidy s.book)
    (hIds : (begunIds t.traffic).Nodup) (h : Counting s) : Counting t := by
  cases hOp with
  | calm hCalm => exact h.calm hCalm
  | removed hCalm => exact (h.calm hCalm).free _
  | finishSearch id n =>
    refine h.finishSearch _ n ?_
    rw [Core.finishSearch, begunIds_append] at hIds
    exact fun hIn => (List.nodup_append.1 hIds).2.2 id hIn id (by simp [begunIds]) rfl
  | forwardSearch nick id n _ hPeers hOk =>
    refine h.forwardSearch hReg hTidy nick n hPeers hOk ?_
    rw [Core.forwardSearch, begunIds_append] at hIds
    exact fun hIn => (List.nodup_append.1 hIds).2.2 id hIn id (by simp [begunIds]) rfl
  | result =>
    refine h.write s.remoteSearch ?_ ?_ ?_ ?_ fun _ hd => hd
    all_goals simp [Traffic.concernsPeer]
  | expire hPerm hRest hAge =>
    refine h.write _ ?_ ?_ ?_ ?_ fun d hd => hRest.mem hd
    · simp [Traffic.concernsPeer]
    · simp
    · intro id con age hIn
      obtain ⟨d, hd, hEq⟩ := List.mem_map.1 hIn
      cases hEq
      have hLate := hAge d hd
      omega
    · simp
  | answer con id hOk => exact h.answerSearch hTidy hOk
  | cancel hOpen hOk => exact h.cancelSearch hOpen hOk

end Counting

/-! ### Runs -/

namespace Server

/-- The removal of a connection is done when its event is. -/
def Left (s : Server) : Prop := ∀ con, .leaving con ∈ s.traffic → .removed con ∈ s.traffic

/-- What an event adds to the record: no removal begins but that of a connection that is dropped. -/
theorem step_traffic {s : Server} (h : Sound s.toCore) (e : Event) :
    ∃ added, (s.step e).traffic = s.traffic ++ added ∧ ∀ con, .leaving con ∈ added → e = .drop con := by
  let ok : Label → Core → Prop := fun l _ => ∀ con, l = .cancel con → e = .drop con
  have hSetting (l : Label) (t : Core) (h : l.isSetting = true) : ok l t := by
    rintro con rfl
    cases h
  have hListing (l : Label) (t : Core) (h : l.isListing = true) : ok l t := by
    rintro con rfl
    cases h
  have hAllows : s.allows ok e := by
    cases e with
    | packet con cmd pkt env =>
      intro _
      cases cmd with
      | addDirectory =>
        exact fun user dir _ _ => allowsDirectory_of (fun _ _ _ _ hEq => nomatch hEq) con user dir _ _
      | addFile | shareFile => exact fun _ _ _ _ _ hEq => nomatch hEq
      | userSharing => exact fun _ _ _ _ _ _ _ hEq => nomatch hEq
      | search | remoteSearch => exact fun _ _ _ hEq => nomatch hEq
      | remoteSearchEnd | removeFile => exact fun _ hEq => nomatch hEq
      | _ => exact allowsPacket_of_setting hSetting hListing _ con pkt _ (by decide)
    | drop con =>
      refine fun _ => ⟨fun c hEq => ?_, fun t => hSetting _ t rfl⟩
      cases hEq
      rfl
    | expireBans => exact fun t => hSetting _ t rfl
    | dumpState => exact fun db _ _ table => hSetting (.drop db) { s.toCore with userDb := table } rfl
    | accept => exact fun _ hEq => nomatch hEq
    | _ => trivial
  have hPath := step_path h e hAllows
  refine (hPath.invariant (I := fun t => Sound t ∧ ∃ added, t.traffic = s.traffic ++ added ∧
    ∀ con, .leaving con ∈ added → e = .drop con) ?_ ⟨h, [], by simp, by simp⟩).2
  rintro t u hOp ⟨hSound, added, hTraffic, hLeaving⟩
  obtain ⟨more, hMore, hCancel⟩ := (hOp.searchOp hSound.registry).traffic
  refine ⟨hSound.op hOp, added ++ more, ?_, fun con hIn => ?_⟩
  · rw [hMore, hTraffic, List.append_assoc]
  · exact (List.mem_append.1 hIn).elim (hLeaving con) fun hIn => hCancel con hIn con rfl

theorem step_left {s : Server} (h : Sound s.toCore) (e : Event) (hLeft : Left s) :
    Left (s.step e) := by
  obtain ⟨added, hTraffic, hDrop⟩ := step_traffic h e
  intro con hIn
  rw [hTraffic] at hIn
  rcases List.mem_append.1 hIn with hIn | hIn
  · rw [hTraffic]
    exact List.mem_append_left _ (hLeft con hIn)
  · obtain rfl := hDrop con hIn
    simp only [step] at hTraffic ⊢
    split
    · simp [removeConnection]
    · rename_i hGone
      rw [if_neg hGone] at hTraffic
      have hNone : added = [] := by simpa using hTraffic
      rw [hNone] at hIn
      cases hIn

/-- The steps that keep the counters right: a server passes on a request only while it is in the
list of servers, an end comes in only from a peer that was asked and did not send one before, and a
server is removed only while every request that is pending for others waits for it. -/
def KeepsCount (s : Server) : Event → Prop
  | .packet con .search _ _ => reads s.toCore con = true → s.servers.length ≤ 32767
  | .packet con .remoteSearch _ _ => reads s.toCore con = true → s.isServer con = true →
      con ∈ s.servers ∧ s.servers.length ≤ 32767
  | .packet con .remoteSearchEnd id _ => reads s.toCore con = true →
      ∀ d ∈ s.remoteSearch, d.id = id → con ∈ awaited s.traffic id
  | .drop con => (s.con con).allocated = true → s.isServer con = true →
      ∀ d ∈ s.remoteSearch, d.con ≠ con → con ∈ awaited s.traffic d.id
  | _ => True

theorem allows_of_keepsCount {s : Server} {e : Event} (h : Sound s.toCore) (hTracked : Tracked s.toCore)
    (hLeft : Left s) (hKeeps : s.KeepsCount e) : s.allows countsRight e := by
  have hSetting (l : Label) (t : Core) (h : l.isSetting = true) : countsRight l t := by
    cases l with
    | account | drop | indiscreet | person | ban | unban => trivial
    | _ => cases h
  have hListing (l : Label) (t : Core) (h : l.isListing = true) : countsRight l t := by
    cases l with
    | enter | wait => trivial
    | _ => cases h
  have hStay (t : Core) (hQuiet : t.skeleton = s.toCore.skeleton) (peer : ConId)
      (hPeer : peer ∈ t.servers) : .leaving peer ∉ t.traffic := by
    have hSame := SameSearches.quiet hQuiet
    rw [hSame.servers] at hPeer
    rw [hSame.traffic]
    intro hIn
    have hGone := (hTracked.removed peer (hLeft peer hIn)).1
    rw [(h.registry.linked peer hPeer).1] at hGone
    cases hGone
  cases e with
  | packet con cmd pkt env =>
    intro hReads
    have hQuiet := Core.skeleton_of_outline (s.outline_reportSharing con cmd)
    have hSame := SameSearches.quiet hQuiet
    have hClass : (s.reportSharing con cmd).isServer con = s.isServer con := by
      simp only [Core.isServer, hSame.cls]
    cases cmd with
    | addDirectory =>
      exact fun user dir _ _ => allowsDirectory_of (fun _ _ _ => trivial) con user dir _ _
    | addFile | shareFile => exact fun _ _ _ _ => trivial
    | userSharing => exact fun _ _ _ _ _ _ => trivial
    | search =>
      intro hIs id
      refine ⟨fun hServer => ?_, ?_, hStay _ hQuiet⟩
      · simp only [Core.isUser, Core.isServer, beq_iff_eq] at hIs hServer
        rw [hIs] at hServer
        cases hServer
      · rw [hSame.servers]
        exact hKeeps hReads
    | remoteSearch =>
      intro hIs id
      rw [hClass] at hIs
      obtain ⟨hLinked, hShort⟩ := hKeeps hReads hIs
      refine ⟨fun _ => ?_, ?_, hStay _ hQuiet⟩
      · rw [hSame.servers]
        exact hLinked
      · rw [hSame.servers]
        exact hShort
    | remoteSearchEnd =>
      intro d hd hId
      -- requests that expire on the way add nothing but their own end
      obtain ⟨gone, hPerm, hSub, -, -, hCore⟩ :=
        findLoop_spec pkt (s.reportSharing con .remoteSearchEnd).remoteSearch
          (s.reportSharing con .remoteSearchEnd)
      have hTraffic : ((s.reportSharing con .remoteSearchEnd).findSearch pkt).1.traffic =
          s.traffic ++ gone.map fun d => .ended d.id d.con
            (.expired ((s.reportSharing con .remoteSearchEnd).now - d.timestamp)) := by
        rw [← hSame.traffic]
        exact congrArg Core.traffic hCore
      rw [hTraffic, awaited_append (by simp [Traffic.concernsPeer])]
      refine hKeeps hReads d ?_ hId
      rw [← hSame.remoteSearch]
      exact hSub.mem hd
    | removeFile => trivial
    | _ => exact allowsPacket_of_setting hSetting hListing _ con pkt _ (by decide)
  | drop con => exact fun hOpen => ⟨hKeeps hOpen, fun t => hSetting _ t rfl⟩
  | expireBans => exact fun t => hSetting _ t rfl
  | dumpState => exact fun _ _ _ _ => hSetting _ _ rfl
  | _ => trivial

/-- When no id is used twice and every step keeps the counters right, a request is ended by counting
only when every peer it was passed on to has sent its end or is going.  Otherwise a request that was
passed on is ended only when it has been pending for longer than the time allowed. -/
theorem run_search_ends (f : Startup) (events : List Event)
    (hIds : (begunIds (Server.reach f events).traffic).Nodup)
    (hMeets : Runs.Meets step KeepsCount (Server.start f) events) :
    let s := Server.reach f events
    (∀ before after id con, s.traffic = before ++ .ended id con .counted :: after →
      ∀ peer, .asked id peer ∈ before → .answered id peer ∈ before ∨ .leaving peer ∈ before) ∧
    (∀ id con age, .ended id con (.expired age) ∈ s.traffic → s.cfg.searchTimeout < age) ∧
    (∀ id con, .ended id con .immediate ∈ s.traffic → ∀ peer, .asked id peer ∉ s.traffic) := by
  intro s
  have hStart : Tracked (Core.start f) ∧ Ledger.Path {} (Core.start f).book ∧
      Counting (Core.start f) ∧ Left (Server.start f) := by
    obtain ⟨_, _, _, _, _, _, hStart⟩ := Core.loaded_start f
    simp only [Server.start, Left]
    rw [hStart]
    refine ⟨?_, .refl, ⟨?_, ?_⟩, ?_⟩
    · constructor <;> simp [Core.empty]
    · constructor <;> simp [Core.empty, askedPeers]
    · simp [Core.empty]
    · simp [Core.empty]
  have hLeft := Runs.Meets.and (I := fun s : Server => Sound s.toCore ∧ Left s)
    (fun s e h => ⟨h.1.path (step_path h.1 e (allows_any s e)), step_left h.1 e h.2⟩)
    hMeets ⟨start_sound f, hStart.2.2.2⟩
  -- the record only grows, so that ids that are distinct at the end always were
  have hKeeps := run_keeps
    (I := fun s => Tracked s ∧ Ledger.Path {} s.book ∧ ((begunIds s.traffic).Nodup → Counting s))
    (fun s e hSound hInv hCond =>
      allows_of_keepsCount hSound hInv.1 hCond.2.2 hCond.1) ?_ hLeft (start_sound f)
    ⟨hStart.1, hStart.2.1, fun _ => hStart.2.2.1⟩
  · have hCounting := hKeeps.2.2.2 hIds
    refine ⟨fun before after id con hEq peer hAsked => ?_, hCounting.recorded.late,
      hCounting.recorded.atOnce⟩
    have hNone := hCounting.recorded.settled before after id con hEq
    by_contra hNot
    have hIn : peer ∈ awaited before id := mem_awaited.2 ⟨hAsked, not_or.1 hNot⟩
    rw [hNone] at hIn
    cases hIn
  · rintro s t hSound hOp ⟨hTracked, hPath, hCounting⟩
    have hSearch := hOp.searchOp hSound.registry
    have hBooked := Booked.op hSearch hSound.registry hTracked
    refine ⟨hBooked.tracked, hPath.trans hBooked.path, fun hIds => ?_⟩
    obtain ⟨added, hTraffic, -⟩ := hSearch.traffic
    have hBefore : (begunIds s.traffic).Nodup := by
      rw [hTraffic, begunIds_append] at hIds
      exact (List.nodup_append.1 hIds).1
    have hTidy := hPath.tidy (by rw [opened_book]; exact hBefore) Ledger.tidy_empty
    exact (hCounting hBefore).op hSearch hSound.registry hTidy hIds

theorem run_search_ends_answered :
    let s := Server.reach hub (askedTwice ++ answeredTwice)
    ∀ before after id con, s.traffic = before ++ .ended id con .counted :: after →
      ∀ peer, .asked id peer ∈ before → .answered id peer ∈ before ∨ .leaving peer ∈ before :=
  (run_search_ends hub (askedTwice ++ answeredTwice) (by decide +kernel)
    ⟨trivial, trivial, trivial, trivial, trivial, trivial, fun _ => by decide +kernel, trivial,
      fun _ => by decide +kernel, fun _ => by decide +kernel, fun _ => by decide +kernel,
      trivial⟩).1

/-- Two servers are asked, and the first one sends its end and goes: the request is ended although
the second one has not sent its end and stays. -/
theorem ended_early :
    let s := Server.reach hub (askedTwice ++ [.packet 0 .remoteSearchEnd (str "x1") {}, .drop 0])
    (begunIds s.traffic).Nodup ∧
    s.traffic =
      [.begun (str "x1") 2, .asked (str "x1") 0, .asked (str "x1") 1, .answered (str "x1") 0,
        .leaving 0] ++ .ended (str "x1") 2 .counted :: [.removed 0] ∧
    1 ∈ s.servers := by decide +kernel

end Server

end OpenNap
