import OpenNap.Lib.Marking
import OpenNap.Reach

/-! What is left of the links between servers once a server is lost.  A link is marked by its ports,
which are set to 65535, and a peer may report that very port. -/

namespace OpenNap

open CText

deriving instance DecidableEq for Link

/-- The links as edges from a server to its peer, marked by their ports. -/
def linkMarks : Marking.Scheme Link Str where
  source l := strlower l.server
  target l := strlower l.peer
  isOpen l := l.port != 65535 && l.peerport != 65535
  mark l := { l with port := 65535, peerport := 65535 }
  shut _ := rfl

/-- The `server` end of a link is reachable from a host along links from a server to its peer. -/
def Behind (links : List Link) (host : Str) (l : Link) : Prop :=
  Relation.ReflTransGen (fun a b => ∃ k ∈ links, strlower k.server = a ∧ strlower k.peer = b)
    (strlower host) (strlower l.server)

/-- No link has a port that is taken for a mark in a way that matters when `host` is lost: links
with the port on both ends are behind the host, those with it on one end are not, and the others
that are behind it still are without those. -/
structure SplitsRight (links : List Link) (host : Str) : Prop where
  both : ∀ l ∈ links, l.port = 65535 → l.peerport = 65535 → Behind links host l
  one : ∀ l ∈ links, (l.port = 65535 ↔ l.peerport ≠ 65535) → ¬ Behind links host l
  neither : ∀ l ∈ links, l.port ≠ 65535 → l.peerport ≠ 65535 → Behind links host l →
    Behind (links.filter linkMarks.isOpen) host l

/-- Two choices from a list are the same exactly when they agree on what is in it. -/
theorem filter_eq_filter_iff {α : Type} {p q : α → Bool} {l : List α} :
    l.filter p = l.filter q ↔ ∀ a ∈ l, p a = q a := by
  refine ⟨fun hEq a ha => ?_, fun h => List.filter_congr h⟩
  have hMem : a ∈ l.filter p ↔ a ∈ l.filter q := by rw [hEq]
  rw [List.mem_filter, List.mem_filter] at hMem
  rw [Bool.eq_iff_iff]
  exact ⟨fun hp => (hMem.1 ⟨ha, hp⟩).2, fun hq => (hMem.2 ⟨ha, hq⟩).2⟩

theorem isOpen_iff {l : Link} :
    linkMarks.isOpen l = true ↔ l.port ≠ 65535 ∧ l.peerport ≠ 65535 := by
  simp [linkMarks]

/-- What the marking pass reaches is what is behind the host along links that are not marked. -/
theorem reached_iff {links : List Link} {host : Str} {l : Link} :
    Marking.Reached linkMarks links (strlower host) l ↔
      Behind (links.filter linkMarks.isOpen) host l := by
  have hSame : Marking.Leads linkMarks links = fun a b =>
      ∃ k ∈ links.filter linkMarks.isOpen, strlower k.server = a ∧ strlower k.peer = b := by
    funext a b
    refine propext ⟨?_, ?_⟩
    · rintro ⟨k, hk, hOpen, hSource, hTarget⟩
      exact ⟨k, List.mem_filter.2 ⟨hk, hOpen⟩, hSource, hTarget⟩
    · rintro ⟨k, hk, hSource, hTarget⟩
      exact ⟨k, (List.mem_filter.1 hk).1, (List.mem_filter.1 hk).2, hSource, hTarget⟩
  rw [Marking.Reached, hSame]
  rfl

theorem Behind.of_filter {links : List Link} {host : Str} {l : Link}
    (h : Behind (links.filter linkMarks.isOpen) host l) : Behind links host l := by
  refine Relation.ReflTransGen.mono (fun a b => ?_) _ _ h
  rintro ⟨k, hk, hSource, hTarget⟩
  exact ⟨k, (List.mem_filter.1 hk).1, hSource, hTarget⟩

namespace Core

/-- The body of the loop of `mark_links`. -/
def markVisit (depth : Nat) (host : Str) (links : List Link) (i : Nat) : List Link :=
  match links[i]? with
  | some l =>
    if l.port != 65535 && l.peerport != 65535 && sameText host l.server then
      markLinks depth l.peer (links.set i { l with port := 65535, peerport := 65535 })
    else links
  | none => links

theorem markLinks_succ (depth : Nat) (host : Str) (links : List Link) :
    markLinks (depth + 1) host links =
      (List.range links.length).foldl (markVisit depth host) links := rfl

/-- A pass that comes to an end is `mark_links`. -/
theorem markLinks_of_sweep {depth : Nat} {host : Str} {links after : List Link}
    (h : Marking.sweep linkMarks depth (strlower host) links = some after) :
    markLinks depth host links = after := by
  induction depth generalizing host links after with
  | zero => cases h
  | succ depth ih =>
    have hLoop (l : List Nat) (now : List Link)
        (hl : l.foldlM (Marking.visit linkMarks (Marking.sweep linkMarks depth) (strlower host))
          now = some after) : l.foldl (markVisit depth host) now = after := by
      induction l generalizing now with
      | nil => exact Option.some.inj hl
      | cons i l ihl =>
        rw [List.foldlM_cons] at hl
        rw [List.foldl_cons]
        obtain ⟨next, hNext, hRest⟩ := Option.bind_eq_some_iff.1 hl
        refine Eq.trans ?_ (ihl next hRest)
        congr 1
        cases hAt : now[i]? with
        | none =>
          simp only [Marking.visit, hAt, Option.some.injEq] at hNext
          simp only [markVisit, hAt]
          exact hNext
        | some l =>
          simp only [Marking.visit, hAt] at hNext
          have hTest : (linkMarks.isOpen l = true ∧ linkMarks.source l = strlower host) ↔
              (l.port != 65535 && l.peerport != 65535 && sameText host l.server) = true := by
            rw [Bool.and_eq_true, sameText_iff, eq_comm (a := strlower host)]
            rfl
          simp only [markVisit, hAt]
          split at hNext
          · rename_i hTake
            rw [if_pos (hTest.1 hTake)]
            exact ih hNext
          · rename_i hTake
            rw [if_neg (mt hTest.2 hTake)]
            exact Option.some.inj hNext
    rw [markLinks_succ]
    exact hLoop _ _ h

open Classical in
/-- The recursion of `mark_links` comes to an end, and marks what is behind the host along links
that were not marked. -/
theorem markLinks_eq (host : Str) (links : List Link) :
    Marking.sweep linkMarks (links.length + 1) (strlower host) links =
        some (markLinks (links.length + 1) host links) ∧
      markLinks (links.length + 1) host links = links.map fun l =>
        if linkMarks.isOpen l = true ∧ Behind (links.filter linkMarks.isOpen) host l then
          linkMarks.mark l
        else l := by
  have hDepth : links.countP linkMarks.isOpen < links.length + 1 :=
    Nat.lt_succ_of_le List.countP_le_length
  have hRun := Marking.sweep_eq (strlower host) hDepth
  simp only [reached_iff] at hRun
  have hMarks := markLinks_of_sweep hRun
  exact ⟨by rw [hRun, hMarks], hMarks⟩

open Classical in
/-- `remove_links` leaves the links without the mark in both ports that it could not reach. -/
theorem removeLinks_eq (s : Core) (host : Str) :
    (s.removeLinks host).serverLinks = s.serverLinks.filter fun l =>
      decide ¬ (l.port = 65535 ∧ l.peerport = 65535 ∨
        linkMarks.isOpen l = true ∧ Behind (s.serverLinks.filter linkMarks.isOpen) host l) := by
  have hMarked (l : Link) : markedLink l = true ↔ l.port = 65535 ∧ l.peerport = 65535 := by
    simp [markedLink]
  simp only [removeLinks, (markLinks_eq host s.serverLinks).2]
  generalize Behind (s.serverLinks.filter linkMarks.isOpen) host = reached
  induction s.serverLinks with
  | nil => rfl
  | cons l links ih =>
    rw [List.map_cons, List.filter_cons, List.filter_cons]
    by_cases hReached : linkMarks.isOpen l = true ∧ reached l
    · have hOut : markedLink (linkMarks.mark l) = true := rfl
      rw [if_pos hReached, hOut]
      simp only [hReached, and_self, or_true, not_true_eq_false, decide_false, Bool.not_true,
        Bool.false_eq_true, if_false]
      exact ih
    · rw [if_neg hReached]
      by_cases hPorts : l.port = 65535 ∧ l.peerport = 65535
      · simp only [(hMarked l).2 hPorts, hPorts, and_self, true_or, not_true_eq_false, decide_false,
          Bool.not_true, Bool.false_eq_true, if_false]
        exact ih
      · have hIn : markedLink l = false := by
          simpa using mt (hMarked l).1 hPorts
        simp only [hIn, hPorts, hReached, or_self, not_false_eq_true, decide_true, Bool.not_false,
          if_true]
        rw [ih]

open Classical in
/-- When a server is lost the recursion comes to an end, and exactly the links behind the server go,
if and only if the port that marks a link hides none of them. -/
theorem removeLinks_iff (s : Core) (host : Str) :
    Marking.sweep linkMarks (s.serverLinks.length + 1) (strlower host) s.serverLinks =
        some (markLinks (s.serverLinks.length + 1) host s.serverLinks) ∧
      ((s.removeLinks host).serverLinks =
          s.serverLinks.filter (fun l => decide ¬ Behind s.serverLinks host l) ↔
        SplitsRight s.serverLinks host) := by
  refine ⟨(markLinks_eq host s.serverLinks).1, ?_⟩
  rw [removeLinks_eq, filter_eq_filter_iff]
  constructor
  · intro h
    -- what the decision is about a link, in terms of its ports
    have hLink (l : Link) (hl : l ∈ s.serverLinks) :
        (l.port = 65535 ∧ l.peerport = 65535 ∨ (l.port ≠ 65535 ∧ l.peerport ≠ 65535) ∧
          Behind (s.serverLinks.filter linkMarks.isOpen) host l) ↔ Behind s.serverLinks host l := by
      have := h l hl
      rwa [decide_eq_decide, not_iff_not, isOpen_iff] at this
    refine ⟨fun l hl hPort hPeer => ?_, fun l hl hPorts hBehind => ?_, fun l hl hPort hPeer hBehind => ?_⟩
    · exact (hLink l hl).1 (.inl ⟨hPort, hPeer⟩)
    · rcases (hLink l hl).2 hBehind with ⟨hPort, hPeer⟩ | ⟨⟨hPort, hPeer⟩, -⟩
      · exact hPorts.1 hPort hPeer
      · exact hPort (hPorts.2 hPeer)
    · rcases (hLink l hl).2 hBehind with ⟨hBad, -⟩ | ⟨-, hReached⟩
      · exact absurd hBad hPort
      · exact hReached
  · intro h l hl
    rw [decide_eq_decide, not_iff_not, isOpen_iff]
    constructor
    · rintro (⟨hPort, hPeer⟩ | ⟨-, hReached⟩)
      · exact h.both l hl hPort hPeer
      · exact hReached.of_filter
    · intro hBehind
      by_cases hPort : l.port = 65535
      · by_cases hPeer : l.peerport = 65535
        · exact .inl ⟨hPort, hPeer⟩
        · exact absurd hBehind (h.one l hl (by simp [hPort, hPeer]))
      · by_cases hPeer : l.peerport = 65535
        · exact absurd hBehind (h.one l hl (by simp [hPort, hPeer]))
        · exact .inr ⟨⟨hPort, hPeer⟩, h.neither l hl hPort hPeer hBehind⟩

open Classical in
/-- A peer reports a link with the port 65535 on both ends, and the link is dropped when a server
is lost that has nothing to do with it. -/
theorem removeLinks_takes_stranger :
    let s := Server.reach hub [.accept 1 (str "peer") 8888 8888, .link 0,
      .packet 0 .linkInfo (str "a 65535 b 65535 1") {}]
    s.serverLinks = [⟨str "a", str "b", 65535, 65535, 1⟩] ∧
      (s.removeLinks (str "z")).serverLinks ≠
        s.serverLinks.filter (fun l => decide ¬ Behind s.serverLinks (str "z") l) := by
  intro s
  have hLinks : s.serverLinks = [⟨str "a", str "b", 65535, 65535, 1⟩] := by decide +kernel
  refine ⟨hLinks, fun hEq => ?_⟩
  have hSplits := ((removeLinks_iff s.toCore (str "z")).2.1 hEq).both _
    (by rw [hLinks]; exact List.mem_singleton_self _) rfl rfl
  rw [hLinks] at hSplits
  -- the walk would have to start at the only link
  rcases Relation.ReflTransGen.cases_head hSplits with hHere | ⟨b, ⟨k, hk, hFrom, -⟩, -⟩
  · exact absurd hHere (by decide)
  · rw [List.mem_singleton] at hk
    subst hk
    exact absurd hFrom (by decide)

end Core

end OpenNap
