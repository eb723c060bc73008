import OpenNap.Lib.Ledger
import OpenNap.SearchSteps

/-! The record of searches is a ledger: what a handler sends about a request, and what it does to
the list of pending ones, are steps of a ledger whose owners are the connections that asked. -/

namespace OpenNap

open CText

/-- What the ledger has of an entry of the record. -/
def Traffic.entry : Traffic → Option (Ledger.Entry Str ConId)
  | .begun id con => some (.begun id con)
  | .result id con => some (.reply id con)
  | .ended id con _ => some (.ended id con)
  | .removed con => some (.closed con)
  | .asked _ _ => none
  | .answered _ _ => none
  | .leaving _ => none

/-- The ids of the requests that came in, in order. -/
def begunIds (traffic : List Traffic) : List Str :=
  traffic.filterMap fun
    | .begun id _ => some id
    | _ => none

/-- The ids of the requests that were ended, in order. -/
def endedIds (traffic : List Traffic) : List Str :=
  traffic.filterMap fun
    | .ended id _ _ => some id
    | _ => none

/-- What identifies a pending request. -/
def DSearch.key (d : DSearch) : Str × ConId := (d.id, d.con)

/-- The ledger of searches. -/
def Core.book (s : Core) : Ledger.Book Str ConId where
  pending := s.remoteSearch.map (·.key)
  log := s.traffic.filterMap Traffic.entry

theorem opened_book (s : Core) : Ledger.opened s.book.log = begunIds s.traffic := by
  simp only [Core.book, Ledger.opened, begunIds, List.filterMap_filterMap]
  congr 1
  funext t
  cases t <;> rfl

theorem finished_book (s : Core) : Ledger.finished s.book.log = endedIds s.traffic := by
  simp only [Core.book, Ledger.finished, endedIds, List.filterMap_filterMap]
  congr 1
  funext t
  cases t <;> rfl

theorem mem_log {s : Core} {t : Traffic} {e : Ledger.Entry Str ConId} (h : t.entry = some e)
    (ht : t ∈ s.traffic) : e ∈ s.book.log :=
  List.mem_filterMap.2 ⟨t, ht, h⟩

theorem closed_mem_log {s : Core} {con : ConId} :
    .closed con ∈ s.book.log ↔ .removed con ∈ s.traffic := by
  constructor
  · intro h
    obtain ⟨t, ht, hEntry⟩ := List.mem_filterMap.1 h
    cases t with
    | removed c =>
      cases hEntry
      exact ht
    | begun | asked | answered | result | ended | leaving => cases hEntry
  · exact mem_log rfl

theorem begun_mem_log {s : Core} {id : Str} {con : ConId} :
    .begun id con ∈ s.book.log ↔ .begun id con ∈ s.traffic := by
  constructor
  · intro h
    obtain ⟨t, ht, hEntry⟩ := List.mem_filterMap.1 h
    cases t with
    | begun =>
      cases hEntry
      exact ht
    | removed | asked | answered | result | ended | leaving => cases hEntry
  · exact mem_log rfl

/-- Connections that were removed are gone, and those of pending requests are not. -/
structure Tracked (s : Core) : Prop where
  removed : ∀ con, .removed con ∈ s.traffic → (s.con con).allocated = false ∧ con < s.next
  waiting : ∀ d ∈ s.remoteSearch, (s.con d.con).allocated = true

/-- One operation, as the ledger sees it. -/
structure Booked (s t : Core) : Prop where
  tracked : Tracked t
  path : Ledger.Path s.book t.book

namespace Booked

variable {s t : Core}

theorem calm (h : Tracked s) (hReg : Registry s) (hCalm : Calm s t) : Booked s t where
  tracked := by
    constructor
    · intro con hIn
      rw [hCalm.traffic] at hIn
      obtain ⟨hGone, hLt⟩ := h.removed con hIn
      exact ⟨by rw [hCalm.allocated con hLt, hGone], hLt.trans_le hCalm.next⟩
    · intro d hd
      rw [hCalm.remoteSearch] at hd
      have hWait := h.waiting d hd
      rw [hCalm.allocated _ (hReg.knownCon _ hWait), hWait]
  path := by
    have hEq : t.book = s.book := by simp only [Core.book, hCalm.remoteSearch, hCalm.traffic]
    rw [hEq]

/-- An entry that the ledger does not have. -/
theorem note (h : Tracked s) {t : Traffic} (hEntry : t.entry = none) : Booked s (s.note t) where
  tracked := by
    refine ⟨fun con hIn => ?_, h.waiting⟩
    rcases List.mem_append.1 hIn with hIn | hIn
    · exact h.removed con hIn
    · obtain rfl := List.mem_singleton.1 hIn
      cases hEntry
  path := by
    have hEq : (s.note t).book = s.book := by simp [Core.book, hEntry]
    rw [hEq]

/-- A connection without pending requests is freed. -/
theorem free (h : Tracked s) {con : ConId} (hKnown : con < s.next)
    (hPending : ∀ d ∈ s.remoteSearch, d.con ≠ con) :
    Booked s ((s.freeConnection con).note (.removed con)) where
  tracked := by
    refine ⟨fun c hIn => ?_, fun d hd => ?_⟩
    · rcases List.mem_append.1 hIn with hIn | hIn
      · by_cases hc : c = con
        · subst hc
          exact ⟨by simp [Core.freeConnection], hKnown⟩
        · simpa [Core.freeConnection, hc] using h.removed c hIn
      · cases List.mem_singleton.1 hIn
        exact ⟨by simp [Core.freeConnection], hKnown⟩
    · have hNe := hPending d hd
      simpa [Core.freeConnection, hNe] using h.waiting d hd
  path := by
    have hStep : Ledger.Step s.book { s.book with log := s.book.log ++ [.closed con] } := by
      refine .closed s.book fun p hp => ?_
      obtain ⟨d, hd, rfl⟩ := List.mem_map.1 hp
      exact hPending d hd
    refine Relation.ReflTransGen.single ?_
    simpa [Core.book, Core.freeConnection, Traffic.entry] using hStep

/-- A request comes in, and results are sent for it. -/
theorem begun (h : Tracked s) {con : ConId} (hOpen : (s.con con).allocated = true) (id : Str)
    (n : Nat) :
    Ledger.Path s.book
      { pending := s.book.pending ++ [(id, con)]
        log := s.book.log ++ .begun id con :: List.replicate n (.reply id con) } := by
  have hNot : .closed con ∉ s.book.log := by
    intro hIn
    rw [(h.removed con (closed_mem_log.1 hIn)).1] at hOpen
    cases hOpen
  have hBegin : Ledger.Step s.book
      { pending := s.book.pending ++ [(id, con)], log := s.book.log ++ [.begun id con] } :=
    .begun s.book hNot
  have hIn : (id, con) ∈ s.book.pending ++ [(id, con)] := by simp
  have hReplies := Ledger.Path.replies
    (b := { pending := s.book.pending ++ [(id, con)], log := s.book.log ++ [.begun id con] }) hIn n
  simpa using Relation.ReflTransGen.head hBegin hReplies

theorem finishSearch (h : Tracked s) {con : ConId} (hOpen : (s.con con).allocated = true)
    (id : Str) (n : Nat) : Booked s (s.finishSearch con id n) where
  tracked := by
    refine ⟨fun c hIn => h.removed c ?_, h.waiting⟩
    simpa [Core.finishSearch] using hIn
  path := by
    have hEnd : Ledger.Path
        { pending := s.book.pending ++ [(id, con)]
          log := s.book.log ++ .begun id con :: List.replicate n (.reply id con) }
        { pending := s.book.pending
          log := (s.book.log ++ .begun id con :: List.replicate n (.reply id con)) ++
            [.ended id con] } :=
      .single (.ended _ (List.perm_append_singleton _ _))
    have hAll := (begun h hOpen id n).trans hEnd
    simpa [Core.book, Core.finishSearch, Traffic.entry, List.filterMap_replicate] using hAll

theorem forwardSearch (h : Tracked s) {con : ConId} (hOpen : (s.con con).allocated = true)
    (nick id : Str) (n : Nat) : Booked s (s.forwardSearch con nick id n) where
  tracked := by
    refine ⟨fun c hIn => h.removed c ?_, fun d hd => ?_⟩
    · simpa [Core.forwardSearch] using hIn
    · rcases List.mem_append.1 hd with hd | hd
      · exact h.waiting d hd
      · obtain rfl := List.mem_singleton.1 hd
        exact hOpen
  path := by
    have hAll := begun h hOpen id n
    have hAsked (l : List ConId) : (l.map fun peer => Traffic.asked id peer).filterMap Traffic.entry =
        [] := by
      simp [List.filterMap_map, Function.comp_def, Traffic.entry]
    simpa [Core.book, Core.forwardSearch, Traffic.entry, List.filterMap_replicate, DSearch.key,
      hAsked] using hAll

theorem result (h : Tracked s) {d : DSearch} (hPending : d ∈ s.remoteSearch) :
    Booked s (s.note (.result d.id d.con)) where
  tracked := by
    refine ⟨fun c hIn => h.removed c ?_, h.waiting⟩
    simpa [Core.note] using hIn
  path := by
    have hKey : (d.id, d.con) ∈ s.book.pending := List.mem_map.2 ⟨d, hPending, rfl⟩
    have hStep := Ledger.Step.reply s.book hKey
    refine Relation.ReflTransGen.single ?_
    simpa [Core.book, Core.note, Traffic.entry] using hStep

/-- Some of the pending requests are ended and the others stay. -/
theorem ended (h : Tracked s) (gone rest : List DSearch) (reason : DSearch → EndReason)
    (hSearch : t.remoteSearch = rest)
    (hTraffic : t.traffic = s.traffic ++ gone.map fun d => .ended d.id d.con (reason d))
    (hCon : t.con = s.con) (hNext : t.next = s.next)
    (hPerm : s.book.pending.Perm ((gone ++ rest).map DSearch.key))
    (hSub : (rest.map DSearch.key).Sublist s.book.pending) : Booked s t where
  tracked := by
    refine ⟨fun c hIn => ?_, fun d hd => ?_⟩
    · rw [hTraffic] at hIn
      rw [hCon, hNext]
      exact h.removed c (by simpa using hIn)
    · rw [hSearch] at hd
      obtain ⟨e, he, hEq⟩ := List.mem_map.1 (hSub.mem (List.mem_map_of_mem (f := DSearch.key) hd))
      have hSame : e.con = d.con := congrArg Prod.snd hEq
      rw [hCon, ← hSame]
      exact h.waiting e he
  path := by
    rw [List.map_append] at hPerm
    have hPath := Ledger.Path.endAll hPerm hSub
    have hLog : (gone.map fun d => Traffic.ended d.id d.con (reason d)).filterMap Traffic.entry =
        (gone.map DSearch.key).map fun p => .ended p.1 p.2 := by
      simp [List.filterMap_map, Function.comp_def, Traffic.entry, DSearch.key]
    have hBook : t.book = { pending := rest.map DSearch.key, log := s.book.log ++
        (gone.map DSearch.key).map fun p => .ended p.1 p.2 } := by
      simp only [Core.book, hSearch, hTraffic, List.filterMap_append, hLog]
    rw [hBook]
    exact hPath

/-- Some of the pending requests are dropped without a word. -/
theorem forget (h : Tracked s) {rest : List DSearch} (hRest : rest.Sublist s.remoteSearch) :
    Booked s { s with remoteSearch := rest } where
  tracked := ⟨h.removed, fun d hd => h.waiting d (hRest.mem hd)⟩
  path := .single (.forget s.book (hRest.map DSearch.key))

theorem trans {u : Core} (h1 : Booked s t) (h2 : Booked t u) : Booked s u :=
  ⟨h2.tracked, h1.path.trans h2.path⟩

theorem answerSearch (h : Tracked s) (con : ConId) (id : Str) : Booked s (s.answerSearch con id) := by
  have hNote : Booked s (s.note (.answered id con)) := note h rfl
  simp only [Core.answerSearch]
  split
  · exact ⟨h, .refl⟩
  · rename_i d hFind
    split
    · refine hNote.trans (ended hNote.tracked [d] _ (fun _ => .counted) rfl rfl rfl rfl ?_ ?_)
      · exact (Lists.perm_eraseP_of_find hFind).map DSearch.key
      · exact (List.eraseP_sublist).map DSearch.key
    · have hKeys : ((s.note (.answered id con)).remoteSearch.replaceF fun e =>
          if e.id = id then some { e with count := toShort (d.count + 1) } else none).map
            DSearch.key = (s.note (.answered id con)).book.pending := by
        refine Lists.map_replaceF (fun e e' hReplace => ?_) _
        split at hReplace
        · cases hReplace
          rfl
        · cases hReplace
      refine hNote.trans (ended hNote.tracked [] _ (fun _ => .counted) rfl ?_ rfl rfl ?_ ?_)
      · simp
      · rw [List.nil_append, hKeys]
      · rw [hKeys]

theorem cancelSearch (h : Tracked s) (con : ConId) : Booked s (s.cancelSearch con) := by
  have hView (d : DSearch) : (s.cancelView con d).key = d.key := by
    simp only [Core.cancelView]
    split <;> rfl
  have hForget : Booked s { s with remoteSearch := s.remoteSearch.filter fun d => d.con != con } :=
    forget h List.filter_sublist
  -- those that are ended and those that stay are those of other connections
  let others := (s.remoteSearch.map (s.cancelView con)).filter fun d => d.con != con
  have hOthers : others.map DSearch.key =
      (s.remoteSearch.filter fun d => d.con != con).map DSearch.key := by
    have hCon (d : DSearch) : (s.cancelView con d).con = d.con := congrArg Prod.snd (hView d)
    simp only [others, List.filter_map, List.map_map, Function.comp_def, hView, hCon]
  have hDone : s.cancelDone con = others.filter fun d => decide (d.numServers ≤ d.count) := by
    simp only [others, Core.cancelDone, List.filter_filter, Bool.and_comm]
  have hKept : s.cancelKept con = others.filter fun d => !decide (d.numServers ≤ d.count) := by
    simp only [others, Core.cancelKept, List.filter_filter, Bool.and_comm]
  refine hForget.trans (ended hForget.tracked (s.cancelDone con) (s.cancelKept con)
    (fun _ => .counted) rfl rfl rfl rfl ?_ ?_)
  · change ((s.remoteSearch.filter fun d => d.con != con).map DSearch.key).Perm _
    rw [← hOthers, hDone, hKept]
    exact (List.filter_append_perm _ others).symm.map DSearch.key
  · change List.Sublist _ ((s.remoteSearch.filter fun d => d.con != con).map DSearch.key)
    rw [← hOthers, hKept]
    exact List.filter_sublist.map DSearch.key

/-- Every operation is a number of steps of the ledger. -/
theorem op {ok : Label → Core → Prop} (hOp : SearchOp ok s t) (hReg : Registry s)
    (h : Tracked s) : Booked s t := by
  cases hOp with
  | calm hCalm => exact calm h hReg hCalm
  | removed hCalm hKnown hPending =>
    have hFirst := calm h hReg hCalm
    exact hFirst.trans (free hFirst.tracked hKnown hPending)
  | finishSearch id n hOpen => exact finishSearch h hOpen id n
  | forwardSearch nick id n hOpen => exact forwardSearch h hOpen nick id n
  | result hPending => exact result h hPending
  | expire hPerm hRest =>
    exact ended h _ _ (fun d => .expired (s.now - d.timestamp)) rfl rfl rfl rfl
      (hPerm.map DSearch.key) (hRest.map DSearch.key)
  | answer con id => exact answerSearch h con id
  | cancel =>
    rename_i con _ _
    have hNote : Booked s (s.note (.leaving con)) := note h rfl
    exact hNote.trans (cancelSearch hNote.tracked con)

end Booked

namespace Server

/-- Whatever happens, what was sent about searches is what a ledger has of them. -/
theorem reach_booked (f : Startup) (events : List Event) :
    Tracked (Server.reach f events).toCore ∧
      Ledger.Path {} (Server.reach f events).toCore.book := by
  have hStart : Tracked (Core.start f) ∧ Ledger.Path {} (Core.start f).book := by
    obtain ⟨_, _, _, _, _, _, hStart⟩ := Core.loaded_start f
    rw [hStart]
    exact ⟨by constructor <;> simp [Core.empty], .refl⟩
  refine (reach_keeps (I := fun s => Tracked s ∧ Ledger.Path {} s.book) ?_ hStart events).2
  rintro s t hSound hOp ⟨hTracked, hPath⟩
  have hBooked := Booked.op (hOp.searchOp hSound.registry) hSound.registry hTracked
  exact ⟨hBooked.tracked, hPath.trans hBooked.path⟩

/-- When no id is used twice, a request is ended once at most, and to the connection it came from;
no result is sent for it after its end, and nothing at all once its connection was removed.  The
requests that are pending are those of different ids and of connections that are still there. -/
theorem reach_search_once (f : Startup) (events : List Event)
    (hIds : (begunIds (Server.reach f events).traffic).Nodup) :
    let s := Server.reach f events
    (endedIds s.traffic).Nodup ∧
    (∀ id con reason, .ended id con reason ∈ s.traffic → .begun id con ∈ s.traffic) ∧
    (∀ before after id con reason, s.traffic = before ++ .ended id con reason :: after →
      ∀ peer, .result id peer ∉ after) ∧
    (∀ before after con, s.traffic = before ++ .removed con :: after →
      ∀ id, .begun id con ∈ s.traffic →
        ∀ peer, .result id peer ∉ after ∧ ∀ reason, .ended id peer reason ∉ after) ∧
    (∀ d ∈ s.remoteSearch, (s.con d.con).allocated = true) ∧
    (s.remoteSearch.map (·.id)).Nodup := by
  intro s
  obtain ⟨hTracked, hPath⟩ : Tracked s.toCore ∧ Ledger.Path {} s.toCore.book := reach_booked f events
  have hOpened : (Ledger.opened s.toCore.book.log).Nodup := by
    rw [opened_book]
    exact hIds
  have hTidy := hPath.tidy hOpened Ledger.tidy_empty
  refine ⟨?_, fun id con reason hEnd => ?_, fun before after id con reason hLog peer hIn => ?_,
    fun before after con hLog id hBegun peer => ?_, hTracked.waiting, ?_⟩
  · rw [← finished_book]
    exact hTidy.finished_nodup
  · exact begun_mem_log.1 (hTidy.ended id con (mem_log rfl hEnd))
  · have hBook : s.toCore.book.log = before.filterMap Traffic.entry ++
        .ended id con :: after.filterMap Traffic.entry := by
      simp [Core.book, hLog, Traffic.entry]
    exact (hTidy.after_end hBook peer).1 (List.mem_filterMap.2 ⟨_, hIn, rfl⟩)
  · have hBook : s.toCore.book.log = before.filterMap Traffic.entry ++
        .closed con :: after.filterMap Traffic.entry := by
      simp [Core.book, hLog, Traffic.entry]
    -- whoever a later message goes to is the one that asked, and so the one that was removed
    have hOwner (h : Ledger.Entry.begun id peer ∈ s.toCore.book.log) : peer = con :=
      Ledger.owner_eq hOpened h (mem_log rfl hBegun)
    have hLater {e : Ledger.Entry Str ConId} {t : Traffic} (hEntry : t.entry = some e)
        (ht : t ∈ after) : e ∈ after.filterMap Traffic.entry := List.mem_filterMap.2 ⟨t, ht, hEntry⟩
    have hMem {t : Traffic} (ht : t ∈ after) : t ∈ s.traffic := by
      rw [hLog]
      simp [ht]
    constructor
    · intro hIn
      obtain rfl := hOwner (hTidy.replied id peer (mem_log rfl (hMem hIn)))
      exact (hTidy.after_close hBook id).1 (hLater rfl hIn)
    · intro reason hIn
      obtain rfl := hOwner (hTidy.ended id peer (mem_log rfl (hMem hIn)))
      exact (hTidy.after_close hBook id).2 (hLater rfl hIn)
  · have hPending := hTidy.ids
    simpa [Core.book, DSearch.key, Function.comp_def] using hPending

/-- Two servers are linked, and a user searches. -/
def askedTwice : List Event :=
  [.accept 1 (str "one") 8888 8888, .link 0, .accept 2 (str "two") 8888 8888, .link 1,
    .accept 3 (str "client") 6699 8888, .packet 2 .login (str "joe pw 6699 \"client\" 3") {},
    .packet 2 .search (str "FILENAME CONTAINS \"song\"") { searchId := str "x1" }]

/-- Both servers answer, one with a result, and the user quits. -/
def answeredTwice : List Event :=
  [.packet 0 .remoteSearchResult (str "x1 joe \"song.mp3\" md5 1024 128 44100 100") {},
    .packet 0 .remoteSearchEnd (str "x1") {}, .packet 1 .remoteSearchEnd (str "x1") {}, .drop 2]

theorem reach_search_once_answered :
    let s := Server.reach hub (askedTwice ++ answeredTwice)
    endedIds s.traffic = [str "x1"] ∧ (endedIds s.traffic).Nodup :=
  ⟨by decide +kernel, (reach_search_once hub (askedTwice ++ answeredTwice) (by decide +kernel)).1⟩

end Server

end OpenNap
