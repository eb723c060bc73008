import OpenNap.Reach

/-! What an operation can do to searches.  Most operations leave them alone, and then what searches
depend on does not change either; the others are listed. -/

namespace OpenNap

open CText

/-- From `s` to `t` nothing happens to searches, and no connection is removed or stops being that of
a server. -/
structure Calm (s t : Core) : Prop where
  next : s.next ≤ t.next
  cfg : t.cfg = s.cfg
  remoteSearch : t.remoteSearch = s.remoteSearch
  traffic : t.traffic = s.traffic
  allocated : ∀ c, c < s.next → (t.con c).allocated = (s.con c).allocated
  server : ∀ c, c < s.next → (s.con c).allocated = true → (s.con c).cls = .server →
    (t.con c).cls = .server

theorem SameSearches.calm {s t : Core} (h : SameSearches s t) : Calm s t where
  next := h.next
  cfg := h.cfg
  remoteSearch := h.remoteSearch
  traffic := h.traffic
  allocated c _ := h.allocated c
  server c _ _ hClass := (h.cls c).trans hClass

/-- An operation, as far as searches are concerned. -/
inductive SearchOp (ok : Label → Core → Prop) (s : Core) : Core → Prop
  | calm {t : Core} (h : Calm s t) : SearchOp ok s t
  | removed {t : Core} {con : ConId} (h : Calm s t) (hKnown : con < t.next)
      (hPending : ∀ d ∈ t.remoteSearch, d.con ≠ con) :
      SearchOp ok s ((t.freeConnection con).note (.removed con))
  | finishSearch {con : ConId} (id : Str) (n : Nat) (hOpen : (s.con con).allocated = true) :
      SearchOp ok s (s.finishSearch con id n)
  | forwardSearch {con : ConId} (nick id : Str) (n : Nat) (hOpen : (s.con con).allocated = true)
      (hPeers : Server.hasPeers s con = true) (hOk : ok (.forward con id) s) :
      SearchOp ok s (s.forwardSearch con nick id n)
  | result {d : DSearch} (hPending : d ∈ s.remoteSearch) : SearchOp ok s (s.note (.result d.id d.con))
  | expire {gone rest : List DSearch} (hPerm : s.remoteSearch.Perm (gone ++ rest))
      (hRest : rest.Sublist s.remoteSearch)
      (hAge : ∀ d ∈ gone, d.timestamp + s.cfg.searchTimeout < s.now) :
      SearchOp ok s (s.expireSearches gone rest)
  | answer (con : ConId) (id : Str) (hOk : ok (.answer con id) s) :
      SearchOp ok s (s.answerSearch con id)
  | cancel {con : ConId} (hOpen : (s.con con).allocated = true) (hOk : ok (.cancel con) s) :
      SearchOp ok s ((s.note (.leaving con)).cancelSearch con)

namespace Op

variable {ok : Label → Core → Prop} {s t : Core}

/-- Every operation is one of these. -/
theorem searchOp (hOp : Op ok s t) (hReg : Registry s) : SearchOp ok s t := by
  have hChan (hStep : ChanStep s t) : SearchOp ok s t := .calm (SameSearches.chan hStep).calm
  have hFile (hStep : FileStep s t) : SearchOp ok s t := .calm (SameSearches.file hStep).calm
  cases hOp with
  | quiet hDetail =>
    have hOutline := Core.outline_of_detail hDetail
    exact .calm (SameSearches.quiet (Core.skeleton_of_outline hOutline)).calm
  | fine hFine =>
    obtain ⟨n, hNext, hOutline⟩ := hFine.outline
    have hRaised : SameSearches s { s with next := n } := { SameSearches.refl s with next := hNext }
    exact .calm (hRaised.trans (.quiet (Core.skeleton_of_outline hOutline))).calm
  | tick => exact .calm ⟨le_refl _, rfl, rfl, rfl, fun _ _ => rfl, fun _ _ _ h => h⟩
  | addRecord => exact .calm ⟨Nat.le_succ _, rfl, rfl, rfl, fun _ _ => rfl, fun _ _ _ h => h⟩
  | setRecord | dropRecord => exact .calm ⟨le_refl _, rfl, rfl, rfl, fun _ _ => rfl, fun _ _ _ h => h⟩
  | person hPersonal =>
    have hOutline := Core.channelOutline_of_personal hPersonal
    exact .calm (SameSearches.quiet (Core.skeleton_of_channelOutline hOutline)).calm
  | setUserLevel => exact .calm (SameSearches.quiet (s.skeleton_modUser _ rfl)).calm
  | addBan => exact .calm ⟨le_refl _, rfl, rfl, rfl, fun _ _ => rfl, fun _ _ _ h => h⟩
  | dropBans => exact .calm ⟨le_refl _, rfl, rfl, rfl, fun _ _ => rfl, fun _ _ _ h => h⟩
  | accept ip host port localPort =>
    have hSlot := SameSearches.quiet
      (Core.skeleton_addClient (s.newConnection ip host port localPort) s.next)
    have hOld (c : ConId) (hc : c < s.next) :
        (s.newConnection ip host port localPort).con c = s.con c := by
      simp [Core.newConnection, hc.ne]
    refine .calm ⟨(Nat.le_succ _).trans hSlot.next, hSlot.cfg, hSlot.remoteSearch, hSlot.traffic,
      fun c hc => ?_, fun c hc _ hClass => ?_⟩
    · exact (hSlot.allocated c).trans (by rw [hOld c hc])
    · exact (hSlot.cls c).trans (by rw [hOld c hc, hClass])
  | linkServer =>
    rename_i con _ _
    refine .calm ⟨le_refl _, rfl, rfl, rfl, fun c _ => ?_, fun c _ _ hClass => ?_⟩ <;>
      by_cases hc : c = con <;> simp_all [Core.linkServer]
  | unlinkServer => exact .calm ⟨le_refl _, rfl, rfl, rfl, fun _ _ => rfl, fun _ _ _ h => h⟩
  | @loginLocal con u hOpen hUnknown hNick hCon hChannels hShared hLib hOk =>
    refine .calm ⟨Nat.le_succ _, rfl, rfl, rfl, fun c _ => ?_, fun c _ _ hClass => ?_⟩
    · by_cases hc : c = con <;> simp [Core.addUser, Core.tieLocal, hc]
    · have hNe : c ≠ con := by
        rintro rfl
        rw [hUnknown] at hClass
        cases hClass
      simpa [Core.addUser, Core.tieLocal, hNe] using hClass
  | loginRemote => exact .calm ⟨Nat.le_succ _, rfl, rfl, rfl, fun _ _ => rfl, fun _ _ _ h => h⟩
  | removeRemote => exact .calm (SameSearches.hashRemoveUser s _).calm
  | zap hOpen hUser hOk =>
    rename_i con
    have hRemove := SameSearches.removeUser (s.modCon con fun c => { c with killed := true }) con
    refine .calm ⟨hRemove.next, hRemove.cfg, hRemove.remoteSearch, hRemove.traffic, fun c _ => ?_,
      fun c _ _ hClass => ?_⟩
    · have hAllocated := hRemove.allocated c
      simp only [Core.zapLocalUser]
      by_cases hc : c = con
      · subst hc
        simpa using hAllocated
      · simpa [hc] using hAllocated
    · have hNe : c ≠ con := by
        rintro rfl
        rw [hUser] at hClass
        cases hClass
      have hCls := hRemove.cls c
      simp only [Core.zapLocalUser]
      simpa [hNe, hClass] using hCls
  | hangUp hOpen hClass hPending hOk =>
    rename_i con
    have hRemove := SameSearches.removeUser s con
    refine .removed hRemove.calm ((hReg.knownCon _ hOpen).trans_le hRemove.next) ?_
    rw [hRemove.remoteSearch]
    exact hPending
  | close hOpen _ _ hPending =>
    exact .removed (SameSearches.refl s).calm (hReg.knownCon _ hOpen) hPending
  | enter => exact hChan (s.chanStep_enterAs _ _)
  | found => exact hChan ((s.chanStep_newChannel _).trans (Core.chanStep_enterChannel _ _ s.next))
  | leave => exact hChan ((s.chanStep_deleteChannel _ _).trans (Core.chanStep_partChannel _ _ _))
  | dropChannel => exact hChan (s.chanStep_hashRemoveChannel _)
  | flagChannel | setTopic | setLevel | setLimit => exact hChan (s.chanStep_modChan _ _)
  | addOperator => exact hChan (s.chanStep_addOperator _ _)
  | dropOperator => exact hChan (s.chanStep_dropOperator _ _)
  | insert => exact hFile (s.fileStep_insertDatum _ _ _)
  | dropFile => exact hFile (s.fileStep_dropFile _ _ _)
  | report => exact hFile (s.fileStep_reportShared _ _ _ _)
  | collect => exact hFile s.fileStep_fdbGarbageCollect
  | finishSearch id n hOpen => exact .finishSearch id n hOpen
  | forwardSearch nick id n hOpen hPeers hOk => exact .forwardSearch nick id n hOpen hPeers hOk
  | result hPending => exact .result hPending
  | expire hPerm hRest hAge => exact .expire hPerm hRest hAge
  | answer con id hOk => exact .answer con id hOk
  | cancel hOpen hOk => exact .cancel hOpen hOk

end Op

/-- An operation only adds to the record, and that a removal begins only when it cancels. -/
theorem SearchOp.traffic {ok : Label → Core → Prop} {s t : Core} (h : SearchOp ok s t) :
    ∃ added, t.traffic = s.traffic ++ added ∧ ∀ con, .leaving con ∈ added → ok (.cancel con) s := by
  cases h with
  | calm h => exact ⟨[], by rw [h.traffic, List.append_nil], by simp⟩
  | removed h _ _ =>
    rename_i con _ _
    refine ⟨[.removed con], ?_, by simp⟩
    rw [← h.traffic]
    rfl
  | finishSearch id n _ => exact ⟨_, rfl, by simp⟩
  | forwardSearch nick id n _ _ _ => exact ⟨_, rfl, by simp⟩
  | result _ => exact ⟨[_], rfl, by simp⟩
  | expire _ _ _ => exact ⟨_, rfl, by simp⟩
  | answer con id _ =>
    simp only [Core.answerSearch]
    split
    · exact ⟨[], by simp, by simp⟩
    · rename_i d _
      split
      · exact ⟨[.answered id con, .ended d.id d.con .counted], by simp, by simp⟩
      · exact ⟨[.answered id con], rfl, by simp⟩
  | cancel _ hOk =>
    refine ⟨_, List.append_assoc _ [_] _, fun c hc => ?_⟩
    rcases List.mem_append.1 hc with hc | hc
    · cases List.mem_singleton.1 hc
      exact hOk
    · simp at hc

end OpenNap
