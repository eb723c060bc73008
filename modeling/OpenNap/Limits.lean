import OpenNap.Hotlists
import OpenNap.Ignore
import OpenNap.Sharing

/-! How much a user may have: files, channels, entries of the hotlist and users who are ignored.  Each
limit is checked before something is added, and the check lets one more in when the limit is reached. -/

namespace OpenNap

open CText

/-- How many things of each kind a user gets. -/
structure Growth where
  files : Nat := 0
  channels : Nat := 0
  hotlist : Nat := 0
  ignores : Nat := 0

/-- From `s` to `t` the user `user` on the connection `con` gets no more than that. -/
structure GrowsBy (con : ConId) (user : UserId) (g : Growth) (s t : Core) : Prop where
  cfg : t.cfg = s.cfg
  files : (t.library con).values.length ≤ (s.library con).values.length + g.files
  channels : (t.user user).channels.length ≤ (s.user user).channels.length + g.channels
  hotlist : (t.hotlistsOf con).length ≤ (s.hotlistsOf con).length + g.hotlist
  ignores : (t.ignoresOf con).length ≤ (s.ignoresOf con).length + g.ignores

namespace GrowsBy

variable {con : ConId} {user : UserId} {g : Growth} {s t u : Core}

theorem refl (s : Core) : GrowsBy con user g s s :=
  ⟨rfl, Nat.le_add_right _ _, Nat.le_add_right _ _, Nat.le_add_right _ _, Nat.le_add_right _ _⟩

theorem trans (h1 : GrowsBy con user {} s t) (h2 : GrowsBy con user g t u) :
    GrowsBy con user g s u where
  cfg := h2.cfg.trans h1.cfg
  files := h2.files.trans (Nat.add_le_add_right h1.files _)
  channels := h2.channels.trans (Nat.add_le_add_right h1.channels _)
  hotlist := h2.hotlist.trans (Nat.add_le_add_right h1.hotlist _)
  ignores := h2.ignores.trans (Nat.add_le_add_right h1.ignores _)

theorem foldl {α : Type} {f : Core → α → Core} (h : ∀ s a, GrowsBy con user {} s (f s a)) (l : List α)
    (s : Core) : GrowsBy con user {} s (l.foldl f s) := by
  induction l generalizing s with
  | nil => exact refl s
  | cons a l ih => exact (h s a).trans (ih _)

/-- The options of the connection are the same, the mode of the user aside. -/
theorem of_detail (hCfg : t.cfg = s.cfg)
    (hUopt : (t.con con).detail.uopt = (s.con con).detail.uopt)
    (hChannels : (t.user user).channels.length ≤ (s.user user).channels.length) :
    GrowsBy con user {} s t := by
  have hLists : (t.library con).values = (s.library con).values ∧
      t.hotlistsOf con = s.hotlistsOf con ∧ t.ignoresOf con = s.ignoresOf con := by
    cases hs : (s.con con).uopt <;> cases ht : (t.con con).uopt <;>
      simp_all [Connection.detail, Core.library, Core.files, Core.hotlistsOf, Core.ignoresOf]
  obtain ⟨hFiles, hHotlist, hIgnores⟩ := hLists
  exact ⟨hCfg, by rw [hFiles]; exact Nat.le_add_right _ _, hChannels.trans (Nat.le_add_right _ _),
    by rw [hHotlist]; exact Nat.le_add_right _ _, by rw [hIgnores]; exact Nat.le_add_right _ _⟩

theorem detail (h : t.detail = s.detail) : GrowsBy con user {} s t := by
  have hCon : (t.con con).detail = (s.con con).detail := congrFun (congrArg Core.con h) con
  have hUser : (t.user user).detail = (s.user user).detail := congrFun (congrArg Core.user h) user
  exact of_detail (congrArg Core.cfg h :) (congrArg Connection.uopt hCon)
    (le_of_eq (congrArg (fun u : User => u.channels.length) hUser :))

/-- The options of the connection are the same. -/
theorem of_eq (hCfg : t.cfg = s.cfg) (hUopt : (t.con con).uopt = (s.con con).uopt)
    (hChannels : (t.user user).channels.length ≤ (s.user user).channels.length) :
    GrowsBy con user {} s t :=
  of_detail hCfg (by rw [Connection.detail, hUopt]; rfl) hChannels

/-- The connection has lost its options, or has new ones. -/
theorem of_empty (hCfg : t.cfg = s.cfg)
    (hUopt : (t.con con).uopt = none ∨ ∃ mode, (t.con con).uopt = some { usermode := mode })
    (hChannels : (t.user user).channels.length ≤ (s.user user).channels.length) :
    GrowsBy con user {} s t := by
  have hLists : (t.library con).values = [] ∧ t.hotlistsOf con = [] ∧ t.ignoresOf con = [] := by
    rcases hUopt with hUopt | ⟨mode, hUopt⟩ <;>
      simp [Core.library, Core.files, Core.hotlistsOf, Core.ignoresOf, hUopt]
  obtain ⟨hFiles, hHotlist, hIgnores⟩ := hLists
  exact ⟨hCfg, by simp [hFiles], hChannels.trans (Nat.le_add_right _ _), by simp [hHotlist],
    by simp [hIgnores]⟩

/-- Neither connections nor users change. -/
theorem of_same (hCfg : t.cfg = s.cfg) (hCon : t.con = s.con) (hUser : t.user = s.user) :
    GrowsBy con user {} s t :=
  of_eq hCfg (by rw [hCon]) (by rw [hUser])

/-- What follows changes neither connections nor users. -/
theorem same (h : GrowsBy con user g s t) (hCfg : u.cfg = t.cfg) (hCon : u.con = t.con)
    (hUser : u.user = t.user) : GrowsBy con user g s u := by
  have hLibrary : u.library con = t.library con := by rw [Core.library, Core.files, hCon]; rfl
  have hHotlist : u.hotlistsOf con = t.hotlistsOf con := by rw [Core.hotlistsOf, hCon]; rfl
  have hIgnores : u.ignoresOf con = t.ignoresOf con := by rw [Core.ignoresOf, hCon]; rfl
  exact ⟨hCfg.trans h.cfg, by rw [hLibrary]; exact h.files, by rw [hUser]; exact h.channels,
    by rw [hHotlist]; exact h.hotlist, by rw [hIgnores]; exact h.ignores⟩

theorem modUser (s : Core) (other : UserId) {f : User → User}
    (h : (f (s.user other)).channels.length ≤ (s.user other).channels.length) :
    GrowsBy con user {} s (s.modUser other f) := by
  refine of_eq rfl rfl ?_
  by_cases hUser : user = other
  · subst hUser
    simpa using h
  · simp [hUser]

theorem modCon (s : Core) (other : ConId) {f : Connection → Connection}
    (h : (f (s.con other)).uopt = (s.con other).uopt) :
    GrowsBy con user {} s (s.modCon other f) := by
  refine of_eq rfl ?_ (le_refl _)
  by_cases hCon : con = other
  · subst hCon
    simpa using h
  · simp [hCon]

/-- The options of a connection go. -/
theorem noOptions (s : Core) (other : ConId) {f : Connection → Connection}
    (h : (f (s.con other)).uopt = none) : GrowsBy con user {} s (s.modCon other f) := by
  by_cases hCon : con = other
  · subst hCon
    exact of_empty rfl (.inl (by simpa using h)) (le_refl _)
  · exact of_eq rfl (by simp [hCon]) (le_refl _)

theorem hashRemoveChannel (s : Core) (name : Str) :
    GrowsBy con user {} s (s.hashRemoveChannel name) := by
  simp only [Core.hashRemoveChannel]
  split
  · exact refl s
  · exact (foldl (fun s other => modUser s other (le_refl _)) _ s).trans (of_same rfl rfl rfl)

theorem farewell (h : Core.Farewell s t) : GrowsBy con user {} s t := by
  cases h with
  | part | uninvite | uncount | gone => exact of_same rfl rfl rfl
  | dropChannel name => exact hashRemoveChannel s name
  | seen nick =>
    simp only [Core.recordLogoff]
    split <;> exact of_same rfl rfl rfl

theorem hashRemoveUser (s : Core) (nick : Str) : GrowsBy con user {} s (s.hashRemoveUser nick) :=
  Core.hashRemoveUser_keeps (fun _ _ hStep h => h.trans (farewell hStep)) nick (refl s)

/-- The table of a connection is replaced by one that is no longer. -/
theorem setFiles (s : Core) (other : ConId) {table : Option (NameTable DatumId)}
    (h : table.elim 0 (·.values.length) ≤ (s.library other).values.length) :
    GrowsBy con user {} s (s.setFiles other table) := by
  by_cases hCon : con = other
  · subst hCon
    have hHotlist : (s.setFiles con table).hotlistsOf con = s.hotlistsOf con := by
      cases hUopt : (s.con con).uopt <;> simp [Core.hotlistsOf, Core.setFiles, hUopt]
    have hIgnores : (s.setFiles con table).ignoresOf con = s.ignoresOf con := by
      cases hUopt : (s.con con).uopt <;> simp [Core.ignoresOf, Core.setFiles, hUopt]
    refine ⟨rfl, ?_, Nat.le_add_right _ _, by rw [hHotlist]; exact Nat.le_add_right _ _,
      by rw [hIgnores]; exact Nat.le_add_right _ _⟩
    cases hUopt : (s.con con).uopt <;> cases table <;>
      simp_all [Core.library, Core.files, Core.setFiles]
  · exact of_eq rfl (by simp [Core.setFiles, hCon]) (le_refl _)

theorem freeDatum (s : Core) (d : DatumId) : GrowsBy con user {} s (s.freeDatum d) :=
  of_same rfl rfl rfl

theorem freeFiles (s : Core) (other : ConId) : GrowsBy con user {} s (s.freeFiles other) := by
  simp only [Core.freeFiles]
  split
  · exact refl s
  · exact (foldl freeDatum _ s).trans (setFiles _ other (Nat.zero_le _))

theorem freeOptions (s : Core) (other : ConId) : GrowsBy con user {} s (s.freeOptions other) := by
  refine Core.freeOptions_keeps (fun t hot h => h.trans ?_) (fun t h => h.trans (freeFiles t other))
    (fun t h => h.trans (noOptions t other rfl)) (refl s)
  simp only [Core.leaveHotlist]
  split <;> exact of_same rfl rfl rfl

theorem removeUser (s : Core) (other : ConId) : GrowsBy con user {} s (s.removeUser other) := by
  simp only [Core.removeUser]
  split
  · exact refl s
  · exact (hashRemoveUser s _).trans (freeOptions _ other)

theorem partChannel (s : Core) (chan : ChanId) (other : UserId) :
    GrowsBy con user {} s (s.partChannel chan other) := by
  have hRemove : GrowsBy con user {} s (s.channelRemove chan other) := of_same rfl rfl rfl
  simp only [Core.partChannel]
  split
  · exact hRemove.trans (hashRemoveChannel _ _)
  · exact hRemove

theorem accept (s : Core) (ip : UInt32) (host : Str) (port localPort : UInt16) :
    GrowsBy con user {} s (s.accept ip host port localPort) := by
  have hNew : GrowsBy con user {} s (s.newConnection ip host port localPort) :=
    (of_same rfl rfl rfl : GrowsBy con user {} s s.alloc).trans (noOptions _ s.next rfl)
  have hSlot (t : Core) (clients : List (Option ConId)) (n slot : Nat) : GrowsBy con user {} t
      { t.modCon s.next fun c => { c with id := toShort slot } with
        clients := clients, numClients := n } :=
    (modCon t s.next (f := fun c => { c with id := toShort slot }) rfl).same rfl rfl rfl
  simp only [Core.accept, Core.addClient]
  refine hNew.trans ?_
  split
  · exact hSlot _ _ _ _
  · split
    · exact hSlot _ _ _ _
    · exact of_same rfl rfl rfl

/-- A file is taken out of the table of its owner. -/
theorem dropFile (s : Core) (other : ConId) (owner : UserId) (d : DatumId) :
    GrowsBy con user {} s (s.dropFile other owner d) := by
  have hCount : GrowsBy con user {} s (s.countUnshared owner ((s.datum d).size / 1024)) := by
    refine of_eq rfl rfl (le_of_eq (congrArg List.length ?_))
    by_cases hUser : user = owner <;> simp [Core.countUnshared, hUser]
  simp only [Core.dropFile, Core.hashRemoveFile]
  split
  · exact hCount
  · rename_i e hFile
    refine (hCount.trans (freeDatum _ e)).trans (setFiles _ other ?_)
    cases hTable : (s.countUnshared owner ((s.datum d).size / 1024)).files other with
    | none => exact Nat.zero_le _
    | some table =>
      have hLibrary : ((s.countUnshared owner ((s.datum d).size / 1024)).freeDatum e).library other =
          table := by
        rw [Core.library, show ((s.countUnshared owner ((s.datum d).size / 1024)).freeDatum e).files
          other = some table from hTable]
        rfl
      rw [Core.lookupFile, hTable] at hFile
      rw [hLibrary, (Bucket.Table.values_remove hFile).length_eq]
      exact Nat.le_succ _

/-- A user enters a channel. -/
theorem enterChannel (s : Core) (other : UserId) (chan : ChanId) :
    GrowsBy con user { channels := if other = user then 1 else 0 } s (s.enterChannel other chan) := by
  refine ⟨rfl, Nat.le_add_right _ _, ?_, Nat.le_add_right _ _, Nat.le_add_right _ _⟩
  by_cases hUser : user = other
  · subst hUser
    simp [Core.enterChannel]
  · simp [Core.enterChannel, hUser]

theorem enterAs (s : Core) (other : UserId) (chan : ChanId) :
    GrowsBy con user { channels := if other = user then 1 else 0 } s (s.enterAs other chan) := by
  have hEnter : GrowsBy con user { channels := if other = user then 1 else 0 } s
      (s.enterChannel other chan) := enterChannel s other chan
  rw [Core.enterAs]
  by_cases hOp : (s.chan chan).ops.any (sameText (s.user other).nick) = true
  · rw [if_pos hOp]
    exact hEnter.same rfl rfl rfl
  · rw [if_neg hOp]
    exact hEnter

/-- A connection is put on a hotlist. -/
theorem listHotlist (s : Core) (other : ConId) (hot : HotlistId) :
    GrowsBy con user { hotlist := if other = con then 1 else 0 } s (s.listHotlist other hot) := by
  by_cases hCon : con = other
  · subst hCon
    cases hUopt : (s.con con).uopt <;>
      refine ⟨rfl, ?_, Nat.le_add_right _ _, ?_, ?_⟩ <;>
      simp [Core.library, Core.files, Core.hotlistsOf, Core.ignoresOf, Core.listHotlist, hUopt]
  · have hSame : GrowsBy con user {} s (s.listHotlist other hot) :=
      of_eq rfl (by simp [Core.listHotlist, hCon]) (le_refl _)
    exact ⟨hSame.cfg, hSame.files, hSame.channels, hSame.hotlist.trans (Nat.le_add_right _ _),
      hSame.ignores⟩

theorem unlistHotlist (s : Core) (other : ConId) (hot : HotlistId) :
    GrowsBy con user {} s (s.unlistHotlist other hot) := by
  have hLeave (t : Core) : GrowsBy con user {} t (t.leaveHotlist other hot) := by
    simp only [Core.leaveHotlist]
    split <;> exact of_same rfl rfl rfl
  refine trans ?_ (hLeave _)
  by_cases hCon : con = other
  · subst hCon
    cases hUopt : (s.con con).uopt <;>
      refine ⟨rfl, ?_, Nat.le_add_right _ _, ?_, ?_⟩ <;>
      simp [Core.library, Core.files, Core.hotlistsOf, Core.ignoresOf, hUopt, List.length_erase_le]
  · exact of_eq rfl (by simp [hCon]) (le_refl _)

theorem zapLocalUser (s : Core) (other : ConId) :
    GrowsBy con user {} s (s.zapLocalUser other) := by
  have hKilled : GrowsBy con user {} s (s.modCon other fun c => { c with killed := true }) :=
    modCon s other rfl
  exact (hKilled.trans (removeUser _ other)).trans (noOptions _ other
    (f := fun c => { c with cls := .unknown, uopt := none, user := none, destroy := true }) rfl)

/-- A user who logs in has no channels yet, and the connection new options. -/
theorem tieLocal (s : Core) (other : ConId) {u : User} (hChannels : u.channels = []) :
    GrowsBy con user {} s ((s.tieLocal other u).addUser s.next) := by
  have hNone : ((s.tieLocal other u).user user).channels.length ≤ (s.user user).channels.length := by
    by_cases hUser : user = s.next <;> simp [Core.tieLocal, hUser, hChannels]
  by_cases hCon : con = other
  · subst hCon
    exact of_empty rfl (.inr ⟨_, by simp [Core.addUser, Core.tieLocal]; rfl⟩) hNone
  · exact of_eq rfl (by simp [Core.addUser, Core.tieLocal, hCon]) hNone

theorem tieRemote (s : Core) (server : Str) {u : User} (hChannels : u.channels = []) :
    GrowsBy con user {} s ((s.tieRemote u server).addUser s.next) := by
  refine of_eq rfl rfl ?_
  by_cases hUser : user = s.next <;> simp [Core.addUser, Core.tieRemote, hUser, hChannels]

theorem markOperator (s t : Core) (chan : ChanId) (nick : Str) (value : Bool)
    (h : GrowsBy con user {} s t) : GrowsBy con user {} s (t.markOperator chan nick value) := by
  simp only [Core.markOperator]
  split
  · exact h.same rfl rfl rfl
  · exact h

theorem reportShared (s : Core) (other : UserId) (shared : UInt16) (libsize : UInt32) (n : Int) :
    GrowsBy con user {} s (s.reportShared other shared libsize n) := by
  refine of_eq rfl rfl (le_of_eq (congrArg List.length ?_))
  by_cases hUser : user = other <;> simp [Core.reportShared, hUser]

theorem collectGarbage (s : Core) (bin : FlistId) :
    GrowsBy con user {} s (s.collectGarbage bin) := by
  have hBin (t : Core) (key : Str) : GrowsBy con user {} t (t.hashRemoveBin key) := by
    simp only [Core.hashRemoveBin]
    split
    · exact refl t
    · exact (foldl freeDatum _ t).same rfl rfl rfl
  have hDead (l : List DatumId) (f : Flist → Flist) :
      GrowsBy con user {} s ((l.foldl Core.freeDatum s).modFlist bin f) :=
    (foldl freeDatum l s).same rfl rfl rfl
  simp only [Core.collectGarbage]
  split
  · exact (hDead _ _).trans (hBin _ _)
  · exact hDead _ _

theorem answerSearch (s : Core) (other : ConId) (id : Str) :
    GrowsBy con user {} s (s.answerSearch other id) := by
  simp only [Core.answerSearch]
  split
  · exact refl s
  · split <;> exact of_same rfl rfl rfl

theorem fine {ok : Label → Core → Prop} (h : FineOp ok s t) :
    GrowsBy con user {} s t ∨ ok (.wait con) s ∧ GrowsBy con user { hotlist := 1 } s t := by
  have hWait {other : ConId} {t : Core} (hOk : ok (.wait other) s)
      (hList : GrowsBy con user { hotlist := if other = con then 1 else 0 } s t) :
      GrowsBy con user {} s t ∨ ok (.wait con) s ∧ GrowsBy con user { hotlist := 1 } s t := by
    by_cases hCon : other = con
    · rw [if_pos hCon] at hList
      exact .inr ⟨hCon ▸ hOk, hList⟩
    · rw [if_neg hCon] at hList
      exact .inl hList
  cases h with
  | uncloak | cloak => exact .inl (modUser s _ (le_refl _))
  | cloakRecord => exact .inl (of_same rfl rfl rfl)
  | @invite other chan =>
    exact .inl ((modUser s other (f := fun u => { u with invited := chan :: u.invited })
      (le_refl _)).same rfl rfl rfl)
  | uninvite other chan =>
    have hChan : GrowsBy con user {} s
        (s.modChan chan fun c => { c with invited := c.invited.erase other }) := of_same rfl rfl rfl
    exact .inl (hChan.trans (modUser _ other (f := fun u =>
      { u with invited := u.invited.erase chan }) (le_refl _)))
  | wait _ _ _ _ hOk => exact hWait hOk (listHotlist s _ _)
  | @waitNew other nick _ _ _ hOk =>
    have hNew : GrowsBy con user {} s (s.newHotlist nick) := of_same rfl rfl rfl
    exact hWait hOk (hNew.trans (listHotlist _ other _))
  | unlist => exact .inl (unlistHotlist s _ _)

/-- What an operation adds, when it is not one that adds a file. -/
theorem op {ok : Label → Core → Prop} (h : Op ok s t) (hNoFile : ∀ u kb, ¬ ok (.insert u kb) s) :
    GrowsBy con user {} s t ∨ ok (.wait con) s ∧ GrowsBy con user { hotlist := 1 } s t ∨
      ok (.enter user) s ∧ GrowsBy con user { channels := 1 } s t := by
  have hEnter {other : UserId} {t : Core} (hOk : ok (.enter other) s)
      (hIn : GrowsBy con user { channels := if other = user then 1 else 0 } s t) :
      GrowsBy con user {} s t ∨ ok (.wait con) s ∧ GrowsBy con user { hotlist := 1 } s t ∨
        ok (.enter user) s ∧ GrowsBy con user { channels := 1 } s t := by
    by_cases hUser : other = user
    · rw [if_pos hUser] at hIn
      exact .inr (.inr ⟨hUser ▸ hOk, hIn⟩)
    · rw [if_neg hUser] at hIn
      exact .inl hIn
  cases h with
  | quiet hDetail => exact .inl (detail hDetail)
  | fine hFine => exact (fine hFine).imp_right .inl
  | person hPersonal =>
    have hCon := congrFun (congrArg Core.con hPersonal) con
    have hUser := congrFun (congrArg Core.user hPersonal) user
    exact .inl (of_detail (congrArg Core.cfg hPersonal :) (congrArg Connection.uopt hCon :)
      (le_of_eq (congrArg (fun u : User => u.channels.length) hUser :)))
  | tick | addRecord | setRecord | dropRecord | addBan | dropBans | unlinkServer | flagChannel | setTopic
  | setLevel | setLimit => exact .inl (of_same rfl rfl rfl)
  | setUserLevel => exact .inl (modUser s _ (le_refl _))
  | accept => exact .inl (accept s _ _ _ _)
  | @linkServer other =>
    exact .inl ((modCon s other (f := fun c => { c with cls := .server }) rfl).same rfl rfl rfl)
  | @loginLocal other u _ _ _ _ hChannels => exact .inl (tieLocal s other hChannels)
  | @loginRemote u server _ _ _ _ hChannels => exact .inl (tieRemote s server hChannels)
  | removeRemote => exact .inl (hashRemoveUser s _)
  | zap => exact .inl (zapLocalUser s _)
  | @hangUp other =>
    have hFree : GrowsBy con user {} (s.removeUser other)
        ((s.removeUser other).modCon other fun c => { c with allocated := false }) := modCon _ _ rfl
    exact .inl (((removeUser s other).trans hFree).same rfl rfl rfl)
  | @close other =>
    exact .inl ((modCon s other (f := fun c => { c with allocated := false }) rfl).same rfl rfl rfl)
  | enter _ _ _ hOk => exact hEnter hOk (enterAs s _ _)
  | @found other name _ _ _ hOk =>
    have hNew : GrowsBy con user {} s (s.newChannel name) := of_same rfl rfl rfl
    exact hEnter hOk (hNew.trans (enterChannel _ other _))
  | leave => exact .inl ((modUser s _ (List.length_erase_le)).trans (partChannel _ _ _))
  | dropChannel => exact .inl (hashRemoveChannel s _)
  | addOperator | dropOperator => exact .inl (markOperator _ _ _ _ _ (of_same rfl rfl rfl))
  | insert _ _ _ _ hOk => exact absurd hOk (hNoFile _ _)
  | dropFile => exact .inl (dropFile s _ _ _)
  | report => exact .inl (reportShared s _ _ _ _)
  | collect => exact .inl (foldl collectGarbage _ s)
  | finishSearch | forwardSearch | result | expire => exact .inl (of_same rfl rfl rfl)
  | answer => exact .inl (answerSearch s _ _)
  | cancel => exact .inl (of_same rfl rfl rfl)

/-- What happens to files adds nothing else. -/
theorem file {n : Nat} (h : FileStep s t)
    (hFiles : (t.library con).values.length ≤ (s.library con).values.length + n) :
    GrowsBy con user { files := n } s t := by
  have hCon := congrFun (congrArg Core.con h.rest) con
  have hUser := congrFun (congrArg Core.user h.rest) user
  have hUopt : (t.con con).uopt.map (fun o => { o with files := none }) =
      (s.con con).uopt.map fun o => { o with files := none } := congrArg Connection.uopt hCon
  have hLists : t.hotlistsOf con = s.hotlistsOf con ∧ t.ignoresOf con = s.ignoresOf con := by
    cases hs : (s.con con).uopt <;> cases ht : (t.con con).uopt <;>
      simp_all [Core.hotlistsOf, Core.ignoresOf]
  have hChannels : (t.user user).channels = (s.user user).channels :=
    (congrArg User.channels hUser :)
  exact ⟨(congrArg Core.cfg h.rest :), hFiles, by rw [hChannels]; exact Nat.le_add_right _ _,
    by rw [hLists.1]; exact Nat.le_add_right _ _, by rw [hLists.2]; exact Nat.le_add_right _ _⟩

/-- A new file goes into the table of its owner. -/
theorem insertDatum (s : Core) (other : ConId) (owner : UserId) (info : Datum) :
    GrowsBy con user { files := if other = con then 1 else 0 } s
      (s.insertDatum other owner info) := by
  refine file (s.fileStep_insertDatum other owner info) ?_
  obtain ⟨t, u, rfl, hIndexed, hEq⟩ := s.insertDatum_eq other owner info
  by_cases hCon : other = con
  · subst hCon
    rw [if_pos rfl]
    by_cases hOptions : (s.con other).uopt.isSome = true
    · rw [Core.library_insertDatum hOptions, (Bucket.Table.values_add ..).length_eq]
      rfl
    · rw [Option.not_isSome_iff_eq_none] at hOptions
      have hNone : (s.insertDatum other owner info).files other = none := by
        rw [hEq, Core.files]
        simp [Core.countShared, hIndexed.con, Core.setFiles, hOptions]
      simp [Core.library, hNone]
  · have hSame : (s.insertDatum other owner info).con con = s.con con := by
      rw [hEq]
      simp [Core.countShared, hIndexed.con, Core.setFiles, Ne.symm hCon]
    rw [Core.library, Core.files, hSame]
    exact Nat.le_add_right _ _

/-- The list of those whom a client ignores is replaced. -/
theorem setIgnores (s : Core) (other : ConId) {l : List Str} {n : Nat}
    (h : l.length ≤ (s.ignoresOf other).length + n) :
    GrowsBy con user { ignores := if other = con then n else 0 } s (s.setIgnores other l) := by
  by_cases hCon : con = other
  · subst hCon
    rw [if_pos rfl]
    cases hUopt : (s.con con).uopt with
    | none =>
      have hSame : GrowsBy con user {} s (s.setIgnores con l) :=
        of_eq rfl (by simp [Core.setIgnores, hUopt]) (le_refl _)
      exact ⟨hSame.cfg, hSame.files, hSame.channels, hSame.hotlist,
        hSame.ignores.trans (Nat.le_add_right _ _)⟩
    | some o =>
      refine ⟨rfl, ?_, Nat.le_add_right _ _, ?_, ?_⟩
      · simp [Core.library, Core.files, Core.setIgnores, hUopt]
      · simp [Core.hotlistsOf, Core.setIgnores, hUopt]
      · simpa [Core.ignoresOf, Core.setIgnores, hUopt] using h
  · have hSame : GrowsBy con user {} s (s.setIgnores other l) :=
      of_eq rfl (by simp [Core.setIgnores, hCon]) (le_refl _)
    exact ⟨hSame.cfg, hSame.files, hSame.channels, hSame.hotlist,
      hSame.ignores.trans (Nat.le_add_right _ _)⟩

end GrowsBy

/-! ### The commands that add -/

/-- From `s` to `t` so many files of the user on `con` are added, one after the other. -/
inductive Inserts (con : ConId) (owner : UserId) : Nat → Core → Core → Prop
  | none (s : Core) : Inserts con owner 0 s s
  | more {n : Nat} {s t : Core} (info : Datum)
      (h : Inserts con owner n (s.insertDatum con owner info) t) : Inserts con owner (n + 1) s t

theorem Inserts.grows {other con : ConId} {owner user : UserId} {n : Nat} {s t : Core}
    (h : Inserts other owner n s t) :
    GrowsBy con user { files := if other = con then n else 0 } s t := by
  induction h with
  | none s => exact .refl s
  | @more n s t info _ ih =>
    have hFirst : GrowsBy con user { files := if other = con then 1 else 0 } s
        (s.insertDatum other owner info) := .insertDatum s other owner info
    refine ⟨ih.cfg.trans hFirst.cfg, ih.files.trans ?_, ih.channels.trans hFirst.channels,
      ih.hotlist.trans hFirst.hotlist, ih.ignores.trans hFirst.ignores⟩
    have hFiles := hFirst.files
    by_cases hCon : other = con
    · simp only [hCon, if_true] at hFiles ⊢
      omega
    · simpa only [hCon, if_false, Nat.add_zero] using hFiles

theorem Adds.inserts {con : ConId} {owner : UserId} {sizes : List UInt32} {s t : Core}
    (h : Adds con owner sizes s t) : Inserts con owner sizes.length s t := by
  induction h with
  | none s => exact .none s
  | more info _ _ ih => exact .more info ih

namespace Server

open Core

/-- How many files an `add_directory` adds. -/
def directoryFiles (s : Core) (con : ConId) (user : UserId) (pkt : Str) : Nat :=
  match directoryPrefix (nextArg pkt).1 with
  | none => 0
  | some dir =>
    (directorySizes s.cfg.maxShared dir (fun name => (s.lookupFile con name).isSome)
      (s.user user).shared (args (nextArg pkt).2)).length

/-- How many files a command of the user on a connection adds. -/
def filesAdded (s : Core) (con : ConId) (user : UserId) (pkt : Str) : Command → Nat
  | .addFile => if addsFile s con user pkt then 1 else 0
  | .shareFile => if sharesFile s con user pkt then 1 else 0
  | .addDirectory => directoryFiles s con user pkt
  | _ => 0

variable {s : Server} {con : ConId} {user : UserId}

theorem filesAdded_eq (s : Core) (con : ConId) (user : UserId) (pkt : Str) (cmd : Command) :
    filesAdded s con user pkt cmd = (sizesAdded s con user pkt cmd).length := by
  cases cmd with
  | addFile | shareFile =>
    simp only [filesAdded, sizesAdded]
    split <;> rfl
  | addDirectory =>
    simp only [filesAdded, sizesAdded, directoryFiles, directoryAdded]
    cases directoryPrefix (nextArg pkt).1 <;> rfl
  | _ => rfl

/-- The commands of a user on a connection that add files. -/
theorem inserts_dispatch (hOwner : (s.con con).user = some user)
    (hOptions : (s.con con).uopt.isSome = true) {cmd : Command}
    (hCmd : cmd = .addFile ∨ cmd = .shareFile ∨ cmd = .addDirectory) (hUser : s.isUser con = true)
    (pkt : Str) (env : Env) :
    Inserts con user (filesAdded s.toCore con user pkt cmd) s.toCore
      (s.dispatch con cmd pkt env).toCore := by
  rw [filesAdded_eq]
  exact (adds_dispatch hOwner hOptions hCmd hUser pkt env).inserts

/-! ### The limits -/

/-- A user has no more of anything than the settings allow; a negative limit on channels allows
none. -/
structure WithinLimits (maxIgnore : Int) (con : ConId) (user : UserId) (s : Core) : Prop where
  files : 0 < s.cfg.maxShared → ((s.library con).values.length : Int) ≤ s.cfg.maxShared
  channels : (s.user user).channels.length ≤ s.cfg.maxUserChannels.toNat
  hotlist : 0 < s.cfg.maxHotlist → ((s.hotlistsOf con).length : Int) ≤ s.cfg.maxHotlist
  ignores : 0 < maxIgnore → ((s.ignoresOf con).length : Int) ≤ maxIgnore

/-- What a user gets keeps the limits when there is room for it. -/
theorem WithinLimits.grow {maxIgnore : Int} {g : Growth} {s t : Core}
    (h : WithinLimits maxIgnore con user s) (hGrows : GrowsBy con user g s t)
    (hFiles : 0 < g.files → 0 < s.cfg.maxShared →
      ((s.library con).values.length + g.files : Int) ≤ s.cfg.maxShared)
    (hChannels : 0 < g.channels →
      (s.user user).channels.length + g.channels ≤ s.cfg.maxUserChannels.toNat)
    (hHotlist : 0 < g.hotlist → 0 < s.cfg.maxHotlist →
      ((s.hotlistsOf con).length + g.hotlist : Int) ≤ s.cfg.maxHotlist)
    (hIgnores : 0 < g.ignores → 0 < maxIgnore →
      ((s.ignoresOf con).length + g.ignores : Int) ≤ maxIgnore) :
    WithinLimits maxIgnore con user t := by
  have hLe := h.channels
  obtain ⟨hCfg, hF, hC, hH, hI⟩ := hGrows
  constructor
  · intro hMax
    rw [hCfg] at hMax ⊢
    have hOld := h.files hMax
    rcases Nat.eq_zero_or_pos g.files with hZero | hPos
    · omega
    · have := hFiles hPos hMax
      omega
  · rw [hCfg]
    rcases Nat.eq_zero_or_pos g.channels with hZero | hPos
    · omega
    · have := hChannels hPos
      omega
  · intro hMax
    rw [hCfg] at hMax ⊢
    have hOld := h.hotlist hMax
    rcases Nat.eq_zero_or_pos g.hotlist with hZero | hPos
    · omega
    · have := hHotlist hPos hMax
      omega
  · intro hMax
    have hOld := h.ignores hMax
    rcases Nat.eq_zero_or_pos g.ignores with hZero | hPos
    · omega
    · have := hIgnores hPos hMax
      omega

theorem WithinLimits.stay {maxIgnore : Int} {s t : Core} (h : WithinLimits maxIgnore con user s)
    (hGrows : GrowsBy con user {} s t) : WithinLimits maxIgnore con user t :=
  h.grow hGrows (fun h => absurd h (Nat.lt_irrefl 0)) (fun h => absurd h (Nat.lt_irrefl 0))
    (fun h => absurd h (Nat.lt_irrefl 0)) fun h => absurd h (Nat.lt_irrefl 0)

/-- A handler adds nothing of which the user has as much as the limit. -/
def FitsPacket (con : ConId) (user : UserId) (s : Server) (other : ConId) (pkt : Str) (env : Env) :
    Command → Prop
  | .join => s.joinOf other pkt env.bufLen env.fuel = some user →
      ((s.user user).channels.length : Int) ≠ s.cfg.maxUserChannels
  | .addHotlist | .addHotlistSeq => other = con → s.isUser con = true →
      waitsFor s.toCore con pkt = true → 0 < s.cfg.maxHotlist →
        ((s.hotlistsOf con).length : Int) ≠ s.cfg.maxHotlist
  | .addFile => other = con → s.isUser con = true → ∀ owner ∈ (s.con con).user,
      addsFile s.toCore con owner pkt = true → 0 < s.cfg.maxShared →
        ((s.library con).values.length : Int) ≠ s.cfg.maxShared
  | .shareFile => other = con → s.isUser con = true → ∀ owner ∈ (s.con con).user,
      sharesFile s.toCore con owner pkt = true → 0 < s.cfg.maxShared →
        ((s.library con).values.length : Int) ≠ s.cfg.maxShared
  | .addDirectory => other = con → s.isUser con = true → ∀ owner ∈ (s.con con).user,
      0 < directoryFiles s.toCore con owner pkt → 0 < s.cfg.maxShared →
        ((s.library con).values.length + directoryFiles s.toCore con owner pkt : Int) ≤
          s.cfg.maxShared
  | _ => True

/-- A turn adds nothing of which the user has as much as the limit, in the state in which its handler
runs. -/
def FitsTurn (maxIgnore : Int) (con : ConId) (user : UserId) (s : Server) : Turn → Prop
  | .event (.packet other cmd pkt env) => reads s.toCore other = true →
      s.isUnknown other = false → FitsPacket con user (s.reportSharing other cmd) other pkt env cmd
  | .ignore other .add pkt => other = con → reads s.toCore con = true → s.isUser con = true →
      addsIgnore s.toCore maxIgnore con pkt = true → 0 < maxIgnore →
        ((s.ignoresOf con).length : Int) ≠ maxIgnore
  | _ => True

instance (con : ConId) (user : UserId) (s : Server) (other : ConId) (pkt : Str) (env : Env)
    (cmd : Command) : Decidable (FitsPacket con user s other pkt env cmd) := by
  unfold FitsPacket
  split <;> infer_instance

instance (maxIgnore : Int) (con : ConId) (user : UserId) (s : Server) (t : Turn) :
    Decidable (FitsTurn maxIgnore con user s t) := by
  unfold FitsTurn
  split <;> infer_instance

/-! ### Runs -/

/-- The commands that add files. -/
def shareCommands : List Command := [.addFile, .shareFile, .addDirectory]

/-- Where there is room an operation may put the user into a channel or the connection on a hotlist;
none adds a file. -/
def hasRoom (con : ConId) (user : UserId) : Label → Core → Prop
  | .insert _ _, _ => False
  | .enter other, t => other = user → (t.user user).channels.length < t.cfg.maxUserChannels.toNat
  | .wait other, t => other = con → 0 < t.cfg.maxHotlist →
      ((t.hotlistsOf con).length : Int) < t.cfg.maxHotlist
  | _, _ => True

/-- Operations that have room keep the limits. -/
theorem WithinLimits.path {maxIgnore : Int} {s t : Core}
    (hPath : Op.Path (hasRoom con user) s t) (h : WithinLimits maxIgnore con user s) :
    WithinLimits maxIgnore con user t := by
  refine hPath.invariant (fun s t hOp h => ?_) h
  have hCases : GrowsBy con user {} s t ∨
      hasRoom con user (.wait con) s ∧ GrowsBy con user { hotlist := 1 } s t ∨
        hasRoom con user (.enter user) s ∧ GrowsBy con user { channels := 1 } s t :=
    GrowsBy.op hOp fun _ _ hNo => hNo
  rcases hCases with hSame | ⟨hRoom, hGrows⟩ | ⟨hRoom, hGrows⟩
  · exact h.stay hSame
  · exact h.grow hGrows (fun h => absurd h (Nat.lt_irrefl 0)) (fun h => absurd h (Nat.lt_irrefl 0))
      (fun _ hMax => hRoom rfl hMax) fun h => absurd h (Nat.lt_irrefl 0)
  · exact h.grow hGrows (fun h => absurd h (Nat.lt_irrefl 0)) (fun _ => hRoom rfl)
      (fun h => absurd h (Nat.lt_irrefl 0)) fun h => absurd h (Nat.lt_irrefl 0)

/-- Who is let into a channel is not over the limit. -/
theorem joinOf_room {other : ConId} {pkt : Str} {bufLen fuel : Nat}
    (h : s.joinOf other pkt bufLen fuel = some user) (hLow : (s.user user).level < .moderator) :
    ((s.user user).channels.length : Int) ≤ s.cfg.maxUserChannels := by
  simp only [joinOf] at h
  split at h
  · split at h
    · cases h
    · rename_i hRoom
      split at h
      · cases h
      · split at h
        · cases h
          by_contra hOver
          exact hRoom ⟨hLow, by omega⟩
        · cases h
  · cases h

theorem waitsFor_room {s : Core} {con : ConId} {pkt : Str} (h : waitsFor s con pkt = true)
    (hMax : 0 < s.cfg.maxHotlist) : ((s.hotlistsOf con).length : Int) ≤ s.cfg.maxHotlist := by
  simp only [waitsFor] at h
  split at h
  · cases h
  · rename_i hRoom
    by_contra hOver
    exact hRoom ⟨hMax, by omega⟩

/-- The handlers of the other commands have room when nothing is at its limit. -/
theorem allows_hasRoom {other : ConId} {pkt : Str} {env : Env} {cmd : Command}
    (hCmd : cmd ∉ shareCommands) (hLow : (s.user user).level < .moderator)
    (hFits : FitsPacket con user s other pkt env cmd) :
    allowsPacket (hasRoom con user) s other pkt env cmd := by
  cases cmd with
  | addFile | shareFile | addDirectory => exact absurd (by decide) hCmd
  | join =>
    rintro u hJoin t hCfg hChannels rfl
    have hLe := joinOf_room hJoin hLow
    have hNe := hFits hJoin
    rw [hCfg, hChannels]
    omega
  | addHotlist | addHotlistSeq =>
    rintro hUser hWaits rfl hMax
    have hLe := waitsFor_room hWaits hMax
    have hNe := hFits rfl hUser hWaits hMax
    omega
  | login | loginRegister => exact fun _ => ⟨fun _ => trivial, fun _ => trivial⟩
  | level | muzzle | unmuzzle => exact ⟨fun _ => trivial, fun _ => trivial⟩
  | reginfo => exact fun _ => ⟨fun _ => trivial, fun _ => trivial⟩
  | clientQuit | ban | cloak | nuke | search | remoteSearch => exact fun _ _ => trivial
  | userSharing => exact fun _ _ _ _ _ _ => trivial
  | killUser | serverDisconnect | changeSpeed | changeDataPort | alterPort | alterSpeed | changePass
  | alterPass | registerUser | unban => exact fun _ => trivial
  | _ => trivial

/-- The files of a command that fits have room. -/
theorem filesAdded_room {maxIgnore : Int} {cmd : Command} {pkt : Str} {env : Env} {owner : UserId}
    (h : WithinLimits maxIgnore con user s.toCore) (hCmd : cmd ∈ shareCommands)
    (hUser : s.isUser con = true) (hOwner : (s.con con).user = some owner)
    (hFits : FitsPacket con user s con pkt env cmd)
    (hPos : 0 < filesAdded s.toCore con owner pkt cmd) (hMax : 0 < s.cfg.maxShared) :
    ((s.library con).values.length + filesAdded s.toCore con owner pkt cmd : Int) ≤
      s.cfg.maxShared := by
  have hLe := h.files hMax
  simp only [shareCommands, List.mem_cons, List.not_mem_nil, or_false] at hCmd
  rcases hCmd with rfl | rfl | rfl
  · by_cases hAdds : addsFile s.toCore con owner pkt = true
    · have hNe := hFits rfl hUser owner hOwner hAdds hMax
      simp only [filesAdded, hAdds, if_true]
      omega
    · simp [filesAdded, hAdds] at hPos
  · by_cases hAdds : sharesFile s.toCore con owner pkt = true
    · have hNe := hFits rfl hUser owner hOwner hAdds hMax
      simp only [filesAdded, hAdds, if_true]
      omega
    · simp [filesAdded, hAdds] at hPos
  · exact hFits rfl hUser owner hOwner hPos hMax

/-- A command that adds files keeps the limits when it fits. -/
theorem WithinLimits.share {maxIgnore : Int} {other : ConId} {cmd : Command} {pkt : Str} {env : Env}
    (h : WithinLimits maxIgnore con user s.toCore) (hSound : Sound s.toCore)
    (hHotlists : Hotlists s.toCore) (hOpen : (s.con other).allocated = true)
    (hCmd : cmd ∈ shareCommands) (hFits : FitsPacket con user s other pkt env cmd) :
    WithinLimits maxIgnore con user (s.dispatch other cmd pkt env).toCore := by
  have hCases : cmd = .addFile ∨ cmd = .shareFile ∨ cmd = .addDirectory := by
    simpa [shareCommands] using hCmd
  by_cases hUser : s.isUser other = true
  · have hClass : (s.con other).cls = .user := by simpa [Core.isUser] using hUser
    obtain ⟨owner, -, hOwner, -⟩ := hSound.registry.client other hOpen hClass
    have hOptions := (hHotlists.options other).2 ⟨hOpen, hClass⟩
    have hInserts := inserts_dispatch hOwner hOptions hCases hUser pkt env
    refine h.grow hInserts.grows (fun hPos hMax => ?_) (fun h => absurd h (Nat.lt_irrefl 0))
      (fun h => absurd h (Nat.lt_irrefl 0)) fun h => absurd h (Nat.lt_irrefl 0)
    by_cases hCon : other = con
    · subst hCon
      simp only [if_true] at hPos ⊢
      exact filesAdded_room h hCmd hUser hOwner hFits hPos hMax
    · simp only [hCon, if_false] at hPos
      exact absurd hPos (Nat.lt_irrefl 0)
  · rcases hCases with rfl | rfl | rfl <;>
      simpa only [dispatch, hUser, Bool.false_eq_true, if_false] using h

/-- A packet keeps the limits when it fits. -/
theorem WithinLimits.packet {maxIgnore : Int} {other : ConId} {cmd : Command} {pkt : Str} {env : Env}
    (h : WithinLimits maxIgnore con user s.toCore) (hSound : Sound s.toCore)
    (hHotlists : Hotlists s.toCore) (hLow : (s.user user).level < .moderator)
    (hFits : FitsTurn maxIgnore con user s (.event (.packet other cmd pkt env))) :
    WithinLimits maxIgnore con user (s.step (.packet other cmd pkt env)).toCore := by
  simp only [step]
  split
  · rename_i hReads
    simp only [handlePacket]
    split
    · exact h.stay (.modCon s.toCore other (f := fun c => { c with destroy := true }) rfl)
    · rename_i hKnown
      have hLogin : cmd = .login ∨ cmd = .loginRegister ∨ s.isUnknown other = false := by
        by_cases hLogin : cmd = .login
        · exact .inl hLogin
        · by_cases hRegister : cmd = .loginRegister
          · exact .inr (.inl hRegister)
          · exact .inr (.inr (by simpa [hLogin, hRegister] using hKnown))
      have hFits : FitsPacket con user (s.reportSharing other cmd) other pkt env cmd := by
        rcases hLogin with rfl | rfl | hUnknown
        · trivial
        · trivial
        · exact hFits hReads hUnknown
      have hQuiet := s.detail_reportSharing other cmd
      have hSame := SameUsers.quiet (Core.skeleton_of_outline (Core.outline_of_detail hQuiet))
      have hLevel : ((s.reportSharing other cmd).user user).level = (s.user user).level :=
        (congrArg User.level (congrFun (congrArg Core.user hQuiet) user) :)
      rw [← hLevel] at hLow
      have hOpen : ((s.reportSharing other cmd).con other).allocated = true := by
        rw [hSame.allocated]
        simp only [reads, Bool.and_eq_true] at hReads
        exact hReads.1
      have hClass : cmd = .login ∨ cmd = .loginRegister ∨
          ((s.reportSharing other cmd).con other).cls ≠ .unknown := by
        rw [hSame.cls]
        simpa [Core.isUnknown] using hLogin
      have h := h.stay (.detail hQuiet)
      have hSound := hSound.quiet (Core.skeleton_of_outline (Core.outline_of_detail hQuiet))
      by_cases hCmd : cmd ∈ shareCommands
      · exact h.share hSound (hHotlists.same (.detail hQuiet)) hOpen hCmd hFits
      · exact h.path (dispatch_path hSound cmd pkt env hOpen hClass (allows_hasRoom hCmd hLow hFits))
  · exact h

/-- An event keeps the limits when it fits. -/
theorem WithinLimits.event {maxIgnore : Int} {e : Event}
    (h : WithinLimits maxIgnore con user s.toCore) (hSound : Sound s.toCore)
    (hHotlists : Hotlists s.toCore) (hLow : (s.user user).level < .moderator)
    (hFits : FitsTurn maxIgnore con user s (.event e)) :
    WithinLimits maxIgnore con user (s.step e).toCore := by
  cases e with
  | packet => exact h.packet hSound hHotlists hLow hFits
  | drop => exact h.path (step_path hSound _ fun _ => ⟨trivial, fun _ => trivial⟩)
  | expireBans => exact h.path (step_path hSound _ fun _ => trivial)
  | dumpState => exact h.path (step_path hSound _ fun _ _ _ _ => trivial)
  | _ => exact h.path (step_path hSound _ trivial)

/-- A command about whom a client ignores keeps the limits when it fits. -/
theorem WithinLimits.ignore {maxIgnore : Int} {other : ConId} {cmd : IgnoreCommand} {pkt : Str}
    (h : WithinLimits maxIgnore con user s.toCore)
    (hFits : FitsTurn maxIgnore con user s (.ignore other cmd pkt)) :
    WithinLimits maxIgnore con user (s.turn maxIgnore (.ignore other cmd pkt)).toCore := by
  simp only [turn]
  split
  · rename_i hReads
    simp only [handleIgnore]
    split
    · exact h.stay (.modCon s.toCore other (f := fun c => { c with destroy := true }) rfl)
    · obtain ⟨v, g, hReport, -⟩ := s.toCore_reportSharing other .namesList
      have hNow := h.stay (.detail (s.detail_reportSharing other .namesList))
      have hDone := (s.reportSharing other .namesList).toCore_dispatchIgnore maxIgnore other cmd pkt
      generalize s.reportSharing other .namesList = r at *
      rcases hDone with hSame | ⟨l, hSet, hLess | ⟨rfl, hUser, hAdds, rfl⟩⟩
      · rw [hSame]
        exact hNow
      · rw [hSet]
        have hGrows : GrowsBy con user { ignores := if other = con then 0 else 0 } r.toCore
          (r.toCore.setIgnores other l) := .setIgnores r.toCore other hLess
        rw [ite_self] at hGrows
        exact hNow.stay hGrows
      · rw [hSet]
        have hGrows : GrowsBy con user { ignores := if other = con then 1 else 0 } r.toCore
          (r.toCore.setIgnores other (pkt :: r.ignoresOf other)) :=
            .setIgnores r.toCore other (le_refl _)
        refine hNow.grow hGrows (fun h => absurd h (Nat.lt_irrefl 0))
          (fun h => absurd h (Nat.lt_irrefl 0)) (fun h => absurd h (Nat.lt_irrefl 0)) ?_
        intro hPos hMax
        by_cases hCon : other = con
        · subst hCon
          have hLe := hNow.ignores hMax
          rw [hReport] at hUser hAdds hLe ⊢
          have hNe := hFits rfl hReads hUser hAdds hMax
          have hList : (s.modUser v g).ignoresOf other = s.ignoresOf other := rfl
          simp only [if_true, hList] at hLe ⊢
          omega
        · simp only [hCon, if_false] at hPos
          exact absurd hPos (Nat.lt_irrefl 0)
  · exact h

/-- At the start nobody has anything. -/
theorem WithinLimits.start (f : Startup) (maxIgnore : Int) (con : ConId) (user : UserId) :
    WithinLimits maxIgnore con user (start f).toCore := by
  obtain ⟨next, channels, chan, userDb, db, filter, hStart⟩ := Core.loaded_start f
  have hCore : (Server.start f).toCore = Core.start f := rfl
  rw [hCore, hStart]
  constructor <;>
    simp [Core.empty, Core.library, Core.files, Core.hotlistsOf, Core.ignoresOf] <;> omega

end Server

end OpenNap
