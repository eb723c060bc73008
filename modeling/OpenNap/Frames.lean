import OpenNap.Ops

/-! What the operations leave alone.  The operations on channels change nothing but channels, those
on files nothing but files, and those on searches nothing but searches; each kind has a relation
between the data before and after that says so. -/

namespace OpenNap

open CText

/-- A connection without the files of its user. -/
def Connection.eraseFiles (c : Connection) : Connection :=
  { c with uopt := c.uopt.map fun o => { o with files := none } }

namespace Core

/-- The data without channels and memberships. -/
def eraseChan (s : Core) : Core :=
  { s with
    next := 0
    channels := Bucket.Table.empty byName ChanId 257 pos_257
    chan := fun _ => {}
    user := fun u => { s.user u with channels := [], invited := [] } }

/-- The data without files, their owners' tables and the counters. -/
def eraseFile (s : Core) : Core :=
  { s with
    next := 0
    fileTable := Bucket.Table.empty byName FlistId 2053 pos_2053
    datum := fun _ => {}
    flist := fun _ => {}
    localFiles := 0
    numFiles := 0
    numGigs := 0
    con := fun c => (s.con c).eraseFiles
    user := fun u => { s.user u with shared := 0, libsize := 0, sharing := false, unsharing := false } }

/-- The data without the requests that are pending and the record of them. -/
def eraseSearch (s : Core) : Core := { s with remoteSearch := [], traffic := [] }

end Core

/-- From `s` to `t` only channels and memberships change. -/
structure ChanStep (s t : Core) : Prop where
  rest : t.eraseChan = s.eraseChan
  next : s.next ≤ t.next

/-- From `s` to `t` only files and the counters change. -/
structure FileStep (s t : Core) : Prop where
  rest : t.eraseFile = s.eraseFile
  next : s.next ≤ t.next

/-- From `s` to `t` only pending requests change. -/
structure SearchStep (s t : Core) : Prop where
  rest : t.eraseSearch = s.eraseSearch

theorem ChanStep.refl (s : Core) : ChanStep s s := ⟨rfl, le_refl _⟩

theorem ChanStep.trans {s t u : Core} (h1 : ChanStep s t) (h2 : ChanStep t u) : ChanStep s u :=
  ⟨h2.rest.trans h1.rest, h1.next.trans h2.next⟩

theorem SearchStep.trans {s t u : Core} (h1 : SearchStep s t) (h2 : SearchStep t u) :
    SearchStep s u := ⟨h2.rest.trans h1.rest⟩

theorem ChanStep.foldl {α : Type} {f : Core → α → Core} (h : ∀ s a, ChanStep s (f s a))
    (l : List α) (s : Core) : ChanStep s (l.foldl f s) := by
  induction l generalizing s with
  | nil => exact .refl s
  | cons a l ih => exact (h s a).trans (ih _)

theorem FileStep.refl (s : Core) : FileStep s s := ⟨rfl, le_refl _⟩

theorem FileStep.trans {s t u : Core} (h1 : FileStep s t) (h2 : FileStep t u) : FileStep s u :=
  ⟨h2.rest.trans h1.rest, h1.next.trans h2.next⟩

theorem FileStep.foldl {α : Type} {f : Core → α → Core} (h : ∀ s a, FileStep s (f s a))
    (l : List α) (s : Core) : FileStep s (l.foldl f s) := by
  induction l generalizing s with
  | nil => exact .refl s
  | cons a l ih => exact (h s a).trans (ih _)

namespace Core

/-- The slot of a connection plays no part in the invariants. -/
theorem skeleton_addClient (s : Core) (con : ConId) : (s.addClient con).skeleton = s.skeleton := by
  have hSlot (clients : List (Option ConId)) (n : Nat) (f : Connection → Connection)
      (h : (f (s.con con)).bare = (s.con con).bare) :
      { s.modCon con f with clients := clients, numClients := n }.skeleton = s.skeleton :=
    s.skeleton_modCon con h
  have hId (n : Int) : ({ s.con con with id := n } : Connection).bare = (s.con con).bare := rfl
  simp only [addClient]
  split
  · exact hSlot _ _ (fun c => { c with id := toShort s.numClients }) (hId _)
  · split
    · rename_i slot _
      exact hSlot _ _ (fun c => { c with id := toShort slot }) (hId _)
    · rfl

/-! ### Channels -/

theorem chanStep_modChan (s : Core) (chan : ChanId) (f : Channel → Channel) :
    ChanStep s (s.modChan chan f) := ⟨rfl, le_refl _⟩

/-- A change of a user's channels and invitations is one of channels only. -/
theorem chanStep_modUser (s : Core) (user : UserId) {f : User → User}
    (h : { f (s.user user) with channels := [], invited := [] } =
      { s.user user with channels := [], invited := [] }) : ChanStep s (s.modUser user f) := by
  have hUser : (fun u => { (s.modUser user f).user u with channels := [], invited := [] }) =
      fun u => { s.user u with channels := [], invited := [] } := by
    funext u
    by_cases hu : u = user
    · subst hu
      simpa using h
    · simp [hu]
  refine ⟨?_, le_refl _⟩
  simp only [eraseChan, hUser]
  rfl

theorem chanStep_freeChannel (s : Core) (chan : ChanId) : ChanStep s (s.freeChannel chan) :=
  ChanStep.foldl (fun s user => chanStep_modUser s user rfl) _ s

theorem chanStep_hashRemoveChannel (s : Core) (name : Str) :
    ChanStep s (s.hashRemoveChannel name) := by
  simp only [hashRemoveChannel]
  split
  · exact .refl s
  · exact (s.chanStep_freeChannel _).trans ⟨rfl, le_refl _⟩

theorem chanStep_partChannel (s : Core) (chan : ChanId) (user : UserId) :
    ChanStep s (s.partChannel chan user) := by
  have hRemove : ChanStep s (s.channelRemove chan user) := s.chanStep_modChan chan _
  simp only [partChannel]
  split
  · exact hRemove.trans (chanStep_hashRemoveChannel _ _)
  · exact hRemove

theorem chanStep_deleteChannel (s : Core) (user : UserId) (chan : ChanId) :
    ChanStep s (s.deleteChannel user chan) := s.chanStep_modUser user rfl

theorem chanStep_invite (s : Core) (user : UserId) (chan : ChanId) :
    ChanStep s (s.invite user chan) := by
  have hUser : ChanStep s (s.modUser user fun u => { u with invited := chan :: u.invited }) :=
    s.chanStep_modUser user rfl
  simp only [invite]
  exact hUser.trans (chanStep_modChan _ chan _)

theorem chanStep_uninvite (s : Core) (user : UserId) (chan : ChanId) :
    ChanStep s (s.uninvite user chan) := by
  have hChan := s.chanStep_modChan chan fun c => { c with invited := c.invited.erase user }
  simp only [uninvite]
  exact hChan.trans (chanStep_modUser _ user rfl)

theorem chanStep_enterChannel (s : Core) (user : UserId) (chan : ChanId) :
    ChanStep s (s.enterChannel user chan) := by
  have hUser : ChanStep s (s.modUser user fun u => { u with channels := chan :: u.channels }) :=
    s.chanStep_modUser user rfl
  simp only [enterChannel]
  exact hUser.trans (chanStep_modChan _ chan _)

theorem chanStep_markOperator (s : Core) (chan : ChanId) (nick : Str) (value : Bool) :
    ChanStep s (s.markOperator chan nick value) := by
  simp only [markOperator]
  split
  · exact s.chanStep_modChan chan _
  · exact .refl s

theorem chanStep_addOperator (s : Core) (chan : ChanId) (nick : Str) :
    ChanStep s (s.addOperator chan nick) :=
  (s.chanStep_modChan chan _).trans (chanStep_markOperator _ chan nick true)

theorem chanStep_dropOperator (s : Core) (chan : ChanId) (nick : Str) :
    ChanStep s (s.dropOperator chan nick) :=
  (s.chanStep_modChan chan _).trans (chanStep_markOperator _ chan nick false)

theorem chanStep_enterAs (s : Core) (user : UserId) (chan : ChanId) :
    ChanStep s (s.enterAs user chan) := by
  simp only [enterAs]
  split
  · exact (s.chanStep_enterChannel user chan).trans (chanStep_modChan _ chan _)
  · exact s.chanStep_enterChannel user chan

theorem chanStep_newChannel (s : Core) (name : Str) : ChanStep s (s.newChannel name) :=
  ⟨rfl, Nat.le_succ _⟩

theorem chanStep_partChannels (s : Core) (user : UserId) : ChanStep s (s.partChannels user) :=
  ChanStep.foldl (fun s chan => s.chanStep_partChannel chan user) _ s

theorem chanStep_dropInvitations (s : Core) (user : UserId) :
    ChanStep s (s.dropInvitations user) :=
  ChanStep.foldl (fun s chan => s.chanStep_modChan chan _) _ s

/-! ### Files -/

theorem fileStep_modDatum (s : Core) (d : DatumId) (f : Datum → Datum) :
    FileStep s (s.modDatum d f) := ⟨rfl, le_refl _⟩

theorem fileStep_modFlist (s : Core) (b : FlistId) (f : Flist → Flist) :
    FileStep s (s.modFlist b f) := ⟨rfl, le_refl _⟩

theorem fileStep_setFiles (s : Core) (con : ConId) (files : Option (NameTable DatumId)) :
    FileStep s (s.setFiles con files) := by
  have hCon : (fun c => ((s.setFiles con files).con c).eraseFiles) =
      fun c => (s.con c).eraseFiles := by
    funext c
    by_cases hc : c = con <;> simp [setFiles, hc, Connection.eraseFiles, Function.comp_def]
  refine ⟨?_, le_refl _⟩
  simp only [eraseFile, hCon]
  rfl

/-- A change of what a user shares is one of files only. -/
theorem fileStep_modUser (s : Core) (user : UserId) {f : User → User}
    (h : { f (s.user user) with shared := 0, libsize := 0, sharing := false, unsharing := false } =
      { s.user user with shared := 0, libsize := 0, sharing := false, unsharing := false }) :
    FileStep s (s.modUser user f) := by
  have hUser : (fun u => { (s.modUser user f).user u with
        shared := 0, libsize := 0, sharing := false, unsharing := false }) =
      fun u => { s.user u with
        shared := 0, libsize := 0, sharing := false, unsharing := false } := by
    funext u
    by_cases hu : u = user
    · subst hu
      simpa using h
    · simp [hu]
  refine ⟨?_, le_refl _⟩
  simp only [eraseFile, hUser]
  rfl

theorem fileStep_fdbAdd (s : Core) (d : DatumId) (key : Str) : FileStep s (s.fdbAdd d key) := by
  simp only [fdbAdd]
  split
  · exact (s.fileStep_modFlist _ _).trans (fileStep_modDatum _ d _)
  · exact ⟨rfl, Nat.le_succ _⟩

theorem fileStep_countShared (s : Core) (user : UserId) (kb : UInt32) :
    FileStep s (s.countShared user kb) := by
  have hUser : FileStep s (s.modUser user fun u =>
      { u with shared := u.shared + 1, libsize := u.libsize + kb, sharing := true }) :=
    s.fileStep_modUser user rfl
  exact hUser.trans ⟨rfl, le_refl _⟩

theorem fileStep_countUnshared (s : Core) (user : UserId) (kb : UInt32) :
    FileStep s (s.countUnshared user kb) := by
  simp only [countUnshared]
  refine FileStep.trans ?_ (fileStep_modUser _ user rfl)
  exact ⟨rfl, le_refl _⟩

theorem fileStep_insertDatum (s : Core) (con : ConId) (user : UserId) (info : Datum) :
    FileStep s (s.insertDatum con user info) := by
  have hNew : FileStep s (s.alloc.modDatum s.next fun _ => { info with user := some user }) :=
    ⟨rfl, Nat.le_succ _⟩
  exact hNew.trans ((fileStep_setFiles _ con _).trans ((fileStep_modDatum _ _ _).trans
    ((FileStep.foldl (fun s key => s.fileStep_fdbAdd _ key) _ _).trans
      (fileStep_countShared _ user _))))

theorem fileStep_freeDatum (s : Core) (d : DatumId) : FileStep s (s.freeDatum d) :=
  s.fileStep_modDatum d _

theorem fileStep_dropFile (s : Core) (con : ConId) (user : UserId) (d : DatumId) :
    FileStep s (s.dropFile con user d) := by
  have hRemove : ∀ (t : Core) (name : Str), FileStep t (t.hashRemoveFile con name) := by
    intro t name
    simp only [hashRemoveFile]
    split
    · exact .refl t
    · exact (t.fileStep_freeDatum _).trans (fileStep_setFiles _ con _)
  exact (s.fileStep_countUnshared user _).trans (hRemove _ _)

theorem fileStep_freeFiles (s : Core) (con : ConId) : FileStep s (s.freeFiles con) := by
  simp only [freeFiles]
  split
  · exact .refl s
  · exact (FileStep.foldl (fun s d => s.fileStep_freeDatum d) _ s).trans (fileStep_setFiles _ con _)

theorem fileStep_collectGarbage (s : Core) (bin : FlistId) : FileStep s (s.collectGarbage bin) := by
  have hBin : ∀ (t : Core) (key : Str), FileStep t (t.hashRemoveBin key) := by
    intro t key
    simp only [hashRemoveBin]
    split
    · exact .refl t
    · exact (FileStep.foldl (fun s d => s.fileStep_freeDatum d) _ t).trans ⟨rfl, le_refl _⟩
  have hDead := (FileStep.foldl (fun s d => s.fileStep_freeDatum d)
    ((s.flist bin).list.filter fun d => (s.datum d).size == invalidSize) s)
  simp only [collectGarbage]
  split
  · exact hDead.trans ((fileStep_modFlist _ bin _).trans (hBin _ _))
  · exact hDead.trans (fileStep_modFlist _ bin _)

theorem fileStep_fdbGarbageCollect (s : Core) : FileStep s s.fdbGarbageCollect :=
  FileStep.foldl (fun s bin => s.fileStep_collectGarbage bin) _ s

theorem fileStep_reportShared (s : Core) (user : UserId) (shared : UInt16) (libsize : UInt32)
    (files : Int) : FileStep s (s.reportShared user shared libsize files) := by
  simp only [reportShared]
  refine FileStep.trans ?_ (fileStep_modUser _ user rfl)
  exact ⟨rfl, le_refl _⟩

/-! ### Users who go -/

/-- One step of `hash_remove (Users, nick)`. -/
inductive Farewell : Core → Core → Prop
  | part (s : Core) (chan : ChanId) (user : UserId) : Farewell s (s.channelRemove chan user)
  | dropChannel (s : Core) (name : Str) : Farewell s (s.hashRemoveChannel name)
  | uninvite (s : Core) (chan : ChanId) (user : UserId) :
      Farewell s (s.modChan chan fun c => { c with invited := c.invited.erase user })
  | uncount (s : Core) (user : UserId) : Farewell s (s.uncountUser user)
  | seen (s : Core) (nick : Str) : Farewell s (s.recordLogoff nick)
  | gone (s : Core) (nick : Str) : Farewell s { s with users := s.users.remove nick }

theorem farewell_partChannel (s : Core) (chan : ChanId) (user : UserId) :
    Runs.Path Farewell s (s.partChannel chan user) := by
  have hRemove : Runs.Path Farewell s (s.channelRemove chan user) := .single (.part s chan user)
  simp only [partChannel]
  split
  · exact hRemove.tail (.dropChannel _ _)
  · exact hRemove

theorem farewell_hashRemoveUser (s : Core) (nick : Str) :
    Runs.Path Farewell s (s.hashRemoveUser nick) := by
  have hWalk {f : Core → ChanId → Core} (h : ∀ s chan, Runs.Path Farewell s (f s chan))
      (l : List ChanId) (s : Core) : Runs.Path Farewell s (l.foldl f s) :=
    Runs.Path.foldl (I := fun _ => True) (fun _ _ _ _ => trivial) (fun s chan _ _ => h s chan) trivial
  simp only [hashRemoveUser]
  split
  · exact .refl
  · rename_i user _
    have hPart := hWalk (fun s chan => s.farewell_partChannel chan user) (s.user user).channels s
    have hDrop (t : Core) : Runs.Path Farewell t (t.dropInvitations user) :=
      hWalk (fun s chan => .single (.uninvite s chan user)) _ t
    simp only [freeUser]
    exact (((hPart.trans (hDrop _)).tail (.uncount _ user)).tail (.seen _ _)).tail (.gone _ nick)

/-- What every step keeps is kept when a user goes. -/
theorem hashRemoveUser_keeps {I : Core → Prop} (h : ∀ s t, Farewell s t → I s → I t) {s : Core}
    (nick : Str) (hInit : I s) : I (s.hashRemoveUser nick) :=
  (s.farewell_hashRemoveUser nick).invariant h hInit

/-- What the steps of `remove_user` keep after the user is gone is kept when the options go. -/
theorem freeOptions_keeps {I : Core → Prop} {con : ConId}
    (hHot : ∀ s hot, I s → I (s.leaveHotlist con hot)) (hFiles : ∀ s, I s → I (s.freeFiles con))
    (hLast : ∀ s, I s → I (s.modCon con fun c => { c with uopt := none })) {s : Core} (h : I s) :
    I (s.freeOptions con) := by
  have hWalk (l : List HotlistId) (s : Core) (h : I s) :
      I (l.foldl (fun s hot => s.leaveHotlist con hot) s) :=
    Runs.run_invariant (fun s hot h => hHot s hot h) h l
  simp only [freeOptions]
  exact hLast _ (hFiles _ (hWalk _ s h))

/-! ### Searches -/

theorem searchStep_note (s : Core) (t : Traffic) : SearchStep s (s.note t) := ⟨rfl⟩

theorem searchStep_finishSearch (s : Core) (con : ConId) (id : Str) (n : Nat) :
    SearchStep s (s.finishSearch con id n) := ⟨rfl⟩

theorem searchStep_forwardSearch (s : Core) (con : ConId) (nick id : Str) (n : Nat) :
    SearchStep s (s.forwardSearch con nick id n) := ⟨rfl⟩

theorem searchStep_expireSearches (s : Core) (gone rest : List DSearch) :
    SearchStep s (s.expireSearches gone rest) := ⟨rfl⟩

theorem searchStep_answerSearch (s : Core) (con : ConId) (id : Str) :
    SearchStep s (s.answerSearch con id) := by
  simp only [answerSearch]
  split
  · exact ⟨rfl⟩
  · split <;> exact ⟨rfl⟩

theorem searchStep_cancelSearch (s : Core) (con : ConId) : SearchStep s (s.cancelSearch con) :=
  ⟨rfl⟩

end Core

end OpenNap
