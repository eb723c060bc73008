import OpenNap.Lib.Mirror
import OpenNap.Reach

/-! Who waits for whom.  A connection keeps the hotlists it is on, and a hotlist the connections that
wait for its nick.  `Hotlists` says that the two mirror each other, and that the table has the hotlists
that somebody waits on, each under its nick. -/

namespace OpenNap

open CText

/-- A connection in use that a user has logged in on. -/
def Core.Client (s : Core) (con : ConId) : Prop :=
  (s.con con).allocated = true ∧ (s.con con).cls = .user

/-- From `s` to `t` neither the hotlists nor the connections on them change. -/
structure SameHotlists (s t : Core) : Prop where
  hotlists : t.hotlists = s.hotlists
  hot : t.hot = s.hot
  next : s.next ≤ t.next
  list : ∀ con, t.hotlistsOf con = s.hotlistsOf con
  options : ∀ con, (t.con con).uopt.isSome = (s.con con).uopt.isSome
  client : ∀ con, t.Client con ↔ s.Client con

namespace SameHotlists

theorem refl (s : Core) : SameHotlists s s :=
  ⟨rfl, rfl, le_refl _, fun _ => rfl, fun _ => rfl, fun _ => Iff.rfl⟩

theorem trans {s t u : Core} (h1 : SameHotlists s t) (h2 : SameHotlists t u) : SameHotlists s u where
  hotlists := h2.hotlists.trans h1.hotlists
  hot := h2.hot.trans h1.hot
  next := h1.next.trans h2.next
  list con := (h2.list con).trans (h1.list con)
  options con := (h2.options con).trans (h1.options con)
  client con := (h2.client con).trans (h1.client con)

theorem foldl {α : Type} {f : Core → α → Core} (h : ∀ s a, SameHotlists s (f s a)) (l : List α)
    (s : Core) : SameHotlists s (l.foldl f s) := by
  induction l generalizing s with
  | nil => exact refl s
  | cons a l ih => exact (h s a).trans (ih _)

/-- The connections are as they were. -/
theorem of_con {s t : Core} (hHotlists : t.hotlists = s.hotlists) (hHot : t.hot = s.hot)
    (hNext : s.next ≤ t.next) (hCon : t.con = s.con) : SameHotlists s t where
  hotlists := hHotlists
  hot := hHot
  next := hNext
  list con := by rw [Core.hotlistsOf, hCon, Core.hotlistsOf]
  options con := by rw [hCon]
  client con := by rw [Core.Client, hCon, Core.Client]

/-- The connections have the same class and the same options, files and settings aside. -/
theorem of_eq {s t : Core} (hHotlists : t.hotlists = s.hotlists) (hHot : t.hot = s.hot)
    (hNext : s.next ≤ t.next)
    (hUopt : ∀ con, (t.con con).uopt.map (·.hotlist) = (s.con con).uopt.map (·.hotlist))
    (hOpen : ∀ con, (t.con con).allocated = (s.con con).allocated)
    (hClass : ∀ con, (t.con con).cls = (s.con con).cls) : SameHotlists s t where
  hotlists := hHotlists
  hot := hHot
  next := hNext
  list con := by
    have hUopt := hUopt con
    cases ht : (t.con con).uopt <;> cases hs : (s.con con).uopt <;>
      simp_all [Core.hotlistsOf]
  options con := by
    have hUopt := congrArg Option.isSome (hUopt con)
    simpa using hUopt
  client con := by rw [Core.Client, hOpen, hClass, Core.Client]

theorem of_detail {s t : Core} (hHotlists : t.hotlists = s.hotlists) (hHot : t.hot = s.hot)
    (hNext : t.next = s.next)
    (hCon : ∀ con, { (t.con con).detail with destroy := false } =
      { (s.con con).detail with destroy := false }) : SameHotlists s t := by
  refine of_eq hHotlists hHot hNext.ge (fun con => ?_)
    (fun con => (congrArg Connection.allocated (hCon con) :))
    fun con => (congrArg Connection.cls (hCon con) :)
  have hUopt : ((t.con con).detail.uopt.map (·.hotlist)) = (s.con con).detail.uopt.map (·.hotlist) :=
    (congrArg (fun c : Connection => c.uopt.map (·.hotlist)) (hCon con) :)
  simpa [Connection.detail, Function.comp_def] using hUopt

theorem detail {s t : Core} (h : t.detail = s.detail) : SameHotlists s t := by
  apply of_detail
  · exact (congrArg Core.hotlists h :)
  · exact (congrArg Core.hot h :)
  · exact (congrArg Core.next h :)
  · intro con
    rw [show (t.con con).detail = (s.con con).detail from congrFun (congrArg Core.con h) con]

theorem personal {s t : Core} (h : t.personal = s.personal) : SameHotlists s t := by
  apply of_detail
  · exact (congrArg Core.hotlists h :)
  · exact (congrArg Core.hot h :)
  · exact (congrArg Core.next h :)
  · exact fun con => congrFun (congrArg Core.con h) con

theorem chan {s t : Core} (h : ChanStep s t) : SameHotlists s t :=
  of_con (congrArg Core.hotlists h.rest :) (congrArg Core.hot h.rest :) h.next
    (congrArg Core.con h.rest :)

theorem file {s t : Core} (h : FileStep s t) : SameHotlists s t := by
  refine of_eq (congrArg Core.hotlists h.rest :) (congrArg Core.hot h.rest :) h.next (fun con => ?_)
    (SameUsers.file h).allocated (SameUsers.file h).cls
  have hUopt := congrArg (fun c : Connection => c.uopt.map (·.hotlist))
    (congrFun (congrArg Core.con h.rest) con)
  simpa [Core.eraseFile, Connection.eraseFiles, Function.comp_def] using hUopt

theorem search {s t : Core} (h : SearchStep s t) : SameHotlists s t :=
  of_con (congrArg Core.hotlists h.rest :) (congrArg Core.hot h.rest :)
    (congrArg Core.next h.rest).ge (congrArg Core.con h.rest :)

theorem farewell {s t : Core} (h : Core.Farewell s t) : SameHotlists s t := by
  cases h with
  | part | uninvite | uncount | gone => exact of_con rfl rfl (le_refl _) rfl
  | dropChannel name => exact chan (s.chanStep_hashRemoveChannel name)
  | seen nick =>
    simp only [Core.recordLogoff]
    split <;> exact of_con rfl rfl (le_refl _) rfl

theorem hashRemoveUser (s : Core) (nick : Str) : SameHotlists s (s.hashRemoveUser nick) :=
  Core.hashRemoveUser_keeps (fun _ _ hStep h => h.trans (farewell hStep)) nick (refl s)

theorem modCon (s : Core) (con : ConId) {f : Connection → Connection}
    (hUopt : (f (s.con con)).uopt = (s.con con).uopt)
    (hClient : (f (s.con con)).allocated = true ∧ (f (s.con con)).cls = .user ↔ s.Client con) :
    SameHotlists s (s.modCon con f) := by
  refine ⟨rfl, rfl, le_refl _, fun c => ?_, fun c => ?_, fun c => ?_⟩
  · by_cases hc : c = con
    · simp [Core.hotlistsOf, hc, hUopt]
    · simp [Core.hotlistsOf, hc]
  · by_cases hc : c = con
    · simp [hc, hUopt]
    · simp [hc]
  · by_cases hc : c = con
    · subst hc
      simpa [Core.Client] using hClient
    · simp [Core.Client, hc]

theorem addClient (s : Core) (con : ConId) : SameHotlists s (s.addClient con) := by
  have hId (slot : Nat) : SameHotlists s (s.modCon con fun c => { c with id := toShort slot }) :=
    modCon s con rfl Iff.rfl
  simp only [Core.addClient]
  split
  · exact (hId _).trans (of_con rfl rfl (le_refl _) rfl)
  · split
    · exact (hId _).trans (of_con rfl rfl (le_refl _) rfl)
    · exact of_con rfl rfl (le_refl _) rfl

end SameHotlists

/-- The hotlists and the connections on them, where `link` gives the hotlists of every connection:
while the options of a connection are being freed its own list is out of date, and `link` is what it
would be. -/
structure Waiting (s : Core) (link : ConId → List HotlistId) : Prop where
  mirror : Mirror (fun _ => True) (· ∈ s.hotlists.values) link fun hot => (s.hot hot).users
  named : ∀ e ∈ s.hotlists.entries, (s.hot e.2).nick = e.1
  distinct : s.hotlists.Distinct
  known : ∀ hot ∈ s.hotlists.values, hot < s.next
  waited : ∀ hot ∈ s.hotlists.values, (s.hot hot).users ≠ []

/-- The invariant of hotlists.  Only clients have options. -/
structure Hotlists (s : Core) : Prop where
  waiting : Waiting s s.hotlistsOf
  options : ∀ con, (s.con con).uopt.isSome = true ↔ s.Client con

namespace Waiting

variable {s t : Core} {link : ConId → List HotlistId}

theorem same (h : Waiting s link) (hHotlists : t.hotlists = s.hotlists) (hHot : t.hot = s.hot)
    (hNext : s.next ≤ t.next) : Waiting t link := by
  constructor
  · rw [hHotlists, hHot]
    exact h.mirror
  · rw [hHotlists, hHot]
    exact h.named
  · rw [hHotlists]
    exact h.distinct
  · rw [hHotlists]
    exact fun hot hIn => (h.known hot hIn).trans_le hNext
  · rw [hHotlists, hHot]
    exact h.waited

/-- A hotlist in the table is what a search for its nick finds. -/
theorem lookup_nick (h : Waiting s link) {hot : HotlistId} (hIn : hot ∈ s.hotlists.values) :
    s.hotlists.lookup (s.hot hot).nick = some hot := by
  obtain ⟨key, hEntry⟩ := Bucket.Table.mem_values.1 hIn
  exact h.distinct.lookup hEntry (congrArg byName.norm (h.named _ hEntry).symm)

/-- Removing a hotlist by its nick leaves the others. -/
theorem mem_remove (h : Waiting s link) {hot other : HotlistId} (hIn : hot ∈ s.hotlists.values) :
    other ∈ (s.hotlists.remove (s.hot hot).nick).values ↔ other ∈ s.hotlists.values ∧ other ≠ hot := by
  constructor
  · intro hOther
    obtain ⟨key, hEntry⟩ := Bucket.Table.mem_values.1 hOther
    obtain ⟨hOld, hKey⟩ := h.distinct.mem_remove.1 hEntry
    refine ⟨Bucket.Table.mem_values.2 ⟨key, hOld⟩, ?_⟩
    rintro rfl
    exact hKey (congrArg byName.norm (h.named _ hOld).symm)
  · rintro ⟨hOther, hNe⟩
    obtain ⟨key, hEntry⟩ := Bucket.Table.mem_values.1 hOther
    refine Bucket.Table.mem_values.2 ⟨key, h.distinct.mem_remove.2 ⟨hEntry, fun hKey => hNe ?_⟩⟩
    have hFound := h.distinct.lookup hEntry hKey
    rw [h.lookup_nick hIn] at hFound
    exact (Option.some.inj hFound).symm

/-- A connection drops a hotlist, which goes when nobody waits on it any more. -/
theorem leaveHotlist (h : Waiting s link) (con : ConId) {hot : HotlistId}
    (hIn : hot ∈ s.hotlists.values) :
    Waiting (s.leaveHotlist con hot) (Function.update link con ((link con).erase hot)) := by
  have hErase : Mirror (fun _ => True) (· ∈ s.hotlists.values)
      (Function.update link con ((link con).erase hot))
      fun other => ((s.modHot hot fun h => { h with users := h.users.erase con }).hot other).users := by
    apply (h.mirror.unlink con hot).congr (fun _ => Iff.rfl) (fun _ => Iff.rfl) (fun _ _ => rfl)
    intro other _
    by_cases hEq : other = hot <;> simp [hEq]
  have hNick (other : HotlistId) :
      ((s.modHot hot fun h => { h with users := h.users.erase con }).hot other).nick =
        (s.hot other).nick := by
    by_cases hEq : other = hot <;> simp [hEq]
  have hOther (other : HotlistId) (hNe : other ≠ hot) :
      ((s.modHot hot fun h => { h with users := h.users.erase con }).hot other).users =
        (s.hot other).users := by
    simp [hNe]
  simp only [Core.leaveHotlist]
  split
  · rename_i hEmpty
    rw [List.isEmpty_iff] at hEmpty
    have hMem (other : HotlistId) :
        other ∈ (s.hotlists.remove (s.hot hot).nick).values ↔
          other ∈ s.hotlists.values ∧ other ≠ hot := h.mem_remove hIn
    constructor
    · refine (hErase.symm.dropped hIn (fun other => ?_) (fun _ => Iff.rfl) (fun _ _ => rfl)
        fun c _ => ?_).symm
      · rw [hNick]
        exact hMem other
      · rw [if_neg]
        rw [hEmpty]
        exact List.not_mem_nil
    · rw [hNick]
      intro e he
      exact (hNick e.2).trans (h.named e (Bucket.Table.mem_entries_of_mem_remove he))
    · exact h.distinct.remove _
    · rw [hNick]
      exact fun other hOld => h.known other ((hMem other).1 hOld).1
    · rw [hNick]
      intro other hOld
      obtain ⟨hOld, hNe⟩ := (hMem other).1 hOld
      exact fun hNil => h.waited other hOld ((hOther other hNe).symm.trans hNil)
  · rename_i hStays
    refine ⟨hErase, fun e he => (hNick e.2).trans (h.named e he), h.distinct, h.known, ?_⟩
    intro other hOld
    by_cases hEq : other = hot
    · subst hEq
      exact fun hNil => hStays (List.isEmpty_iff.2 hNil)
    · exact fun hNil => h.waited other hOld ((hOther other hEq).symm.trans hNil)

/-- The walk of `remove_user` over the hotlists of a connection takes it off all of them. -/
theorem leaveHotlists {con : ConId} {l : List HotlistId} (h : Waiting s link) (hLink : link con = l) :
    Waiting (l.foldl (fun s hot => s.leaveHotlist con hot) s) (Function.update link con []) := by
  induction l generalizing s link with
  | nil =>
    have hSame : Function.update link con [] = link := by rw [← hLink, Function.update_eq_self]
    rw [hSame]
    exact h
  | cons hot l ih =>
    have hIn : hot ∈ s.hotlists.values := (h.mirror.left con trivial hot (by simp [hLink])).1
    have hRest := ih (h.leaveHotlist con hIn) (by simp [hLink])
    rwa [Function.update_idem] at hRest

/-- A hotlist is made for a connection. -/
theorem newHotlist (h : Waiting s link) (con : ConId) {nick : Str}
    (hNone : s.hotlists.lookup nick = none) :
    Waiting ((s.newHotlist nick).listHotlist con s.next)
      (Function.update link con (s.next :: link con)) := by
  have hNot : s.next ∉ s.hotlists.values := fun hIn => (h.known _ hIn).ne rfl
  have hPerm := s.hotlists.values_add nick s.next
  have hMem (other : HotlistId) : other ∈ (s.hotlists.add nick s.next).values ↔
      other = s.next ∨ other ∈ s.hotlists.values := by
    rw [← List.mem_cons]
    exact hPerm.mem_iff
  have hFind : s.hotlists.find nick = none := by simpa [Bucket.Table.lookup] using hNone
  have hHot (other : HotlistId) : ((s.newHotlist nick).listHotlist con s.next).hot other =
      if other = s.next then { nick := nick, users := [con] } else s.hot other := by
    by_cases hEq : other = s.next <;> simp [Core.listHotlist, Core.newHotlist, hEq]
  constructor
  · have hAdd := (h.mirror.symm.add hNot).symm
    refine (hAdd.link trivial (.inl rfl) fun hIn => hNot (h.mirror.left con trivial _ hIn).1).congr
      (fun _ => Iff.rfl) hMem (fun _ _ => rfl) fun other _ => ?_
    rw [hHot]
    by_cases hEq : other = s.next
    · subst hEq
      simp
    · simp [hEq]
  · intro e he
    rw [hHot]
    rcases List.mem_cons.1 ((s.hotlists.entries_add nick s.next).mem_iff.1 he) with rfl | he
    · simp
    · have hNe : e.2 ≠ s.next := fun hEq => hNot (hEq ▸ Bucket.Table.mem_values.2 ⟨e.1, he⟩)
      rw [if_neg hNe]
      exact h.named e he
  · exact h.distinct.add hFind s.next
  · intro other hIn
    rcases (hMem other).1 hIn with rfl | hIn
    · exact Nat.lt_succ_self _
    · exact (h.known other hIn).trans (Nat.lt_succ_self _)
  · intro other hIn
    rw [hHot]
    rcases (hMem other).1 hIn with rfl | hIn
    · simp
    · have hNe : other ≠ s.next := fun hEq => hNot (hEq ▸ hIn)
      rw [if_neg hNe]
      exact h.waited other hIn

/-- A connection is put on a hotlist that it is not on. -/
theorem listHotlist (h : Waiting s link) {con : ConId} {hot : HotlistId}
    (hIn : hot ∈ s.hotlists.values) (hNew : con ∉ (s.hot hot).users) :
    Waiting (s.listHotlist con hot) (Function.update link con (hot :: link con)) := by
  have hHot (other : HotlistId) : (s.listHotlist con hot).hot other =
      if other = hot then { s.hot hot with users := con :: (s.hot hot).users } else s.hot other := by
    by_cases hEq : other = hot <;> simp [Core.listHotlist, hEq]
  have hNot : hot ∉ link con := fun hOn => hNew ((h.mirror.mem_iff trivial hIn).1 hOn)
  refine ⟨?_, fun e he => ?_, h.distinct, h.known, fun other hOther => ?_⟩
  · refine (h.mirror.link trivial hIn hNot).congr (fun _ => Iff.rfl) (fun _ => Iff.rfl)
      (fun _ _ => rfl) fun other _ => ?_
    rw [hHot]
    by_cases hEq : other = hot <;> simp [hEq]
  · rw [hHot]
    by_cases hEq : e.2 = hot
    · rw [if_pos hEq, ← hEq]
      exact h.named e he
    · rw [if_neg hEq]
      exact h.named e he
  · rw [hHot]
    by_cases hEq : other = hot
    · simp [hEq]
    · rw [if_neg hEq]
      exact h.waited other hOther

end Waiting

namespace Hotlists

variable {s t : Core}

theorem same (h : Hotlists s) (hSame : SameHotlists s t) : Hotlists t where
  waiting := by
    have hList : t.hotlistsOf = s.hotlistsOf := funext hSame.list
    rw [hList]
    exact h.waiting.same hSame.hotlists hSame.hot hSame.next
  options con := by
    rw [hSame.options, hSame.client]
    exact h.options con

/-- Who is no client is on no hotlist. -/
theorem idle (h : Hotlists s) {con : ConId} (hOther : ¬ s.Client con) : s.hotlistsOf con = [] := by
  have hNone : (s.con con).uopt = none := by
    rw [← Option.not_isSome_iff_eq_none, h.options con]
    exact hOther
  simp [Core.hotlistsOf, hNone]

/-- What the user of a connection leaves when the connection is no client any more. -/
theorem retire (h : Hotlists s) (con : ConId) {f : Connection → Connection}
    (hUopt : ∀ c : Connection, c.uopt = none → (f c).uopt = none)
    (hGone : ∀ c : Connection, (f c).allocated = false ∨ (f c).cls ≠ .user) :
    Hotlists ((s.freeOptions con).modCon con f) := by
  have hFree : s.freeOptions con =
      (((s.hotlistsOf con).foldl (fun s hot => s.leaveHotlist con hot) s).freeFiles con).modCon con
        fun c => { c with uopt := none } := rfl
  have hWalk : Waiting ((s.hotlistsOf con).foldl (fun s hot => s.leaveHotlist con hot) s)
      (Function.update s.hotlistsOf con []) := h.waiting.leaveHotlists rfl
  have hCon (t : Core) (l : List HotlistId) :
      (l.foldl (fun s hot => s.leaveHotlist con hot) t).con = t.con := by
    induction l generalizing t with
    | nil => rfl
    | cons hot l ih =>
      rw [List.foldl_cons, ih]
      simp only [Core.leaveHotlist]
      split <;> rfl
  replace hCon := hCon s (s.hotlistsOf con)
  generalize (s.hotlistsOf con).foldl (fun s hot => s.leaveHotlist con hot) s = w
    at hFree hWalk hCon
  have hFiles := SameHotlists.file (w.fileStep_freeFiles con)
  have hNone : (((s.freeOptions con).modCon con f).con con).uopt = none := by
    simp only [hFree, Core.modCon_con, if_true]
    exact hUopt _ rfl
  have hOther (c : ConId) (hNe : c ≠ con) :
      ((s.freeOptions con).modCon con f).con c = (w.freeFiles con).con c := by
    simp [hFree, hNe]
  constructor
  · have hLink : ((s.freeOptions con).modCon con f).hotlistsOf =
        Function.update s.hotlistsOf con [] := by
      funext c
      by_cases hc : c = con
      · rw [hc, Function.update_self, Core.hotlistsOf, hNone]
        rfl
      · rw [Function.update_of_ne hc, Core.hotlistsOf, hOther c hc]
        exact (hFiles.list c).trans (by rw [Core.hotlistsOf, hCon, Core.hotlistsOf])
    rw [hLink, hFree]
    exact hWalk.same hFiles.hotlists hFiles.hot hFiles.next
  · intro c
    by_cases hc : c = con
    · have hNot : ¬ ((s.freeOptions con).modCon con f).Client con := by
        rintro ⟨hOpen, hClass⟩
        simp only [Core.modCon_con, if_true] at hOpen hClass
        rcases hGone ((s.freeOptions con).con con) with h | h
        · rw [h] at hOpen
          cases hOpen
        · exact h hClass
      rw [hc, hNone]
      exact iff_of_false (by simp) hNot
    · have hClient : s.Client c ↔ w.Client c := by simp only [Core.Client, hCon]
      rw [Core.Client, hOther c hc, hFiles.options, hCon, h.options]
      exact hClient.trans (hFiles.client c).symm

/-- The user of a connection goes, and the connection is no client any more. -/
theorem removeUser (h : Hotlists s) (hReg : Registry s) {con : ConId} (hClient : s.Client con)
    {f : Connection → Connection} (hUopt : ∀ c : Connection, c.uopt = none → (f c).uopt = none)
    (hGone : ∀ c : Connection, (f c).allocated = false ∨ (f c).cls ≠ .user) :
    Hotlists ((s.removeUser con).modCon con f) := by
  obtain ⟨user, -, hOwner, -⟩ := hReg.client con hClient.1 hClient.2
  simp only [Core.removeUser, hOwner]
  exact (h.same (.hashRemoveUser s _)).retire con hUopt hGone

/-- A client that logs in waits for nobody yet. -/
theorem tieLocal (h : Hotlists s) {con : ConId} (u : User) (hOpen : (s.con con).allocated = true)
    (hClass : (s.con con).cls = .unknown) : Hotlists ((s.tieLocal con u).addUser s.next) := by
  have hIdle : s.hotlistsOf con = [] := h.idle fun hClient => by simp [hClient.2] at hClass
  have hList : ((s.tieLocal con u).addUser s.next).hotlistsOf = s.hotlistsOf := by
    funext c
    by_cases hc : c = con
    · rw [hc, hIdle]
      simp [Core.hotlistsOf, Core.addUser, Core.tieLocal]
    · simp [Core.hotlistsOf, Core.addUser, Core.tieLocal, hc]
  constructor
  · rw [hList]
    exact h.waiting.same rfl rfl (Nat.le_succ _)
  · intro c
    by_cases hc : c = con
    · simp [hc, Core.Client, Core.addUser, Core.tieLocal, hOpen]
    · simpa [hc, Core.Client, Core.addUser, Core.tieLocal] using h.options c

theorem fine {ok : Label → Core → Prop} (hFine : FineOp ok s t) (h : Hotlists s) : Hotlists t := by
  -- the options of a client whose own list changes stay where they are
  have hOptions (con : ConId) (f : List HotlistId → List HotlistId) (c : ConId) :
      ((s.modCon con fun c =>
        { c with uopt := c.uopt.map fun o => { o with hotlist := f o.hotlist } }).con c).uopt.isSome =
        true ↔ (s.modCon con fun c =>
        { c with uopt := c.uopt.map fun o => { o with hotlist := f o.hotlist } }).Client c := by
    by_cases hc : c = con
    · subst hc
      simpa [Core.Client] using h.options c
    · simpa [Core.Client, hc] using h.options c
  have hList (con : ConId) (f : List HotlistId → List HotlistId)
      (hNone : f [] = [] ∨ s.Client con) : (s.modCon con fun c =>
        { c with uopt := c.uopt.map fun o => { o with hotlist := f o.hotlist } }).hotlistsOf =
        Function.update s.hotlistsOf con (f (s.hotlistsOf con)) := by
    funext c
    by_cases hc : c = con
    · subst hc
      cases hUopt : (s.con c).uopt with
      | none =>
        have hNot : ¬ s.Client c := fun hClient => by simpa [hUopt] using (h.options c).2 hClient
        simp [Core.hotlistsOf, hUopt, hNone.resolve_right hNot]
      | some o => simp [Core.hotlistsOf, hUopt]
    · simp [Core.hotlistsOf, hc]
  cases hFine with
  | uncloak | cloak | cloakRecord | invite | uninvite => exact h.same (.of_con rfl rfl (le_refl _) rfl)
  | @wait con nick hot hOpen hClass hName hNew _ =>
    refine ⟨?_, hOptions con (hot :: ·)⟩
    have hNext := h.waiting.listHotlist (Bucket.Table.mem_values_of_lookup hName) hNew
    have hLink := hList con (hot :: ·) (.inr ⟨hOpen, hClass⟩)
    rw [← hLink] at hNext
    exact hNext
  | @waitNew con nick hOpen hClass hNone _ =>
    refine ⟨?_, hOptions con (s.next :: ·)⟩
    have hNext := h.waiting.newHotlist con hNone
    have hLink := hList con (s.next :: ·) (.inr ⟨hOpen, hClass⟩)
    rw [← hLink] at hNext
    exact hNext
  | @unlist con nick hot hName =>
    have hOwn : Waiting (s.modCon con fun c =>
        { c with uopt := c.uopt.map fun o => { o with hotlist := o.hotlist.erase hot } })
        s.hotlistsOf := h.waiting.same rfl rfl (le_refl _)
    have hNext := hOwn.leaveHotlist con (Bucket.Table.mem_values_of_lookup hName)
    have hLink := hList con (·.erase hot) (.inl rfl)
    rw [← hLink] at hNext
    have hCon : (s.unlistHotlist con hot).con = (s.modCon con fun c =>
        { c with uopt := c.uopt.map fun o => { o with hotlist := o.hotlist.erase hot } }).con := by
      simp only [Core.unlistHotlist, Core.leaveHotlist]
      split <;> rfl
    have hSame : (s.unlistHotlist con hot).hotlistsOf = (s.modCon con fun c =>
        { c with uopt := c.uopt.map fun o =>
          { o with hotlist := o.hotlist.erase hot } }).hotlistsOf := by
      funext c
      rw [Core.hotlistsOf, hCon, Core.hotlistsOf]
    refine ⟨by rw [hSame]; exact hNext, fun c => ?_⟩
    rw [Core.Client, hCon]
    exact hOptions con (·.erase hot) c

/-- The place of a new connection is nobody's. -/
theorem accept (h : Hotlists s) (hReg : Registry s) (ip : UInt32) (host : Str)
    (port localPort : UInt16) : Hotlists (s.accept ip host port localPort) := by
  have hNot : ¬ s.Client s.next := fun hClient => (hReg.knownCon _ hClient.1).ne rfl
  have hNone : (s.con s.next).uopt = none := by
    rw [← Option.not_isSome_iff_eq_none, h.options]
    exact hNot
  have hAlloc : SameHotlists s s.alloc := .of_con rfl rfl (Nat.le_succ _) rfl
  have hNew : SameHotlists s.alloc (s.newConnection ip host port localPort) := by
    apply SameHotlists.modCon
    · exact hNone.symm
    · exact iff_of_false (by simp) fun hClient => hNot hClient
  exact h.same ((hAlloc.trans hNew).trans (.addClient _ _))

/-- Every operation keeps the invariant of hotlists. -/
theorem op {ok : Label → Core → Prop} (hOp : Op ok s t) (hSound : Sound s) (h : Hotlists s) :
    Hotlists t := by
  cases hOp with
  | quiet hDetail => exact h.same (.detail hDetail)
  | fine hFine => exact h.fine hFine
  | person hPersonal => exact h.same (.personal hPersonal)
  | accept => exact h.accept hSound.registry _ _ _ _
  | setUserLevel | tick | addRecord | setRecord | dropRecord | addBan | dropBans | unlinkServer |
    setTopic | setLevel | setLimit | flagChannel =>
    exact h.same (.of_con rfl rfl (by first | exact le_refl _ | exact Nat.le_succ _) rfl)
  | @linkServer con hOpen hClass =>
    have hServer : SameHotlists s (s.modCon con fun c => { c with cls := .server }) :=
      .modCon s con rfl (iff_of_false (by simp) fun hClient => by simp [hClient.2] at hClass)
    exact h.same (hServer.trans (.of_con rfl rfl (le_refl _) rfl))
  | loginLocal hOpen hClass => exact h.tieLocal _ hOpen hClass
  | loginRemote => exact h.same (.of_con rfl rfl (Nat.le_succ _) rfl)
  | removeRemote => exact h.same (.hashRemoveUser s _)
  | @zap con hOpen hClass =>
    have hKilled : SameHotlists s (s.modCon con fun c => { c with killed := true }) := by
      apply SameHotlists.detail
      exact s.detail_modCon con rfl
    have hReg : Registry (s.modCon con fun c => { c with killed := true }) :=
      hSound.registry.sameUsers (.quiet (s.skeleton_modCon con rfl))
    have hClient : (s.modCon con fun c => { c with killed := true }).Client con :=
      (hKilled.client con).2 ⟨hOpen, hClass⟩
    exact (h.same hKilled).removeUser hReg hClient
      (f := fun c => { c with cls := .unknown, uopt := none, user := none, destroy := true })
      (fun _ _ => rfl) fun _ => .inr (by simp)
  | @hangUp con hOpen hClass =>
    have hClient : s.Client con := ⟨hOpen, hClass⟩
    have hGone := h.removeUser hSound.registry hClient (f := fun c => { c with allocated := false })
      (fun _ hNone => hNone) fun _ => .inl rfl
    exact hGone.same (.of_con rfl rfl (le_refl _) rfl)
  | @close con hOpen hClass =>
    have hFreed : SameHotlists s (s.modCon con fun c => { c with allocated := false }) :=
      .modCon s con rfl (iff_of_false (by simp) fun hClient => hClass hClient.2)
    exact h.same (hFreed.trans (.of_con rfl rfl (le_refl _) rfl))
  | enter => exact h.same (.chan (s.chanStep_enterAs _ _))
  | found => exact h.same (.chan ((s.chanStep_newChannel _).trans (Core.chanStep_enterChannel _ _ _)))
  | leave =>
    exact h.same (.chan ((s.chanStep_deleteChannel _ _).trans (Core.chanStep_partChannel _ _ _)))
  | dropChannel => exact h.same (.chan (s.chanStep_hashRemoveChannel _))
  | addOperator => exact h.same (.chan (s.chanStep_addOperator _ _))
  | dropOperator => exact h.same (.chan (s.chanStep_dropOperator _ _))
  | insert => exact h.same (.file (s.fileStep_insertDatum _ _ _))
  | dropFile => exact h.same (.file (s.fileStep_dropFile _ _ _))
  | report => exact h.same (.file (s.fileStep_reportShared _ _ _ _))
  | collect => exact h.same (.file s.fileStep_fdbGarbageCollect)
  | finishSearch => exact h.same (.search (s.searchStep_finishSearch _ _ _))
  | forwardSearch => exact h.same (.search (s.searchStep_forwardSearch _ _ _ _))
  | result => exact h.same (.search (s.searchStep_note _))
  | expire => exact h.same (.search (s.searchStep_expireSearches _ _))
  | answer => exact h.same (.search (s.searchStep_answerSearch _ _))
  | cancel =>
    exact h.same (.search ((s.searchStep_note _).trans (Core.searchStep_cancelSearch _ _)))

/-- At the start there are neither connections nor hotlists. -/
theorem start (f : Startup) : Hotlists (Core.start f) := by
  have hLoaded := Core.loaded_start f
  obtain ⟨next, channels, chan, userDb, db, filter, hStart⟩ := hLoaded
  rw [hStart]
  refine ⟨⟨⟨?_, ?_, ?_, ?_⟩, ?_, Bucket.Table.distinct_empty _ _, ?_, ?_⟩, ?_⟩ <;>
    simp [Core.empty, Core.hotlistsOf, Core.Client]

end Hotlists

end OpenNap
