import OpenNap.Frames

/-! The registry of users and connections.  A user is known to the table of users by its nick, and
to its connection by a pointer; `Registry` says that the two always agree. -/

namespace OpenNap

open CText

/-- From `s` to `t` no user comes or goes and no connection changes its class or its user. -/
structure SameUsers (s t : Core) : Prop where
  users : t.users = s.users
  servers : t.servers = s.servers
  next : s.next ≤ t.next
  nick : ∀ u, (t.user u).nick = (s.user u).nick
  isLocal : ∀ u, (t.user u).isLocal = (s.user u).isLocal
  home : ∀ u, (t.user u).con = (s.user u).con
  allocated : ∀ c, (t.con c).allocated = (s.con c).allocated
  cls : ∀ c, (t.con c).cls = (s.con c).cls
  owner : ∀ c, (t.con c).user = (s.con c).user

namespace SameUsers

theorem refl (s : Core) : SameUsers s s :=
  ⟨rfl, rfl, le_refl _, fun _ => rfl, fun _ => rfl, fun _ => rfl, fun _ => rfl, fun _ => rfl,
    fun _ => rfl⟩

theorem trans {s t u : Core} (h1 : SameUsers s t) (h2 : SameUsers t u) : SameUsers s u where
  users := h2.users.trans h1.users
  servers := h2.servers.trans h1.servers
  next := h1.next.trans h2.next
  nick x := (h2.nick x).trans (h1.nick x)
  isLocal x := (h2.isLocal x).trans (h1.isLocal x)
  home x := (h2.home x).trans (h1.home x)
  allocated c := (h2.allocated c).trans (h1.allocated c)
  cls c := (h2.cls c).trans (h1.cls c)
  owner c := (h2.owner c).trans (h1.owner c)

theorem foldl {α : Type} {f : Core → α → Core} (h : ∀ s a, SameUsers s (f s a))
    (l : List α) (s : Core) : SameUsers s (l.foldl f s) := by
  induction l generalizing s with
  | nil => exact refl s
  | cons a l ih => exact (h s a).trans (ih _)

theorem quiet {s t : Core} (h : t.skeleton = s.skeleton) : SameUsers s t where
  users := (congrArg Core.users h :)
  servers := (congrArg Core.servers h :)
  next := (congrArg Core.next h).ge
  nick u := (congrArg User.nick (Core.bare_user h u) :)
  isLocal u := (congrArg User.isLocal (Core.bare_user h u) :)
  home u := (congrArg User.con (Core.bare_user h u) :)
  allocated c := (congrArg Connection.allocated (Core.bare_con h c) :)
  cls c := (congrArg Connection.cls (Core.bare_con h c) :)
  owner c := (congrArg Connection.user (Core.bare_con h c) :)

theorem chan {s t : Core} (h : ChanStep s t) : SameUsers s t := by
  have hUser (u : UserId) := congrFun (congrArg Core.user h.rest) u
  have hCon (c : ConId) := congrFun (congrArg Core.con h.rest) c
  exact {
    users := (congrArg Core.users h.rest :)
    servers := (congrArg Core.servers h.rest :)
    next := h.next
    nick := fun u => by simpa [Core.eraseChan] using congrArg User.nick (hUser u)
    isLocal := fun u => by simpa [Core.eraseChan] using congrArg User.isLocal (hUser u)
    home := fun u => by simpa [Core.eraseChan] using congrArg User.con (hUser u)
    allocated := fun c => congrArg Connection.allocated (hCon c)
    cls := fun c => congrArg Connection.cls (hCon c)
    owner := fun c => congrArg Connection.user (hCon c) }

theorem file {s t : Core} (h : FileStep s t) : SameUsers s t := by
  have hUser (u : UserId) := congrFun (congrArg Core.user h.rest) u
  have hCon (c : ConId) : (t.con c).eraseFiles = (s.con c).eraseFiles :=
    congrFun (congrArg Core.con h.rest) c
  exact {
    users := (congrArg Core.users h.rest :)
    servers := (congrArg Core.servers h.rest :)
    next := h.next
    nick := fun u => by simpa [Core.eraseFile] using congrArg User.nick (hUser u)
    isLocal := fun u => by simpa [Core.eraseFile] using congrArg User.isLocal (hUser u)
    home := fun u => by simpa [Core.eraseFile] using congrArg User.con (hUser u)
    allocated := fun c => (congrArg Connection.allocated (hCon c) :)
    cls := fun c => (congrArg Connection.cls (hCon c) :)
    owner := fun c => (congrArg Connection.user (hCon c) :) }

theorem search {s t : Core} (h : SearchStep s t) : SameUsers s t := by
  have hUser (u : UserId) : t.user u = s.user u := congrFun (congrArg Core.user h.rest) u
  have hCon (c : ConId) : t.con c = s.con c := congrFun (congrArg Core.con h.rest) c
  exact {
    users := (congrArg Core.users h.rest :)
    servers := (congrArg Core.servers h.rest :)
    next := (congrArg Core.next h.rest).ge
    nick := fun u => by rw [hUser]
    isLocal := fun u => by rw [hUser]
    home := fun u => by rw [hUser]
    allocated := fun c => by rw [hCon]
    cls := fun c => by rw [hCon]
    owner := fun c => by rw [hCon] }

/-- The same change of a connection on both sides. -/
theorem modCon {s t : Core} (h : SameUsers s t) (con : ConId) {f : Connection → Connection}
    (hAllocated : (f (t.con con)).allocated = (f (s.con con)).allocated)
    (hCls : (f (t.con con)).cls = (f (s.con con)).cls)
    (hOwner : (f (t.con con)).user = (f (s.con con)).user) :
    SameUsers (s.modCon con f) (t.modCon con f) where
  users := h.users
  servers := h.servers
  next := h.next
  nick := h.nick
  isLocal := h.isLocal
  home := h.home
  allocated c := by
    by_cases hc : c = con
    · simpa [hc] using hAllocated
    · simpa [hc] using h.allocated c
  cls c := by
    by_cases hc : c = con
    · simpa [hc] using hCls
    · simpa [hc] using h.cls c
  owner c := by
    by_cases hc : c = con
    · simpa [hc] using hOwner
    · simpa [hc] using h.owner c

end SameUsers

namespace Core

theorem skeleton_recordLogoff (s : Core) (nick : Str) :
    (s.recordLogoff nick).skeleton = s.skeleton := by
  simp only [recordLogoff]
  split
  · exact skeleton_modDb ..
  · rfl

theorem sameUsers_freeUser (s : Core) (user : UserId) : SameUsers s (s.freeUser user) := by
  have hChan : ChanStep s ((s.partChannels user).dropInvitations user) :=
    (s.chanStep_partChannels user).trans (chanStep_dropInvitations _ user)
  have hCount : FileStep ((s.partChannels user).dropInvitations user)
      (((s.partChannels user).dropInvitations user).uncountUser user) := ⟨rfl, le_refl _⟩
  exact ((SameUsers.chan hChan).trans (SameUsers.file hCount)).trans
    (SameUsers.quiet (skeleton_recordLogoff _ _))

/-- Removing a user changes the table of users, and nothing else that the registry is about. -/
theorem sameUsers_hashRemoveUser {s : Core} {nick : Str} {user : UserId}
    (h : s.users.lookup nick = some user) :
    SameUsers { s with users := s.users.remove nick } (s.hashRemoveUser nick) := by
  have hFree := s.sameUsers_freeUser user
  simp only [hashRemoveUser, h]
  exact {
    users := by rw [hFree.users]
    servers := hFree.servers
    next := hFree.next
    nick := hFree.nick
    isLocal := hFree.isLocal
    home := hFree.home
    allocated := hFree.allocated
    cls := hFree.cls
    owner := hFree.owner }

theorem skeleton_leaveHotlist (s : Core) (con : ConId) (hot : HotlistId) :
    (s.leaveHotlist con hot).skeleton = s.skeleton := by
  simp only [leaveHotlist]
  split <;> rfl

theorem sameUsers_freeOptions (s : Core) (con : ConId) : SameUsers s (s.freeOptions con) := by
  have hHot (s : Core) (l : List HotlistId) :
      SameUsers s (l.foldl (fun s hot => s.leaveHotlist con hot) s) :=
    SameUsers.foldl (fun s hot => SameUsers.quiet (s.skeleton_leaveHotlist con hot)) l s
  have hLast (s : Core) : SameUsers s (s.modCon con fun c => { c with uopt := none }) := by
    have hEq : s = s.modCon con fun c => c := by
      simp [modCon]
    conv => lhs; rw [hEq]
    exact {
      users := rfl, servers := rfl, next := le_refl _, nick := fun _ => rfl
      isLocal := fun _ => rfl, home := fun _ => rfl
      allocated := fun c => by by_cases hc : c = con <;> simp [hc]
      cls := fun c => by by_cases hc : c = con <;> simp [hc]
      owner := fun c => by by_cases hc : c = con <;> simp [hc] }
  exact ((hHot s _).trans (SameUsers.file (fileStep_freeFiles _ con))).trans (hLast _)

end Core

/-- From `s` to `t` neither the searches change nor anything they depend on. -/
structure SameSearches (s t : Core) : Prop where
  next : s.next ≤ t.next
  cfg : t.cfg = s.cfg
  now : t.now = s.now
  servers : t.servers = s.servers
  remoteSearch : t.remoteSearch = s.remoteSearch
  traffic : t.traffic = s.traffic
  allocated : ∀ c, (t.con c).allocated = (s.con c).allocated
  cls : ∀ c, (t.con c).cls = (s.con c).cls

namespace SameSearches

theorem refl (s : Core) : SameSearches s s :=
  ⟨le_refl _, rfl, rfl, rfl, rfl, rfl, fun _ => rfl, fun _ => rfl⟩

theorem trans {s t u : Core} (h1 : SameSearches s t) (h2 : SameSearches t u) :
    SameSearches s u where
  next := h1.next.trans h2.next
  cfg := h2.cfg.trans h1.cfg
  now := h2.now.trans h1.now
  servers := h2.servers.trans h1.servers
  remoteSearch := h2.remoteSearch.trans h1.remoteSearch
  traffic := h2.traffic.trans h1.traffic
  allocated c := (h2.allocated c).trans (h1.allocated c)
  cls c := (h2.cls c).trans (h1.cls c)

theorem quiet {s t : Core} (h : t.skeleton = s.skeleton) : SameSearches s t where
  next := (congrArg Core.next h).ge
  cfg := (congrArg Core.cfg h :)
  now := (congrArg Core.now h :)
  servers := (congrArg Core.servers h :)
  remoteSearch := (congrArg Core.remoteSearch h :)
  traffic := (congrArg Core.traffic h :)
  allocated := (SameUsers.quiet h).allocated
  cls := (SameUsers.quiet h).cls

theorem chan {s t : Core} (h : ChanStep s t) : SameSearches s t where
  next := h.next
  cfg := (congrArg Core.cfg h.rest :)
  now := (congrArg Core.now h.rest :)
  servers := (congrArg Core.servers h.rest :)
  remoteSearch := (congrArg Core.remoteSearch h.rest :)
  traffic := (congrArg Core.traffic h.rest :)
  allocated := (SameUsers.chan h).allocated
  cls := (SameUsers.chan h).cls

theorem file {s t : Core} (h : FileStep s t) : SameSearches s t where
  next := h.next
  cfg := (congrArg Core.cfg h.rest :)
  now := (congrArg Core.now h.rest :)
  servers := (congrArg Core.servers h.rest :)
  remoteSearch := (congrArg Core.remoteSearch h.rest :)
  traffic := (congrArg Core.traffic h.rest :)
  allocated := (SameUsers.file h).allocated
  cls := (SameUsers.file h).cls

theorem hashRemoveUser (s : Core) (nick : Str) : SameSearches s (s.hashRemoveUser nick) := by
  simp only [Core.hashRemoveUser]
  split
  · exact refl s
  · rename_i user _
    have hChan : ChanStep s ((s.partChannels user).dropInvitations user) :=
      (s.chanStep_partChannels user).trans (Core.chanStep_dropInvitations _ user)
    have hCount : FileStep ((s.partChannels user).dropInvitations user)
        (((s.partChannels user).dropInvitations user).uncountUser user) := ⟨rfl, le_refl _⟩
    have hFree : SameSearches s (s.freeUser user) :=
      ((chan hChan).trans (file hCount)).trans (quiet (Core.skeleton_recordLogoff _ _))
    exact { hFree with }

theorem removeUser (s : Core) (con : ConId) : SameSearches s (s.removeUser con) := by
  simp only [Core.removeUser]
  split
  · exact refl s
  · rename_i user _
    refine (hashRemoveUser s (s.user user).nick).trans ?_
    have hHot (l : List HotlistId) (s : Core) :
        SameSearches s (l.foldl (fun s hot => s.leaveHotlist con hot) s) := by
      induction l generalizing s with
      | nil => exact refl s
      | cons hot l ih => exact (quiet (s.skeleton_leaveHotlist con hot)).trans (ih _)
    have hLast (s : Core) : SameSearches s (s.modCon con fun c => { c with uopt := none }) := by
      refine { refl s with allocated := fun c => ?_, cls := fun c => ?_ } <;>
        by_cases hc : c = con <;> simp [hc]
    exact ((hHot _ _).trans (file (Core.fileStep_freeFiles _ con))).trans (hLast _)

end SameSearches

/-- The registry of users and connections.  `client` is about connections that have a user, `home`
about users that have a connection of their own, and `behind` about those behind a peer. -/
structure Registry (s : Core) : Prop where
  names : s.users.Distinct
  keyed : ∀ e ∈ s.users.entries, strlower e.1 = strlower (s.user e.2).nick
  client : ∀ con, (s.con con).allocated = true → (s.con con).cls = .user →
    ∃ user ∈ s.users.values, (s.con con).user = some user ∧ (s.user user).con = con ∧
      (s.user user).isLocal = true
  home : ∀ user ∈ s.users.values, (s.user user).isLocal = true →
    (s.con (s.user user).con).allocated = true ∧ (s.con (s.user user).con).cls = .user ∧
      (s.con (s.user user).con).user = some user
  behind : ∀ user ∈ s.users.values, (s.user user).isLocal = false →
    (s.con (s.user user).con).allocated = true ∧ (s.con (s.user user).con).cls = .server
  linked : ∀ con ∈ s.servers, (s.con con).allocated = true ∧ (s.con con).cls = .server
  once : s.servers.Nodup
  knownCon : ∀ con, (s.con con).allocated = true → con < s.next
  knownUser : ∀ user ∈ s.users.values, user < s.next

namespace Registry

variable {s t : Core}

theorem sameUsers (h : Registry s) (hSame : SameUsers s t) : Registry t where
  names := by rw [hSame.users]; exact h.names
  keyed e he := by
    rw [hSame.users] at he
    rw [hSame.nick]
    exact h.keyed e he
  client con hOpen hClass := by
    rw [hSame.allocated] at hOpen
    rw [hSame.cls] at hClass
    obtain ⟨user, hUser, hOwner, hCon, hLocal⟩ := h.client con hOpen hClass
    refine ⟨user, by rwa [hSame.users], ?_, ?_, ?_⟩
    · rw [hSame.owner, hOwner]
    · rw [hSame.home, hCon]
    · rw [hSame.isLocal, hLocal]
  home user hUser hLocal := by
    rw [hSame.users] at hUser
    rw [hSame.isLocal] at hLocal
    rw [hSame.home, hSame.allocated, hSame.cls, hSame.owner]
    exact h.home user hUser hLocal
  behind user hUser hLocal := by
    rw [hSame.users] at hUser
    rw [hSame.isLocal] at hLocal
    rw [hSame.home, hSame.allocated, hSame.cls]
    exact h.behind user hUser hLocal
  linked con hCon := by
    rw [hSame.servers] at hCon
    rw [hSame.allocated, hSame.cls]
    exact h.linked con hCon
  once := by rw [hSame.servers]; exact h.once
  knownCon con hOpen := by
    rw [hSame.allocated] at hOpen
    exact (h.knownCon con hOpen).trans_le hSame.next
  knownUser user hUser := by
    rw [hSame.users] at hUser
    exact (h.knownUser user hUser).trans_le hSame.next

/-- A user is in the table once. -/
theorem values_nodup (h : Registry s) : s.users.values.Nodup := by
  refine List.Nodup.map_on (fun e he f hf hEq => ?_) (List.Nodup.of_map _ h.names)
  refine h.names.eq_of_mem he hf ((h.keyed e he).trans ?_)
  rw [hEq, ← h.keyed f hf]
  rfl

/-- A user in the table is what a search for its nick finds. -/
theorem lookup_nick (h : Registry s) {user : UserId} (hUser : user ∈ s.users.values) :
    s.users.lookup (s.user user).nick = some user := by
  obtain ⟨key, hEntry⟩ := Bucket.Table.mem_values.1 hUser
  exact h.names.lookup hEntry (h.keyed _ hEntry)

/-- Two users in the table whose nicks are equal without regard to case are one. -/
theorem eq_of_nick (h : Registry s) {u v : UserId} (hu : u ∈ s.users.values)
    (hv : v ∈ s.users.values) (hNick : strlower (s.user u).nick = strlower (s.user v).nick) :
    u = v := by
  have hSame : s.users.lookup (s.user u).nick = s.users.lookup (s.user v).nick :=
    Bucket.Table.lookup_congr hNick
  rw [h.lookup_nick hu, h.lookup_nick hv] at hSame
  exact Option.some.inj hSame

/-- Removing a user by its nick leaves the other users. -/
theorem mem_remove (h : Registry s) {user : UserId} (hUser : user ∈ s.users.values) {v : UserId} :
    v ∈ (s.users.remove (s.user user).nick).values ↔ v ∈ s.users.values ∧ v ≠ user := by
  constructor
  · intro hv
    obtain ⟨key, hEntry⟩ := Bucket.Table.mem_values.1 hv
    obtain ⟨hIn, hKey⟩ := h.names.mem_remove.1 hEntry
    refine ⟨Bucket.Table.mem_values.2 ⟨key, hIn⟩, ?_⟩
    rintro rfl
    exact hKey (h.keyed _ hIn)
  · rintro ⟨hv, hNe⟩
    obtain ⟨key, hEntry⟩ := Bucket.Table.mem_values.1 hv
    refine Bucket.Table.mem_values.2 ⟨key, h.names.mem_remove.2 ⟨hEntry, fun hKey => hNe ?_⟩⟩
    exact h.eq_of_nick hv hUser ((h.keyed _ hEntry).symm.trans hKey)

/-- A user behind a peer goes. -/
theorem removeRemote (h : Registry s) {user : UserId} (hUser : user ∈ s.users.values)
    (hLocal : (s.user user).isLocal = false) :
    Registry { s with users := s.users.remove (s.user user).nick } where
  names := h.names.remove _
  keyed e he := h.keyed e (Bucket.Table.mem_entries_of_mem_remove he)
  client con hOpen hClass := by
    obtain ⟨v, hv, hOwner, hCon, hv'⟩ := h.client con hOpen hClass
    refine ⟨v, (h.mem_remove hUser).2 ⟨hv, ?_⟩, hOwner, hCon, hv'⟩
    rintro rfl
    simp [hLocal] at hv'
  home v hv := h.home v ((h.mem_remove hUser).1 hv).1
  behind v hv := h.behind v ((h.mem_remove hUser).1 hv).1
  linked := h.linked
  once := h.once
  knownCon := h.knownCon
  knownUser v hv := h.knownUser v ((h.mem_remove hUser).1 hv).1

/-- A user with a connection of its own goes, and the connection is freed or loses its class. -/
theorem retire (h : Registry s) {con : ConId} {user : UserId} {f : Connection → Connection}
    (hOpen : (s.con con).allocated = true) (hClass : (s.con con).cls = .user)
    (hUser : user ∈ s.users.values) (hCon : (s.user user).con = con)
    (hOwner : (s.con con).user = some user)
    (hGone : (f (s.con con)).allocated = true → (f (s.con con)).cls = .unknown) :
    Registry (Core.modCon { s with users := s.users.remove (s.user user).nick } con f) where
  names := h.names.remove _
  keyed e he := h.keyed e (Bucket.Table.mem_entries_of_mem_remove he)
  client c hc hcls := by
    by_cases hEq : c = con
    · subst hEq
      simp only [Core.modCon_con, if_true] at hc hcls
      simp [hGone hc] at hcls
    · simp only [Core.modCon_con, hEq, if_false] at hc hcls ⊢
      obtain ⟨v, hv, hOwn, hHome, hLocal⟩ := h.client c hc hcls
      refine ⟨v, (h.mem_remove hUser).2 ⟨hv, ?_⟩, hOwn, hHome, hLocal⟩
      rintro rfl
      exact hEq (hHome.symm.trans hCon)
  home v hv hLocal := by
    obtain ⟨hv, hNe⟩ := (h.mem_remove hUser).1 hv
    have hHome := h.home v hv hLocal
    have hEq : (s.user v).con ≠ con := by
      intro hEq
      rw [hEq, hOwner] at hHome
      exact hNe (Option.some.inj hHome.2.2).symm
    simpa [hEq] using hHome
  behind v hv hLocal := by
    obtain ⟨hv, -⟩ := (h.mem_remove hUser).1 hv
    have hBehind := h.behind v hv hLocal
    have hEq : (s.user v).con ≠ con := by
      intro hEq
      rw [hEq, hClass] at hBehind
      cases hBehind.2
    simpa [hEq] using hBehind
  linked c hc := by
    have hLink := h.linked c hc
    have hEq : c ≠ con := by
      rintro rfl
      rw [hClass] at hLink
      cases hLink.2
    simpa [hEq] using hLink
  once := h.once
  knownCon c hc := by
    by_cases hEq : c = con
    · exact hEq ▸ h.knownCon con hOpen
    · exact h.knownCon c (by simpa [hEq] using hc)
  knownUser v hv := h.knownUser v ((h.mem_remove hUser).1 hv).1

/-- A new connection, which has no class yet. -/
theorem accept (h : Registry s) (ip : UInt32) (host : Str) (port localPort : UInt16) :
    Registry (s.accept ip host port localPort) := by
  have hKnown {c : ConId} (hc : (s.con c).allocated = true) : c ≠ s.next := (h.knownCon c hc).ne
  have hNew : Registry (s.newConnection ip host port localPort) := {
    names := h.names
    keyed := h.keyed
    client := by
      intro con hOpen hClass
      by_cases hEq : con = s.next
      · simp [Core.newConnection, hEq] at hClass
      · simp only [Core.newConnection, Core.modCon_con, hEq, if_false] at hOpen hClass ⊢
        exact h.client con hOpen hClass
    home := by
      intro user hIn hLocal
      have hHome := h.home user hIn hLocal
      simpa [Core.newConnection, hKnown hHome.1] using hHome
    behind := by
      intro user hIn hLocal
      have hBehind := h.behind user hIn hLocal
      simpa [Core.newConnection, hKnown hBehind.1] using hBehind
    linked := by
      intro con hCon
      have hLinked := h.linked con hCon
      simpa [Core.newConnection, hKnown hLinked.1] using hLinked
    once := h.once
    knownCon := by
      intro con hOpen
      by_cases hEq : con = s.next
      · exact hEq ▸ Nat.lt_succ_self _
      · simp only [Core.newConnection, Core.modCon_con, hEq, if_false] at hOpen
        exact (h.knownCon con hOpen).trans (Nat.lt_succ_self _)
    knownUser := fun user hIn => (h.knownUser user hIn).trans (Nat.lt_succ_self _) }
  exact hNew.sameUsers (.quiet (Core.skeleton_addClient _ _))

/-- A connection without a user of its own and without users behind it changes. -/
theorem modCon (h : Registry s) {con : ConId} {f : Connection → Connection}
    (hClass : (s.con con).cls ≠ .user) (hUsers : ∀ u ∈ s.users.values, (s.user u).con ≠ con)
    (hLinked : con ∈ s.servers → (f (s.con con)).allocated = true ∧ (f (s.con con)).cls = .server)
    (hOpen : (f (s.con con)).allocated = true → (s.con con).allocated = true)
    (hNot : (f (s.con con)).cls ≠ .user) : Registry (s.modCon con f) where
  names := h.names
  keyed := h.keyed
  client c hc hcls := by
    by_cases hEq : c = con
    · subst hEq
      simp only [Core.modCon_con, if_true] at hcls
      exact absurd hcls hNot
    · simp only [Core.modCon_con, hEq, if_false] at hc hcls ⊢
      exact h.client c hc hcls
  home user hUser hLocal := by
    simpa [hUsers user hUser] using h.home user hUser hLocal
  behind user hUser hLocal := by
    simpa [hUsers user hUser] using h.behind user hUser hLocal
  linked c hc := by
    by_cases hEq : c = con
    · subst hEq
      simpa using hLinked hc
    · simpa [hEq] using h.linked c hc
  once := h.once
  knownCon c hc := by
    by_cases hEq : c = con
    · subst hEq
      exact h.knownCon c (hOpen (by simpa using hc))
    · exact h.knownCon c (by simpa [hEq] using hc)
  knownUser := h.knownUser

theorem linkServer (h : Registry s) {con : ConId} (hOpen : (s.con con).allocated = true)
    (hClass : (s.con con).cls = .unknown) : Registry (s.linkServer con) := by
  have hUsers : ∀ u ∈ s.users.values, (s.user u).con ≠ con := by
    rintro u hu rfl
    cases hLocal : (s.user u).isLocal with
    | true => rw [(h.home u hu hLocal).2.1] at hClass; cases hClass
    | false => rw [(h.behind u hu hLocal).2] at hClass; cases hClass
  have hNew : con ∉ s.servers := by
    intro hIn
    rw [(h.linked con hIn).2] at hClass
    cases hClass
  have hMod := h.modCon (f := fun c => { c with cls := .server }) (by rw [hClass]; decide) hUsers
    (fun hIn => absurd hIn hNew) (fun _ => hOpen) (by simp)
  exact { hMod with
    linked := by
      intro c hc
      rcases List.mem_append.1 hc with hc | hc
      · exact hMod.linked c hc
      · obtain rfl := List.mem_singleton.1 hc
        simp [Core.linkServer, hOpen]
    once := by
      refine List.Nodup.append h.once (List.nodup_singleton con) ?_
      simpa [List.disjoint_singleton] using hNew }

theorem unlinkServer (h : Registry s) (con : ConId) : Registry (s.unlinkServer con) :=
  { h with
    linked := fun c hc => h.linked c (List.mem_of_mem_erase hc)
    once := h.once.erase con }

/-- What a login adds, whichever way it came: the user is new, and of the connections only one
without a class may have changed. -/
theorem addUser (h : Registry s) (hUsers : t.users = s.users) (hServers : t.servers = s.servers)
    (hNext : t.next = s.next + 1) (hUser : ∀ v, v ≠ s.next → t.user v = s.user v)
    (hCon : ∀ c, (s.con c).cls ≠ .unknown → t.con c = s.con c)
    (hOpen : ∀ c, (t.con c).allocated = (s.con c).allocated)
    (hNick : s.users.lookup (t.user s.next).nick = none)
    (hClient : ∀ con, (t.con con).allocated = true → (t.con con).cls = .user →
      t.con con = s.con con ∨ (t.con con).user = some s.next ∧ (t.user s.next).con = con ∧
        (t.user s.next).isLocal = true)
    (hHome : (t.user s.next).isLocal = true → (t.con (t.user s.next).con).allocated = true ∧
      (t.con (t.user s.next).con).cls = .user ∧
      (t.con (t.user s.next).con).user = some s.next)
    (hBehind : (t.user s.next).isLocal = false → (t.con (t.user s.next).con).allocated = true ∧
      (t.con (t.user s.next).con).cls = .server) : Registry (t.addUser s.next) := by
  have hFind : t.users.find (t.user s.next).nick = none := by
    simpa [hUsers, Bucket.Table.lookup] using hNick
  have hMem (u : UserId) : u ∈ (t.addUser s.next).users.values ↔ u = s.next ∨ u ∈ s.users.values := by
    rw [← hUsers, ← List.mem_cons]
    exact (t.users.values_add _ _).mem_iff
  have hOld (u : UserId) (hu : u ∈ s.users.values) : t.user u = s.user u :=
    hUser u (h.knownUser u hu).ne
  have hKept (u : UserId) (hu : u ∈ s.users.values) :
      t.con (s.user u).con = s.con (s.user u).con := by
    refine hCon _ ?_
    cases hLocal : (s.user u).isLocal with
    | true => rw [(h.home u hu hLocal).2.1]; decide
    | false => rw [(h.behind u hu hLocal).2]; decide
  exact {
    names := Bucket.Table.Distinct.add (by rw [hUsers]; exact h.names) hFind s.next
    keyed := by
      intro e he
      rcases List.mem_cons.1 ((t.users.entries_add _ _).mem_iff.1 he) with rfl | he
      · rfl
      · rw [hUsers] at he
        have hIn : e.2 ∈ s.users.values := Bucket.Table.mem_values.2 ⟨e.1, he⟩
        simpa [Core.addUser, hOld _ hIn] using h.keyed e he
    client := by
      intro con hc hcls
      rcases hClient con hc hcls with hSame | ⟨hOwner, hHere, hLocal⟩
      · change (t.con con).allocated = true at hc
        change (t.con con).cls = .user at hcls
        rw [hSame] at hc hcls
        obtain ⟨u, hu, hOwner, hHere, hLocal⟩ := h.client con hc hcls
        refine ⟨u, (hMem u).2 (.inr hu), ?_, ?_, ?_⟩
        · simpa [Core.addUser, hSame] using hOwner
        · simpa [Core.addUser, hOld u hu] using hHere
        · simpa [Core.addUser, hOld u hu] using hLocal
      · exact ⟨s.next, (hMem _).2 (.inl rfl), hOwner, hHere, hLocal⟩
    home := by
      intro u hu hLocal
      rcases (hMem u).1 hu with rfl | hu
      · exact hHome hLocal
      · simp only [Core.addUser, hOld u hu, hKept u hu] at hLocal ⊢
        exact h.home u hu hLocal
    behind := by
      intro u hu hLocal
      rcases (hMem u).1 hu with rfl | hu
      · exact hBehind hLocal
      · simp only [Core.addUser, hOld u hu, hKept u hu] at hLocal ⊢
        exact h.behind u hu hLocal
    linked := by
      intro con hc
      have hLink := h.linked con (by simpa [Core.addUser, hServers] using hc)
      have hSame : t.con con = s.con con := hCon con (by rw [hLink.2]; decide)
      simpa [Core.addUser, hSame] using hLink
    once := by simpa [Core.addUser, hServers] using h.once
    knownCon := by
      intro con hc
      have hc' : (s.con con).allocated = true := by rw [← hOpen]; exact hc
      have hLt := h.knownCon con hc'
      simp only [Core.addUser, hNext]
      exact hLt.trans (Nat.lt_succ_self _)
    knownUser := by
      intro u hu
      simp only [Core.addUser, hNext]
      rcases (hMem u).1 hu with rfl | hu
      · exact Nat.lt_succ_self _
      · exact (h.knownUser u hu).trans (Nat.lt_succ_self _) }

theorem loginLocal (h : Registry s) {con : ConId} {u : User} (hOpen : (s.con con).allocated = true)
    (hClass : (s.con con).cls = .unknown) (hNick : s.users.lookup u.nick = none)
    (hCon : u.con = con) : Registry ((s.tieLocal con u).addUser s.next) := by
  refine h.addUser rfl rfl rfl ?_ ?_ ?_ ?_ ?_ ?_ ?_
  · intro v hv
    simp [Core.tieLocal, hv]
  · intro c hc
    have hNe : c ≠ con := by
      rintro rfl
      exact hc hClass
    simp [Core.tieLocal, hNe]
  · intro c
    by_cases hc : c = con <;> simp [Core.tieLocal, hc]
  · simpa [Core.tieLocal] using hNick
  · intro c _ _
    by_cases hc : c = con
    · subst hc
      right
      simp [Core.tieLocal, hCon]
    · left
      simp [Core.tieLocal, hc]
  · intro _
    simp [Core.tieLocal, hCon, hOpen]
  · intro hLocal
    simp [Core.tieLocal] at hLocal

theorem loginRemote (h : Registry s) {u : User} {server : Str}
    (hOpen : (s.con u.con).allocated = true) (hClass : (s.con u.con).cls = .server)
    (hNick : s.users.lookup u.nick = none) (hLocal : u.isLocal = false) :
    Registry ((s.tieRemote u server).addUser s.next) := by
  refine h.addUser rfl rfl rfl ?_ (fun _ _ => rfl) (fun _ => rfl) ?_ (fun _ _ _ => .inl rfl) ?_ ?_
  · intro v hv
    simp [Core.tieRemote, hv]
  · simpa [Core.tieRemote] using hNick
  · intro hL
    simp [Core.tieRemote, hLocal] at hL
  · intro _
    simp [Core.tieRemote, hOpen, hClass]

/-- `remove_user` changes the table of users, and nothing else that the registry is about. -/
theorem sameUsers_removeUser (h : Registry s) {con : ConId} {user : UserId}
    (hUser : user ∈ s.users.values) (hOwner : (s.con con).user = some user) :
    SameUsers { s with users := s.users.remove (s.user user).nick } (s.removeUser con) := by
  simp only [Core.removeUser, hOwner]
  exact (Core.sameUsers_hashRemoveUser (h.lookup_nick hUser)).trans
    (Core.sameUsers_freeOptions _ con)

/-- Removing the user of a connection, when the connection itself then goes or loses its class. -/
theorem removeUser (h : Registry s) {con : ConId} {f : Connection → Connection}
    (hOpen : (s.con con).allocated = true) (hClass : (s.con con).cls = .user)
    (hGone : (f ((s.removeUser con).con con)).allocated = true →
      (f ((s.removeUser con).con con)).cls = .unknown) :
    Registry ((s.removeUser con).modCon con f) := by
  obtain ⟨user, hUser, hOwner, hCon, -⟩ := h.client con hOpen hClass
  have hSame := h.sameUsers_removeUser hUser hOwner
  have hRetire := h.retire (f := fun _ => f ((s.removeUser con).con con)) hOpen hClass hUser hCon
    hOwner hGone
  rw [← (s.removeUser con).modCon_congr con (f := fun _ => f ((s.removeUser con).con con)) rfl]
  exact hRetire.sameUsers (hSame.modCon con rfl rfl rfl)

theorem zap (h : Registry s) {con : ConId} (hOpen : (s.con con).allocated = true)
    (hClass : (s.con con).cls = .user) : Registry (s.zapLocalUser con) := by
  have hKilled : Registry (s.modCon con fun c => { c with killed := true }) :=
    h.sameUsers (.quiet (s.skeleton_modCon con rfl))
  have hOpen' : ((s.modCon con fun c => { c with killed := true }).con con).allocated = true := by
    simpa using hOpen
  exact hKilled.removeUser
    (f := fun c => { c with cls := .unknown, uopt := none, user := none, destroy := true })
    hOpen' (by simpa using hClass) fun _ => rfl

/-- What `zap_local_user` leaves of the table of users and of the other connections. -/
theorem zap_rest (h : Registry s) {con : ConId} {user : UserId} (hUser : user ∈ s.users.values)
    (hOwner : (s.con con).user = some user) :
    (s.zapLocalUser con).users = s.users.remove (s.user user).nick ∧
      ∀ c, c ≠ con → ((s.zapLocalUser con).con c).allocated = (s.con c).allocated ∧
        ((s.zapLocalUser con).con c).cls = (s.con c).cls := by
  have hKilled : Registry (s.modCon con fun c => { c with killed := true }) :=
    h.sameUsers (.quiet (s.skeleton_modCon con rfl))
  have hOwner' : ((s.modCon con fun c => { c with killed := true }).con con).user = some user := by
    simpa using hOwner
  have hSame := hKilled.sameUsers_removeUser hUser hOwner'
  refine ⟨hSame.users, fun c hc => ?_⟩
  have hAllocated := hSame.allocated c
  have hCls := hSame.cls c
  simp only [Core.modCon_con, hc, if_false] at hAllocated hCls
  simp only [Core.zapLocalUser, Core.modCon_con, hc, if_false]
  exact ⟨hAllocated, hCls⟩

theorem hangUp (h : Registry s) {con : ConId} (hOpen : (s.con con).allocated = true)
    (hClass : (s.con con).cls = .user) :
    Registry (((s.removeUser con).freeConnection con).note (.removed con)) := by
  have hFree : Registry ((s.removeUser con).modCon con fun c => { c with allocated := false }) :=
    h.removeUser hOpen hClass fun hNot => absurd hNot (by simp)
  exact { hFree with }

theorem close (h : Registry s) {con : ConId} (hClass : (s.con con).cls ≠ .user)
    (hUsers : ∀ u ∈ s.users.values, (s.user u).con ≠ con) (hLinked : con ∉ s.servers) :
    Registry ((s.freeConnection con).note (.removed con)) := by
  have hFree : Registry (s.modCon con fun c => { c with allocated := false }) :=
    h.modCon hClass hUsers (fun hIn => absurd hIn hLinked) (fun hNot => absurd hNot (by simp)) hClass
  exact { hFree with }

/-- At the start there are neither users nor connections. -/
theorem start (f : Startup) : Registry (Core.start f) := by
  obtain ⟨_, _, _, _, _, _, hStart⟩ := Core.loaded_start f
  rw [hStart]
  constructor <;> simp [Core.empty, Bucket.Table.distinct_empty]

/-- Every operation keeps the registry. -/
theorem op {ok : Label → Core → Prop} (hOp : Op ok s t) (h : Registry s) : Registry t := by
  cases hOp with
  | quiet hDetail =>
    exact h.sameUsers (.quiet (Core.skeleton_of_outline (Core.outline_of_detail hDetail)))
  | fine hFine =>
    obtain ⟨n, hNext, hOutline⟩ := hFine.outline
    have hRaised : Registry { s with next := n } :=
      h.sameUsers { SameUsers.refl s with next := hNext }
    exact hRaised.sameUsers (.quiet (Core.skeleton_of_outline hOutline))
  | tick seconds => exact { h with }
  | addRecord => exact h.sameUsers { SameUsers.refl s with next := Nat.le_succ _ }
  | setRecord | dropRecord => exact h.sameUsers (.quiet rfl)
  | person hPersonal =>
    have hOutline := Core.channelOutline_of_personal hPersonal
    exact h.sameUsers (.quiet (Core.skeleton_of_channelOutline hOutline))
  | setUserLevel => exact h.sameUsers (.quiet (s.skeleton_modUser _ rfl))
  | addBan | dropBans => exact h.sameUsers (.quiet rfl)
  | accept ip host port localPort => exact h.accept ip host port localPort
  | linkServer hOpen hClass => exact h.linkServer hOpen hClass
  | unlinkServer con => exact h.unlinkServer con
  | loginLocal hOpen hClass hNick hCon => exact h.loginLocal hOpen hClass hNick hCon
  | loginRemote hOpen hClass hNick hLocal => exact h.loginRemote hOpen hClass hNick hLocal
  | removeRemote hUser hLocal =>
    exact (h.removeRemote hUser hLocal).sameUsers
      (Core.sameUsers_hashRemoveUser (h.lookup_nick hUser))
  | zap hOpen hClass => exact h.zap hOpen hClass
  | hangUp hOpen hClass => exact h.hangUp hOpen hClass
  | close _ hClass hUsers _ hLinked => exact h.close hClass hUsers hLinked
  | enter => exact h.sameUsers (.chan (s.chanStep_enterAs _ _))
  | found =>
    exact h.sameUsers (.chan ((s.chanStep_newChannel _).trans (Core.chanStep_enterChannel _ _ _)))
  | leave =>
    exact h.sameUsers (.chan ((s.chanStep_deleteChannel _ _).trans (Core.chanStep_partChannel _ _ _)))
  | dropChannel => exact h.sameUsers (.chan (s.chanStep_hashRemoveChannel _))
  | flagChannel | setTopic | setLevel | setLimit =>
    exact h.sameUsers (.chan (s.chanStep_modChan _ _))
  | addOperator => exact h.sameUsers (.chan (s.chanStep_addOperator _ _))
  | dropOperator => exact h.sameUsers (.chan (s.chanStep_dropOperator _ _))
  | insert => exact h.sameUsers (.file (s.fileStep_insertDatum _ _ _))
  | dropFile => exact h.sameUsers (.file (s.fileStep_dropFile _ _ _))
  | report => exact h.sameUsers (.file (s.fileStep_reportShared _ _ _ _))
  | collect => exact h.sameUsers (.file s.fileStep_fdbGarbageCollect)
  | finishSearch => exact h.sameUsers (.search (s.searchStep_finishSearch _ _ _))
  | forwardSearch => exact h.sameUsers (.search (s.searchStep_forwardSearch _ _ _ _))
  | result => exact h.sameUsers (.search (s.searchStep_note _))
  | expire => exact h.sameUsers (.search (s.searchStep_expireSearches _ _))
  | answer => exact h.sameUsers (.search (s.searchStep_answerSearch _ _))
  | cancel =>
    exact h.sameUsers (.search ((s.searchStep_note _).trans (Core.searchStep_cancelSearch _ _)))

/-- Any number of operations keep the registry. -/
theorem path {ok : Label → Core → Prop} (hPath : Op.Path ok s t) (h : Registry s) : Registry t :=
  hPath.invariant (fun _ _ hOp h => h.op hOp) h

end Registry

end OpenNap
