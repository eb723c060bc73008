import OpenNap.Registry

/-! The graph of channel memberships.  A membership is stored with the channel and with the user.
`Graph` says that the two halves agree, where the half of the users is a function of its own: while
a user is being removed the list in the user's record is out of date, and the function is what it
would be.  `Membership` is the invariant of the server: the function is the one in the records, and
no channel that users created is empty. -/

namespace OpenNap

open CText

/-- From `s` to `t` neither the channels nor their members change. -/
structure SameChannels (s t : Core) : Prop where
  channels : t.channels = s.channels
  users : t.users = s.users
  next : s.next ≤ t.next
  name : ∀ c, (t.chan c).name = (s.chan c).name
  members : ∀ c, (t.chan c).members = (s.chan c).members
  onUser : ∀ c, (t.chan c).onUser = (s.chan c).onUser
  lists : ∀ u, (t.user u).channels = (s.user u).channels

namespace SameChannels

theorem refl (s : Core) : SameChannels s s :=
  ⟨rfl, rfl, le_refl _, fun _ => rfl, fun _ => rfl, fun _ => rfl, fun _ => rfl⟩

theorem trans {s t u : Core} (h1 : SameChannels s t) (h2 : SameChannels t u) :
    SameChannels s u where
  channels := h2.channels.trans h1.channels
  users := h2.users.trans h1.users
  next := h1.next.trans h2.next
  name c := (h2.name c).trans (h1.name c)
  members c := (h2.members c).trans (h1.members c)
  onUser c := (h2.onUser c).trans (h1.onUser c)
  lists x := (h2.lists x).trans (h1.lists x)

theorem foldl {α : Type} {f : Core → α → Core} (h : ∀ s a, SameChannels s (f s a))
    (l : List α) (s : Core) : SameChannels s (l.foldl f s) := by
  induction l generalizing s with
  | nil => exact refl s
  | cons a l ih => exact (h s a).trans (ih _)

theorem quiet {s t : Core} (h : t.skeleton = s.skeleton) : SameChannels s t where
  channels := (congrArg Core.channels h :)
  users := (congrArg Core.users h :)
  next := (congrArg Core.next h).ge
  name c := (congrArg Channel.name (Core.bare_chan h c) :)
  members c := by simpa using congrArg Channel.members (Core.bare_chan h c)
  onUser c := (congrArg Channel.onUser (Core.bare_chan h c) :)
  lists u := (congrArg User.channels (Core.bare_user h u) :)

theorem file {s t : Core} (h : FileStep s t) : SameChannels s t := by
  have hChan (c : ChanId) : t.chan c = s.chan c := congrFun (congrArg Core.chan h.rest) c
  exact {
    channels := (congrArg Core.channels h.rest :)
    users := (congrArg Core.users h.rest :)
    next := h.next
    name := fun c => by rw [hChan]
    members := fun c => by rw [hChan]
    onUser := fun c => by rw [hChan]
    lists := fun u => by
      simpa [Core.eraseFile] using congrArg User.channels (congrFun (congrArg Core.user h.rest) u) }

theorem search {s t : Core} (h : SearchStep s t) : SameChannels s t := by
  have hChan (c : ChanId) : t.chan c = s.chan c := congrFun (congrArg Core.chan h.rest) c
  have hUser (u : UserId) : t.user u = s.user u := congrFun (congrArg Core.user h.rest) u
  exact {
    channels := (congrArg Core.channels h.rest :)
    users := (congrArg Core.users h.rest :)
    next := (congrArg Core.next h.rest).ge
    name := fun c => by rw [hChan]
    members := fun c => by rw [hChan]
    onUser := fun c => by rw [hChan]
    lists := fun u => by rw [hUser] }

/-- A change of a channel that keeps its name, its members and its flag. -/
theorem modChan (s : Core) (chan : ChanId) {f : Channel → Channel}
    (hName : (f (s.chan chan)).name = (s.chan chan).name)
    (hMembers : (f (s.chan chan)).members = (s.chan chan).members)
    (hFlag : (f (s.chan chan)).onUser = (s.chan chan).onUser) :
    SameChannels s (s.modChan chan f) where
  channels := rfl
  users := rfl
  next := le_refl _
  name c := by by_cases hc : c = chan <;> simp [hc, hName]
  members c := by by_cases hc : c = chan <;> simp [hc, hMembers]
  onUser c := by by_cases hc : c = chan <;> simp [hc, hFlag]
  lists _ := rfl

/-- A change of a user that keeps the user's channels. -/
theorem modUser (s : Core) (user : UserId) {f : User → User}
    (h : (f (s.user user)).channels = (s.user user).channels) :
    SameChannels s (s.modUser user f) where
  channels := rfl
  users := rfl
  next := le_refl _
  name _ := rfl
  members _ := rfl
  onUser _ := rfl
  lists u := by by_cases hu : u = user <;> simp [hu, h]

end SameChannels

namespace Core

theorem members_channelRemove (s : Core) (chan : ChanId) (user : UserId) (c : ChanId) :
    ((s.channelRemove chan user).chan c).members =
      if c = chan then (s.chan c).members.erase user else (s.chan c).members := by
  by_cases hc : c = chan
  · simp [channelRemove, Channel.members, hc, List.erase_eq_eraseP', List.eraseP_map,
      Function.comp_def]
  · simp [channelRemove, hc]

theorem members_enterChannel (s : Core) (user : UserId) (chan c : ChanId) :
    ((s.enterChannel user chan).chan c).members =
      if c = chan then user :: (s.chan c).members else (s.chan c).members := by
  by_cases hc : c = chan
  · simp [enterChannel, Channel.members, hc]
  · simp [enterChannel, hc]

end Core

/-- The graph of memberships, where `link` gives the channels of every user. -/
structure Graph (s : Core) (link : UserId → List ChanId) : Prop where
  named : ∀ e ∈ s.channels.entries, (s.chan e.2).name = e.1
  once : s.channels.values.Nodup
  known : ∀ chan ∈ s.channels.values, chan < s.next
  single : ∀ user ∈ s.users.values, (link user).Nodup
  joined : ∀ user ∈ s.users.values, ∀ chan ∈ link user,
    chan ∈ s.channels.values ∧ user ∈ (s.chan chan).members
  nodup : ∀ chan ∈ s.channels.values, (s.chan chan).members.Nodup
  listed : ∀ chan ∈ s.channels.values, ∀ user ∈ (s.chan chan).members,
    user ∈ s.users.values ∧ chan ∈ link user
  first : ∀ chan ∈ s.channels.values, (s.chan chan).members ≠ [] →
    s.channels.lookup (s.chan chan).name = some chan

namespace Graph

variable {s t : Core} {link link' : UserId → List ChanId}

theorem same (h : Graph s link) (hSame : SameChannels s t) : Graph t link where
  named e he := by
    rw [hSame.channels] at he
    rw [hSame.name, h.named e he]
  once := by rw [hSame.channels]; exact h.once
  known chan hChan := by
    rw [hSame.channels] at hChan
    exact (h.known chan hChan).trans_le hSame.next
  single user hUser := by
    rw [hSame.users] at hUser
    exact h.single user hUser
  joined user hUser chan hChan := by
    rw [hSame.users] at hUser
    rw [hSame.channels, hSame.members]
    exact h.joined user hUser chan hChan
  nodup chan hChan := by
    rw [hSame.channels] at hChan
    rw [hSame.members]
    exact h.nodup chan hChan
  listed chan hChan user hUser := by
    rw [hSame.channels] at hChan
    rw [hSame.members] at hUser
    rw [hSame.users]
    exact h.listed chan hChan user hUser
  first chan hChan hSome := by
    rw [hSame.channels] at hChan ⊢
    rw [hSame.members] at hSome
    rw [hSame.name]
    exact h.first chan hChan hSome

/-- Only the channels of users in the table count. -/
theorem congr (h : Graph s link) (hLink : ∀ user ∈ s.users.values, link' user = link user) :
    Graph s link' where
  named := h.named
  once := h.once
  known := h.known
  single user hUser := by rw [hLink user hUser]; exact h.single user hUser
  joined user hUser := by rw [hLink user hUser]; exact h.joined user hUser
  nodup := h.nodup
  listed chan hChan user hUser := by
    have hOld := h.listed chan hChan user hUser
    exact ⟨hOld.1, by rw [hLink user hOld.1]; exact hOld.2⟩
  first := h.first

/-- A search by name finds a channel of that name, which is what a search by its own name finds. -/
theorem lookup_name (h : Graph s link) {name : Str} {chan : ChanId}
    (hName : s.channels.lookup name = some chan) :
    s.channels.lookup (s.chan chan).name = some chan := by
  obtain ⟨key, hEntry, hKey⟩ := Bucket.Table.lookup_some hName
  have hSame : s.channels.lookup (s.chan chan).name = s.channels.lookup name := by
    rw [h.named _ hEntry]
    exact Bucket.Table.lookup_congr hKey
  rw [hSame, hName]

/-- Removing a channel by its name leaves the other channels. -/
theorem mem_remove (h : Graph s link) {name : Str} {chan : ChanId}
    (hName : s.channels.lookup name = some chan) {c : ChanId} :
    c ∈ (s.channels.remove name).values ↔ c ∈ s.channels.values ∧ c ≠ chan := by
  have hPerm := Bucket.Table.values_remove hName
  have hNot : chan ∉ (s.channels.remove name).values :=
    (List.nodup_cons.1 (hPerm.nodup_iff.1 h.once)).1
  constructor
  · intro hc
    exact ⟨Bucket.Table.mem_values_of_mem_remove hc, fun hEq => hNot (hEq ▸ hc)⟩
  · rintro ⟨hc, hNe⟩
    exact (List.mem_cons.1 (hPerm.mem_iff.1 hc)).resolve_left hNe

/-- An empty channel goes. -/
theorem removeChannel (h : Graph s link) {name : Str} {chan : ChanId}
    (hName : s.channels.lookup name = some chan) (hEmpty : (s.chan chan).members = []) :
    Graph { s with channels := s.channels.remove name } link where
  named e he := h.named e (Bucket.Table.mem_entries_of_mem_remove he)
  once := (List.nodup_cons.1 ((Bucket.Table.values_remove hName).nodup_iff.1 h.once)).2
  known c hc := h.known c ((h.mem_remove hName).1 hc).1
  single := h.single
  joined user hUser c hc := by
    obtain ⟨hIn, hMember⟩ := h.joined user hUser c hc
    refine ⟨(h.mem_remove hName).2 ⟨hIn, ?_⟩, hMember⟩
    rintro rfl
    simp [hEmpty] at hMember
  nodup c hc := h.nodup c ((h.mem_remove hName).1 hc).1
  listed c hc := h.listed c ((h.mem_remove hName).1 hc).1
  first c hc hSome := by
    obtain ⟨hIn, hNe⟩ := (h.mem_remove hName).1 hc
    have hFirst := h.first c hIn hSome
    rw [← hFirst]
    refine Bucket.Table.lookup_remove_of_ne _ fun hEq => hNe ?_
    have hSame : s.channels.lookup name = s.channels.lookup (s.chan c).name :=
      Bucket.Table.lookup_congr hEq
    rw [hName, hFirst] at hSame
    exact (Option.some.inj hSame).symm

/-- A membership ends. -/
theorem removeMember (h : Graph s link) {user : UserId} {chan : ChanId}
    (hUser : user ∈ s.users.values) (hChan : chan ∈ link user) :
    Graph (s.channelRemove chan user) (Function.update link user ((link user).erase chan)) := by
  have hIn := h.joined user hUser chan hChan
  have hNodup := h.nodup chan hIn.1
  have hSingle := h.single user hUser
  have hMembers (c : ChanId) := s.members_channelRemove chan user c
  have hName (c : ChanId) : ((s.channelRemove chan user).chan c).name = (s.chan c).name := by
    by_cases hc : c = chan <;> simp [Core.channelRemove, hc]
  exact {
    named := fun e he => by rw [hName]; exact h.named e he
    once := h.once
    known := h.known
    single := by
      intro u hu
      by_cases hEq : u = user
      · subst hEq
        simpa using hSingle.erase chan
      · simpa [Function.update_of_ne hEq] using h.single u hu
    joined := by
      intro u hu c hc
      rw [hMembers]
      by_cases hEq : u = user
      · subst hEq
        rw [Function.update_self] at hc
        obtain ⟨hNe, hc⟩ := hSingle.mem_erase_iff.1 hc
        rw [if_neg hNe]
        exact h.joined u hu c hc
      · rw [Function.update_of_ne hEq] at hc
        obtain ⟨hIn', hMember⟩ := h.joined u hu c hc
        refine ⟨hIn', ?_⟩
        split
        · exact (List.mem_erase_of_ne hEq).2 hMember
        · exact hMember
    nodup := by
      intro c hc
      rw [hMembers]
      split
      · exact (h.nodup c hc).erase user
      · exact h.nodup c hc
    listed := by
      intro c hc u hu
      rw [hMembers] at hu
      by_cases hEq : u = user
      · subst hEq
        rw [Function.update_self]
        split at hu
        · rename_i hEq
          exact absurd rfl ((h.nodup c hc).mem_erase_iff.1 hu).1
        · rename_i hNe
          obtain ⟨hu', hLink⟩ := h.listed c hc u hu
          exact ⟨hu', hSingle.mem_erase_iff.2 ⟨hNe, hLink⟩⟩
      · rw [Function.update_of_ne hEq]
        refine h.listed c hc u ?_
        split at hu
        · exact List.mem_of_mem_erase hu
        · exact hu
    first := by
      intro c hc hSome
      rw [hName]
      refine h.first c hc fun hNil => hSome ?_
      rw [hMembers, hNil]
      split <;> simp }

/-- A membership begins. -/
theorem addMember (h : Graph s link) {user : UserId} {chan : ChanId} {name : Str}
    (hUser : user ∈ s.users.values) (hName : s.channels.lookup name = some chan)
    (hNot : chan ∉ link user) :
    Graph (s.enterChannel user chan) (Function.update link user (chan :: link user)) := by
  have hMembers (c : ChanId) := s.members_enterChannel user chan c
  have hNames (c : ChanId) : ((s.enterChannel user chan).chan c).name = (s.chan c).name := by
    by_cases hc : c = chan <;> simp [Core.enterChannel, hc]
  have hIn : chan ∈ s.channels.values := Bucket.Table.mem_values_of_lookup hName
  exact {
    named := fun e he => by rw [hNames]; exact h.named e he
    once := h.once
    known := h.known
    single := by
      intro u hu
      by_cases hEq : u = user
      · subst hEq
        simpa using ⟨hNot, h.single u hu⟩
      · simpa [Function.update_of_ne hEq] using h.single u hu
    joined := by
      intro u hu c hc
      rw [hMembers]
      by_cases hEq : u = user
      · subst hEq
        rw [Function.update_self] at hc
        rcases List.mem_cons.1 hc with rfl | hc
        · exact ⟨hIn, by simp⟩
        · obtain ⟨hIn', hMember⟩ := h.joined u hu c hc
          refine ⟨hIn', ?_⟩
          split
          · exact List.mem_cons_of_mem _ hMember
          · exact hMember
      · rw [Function.update_of_ne hEq] at hc
        obtain ⟨hIn', hMember⟩ := h.joined u hu c hc
        refine ⟨hIn', ?_⟩
        split
        · exact List.mem_cons_of_mem _ hMember
        · exact hMember
    nodup := by
      intro c hc
      rw [hMembers]
      split
      · rename_i hEq
        subst hEq
        exact List.nodup_cons.2 ⟨fun hMember => hNot (h.listed c hc user hMember).2, h.nodup c hc⟩
      · exact h.nodup c hc
    listed := by
      intro c hc u hu
      rw [hMembers] at hu
      by_cases hEq : u = user
      · subst hEq
        rw [Function.update_self]
        refine ⟨hUser, ?_⟩
        split at hu
        · rename_i hEq
          simp [hEq]
        · exact List.mem_cons_of_mem _ (h.listed c hc u hu).2
      · rw [Function.update_of_ne hEq]
        refine h.listed c hc u ?_
        split at hu
        · exact (List.mem_cons.1 hu).resolve_left hEq
        · exact hu
    first := by
      intro c hc hSome
      rw [hNames]
      by_cases hEq : c = chan
      · subst hEq
        exact h.lookup_name hName
      · rw [hMembers, if_neg hEq] at hSome
        exact h.first c hc hSome }

/-- A channel without members is created. -/
theorem newChannel (h : Graph s link) {name : Str} (hNone : s.channels.lookup name = none) :
    Graph (s.newChannel name) link := by
  have hNone' := Bucket.Table.lookup_eq_none.1 hNone
  have hMem (c : ChanId) : c ∈ (s.newChannel name).channels.values ↔
      c = s.next ∨ c ∈ s.channels.values := by
    rw [← List.mem_cons]
    exact (s.channels.values_add _ _).mem_iff
  have hOld (c : ChanId) (hc : c ∈ s.channels.values) : (s.newChannel name).chan c = s.chan c := by
    simp [Core.newChannel, (h.known c hc).ne]
  have hNew : ((s.newChannel name).chan s.next).members = [] := by
    simp [Core.newChannel, Channel.members]
  exact {
    named := by
      intro e he
      rcases List.mem_cons.1 ((s.channels.entries_add _ _).mem_iff.1 he) with rfl | he
      · simp [Core.newChannel]
      · rw [hOld _ (Bucket.Table.mem_values.2 ⟨e.1, he⟩)]
        exact h.named e he
    once := by
      refine (s.channels.values_add _ _).nodup_iff.2 (List.nodup_cons.2 ⟨fun hIn => ?_, h.once⟩)
      exact (h.known _ hIn).ne rfl
    known := by
      intro c hc
      rcases (hMem c).1 hc with rfl | hc
      · exact Nat.lt_succ_self _
      · exact (h.known c hc).trans (Nat.lt_succ_self _)
    single := h.single
    joined := by
      intro u hu c hc
      obtain ⟨hIn, hMember⟩ := h.joined u hu c hc
      exact ⟨(hMem c).2 (.inr hIn), by rwa [hOld c hIn]⟩
    nodup := by
      intro c hc
      rcases (hMem c).1 hc with rfl | hc
      · rw [hNew]
        exact List.nodup_nil
      · rw [hOld c hc]
        exact h.nodup c hc
    listed := by
      intro c hc u hu
      rcases (hMem c).1 hc with rfl | hc
      · rw [hNew] at hu
        cases hu
      · rw [hOld c hc] at hu
        exact h.listed c hc u hu
    first := by
      intro c hc hSome
      rcases (hMem c).1 hc with rfl | hc
      · exact absurd hNew hSome
      · rw [hOld c hc] at hSome ⊢
        have hFirst := h.first c hc hSome
        refine (s.channels.lookup_add _ _ _).trans ?_
        rw [if_neg ?_, hFirst]
        intro hEq
        obtain ⟨key, hEntry, hKey⟩ := Bucket.Table.lookup_some hFirst
        exact hNone' _ hEntry (hKey.trans hEq.symm) }

/-- A user without channels goes. -/
theorem removeUser (h : Graph s link) {users : NameTable UserId} {user : UserId}
    (hUsers : ∀ u, u ∈ users.values ↔ u ∈ s.users.values ∧ u ≠ user) (hNone : link user = []) :
    Graph { s with users := users } link where
  named := h.named
  once := h.once
  known := h.known
  single u hu := h.single u ((hUsers u).1 hu).1
  joined u hu := h.joined u ((hUsers u).1 hu).1
  nodup := h.nodup
  listed c hc u hu := by
    obtain ⟨hIn, hLink⟩ := h.listed c hc u hu
    refine ⟨(hUsers u).2 ⟨hIn, ?_⟩, hLink⟩
    rintro rfl
    simp [hNone] at hLink
  first := h.first

/-- A user without channels comes. -/
theorem addUser (h : Graph s link) {users : NameTable UserId} {user : UserId}
    (hUsers : ∀ u, u ∈ users.values ↔ u = user ∨ u ∈ s.users.values) (hNone : link user = []) :
    Graph { s with users := users } link where
  named := h.named
  once := h.once
  known := h.known
  single u hu := by
    rcases (hUsers u).1 hu with rfl | hu
    · simp [hNone]
    · exact h.single u hu
  joined u hu := by
    rcases (hUsers u).1 hu with rfl | hu
    · simp [hNone]
    · exact h.joined u hu
  nodup := h.nodup
  listed c hc u hu := by
    obtain ⟨hIn, hLink⟩ := h.listed c hc u hu
    exact ⟨(hUsers u).2 (.inr hIn), hLink⟩
  first := h.first

/-- The two lists agree on how often a user is in a channel, which is once at most. -/
theorem count (h : Graph s link) {user : UserId} (hUser : user ∈ s.users.values) {chan : ChanId}
    (hChan : chan ∈ s.channels.values) :
    (s.chan chan).members.count user = (link user).count chan ∧ (link user).count chan ≤ 1 := by
  by_cases hIn : user ∈ (s.chan chan).members
  · have hBack := (h.listed chan hChan user hIn).2
    rw [List.count_eq_one_of_mem (h.nodup chan hChan) hIn,
      List.count_eq_one_of_mem (h.single user hUser) hBack]
    exact ⟨rfl, le_refl 1⟩
  · have hBack : chan ∉ link user := fun hBack => hIn (h.joined user hUser chan hBack).2
    rw [List.count_eq_zero_of_not_mem hIn, List.count_eq_zero_of_not_mem hBack]
    exact ⟨rfl, Nat.zero_le 1⟩

end Graph

/-- The invariant of channels and their members. -/
structure Membership (s : Core) : Prop where
  graph : Graph s fun user => (s.user user).channels
  kept : ∀ chan ∈ s.channels.values, (s.chan chan).onUser = true → (s.chan chan).members ≠ []

/-! ### Leaving -/

namespace Core

/-- Removing a channel from the table changes nothing else about channels. -/
theorem sameChannels_hashRemoveChannel {s : Core} {name : Str} {chan : ChanId}
    (h : s.channels.lookup name = some chan) :
    SameChannels { s with channels := s.channels.remove name } (s.hashRemoveChannel name) := by
  have hFree : SameChannels s (s.freeChannel chan) :=
    SameChannels.foldl (fun s user => SameChannels.modUser s user rfl) _ s
  simp only [hashRemoveChannel, h]
  exact { hFree with channels := by rw [hFree.channels] }

theorem lists_partChannel (s : Core) (chan : ChanId) (user u : UserId) :
    ((s.partChannel chan user).user u).channels = (s.user u).channels := by
  have hRemove (t : Core) (name : Str) :
      ((t.hashRemoveChannel name).user u).channels = (t.user u).channels := by
    cases hName : t.channels.lookup name with
    | none => simp only [hashRemoveChannel, hName]
    | some c => exact (sameChannels_hashRemoveChannel hName).lists u
  simp only [partChannel]
  split
  · rw [hRemove]
    rfl
  · rfl

theorem lists_partChannels (s : Core) (user u : UserId) (l : List ChanId) :
    ((l.foldl (fun s chan => s.partChannel chan user) s).user u).channels =
      (s.user u).channels := by
  induction l generalizing s with
  | nil => rfl
  | cons chan l ih => rw [List.foldl_cons, ih, lists_partChannel]

end Core

namespace Graph

variable {s : Core} {link : UserId → List ChanId}

/-- `part_channel` ends a membership and removes the channel if it is empty and its members were
all that kept it. -/
theorem part (h : Graph s link) {user : UserId} {chan : ChanId} (hUser : user ∈ s.users.values)
    (hChan : chan ∈ link user)
    (hKept : ∀ c ∈ s.channels.values, (s.chan c).onUser = true → (s.chan c).members ≠ []) :
    Graph (s.partChannel chan user) (Function.update link user ((link user).erase chan)) ∧
      ∀ c ∈ (s.partChannel chan user).channels.values,
        ((s.partChannel chan user).chan c).onUser = true →
          ((s.partChannel chan user).chan c).members ≠ [] := by
  obtain ⟨hIn, hMember⟩ := h.joined user hUser chan hChan
  have hGraph := h.removeMember hUser hChan
  have hName : (s.channelRemove chan user).channels.lookup
      ((s.channelRemove chan user).chan chan).name = some chan := by
    have hFirst := h.first chan hIn (List.ne_nil_of_mem hMember)
    simpa [Core.channelRemove] using hFirst
  have hFlag (c : ChanId) : ((s.channelRemove chan user).chan c).onUser = (s.chan c).onUser := by
    by_cases hc : c = chan <;> simp [Core.channelRemove, hc]
  have hOther (c : ChanId) (hc : c ≠ chan) :
      ((s.channelRemove chan user).chan c).members = (s.chan c).members := by
    rw [Core.members_channelRemove, if_neg hc]
  simp only [Core.partChannel]
  split
  · rename_i hGone
    simp only [Bool.and_eq_true, List.isEmpty_iff] at hGone
    have hEmpty : ((s.channelRemove chan user).chan chan).members = [] := by
      rw [Channel.members, hGone.1]
      rfl
    have hSame := Core.sameChannels_hashRemoveChannel hName
    refine ⟨(hGraph.removeChannel hName hEmpty).same hSame, ?_⟩
    intro c hc hUserFlag
    rw [hSame.channels] at hc
    rw [hSame.onUser] at hUserFlag
    obtain ⟨hc, hNe⟩ := (hGraph.mem_remove hName).1 hc
    rw [hSame.members]
    change ((s.channelRemove chan user).chan c).members ≠ []
    rw [hOther c hNe]
    exact hKept c hc ((hFlag c).symm.trans hUserFlag)
  · rename_i hStays
    refine ⟨hGraph, ?_⟩
    intro c hc hUserFlag
    by_cases hEq : c = chan
    · subst hEq
      intro hNil
      refine hStays ?_
      simp only [Bool.and_eq_true, List.isEmpty_iff]
      exact ⟨List.map_eq_nil_iff.1 hNil, hUserFlag⟩
    · rw [hOther c hEq]
      exact hKept c hc ((hFlag c).symm.trans hUserFlag)

/-- The walk of `free_user` over the user's channels ends every membership of the user. -/
theorem partChannels {user : UserId} {l : List ChanId} (h : Graph s link)
    (hUser : user ∈ s.users.values) (hLink : link user = l)
    (hKept : ∀ c ∈ s.channels.values, (s.chan c).onUser = true → (s.chan c).members ≠ []) :
    Graph (l.foldl (fun s chan => s.partChannel chan user) s) (Function.update link user []) ∧
      ∀ c ∈ (l.foldl (fun s chan => s.partChannel chan user) s).channels.values,
        ((l.foldl (fun s chan => s.partChannel chan user) s).chan c).onUser = true →
          ((l.foldl (fun s chan => s.partChannel chan user) s).chan c).members ≠ [] := by
  induction l generalizing s link with
  | nil =>
    refine ⟨h.congr fun u _ => ?_, hKept⟩
    by_cases hu : u = user
    · rw [hu, Function.update_self, hLink]
    · rw [Function.update_of_ne hu]
  | cons chan l ih =>
    have hChan : chan ∈ link user := by simp [hLink]
    obtain ⟨hGraph, hKept'⟩ := h.part hUser hChan hKept
    have hUsers : (s.partChannel chan user).users = s.users :=
      (SameUsers.chan (s.chanStep_partChannel chan user)).users
    have hRest := ih hGraph (by rw [hUsers]; exact hUser) (by simp [hLink]) hKept'
    rw [Function.update_idem] at hRest
    exact hRest

end Graph

namespace Membership

variable {s t : Core}

theorem same (h : Membership s) (hSame : SameChannels s t) : Membership t where
  graph := (h.graph.same hSame).congr fun user _ => hSame.lists user
  kept chan hChan hFlag := by
    rw [hSame.channels] at hChan
    rw [hSame.onUser] at hFlag
    rw [hSame.members]
    exact h.kept chan hChan hFlag

/-- What `free_user` leaves: the user is in no channel any more, and every other user is in the same
channels as before. -/
theorem freeUser (h : Membership s) {user : UserId} (hUser : user ∈ s.users.values) :
    Graph (s.freeUser user) (Function.update (fun u => (s.user u).channels) user []) ∧
      (∀ c ∈ (s.freeUser user).channels.values, ((s.freeUser user).chan c).onUser = true →
        ((s.freeUser user).chan c).members ≠ []) ∧
      ∀ u, ((s.freeUser user).user u).channels = (s.user u).channels := by
  obtain ⟨hGraph, hKept⟩ := h.graph.partChannels hUser rfl h.kept
  have hDrop : SameChannels (s.partChannels user) ((s.partChannels user).dropInvitations user) :=
    SameChannels.foldl (fun s chan => SameChannels.modChan s chan rfl rfl rfl) _ _
  have hCount : FileStep ((s.partChannels user).dropInvitations user)
      (((s.partChannels user).dropInvitations user).uncountUser user) := ⟨rfl, le_refl _⟩
  have hSame : SameChannels (s.partChannels user) (s.freeUser user) :=
    (hDrop.trans (.file hCount)).trans (.quiet (Core.skeleton_recordLogoff _ _))
  refine ⟨hGraph.same hSame, ?_, fun u => ?_⟩
  · intro c hc hFlag
    rw [hSame.channels] at hc
    rw [hSame.onUser] at hFlag
    rw [hSame.members]
    exact hKept c hc hFlag
  · rw [hSame.lists]
    exact s.lists_partChannels user u _

theorem hashRemoveUser (h : Membership s) (hReg : Registry s) {user : UserId}
    (hUser : user ∈ s.users.values) : Membership (s.hashRemoveUser (s.user user).nick) := by
  obtain ⟨hGraph, hKept, hLists⟩ := h.freeUser hUser
  have hUsers : (s.freeUser user).users = s.users := (s.sameUsers_freeUser user).users
  simp only [Core.hashRemoveUser, hReg.lookup_nick hUser]
  have hMem (u : UserId) : u ∈ ((s.freeUser user).users.remove (s.user user).nick).values ↔
      u ∈ (s.freeUser user).users.values ∧ u ≠ user := by
    rw [hUsers]
    exact hReg.mem_remove hUser
  refine ⟨(hGraph.removeUser hMem (Function.update_self ..)).congr ?_, hKept⟩
  intro u hu
  rw [Function.update_of_ne ((hMem u).1 hu).2]
  exact hLists u

theorem freeOptions (h : Membership s) (con : ConId) : Membership (s.freeOptions con) := by
  have hHot (s : Core) (l : List HotlistId) :
      SameChannels s (l.foldl (fun s hot => s.leaveHotlist con hot) s) :=
    SameChannels.foldl (fun s hot => .quiet (s.skeleton_leaveHotlist con hot)) l s
  have hLast (s : Core) : SameChannels s (s.modCon con fun c => { c with uopt := none }) :=
    ⟨rfl, rfl, le_refl _, fun _ => rfl, fun _ => rfl, fun _ => rfl, fun _ => rfl⟩
  exact h.same (((hHot s _).trans (.file (Core.fileStep_freeFiles _ con))).trans (hLast _))

theorem removeUser (h : Membership s) (hReg : Registry s) {con : ConId}
    (hOpen : (s.con con).allocated = true) (hClass : (s.con con).cls = .user) :
    Membership (s.removeUser con) := by
  obtain ⟨user, hUser, hOwner, -⟩ := hReg.client con hOpen hClass
  simp only [Core.removeUser, hOwner]
  exact (h.hashRemoveUser hReg hUser).freeOptions con

/-- A change of connections alone. -/
theorem modCon (h : Membership s) (con : ConId) (f : Connection → Connection) :
    Membership (s.modCon con f) :=
  h.same ⟨rfl, rfl, le_refl _, fun _ => rfl, fun _ => rfl, fun _ => rfl, fun _ => rfl⟩

theorem zap (h : Membership s) (hReg : Registry s) {con : ConId}
    (hOpen : (s.con con).allocated = true) (hClass : (s.con con).cls = .user) :
    Membership (s.zapLocalUser con) := by
  have hKilled : Registry (s.modCon con fun c => { c with killed := true }) :=
    hReg.sameUsers (.quiet (s.skeleton_modCon con rfl))
  have hOpen' : ((s.modCon con fun c => { c with killed := true }).con con).allocated = true := by
    simpa using hOpen
  exact ((h.modCon con _).removeUser hKilled hOpen' (by simpa using hClass)).modCon con
    fun c => { c with cls := .unknown, uopt := none, user := none, destroy := true }

theorem freeConnection (h : Membership s) (con : ConId) :
    Membership ((s.freeConnection con).note (.removed con)) := by
  have hGone := h.modCon con fun c => { c with allocated := false }
  exact ⟨{ hGone.graph with }, hGone.kept⟩

/-- A login adds a user that is in no channel. -/
theorem login (h : Membership s) (hReg : Registry s) {nick : Str}
    (hUsers : t.users = s.users.add nick s.next) (hChannels : t.channels = s.channels)
    (hChan : t.chan = s.chan) (hNext : s.next ≤ t.next) (hNew : (t.user s.next).channels = [])
    (hOld : ∀ u, u ≠ s.next → (t.user u).channels = (s.user u).channels) : Membership t := by
  have hMem (u : UserId) : u ∈ t.users.values ↔ u = s.next ∨ u ∈ s.users.values := by
    rw [hUsers, ← List.mem_cons]
    exact (s.users.values_add _ _).mem_iff
  have hBase : Graph s fun u => (t.user u).channels :=
    h.graph.congr fun u hu => hOld u (hReg.knownUser u hu).ne
  have hOther : Graph { s with user := t.user } fun u => (t.user u).channels := { hBase with }
  have hGraph := hOther.addUser hMem hNew
  refine ⟨?_, by rw [hChannels, hChan]; exact h.kept⟩
  exact hGraph.same {
    channels := hChannels
    users := rfl
    next := hNext
    name := fun c => by rw [hChan]
    members := fun c => by rw [hChan]
    onUser := fun c => by rw [hChan]
    lists := fun _ => rfl }

theorem enter (h : Membership s) {user : UserId} {chan : ChanId} {name : Str}
    (hUser : user ∈ s.users.values) (hName : s.channels.lookup name = some chan)
    (hNot : chan ∉ (s.user user).channels) : Membership (s.enterChannel user chan) where
  graph := by
    refine (h.graph.addMember hUser hName hNot).congr fun u _ => ?_
    by_cases hu : u = user
    · subst hu
      simp [Core.enterChannel]
    · simp [Core.enterChannel, hu]
  kept c hc hFlag := by
    rw [s.members_enterChannel]
    by_cases hEq : c = chan
    · simp [hEq]
    · simp only [hEq, if_false]
      exact h.kept c hc (by simpa [Core.enterChannel, hEq] using hFlag)

/-- A user creates a channel and is its first member. -/
theorem found (h : Membership s) {user : UserId} {name : Str} (hUser : user ∈ s.users.values)
    (hNone : s.channels.lookup name = none) :
    Membership ((s.newChannel name).enterChannel user s.next) where
  graph := by
    have hNot : s.next ∉ (s.user user).channels := fun hIn =>
      (h.graph.known _ (h.graph.joined user hUser _ hIn).1).ne rfl
    have hName : (s.newChannel name).channels.lookup name = some s.next := by
      refine (s.channels.lookup_add _ _ _).trans ?_
      simp
    refine ((h.graph.newChannel hNone).addMember hUser hName hNot).congr fun u _ => ?_
    by_cases hu : u = user
    · subst hu
      simp [Core.enterChannel, Core.newChannel]
    · simp [Core.enterChannel, Core.newChannel, hu]
  kept c hc hFlag := by
    rw [Core.members_enterChannel]
    by_cases hEq : c = s.next
    · simp [hEq]
    · have hIn : c ∈ s.channels.values := by
        have hc' := (s.channels.values_add _ _).mem_iff.1 hc
        exact (List.mem_cons.1 hc').resolve_left hEq
      simp only [hEq, if_false]
      have hOld : (s.newChannel name).chan c = s.chan c := by simp [Core.newChannel, hEq]
      rw [hOld]
      exact h.kept c hIn (by simpa [Core.enterChannel, Core.newChannel, hEq] using hFlag)

theorem leave (h : Membership s) {user : UserId} {chan : ChanId} (hUser : user ∈ s.users.values)
    (hChan : chan ∈ (s.user user).channels) :
    Membership ((s.deleteChannel user chan).partChannel chan user) := by
  have hGraph : Graph (s.deleteChannel user chan) fun u => (s.user u).channels :=
    { h.graph with }
  obtain ⟨hPart, hKept⟩ := hGraph.part hUser hChan h.kept
  refine ⟨hPart.congr fun u _ => ?_, hKept⟩
  rw [Core.lists_partChannel]
  by_cases hu : u = user
  · subst hu
    simp [Core.deleteChannel]
  · simp [Core.deleteChannel, hu]

theorem dropChannel (h : Membership s) {chan : ChanId} {name : Str}
    (hName : s.channels.lookup name = some chan) (hEmpty : (s.chan chan).users = []) :
    Membership (s.hashRemoveChannel (s.chan chan).name) := by
  have hLookup := h.graph.lookup_name hName
  have hNone : (s.chan chan).members = [] := by
    rw [Channel.members, hEmpty]
    rfl
  have hGone : Membership { s with channels := s.channels.remove (s.chan chan).name } :=
    ⟨{ h.graph.removeChannel hLookup hNone with },
      fun c hc => h.kept c ((h.graph.mem_remove hLookup).1 hc).1⟩
  exact hGone.same (Core.sameChannels_hashRemoveChannel hLookup)

theorem flagChannel (h : Membership s) {chan : ChanId} (value : Bool)
    (hUsers : value = true → (s.chan chan).users ≠ []) :
    Membership (s.modChan chan fun c => { c with onUser := value }) := by
  have hMembers (c : ChanId) :
      ((s.modChan chan fun c => { c with onUser := value }).chan c).members =
        (s.chan c).members := by
    by_cases hc : c = chan <;> simp [hc, Channel.members]
  refine ⟨{ h.graph with
    named := fun e he => ?_
    joined := fun u hu c hc => by rw [hMembers]; exact h.graph.joined u hu c hc
    nodup := fun c hc => by rw [hMembers]; exact h.graph.nodup c hc
    listed := fun c hc u hu => h.graph.listed c hc u (by rwa [hMembers] at hu)
    first := fun c hc hSome => ?_ }, fun c hc hFlag => ?_⟩
  · have hName := h.graph.named e he
    by_cases hEq : e.2 = chan
    · simpa [hEq] using hEq ▸ hName
    · simpa [hEq] using hName
  · rw [hMembers] at hSome
    have hFirst := h.graph.first c hc hSome
    by_cases hEq : c = chan
    · subst hEq
      simpa using hFirst
    · simpa [hEq] using hFirst
  · rw [hMembers]
    by_cases hEq : c = chan
    · subst hEq
      have hSome := hUsers (by simpa using hFlag)
      simpa [Channel.members] using hSome
    · exact h.kept c hc (by simpa [hEq] using hFlag)

/-- A channel read from the channels file has no members; two channels of one name may be read. -/
theorem loadChannel (h : Membership s) (c : LoadedChannel) (hUsers : s.users.values = [])
    (hEmpty : ∀ chan ∈ s.channels.values, (s.chan chan).members = []) :
    Membership (s.loadChannel c) ∧
      ∀ chan ∈ (s.loadChannel c).channels.values, ((s.loadChannel c).chan chan).members = [] := by
  have hMem (chan : ChanId) : chan ∈ (s.loadChannel c).channels.values ↔
      chan = s.next ∨ chan ∈ s.channels.values := by
    rw [← List.mem_cons]
    exact (s.channels.values_add _ _).mem_iff
  have hOld (chan : ChanId) (hc : chan ∈ s.channels.values) :
      (s.loadChannel c).chan chan = s.chan chan := by
    simp [Core.loadChannel, (h.graph.known chan hc).ne]
  have hNew : ((s.loadChannel c).chan s.next).members = [] := by
    simp [Core.loadChannel, Channel.members]
  have hAll : ∀ chan ∈ (s.loadChannel c).channels.values,
      ((s.loadChannel c).chan chan).members = [] := by
    intro chan hc
    rcases (hMem chan).1 hc with rfl | hc
    · exact hNew
    · rw [hOld chan hc]
      exact hEmpty chan hc
  have hNone : ∀ u, u ∉ (s.loadChannel c).users.values := by
    intro u hu
    change u ∈ s.users.values at hu
    rw [hUsers] at hu
    cases hu
  refine ⟨⟨?_, ?_⟩, hAll⟩
  · exact {
      named := by
        intro e he
        rcases List.mem_cons.1 ((s.channels.entries_add _ _).mem_iff.1 he) with rfl | he
        · simp [Core.loadChannel]
        · rw [hOld _ (Bucket.Table.mem_values.2 ⟨e.1, he⟩)]
          exact h.graph.named e he
      once := by
        refine (s.channels.values_add _ _).nodup_iff.2
          (List.nodup_cons.2 ⟨fun hIn => ?_, h.graph.once⟩)
        exact (h.graph.known _ hIn).ne rfl
      known := by
        intro chan hc
        rcases (hMem chan).1 hc with rfl | hc
        · exact Nat.lt_succ_self _
        · exact (h.graph.known chan hc).trans (Nat.lt_succ_self _)
      single := fun u hu => absurd hu (hNone u)
      joined := fun u hu => absurd hu (hNone u)
      nodup := fun chan hc => by rw [hAll chan hc]; exact List.nodup_nil
      listed := fun chan hc u hu => by rw [hAll chan hc] at hu; cases hu
      first := fun chan hc hSome => absurd (hAll chan hc) hSome }
  · intro chan hc hFlag
    rcases (hMem chan).1 hc with rfl | hc
    · simp [Core.loadChannel] at hFlag
    · rw [hOld chan hc] at hFlag ⊢
      exact h.kept chan hc hFlag

/-- At the start there are the channels of the channels file, without members. -/
theorem start (f : Startup) : Membership (Core.start f) := by
  have hAccount (s : Core) (r : UserDb) : SameChannels s (s.loadAccount r) :=
    { SameChannels.refl s with next := Nat.le_succ _ }
  have hFilter (s : Core) (word : Str) : SameChannels s (s.loadFilter word) :=
    { SameChannels.refl s with }
  have hEmpty : Membership { Core.empty f.cfg f.now with bans := f.bans } := by
    refine ⟨?_, by simp [Core.empty]⟩
    constructor <;> simp [Core.empty]
  have hLoaded (l : List LoadedChannel) (s : Core) (h : Membership s) (hUsers : s.users.values = [])
      (hNone : ∀ chan ∈ s.channels.values, (s.chan chan).members = []) :
      Membership (l.foldl Core.loadChannel s) := by
    induction l generalizing s with
    | nil => exact h
    | cons c l ih =>
      obtain ⟨hNext, hNone'⟩ := h.loadChannel c hUsers hNone
      exact ih _ hNext hUsers hNone'
  have hAccounts := SameChannels.foldl hAccount f.accounts
    { Core.empty f.cfg f.now with bans := f.bans }
  refine (hLoaded f.channels _ (hEmpty.same hAccounts) ?_ ?_).same (SameChannels.foldl hFilter _ _)
  · rw [hAccounts.users]
    simp [Core.empty]
  · rw [hAccounts.channels]
    simp [Core.empty]

/-- What is stored with a member makes no difference to the graph. -/
theorem setOperator (h : Membership s) (chan : ChanId) (user : UserId) (value : Bool) :
    Membership (s.setOperator chan user value) :=
  h.same (.quiet (Core.skeleton_of_outline (s.outline_setOperator chan user value)))

theorem markOperator (h : Membership s) (chan : ChanId) (nick : Str) (value : Bool) :
    Membership (s.markOperator chan nick value) := by
  simp only [Core.markOperator]
  split
  · exact h.setOperator chan _ value
  · exact h

/-- Every operation keeps the invariant of channels. -/
theorem op {ok : Label → Core → Prop} (hOp : Op ok s t) (hReg : Registry s) (h : Membership s) :
    Membership t := by
  cases hOp with
  | quiet hDetail =>
    exact h.same (.quiet (Core.skeleton_of_outline (Core.outline_of_detail hDetail)))
  | fine hFine =>
    obtain ⟨n, hNext, hOutline⟩ := hFine.outline
    have hRaised : Membership { s with next := n } := h.same { SameChannels.refl s with next := hNext }
    exact hRaised.same (.quiet (Core.skeleton_of_outline hOutline))
  | tick => exact ⟨{ h.graph with }, h.kept⟩
  | addRecord => exact h.same { SameChannels.refl s with next := Nat.le_succ _ }
  | setRecord | dropRecord => exact h.same (.quiet rfl)
  | person hPersonal =>
    have hOutline := Core.channelOutline_of_personal hPersonal
    exact h.same (.quiet (Core.skeleton_of_channelOutline hOutline))
  | setUserLevel => exact h.same (.quiet (s.skeleton_modUser _ rfl))
  | addBan | dropBans => exact h.same (.quiet rfl)
  | accept ip host port localPort =>
    have hNew : SameChannels s (s.newConnection ip host port localPort) :=
      { SameChannels.refl s with next := Nat.le_succ _ }
    exact h.same (hNew.trans (.quiet (Core.skeleton_addClient _ _)))
  | linkServer => exact h.same { SameChannels.refl s with }
  | unlinkServer => exact h.same { SameChannels.refl s with }
  | loginLocal hOpen hClass hNick hCon hChannels =>
    refine h.login hReg rfl rfl rfl (Nat.le_succ _) ?_ fun u hu => ?_
    · simpa [Core.addUser, Core.tieLocal] using hChannels
    · simp [Core.addUser, Core.tieLocal, hu]
  | loginRemote hOpen hClass hNick hLocal hChannels =>
    refine h.login hReg rfl rfl rfl (Nat.le_succ _) ?_ fun u hu => ?_
    · simpa [Core.addUser, Core.tieRemote] using hChannels
    · simp [Core.addUser, Core.tieRemote, hu]
  | removeRemote hUser => exact h.hashRemoveUser hReg hUser
  | zap hOpen hClass => exact h.zap hReg hOpen hClass
  | hangUp hOpen hClass => exact (h.removeUser hReg hOpen hClass).freeConnection _
  | close => exact h.freeConnection _
  | enter hUser hName hNot =>
    obtain ⟨name, hName⟩ := hName
    simp only [Core.enterAs]
    split
    · exact (h.enter hUser hName hNot).setOperator _ _ true
    · exact h.enter hUser hName hNot
  | found hUser hNone => exact h.found hUser hNone
  | leave hUser hChan => exact h.leave hUser hChan
  | dropChannel hName hEmpty => exact h.dropChannel hName hEmpty
  | flagChannel value hName hUsers => exact h.flagChannel value hUsers
  | setTopic | setLevel | setLimit => exact h.same (.quiet (s.skeleton_modChan _ rfl))
  | addOperator =>
    exact (h.same (.quiet (s.skeleton_modChan _ rfl))).markOperator _ _ true
  | dropOperator chan nick =>
    exact (h.same (.quiet (s.skeleton_modChan _ rfl))).markOperator chan nick false
  | insert => exact h.same (.file (s.fileStep_insertDatum _ _ _))
  | dropFile => exact h.same (.file (s.fileStep_dropFile _ _ _))
  | report => exact h.same (.file (s.fileStep_reportShared _ _ _ _))
  | collect => exact h.same (.file s.fileStep_fdbGarbageCollect)
  | finishSearch => exact h.same (.search (s.searchStep_finishSearch _ _ _))
  | forwardSearch => exact h.same (.search (s.searchStep_forwardSearch _ _ _ _))
  | result => exact h.same (.search (s.searchStep_note _))
  | expire => exact h.same (.search (s.searchStep_expireSearches _ _))
  | answer => exact h.same (.search (s.searchStep_answerSearch _ _))
  | cancel =>
    exact h.same (.search ((s.searchStep_note _).trans (Core.searchStep_cancelSearch _ _)))

end Membership

end OpenNap
