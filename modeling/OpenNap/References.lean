import OpenNap.ClientSlots
import OpenNap.SearchLedger
import OpenNap.SignOns

/-! What refers to a connection.  Every structure that keeps connections keeps open ones, unless a
connection took a slot whose number does not fit the field for it. -/

namespace OpenNap

open CText

/-- The slot that the next connection takes. -/
def Core.nextSlot (s : Core) : Nat :=
  if s.clients.length = s.numClients then s.numClients
  else (s.clients.findIdx? (·.isNone)).getD 0

/-- From `s` to `t` no connection is opened, closed or given another slot. -/
structure SameSlots (s t : Core) : Prop where
  clients : t.clients = s.clients
  numClients : t.numClients = s.numClients
  allocated : ∀ con, (t.con con).allocated = (s.con con).allocated
  id : ∀ con, (t.con con).id = (s.con con).id

namespace SameSlots

theorem refl (s : Core) : SameSlots s s := ⟨rfl, rfl, fun _ => rfl, fun _ => rfl⟩

theorem trans {s t u : Core} (h1 : SameSlots s t) (h2 : SameSlots t u) : SameSlots s u where
  clients := h2.clients.trans h1.clients
  numClients := h2.numClients.trans h1.numClients
  allocated con := (h2.allocated con).trans (h1.allocated con)
  id con := (h2.id con).trans (h1.id con)

theorem of_con {s t : Core} (hClients : t.clients = s.clients) (hNum : t.numClients = s.numClients)
    (hCon : t.con = s.con) : SameSlots s t where
  clients := hClients
  numClients := hNum
  allocated _ := by rw [hCon]
  id _ := by rw [hCon]

theorem detail {s t : Core} (h : t.detail = s.detail) : SameSlots s t where
  clients := (congrArg Core.clients h :)
  numClients := (congrArg Core.numClients h :)
  allocated c := (congrArg Connection.allocated (congrFun (congrArg Core.con h) c) :)
  id c := (congrArg Connection.id (congrFun (congrArg Core.con h) c) :)

theorem personal {s t : Core} (h : t.personal = s.personal) : SameSlots s t where
  clients := (congrArg Core.clients h :)
  numClients := (congrArg Core.numClients h :)
  allocated c := (congrArg Connection.allocated (congrFun (congrArg Core.con h) c) :)
  id c := (congrArg Connection.id (congrFun (congrArg Core.con h) c) :)

theorem chan {s t : Core} (h : ChanStep s t) : SameSlots s t :=
  of_con (congrArg Core.clients h.rest :) (congrArg Core.numClients h.rest :)
    (congrArg Core.con h.rest :)

theorem file {s t : Core} (h : FileStep s t) : SameSlots s t where
  clients := (congrArg Core.clients h.rest :)
  numClients := (congrArg Core.numClients h.rest :)
  allocated := (SameUsers.file h).allocated
  id c := by
    simpa [Core.eraseFile, Connection.eraseFiles] using
      congrArg Connection.id (congrFun (congrArg Core.con h.rest) c)

theorem search {s t : Core} (h : SearchStep s t) : SameSlots s t :=
  of_con (congrArg Core.clients h.rest :) (congrArg Core.numClients h.rest :)
    (congrArg Core.con h.rest :)

theorem modCon (s : Core) (con : ConId) {f : Connection → Connection}
    (hOpen : (f (s.con con)).allocated = (s.con con).allocated)
    (hId : (f (s.con con)).id = (s.con con).id) : SameSlots s (s.modCon con f) := by
  refine ⟨rfl, rfl, fun c => ?_, fun c => ?_⟩
  · by_cases hc : c = con <;> simp [hc, hOpen]
  · by_cases hc : c = con <;> simp [hc, hId]

theorem hashRemoveUser (s : Core) (nick : Str) : SameSlots s (s.hashRemoveUser nick) := by
  refine Core.hashRemoveUser_keeps (fun t u hStep h => h.trans ?_) nick (refl s)
  cases hStep with
  | part | uninvite | uncount | gone => exact of_con rfl rfl rfl
  | dropChannel name => exact chan (t.chanStep_hashRemoveChannel name)
  | seen nick =>
    simp only [Core.recordLogoff]
    split <;> exact of_con rfl rfl rfl

theorem removeUser (s : Core) (con : ConId) : SameSlots s (s.removeUser con) := by
  simp only [Core.removeUser]
  split
  · exact refl s
  · rename_i user _
    refine (hashRemoveUser s (s.user user).nick).trans ?_
    refine Core.freeOptions_keeps (fun t hot h => h.trans ?_) (fun t h => h.trans ?_)
      (fun t h => h.trans ?_) (refl _)
    · simp only [Core.leaveHotlist]
      split <;> exact of_con rfl rfl rfl
    · exact file (Core.fileStep_freeFiles t con)
    · exact modCon t con rfl rfl

theorem listHotlist (s : Core) (con : ConId) (hot : HotlistId) :
    SameSlots s (s.listHotlist con hot) := by
  have hHot (f : Hotlist → Hotlist) : SameSlots s (s.modHot hot f) := of_con rfl rfl rfl
  simp only [Core.listHotlist]
  exact (hHot _).trans (modCon _ con rfl rfl)

theorem fine {ok : Label → Core → Prop} {s t : Core} (h : FineOp ok s t) : SameSlots s t := by
  cases h with
  | uncloak | cloak | cloakRecord | invite | uninvite => exact of_con rfl rfl rfl
  | wait => exact listHotlist s _ _
  | @waitNew con nick =>
    have hNew : SameSlots s (s.newHotlist nick) := of_con rfl rfl rfl
    exact hNew.trans (listHotlist _ _ _)
  | @unlist con nick hot =>
    have hList : SameSlots s (s.modCon con fun c =>
        { c with uopt := c.uopt.map fun o => { o with hotlist := o.hotlist.erase hot } }) :=
      modCon s con rfl rfl
    refine hList.trans ?_
    simp only [Core.unlistHotlist, Core.leaveHotlist]
    split <;> exact of_con rfl rfl rfl

end SameSlots

/-! ### The slots -/

/-- Every open connection is in one slot, that of its number, and no other connection is in any. -/
structure Slots (s : Core) : Prop where
  own : ∀ con, (s.con con).allocated = true →
    ∃ slot : Nat, (s.con con).id = slot ∧ s.clients[slot]? = some (some con)
  slot : ∀ (slot : Nat) con, s.clients[slot]? = some (some con) →
    (s.con con).allocated = true ∧ (s.con con).id = slot
  count : s.clients.countP (·.isSome) = s.numClients

/-- The slot of a new connection has a number that fits. -/
def fitsSlot : Label → Core → Prop
  | .accept, s => s.nextSlot < 32768
  | _, _ => True

namespace Slots

variable {s t : Core}

theorem same (h : Slots s) (hSame : SameSlots s t) : Slots t where
  own con hOpen := by
    rw [hSame.allocated] at hOpen
    rw [hSame.id, hSame.clients]
    exact h.own con hOpen
  slot slot con hIn := by
    rw [hSame.clients] at hIn
    rw [hSame.allocated, hSame.id]
    exact h.slot slot con hIn
  count := by rw [hSame.clients, hSame.numClients, h.count]

/-- The slots are in order when the array is. -/
theorem iff_inStep : Slots s ↔ s.clientArray.InStep :=
  ⟨fun h => ⟨h.own, h.slot, h.count⟩, fun h => ⟨h.own, h.slot, h.count⟩⟩

theorem accept (h : Slots s) (hReg : Registry s) (ip : UInt32) (host : Str) (port localPort : UInt16)
    (hFits : s.nextSlot < 32768) : Slots (s.accept ip host port localPort) := by
  have hNew : s.clientArray.live s.next = false := by
    cases hOpen : (s.con s.next).allocated with
    | false => exact hOpen
    | true => exact absurd (hReg.knownCon _ hOpen) (Nat.lt_irrefl _)
  rw [iff_inStep, Core.clientArray_accept fun _ => none]
  exact (iff_inStep.1 h).add _ hNew hFits

/-- A connection gives its slot back. -/
theorem freeConnection (h : Slots s) {con : ConId} (hOpen : (s.con con).allocated = true) :
    Slots (s.freeConnection con) := by
  rw [iff_inStep, Core.clientArray_freeConnection]
  exact (iff_inStep.1 h).free hOpen

/-- Every operation keeps the slots in order, a new connection whose number does not fit apart. -/
theorem op (hOp : Op fitsSlot s t) (hSound : Sound s) (h : Slots s) : Slots t := by
  cases hOp with
  | quiet hDetail => exact h.same (.detail hDetail)
  | fine hFine => exact h.same (.fine hFine)
  | person hPersonal => exact h.same (.personal hPersonal)
  | accept ip host port localPort hOk => exact h.accept hSound.registry ip host port localPort hOk
  | setUserLevel | tick | addRecord | setRecord | dropRecord | addBan | dropBans | unlinkServer |
    setTopic | setLevel | setLimit | flagChannel | loginRemote => exact h.same (.of_con rfl rfl rfl)
  | @linkServer con =>
    have hServer : SameSlots s (s.modCon con fun c => { c with cls := .server }) :=
      .modCon s con rfl rfl
    exact h.same (hServer.trans (.of_con rfl rfl rfl))
  | @loginLocal con u =>
    have hUser : SameSlots s (s.alloc.modUser s.next fun _ =>
        { u with isLocal := true, server := s.cfg.serverName }) := .of_con rfl rfl rfl
    refine h.same ((hUser.trans ?_).trans (t := s.tieLocal con u) (.of_con rfl rfl rfl))
    simp only [Core.tieLocal]
    exact .modCon _ con rfl rfl
  | removeRemote => exact h.same (.hashRemoveUser s _)
  | @zap con =>
    have hKilled : SameSlots s (s.modCon con fun c => { c with killed := true }) :=
      .modCon s con rfl rfl
    refine h.same ((hKilled.trans (.removeUser _ con)).trans ?_)
    simp only [Core.zapLocalUser]
    exact .modCon _ con rfl rfl
  | @hangUp con hOpen =>
    have hGone := SameSlots.removeUser s con
    have hOpen' : ((s.removeUser con).con con).allocated = true := by
      rw [hGone.allocated]
      exact hOpen
    exact ((h.same hGone).freeConnection hOpen').same (.of_con rfl rfl rfl)
  | close hOpen => exact (h.freeConnection hOpen).same (.of_con rfl rfl rfl)
  | enter => exact h.same (.chan (s.chanStep_enterAs _ _))
  | found => exact h.same (.chan ((s.chanStep_newChannel _).trans (Core.chanStep_enterChannel _ _ _)))
  | leave =>
    exact h.same (.chan ((s.chanStep_deleteChannel _ _).trans (Core.chanStep_partChannel _ _ _)))
  | dropChannel => exact h.same (.chan (s.chanStep_hashRemoveChannel _))
  | addOperator => exact h.same (.chan (s.chanStep_addOperator _ _))
  | dropOperator => exact h.same (.chan (s.chanStep_dropOperator _ _))
  | insert => exact h.same (.file (s.fileStep_insertDatum _ _ _))
  | dropFile => exact h.same (.file (s.fileStep_dropFile _ _ _))
  | report => exact h.same (.file (s.fileStep_reportShared _ _ _ _))
  | collect => exact h.same (.file s.fileStep_fdbGarbageCollect)
  | finishSearch => exact h.same (.search (s.searchStep_finishSearch _ _ _))
  | forwardSearch => exact h.same (.search (s.searchStep_forwardSearch _ _ _ _))
  | result => exact h.same (.search (s.searchStep_note _))
  | expire => exact h.same (.search (s.searchStep_expireSearches _ _))
  | answer => exact h.same (.search (s.searchStep_answerSearch _ _))
  | cancel =>
    exact h.same (.search ((s.searchStep_note _).trans (Core.searchStep_cancelSearch _ _)))

theorem start (f : Startup) : Slots (Core.start f) := by
  obtain ⟨next, channels, chan, userDb, db, filter, hStart⟩ := Core.loaded_start f
  rw [hStart]
  constructor <;> simp [Core.empty]

end Slots

/-! ### Connections that are gone -/

/-- Nothing that stays refers to the connection. -/
structure Core.Unreferenced (s : Core) (con : ConId) : Prop where
  users : ∀ user ∈ s.users.values, (s.user user).con ≠ con
  hotlists : ∀ hot ∈ s.hotlists.values, con ∉ (s.hot hot).users
  searches : ∀ d ∈ s.remoteSearch, d.con ≠ con
  servers : con ∉ s.servers
  clients : some con ∉ s.clients

/-- Where the tables are in order, nothing refers to a connection that is not open. -/
theorem Core.unreferenced {s : Core} (hSound : Sound s) (hHotlists : Hotlists s) (hTracked : Tracked s)
    (hSlots : Slots s) {con : ConId} (hClosed : (s.con con).allocated = false) :
    s.Unreferenced con := by
  have hNot : ¬ (s.con con).allocated = true := by simp [hClosed]
  constructor
  · rintro user hUser rfl
    cases hLocal : (s.user user).isLocal with
    | true => exact hNot (hSound.registry.home user hUser hLocal).1
    | false => exact hNot (hSound.registry.behind user hUser hLocal).1
  · intro hot hHot hWaits
    have hListed := (hHotlists.waiting.mirror.right hot hHot con hWaits).2
    rw [hHotlists.idle fun hClient => hNot hClient.1] at hListed
    cases hListed
  · rintro d hd rfl
    exact hNot (hTracked.waiting d hd)
  · intro hServer
    exact hNot (hSound.registry.linked con hServer).1
  · intro hIn
    obtain ⟨slot, hSlot⟩ := List.mem_iff_getElem?.1 hIn
    exact hNot (hSlots.slot slot con hSlot).1

namespace Server

/-- The slot that a connection takes has a number that fits the field for it. -/
def FitsSlots (s : Server) : Event → Prop
  | .accept _ _ _ _ => s.nextSlot < 32768
  | _ => True

theorem allows_fitsSlot {s : Server} {e : Event} (h : FitsSlots s e) : s.allows fitsSlot e := by
  refine s.allows_of (fun l t hl => ?_) ?_ (fun _ _ _ _ _ _ => trivial) (fun _ _ _ _ _ _ => trivial)
    (fun _ _ _ _ _ => trivial) (fun _ _ _ _ _ _ => trivial) (fun _ _ _ _ _ _ => trivial)
  · cases l with
    | accept => cases hl
    | _ => trivial
  · rintro ip host port localPort rfl
    exact h

theorem reach_concat (f : Startup) (events : List Event) (e : Event) :
    Server.reach f (events ++ [e]) = (Server.reach f events).step e :=
  Runs.run_append ..

theorem closed_removeConnection (s : Server) (con : ConId) :
    ((s.removeConnection con).con con).allocated = false := by
  simp [removeConnection, Core.freeConnection, Core.note]

/-- In every run in which each connection takes a slot whose number fits, nothing refers to a
connection that is not open, and a connection that is removed is not open any more. -/
theorem run_unreferenced (f : Startup) (events : List Event)
    (hMeets : Runs.Meets step FitsSlots (Server.start f) events) :
    let s := Server.reach f events
    (∀ con, (s.con con).allocated = false → s.Unreferenced con) ∧
      ∀ con, (s.con con).allocated = true →
        ((s.step (.drop con)).con con).allocated = false ∧
          (s.step (.drop con)).Unreferenced con := by
  have hEvery (events : List Event) (hMeets : Runs.Meets step FitsSlots (Server.start f) events)
      (con : ConId) (hClosed : ((Server.reach f events).con con).allocated = false) :
      (Server.reach f events).Unreferenced con :=
    have hSlots := run_keeps (fun _ _ _ _ hCond => allows_fitsSlot hCond)
      (fun _ _ hSound hOp h => Slots.op hOp hSound h) hMeets (start_sound f) (Slots.start f)
    Core.unreferenced hSlots.1 (reach_waiting f events).2 (reach_booked f events).1 hSlots.2 hClosed
  intro s
  refine ⟨hEvery events hMeets, fun con hOpen => ?_⟩
  have hDrop : s.step (.drop con) = Server.reach f (events ++ [.drop con]) :=
    (reach_concat f events (.drop con)).symm
  have hClosed : ((s.step (.drop con)).con con).allocated = false := by
    simp only [step]
    rw [if_pos hOpen]
    exact closed_removeConnection s con
  refine ⟨hClosed, ?_⟩
  have hLast : Runs.Meets step FitsSlots s [.drop con] := ⟨trivial, trivial⟩
  rw [hDrop] at hClosed ⊢
  exact hEvery _ (hMeets.append hLast) con hClosed

/-- A client logs in and puts somebody on the hotlist, and a server links. -/
theorem run_unreferenced_clients :
    let s := Server.reach hub
      [.accept 2 (str "client") 6699 8888, .packet 0 .login (str "joe pw 6699 \"client\" 3") {},
        .packet 0 .addHotlist (str "ann") {}, .accept 1 (str "peer") 0 0, .link 3]
    (s.con 0).allocated = true ∧
      ((s.step (.drop 0)).con 0).allocated = false ∧ (s.step (.drop 0)).Unreferenced 0 :=
  ⟨by decide +kernel,
    (run_unreferenced hub _
      (by
        refine ⟨?_, trivial, trivial, ?_, trivial, trivial⟩
        all_goals
          simp only [FitsSlots]
          decide +kernel)).2 0 (by decide +kernel)⟩

/-! ### Too many connections -/

/-- The clients with one more at the end, in the first of ten new slots. -/
theorem accept_full {s : Core} (h : s.clients.length = s.numClients) (ip : UInt32) (host : Str)
    (port localPort : UInt16) : s.accept ip host port localPort =
      { (s.newConnection ip host port localPort).modCon s.next fun c =>
          { c with id := toShort s.numClients } with
        clients := s.clients ++ some s.next :: List.replicate 9 none
        numClients := s.numClients + 1 } := by
  have h' : (s.newConnection ip host port localPort).clients.length =
      (s.newConnection ip host port localPort).numClients := h
  simp only [Core.accept, Core.addClient, if_pos h']
  rfl

theorem accept_room {s : Core} {slot : Nat} (h : ¬ s.clients.length = s.numClients)
    (hFind : s.clients.findIdx? (·.isNone) = some slot) (ip : UInt32) (host : Str)
    (port localPort : UInt16) : s.accept ip host port localPort =
      { (s.newConnection ip host port localPort).modCon s.next fun c =>
          { c with id := toShort slot } with
        clients := s.clients.set slot (some s.next)
        numClients := s.numClients + 1 } := by
  have h' : ¬ (s.newConnection ip host port localPort).clients.length =
      (s.newConnection ip host port localPort).numClients := h
  have hFind' : (s.newConnection ip host port localPort).clients.findIdx? (·.isNone) = some slot :=
    hFind
  simp only [Core.accept, Core.addClient, if_neg h', hFind']
  rfl

/-- The first `n` connections are open, each in the slot of its number. -/
structure Crowded (s : Core) (n : Nat) : Prop where
  clients : ∃ k, s.clients = (List.range n).map some ++ List.replicate k none
  numClients : s.numClients = n
  next : s.next = n
  opened : ∀ con : Nat, con < n → (s.con con).allocated = true ∧ (s.con con).cls = .unknown ∧
    (s.con con).id = toShort con

/-- One more takes the next slot. -/
theorem Crowded.taken {s t : Core} {n k : Nat} (h : Crowded s n)
    (hClients : t.clients = (List.range (n + 1)).map some ++ List.replicate k none)
    (hNum : t.numClients = s.numClients + 1) (hNext : t.next = s.next + 1)
    (hNew : (t.con s.next).allocated = true ∧ (t.con s.next).cls = .unknown ∧
      (t.con s.next).id = toShort n) (hOld : ∀ con, con ≠ s.next → t.con con = s.con con) :
    Crowded t (n + 1) := by
  refine ⟨⟨k, hClients⟩, by rw [hNum, h.numClients], by rw [hNext, h.next], fun con hLess => ?_⟩
  rw [h.next] at hNew hOld
  by_cases hEq : con = n
  · rw [hEq]
    exact hNew
  · rw [hOld con hEq]
    exact h.opened con (by omega)

theorem Crowded.accept {s : Core} {n : Nat} (h : Crowded s n) :
    Crowded (s.accept 1 (str "client") 0 0) (n + 1) := by
  obtain ⟨k, hClients⟩ := h.clients
  have hNum := h.numClients
  have hLength : s.clients.length = n + k := by simp [hClients]
  have hRange : (List.range (n + 1)).map some = (List.range n).map some ++ [some n] := by
    rw [List.range_succ, List.map_append, List.map_singleton]
  cases k with
  | zero =>
    rw [accept_full (by omega)]
    refine h.taken (k := 9) ?_ rfl rfl ?_ fun con hNe => ?_
    · simp [hRange, hClients, h.next]
    · simp [Core.newConnection, hNum]
    · simp [Core.newConnection, hNe]
  | succ k =>
    have hFind : s.clients.findIdx? (·.isNone) = some n := by
      have hNone : ((List.range n).map some).findIdx? (·.isNone) = none := by
        rw [List.findIdx?_eq_none_iff]
        simp
      rw [hClients, List.findIdx?_append, hNone]
      simp [List.replicate_succ, List.findIdx?_cons]
    rw [accept_room (by omega) hFind]
    refine h.taken (k := k) ?_ rfl rfl ?_ fun con hNe => ?_
    · simp [hRange, hClients, h.next, List.replicate_succ]
    · simp [Core.newConnection]
    · simp [Core.newConnection, hNe]

theorem crowded (n : Nat) :
    Crowded (Server.reach hub (List.replicate n (.accept 1 (str "client") 0 0))).toCore n := by
  induction n with
  | zero =>
    exact ⟨⟨0, by decide +kernel⟩, by decide +kernel, by decide +kernel,
      fun con hLess => absurd hLess (Nat.not_lt_zero con)⟩
  | succ n ih =>
    rw [List.replicate_succ', reach_concat]
    exact ih.accept

/-- A connection that is neither a client nor a server leaves nothing but its slot. -/
theorem clients_removeConnection (s : Server) {con : ConId} (hClass : (s.con con).cls = .unknown) :
    (s.removeConnection con).clients =
      if 0 ≤ (s.con con).id then s.clients.set (s.con con).id.toNat none else s.clients := by
  have hCancel := toCore_cancelSearch (s.onCore (·.note (.leaving con))) con
  have hSlots : SameSlots s.toCore ((s.onCore (·.note (.leaving con))).cancelSearch con).toCore := by
    rw [hCancel]
    exact .search ((s.searchStep_note _).trans (Core.searchStep_cancelSearch _ _))
  have hSame : (((s.onCore (·.note (.leaving con))).cancelSearch con).con con).cls = .unknown := by
    rw [hCancel]
    exact hClass
  simp only [removeConnection]
  generalize (s.onCore (·.note (.leaving con))).cancelSearch con = t at hSlots hSame
  have hUser : ¬ t.isUser con = true := by simp [Core.isUser, hSame]
  have hServer : ¬ t.isServer con = true := by simp [Core.isServer, hSame]
  rw [if_neg hUser, if_neg hServer, ← hSlots.clients, ← hSlots.id]
  rfl

/-- A connection whose number turns negative in its field keeps its slot when it is removed. -/
theorem Crowded.keeps_slot {s : Server} {n : Nat} (h : Crowded s.toCore n) (con : ConId)
    (hLess : con < n) (hNegative : toShort con < 0) :
    (s.con con).allocated = true ∧ some con ∈ (s.step (.drop con)).clients := by
  obtain ⟨hOpen, hClass, hId⟩ := h.opened con hLess
  obtain ⟨k, hClients⟩ := h.clients
  have hSlot : ¬ 0 ≤ (s.con con).id := by
    rw [hId]
    exact not_le.2 hNegative
  refine ⟨hOpen, ?_⟩
  simp only [step]
  rw [if_pos hOpen, clients_removeConnection s hClass, if_neg hSlot, hClients]
  exact List.mem_append_left _ (List.mem_map_of_mem (List.mem_range.2 hLess))

/-- The last of 32769 connections is still in its slot after it was removed. -/
theorem slot_wraps :
    let s := Server.reach hub (List.replicate 32769 (.accept 1 (str "client") 0 0))
    (s.con 32768).allocated = true ∧ ¬ (s.step (.drop 32768)).Unreferenced 32768 := by
  obtain ⟨hOpen, hIn⟩ := (crowded 32769).keeps_slot 32768 (by decide) (by decide)
  exact ⟨hOpen, fun h => h.clients hIn⟩

end Server

end OpenNap
