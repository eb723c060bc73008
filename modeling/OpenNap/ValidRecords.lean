import OpenNap.Limits
import OpenNap.NewRecords

/-! Whether the records of shared files are valid.  The collector takes a record out of the index and
frees it when its size is the mark, whether it was freed before or the user said so. -/

namespace OpenNap

open CText

/-- The records in a table of files are those of the user on the connection, and none is marked. -/
def ValidRecords (s : Core) : Prop :=
  ∀ con, ∀ d ∈ (s.library con).values, ∃ user, (s.con con).user = some user ∧
    (s.datum d).user = some user ∧ (s.datum d).size ≠ invalidSize

section

variable {s t : Core} {con : ConId} {user : UserId} {info : Datum}

theorem Keeps.valid (h : Keeps s t) (hValid : ValidRecords s) : ValidRecords t := by
  intro con d hd
  obtain ⟨user, hOwner, hUser, hSize⟩ := hValid con d ((h.tables con).subset hd)
  have hSame := h.data con d hd hSize
  refine ⟨user, ?_, ?_, ?_⟩
  · rw [h.owner con (List.ne_nil_of_mem hd)]
    exact hOwner
  · rw [hSame]
    exact hUser
  · rw [hSame]
    exact hSize

/-- A new record is valid exactly when its size is not the mark. -/
theorem Gains.valid_iff (h : Gains con user info s t) (hShelf : Shelf s)
    (hOwner : (s.con con).user = some user) :
    ValidRecords t ↔ ValidRecords s ∧ info.size ≠ invalidSize := by
  have hOld {c : ConId} {d : DatumId} (hd : d ∈ (s.library c).values) : d ≠ s.next :=
    (hShelf.known c d hd).ne
  constructor
  · intro hValid
    constructor
    · intro c d hd
      obtain ⟨owner, hCon, hUser, hSize⟩ := hValid c d (h.mem_library.2 (.inl hd))
      obtain ⟨hSameUser, -, hSameSize⟩ := h.old_datum (hOld hd)
      rw [h.owner] at hCon
      rw [hSameUser] at hUser
      rw [hSameSize] at hSize
      exact ⟨owner, hCon, hUser, hSize⟩
    · obtain ⟨-, -, -, hSize⟩ := hValid con s.next (h.mem_library.2 (.inr ⟨rfl, rfl⟩))
      rw [h.new_datum.2.2] at hSize
      exact hSize
  · rintro ⟨hValid, hNew⟩ c d hd
    rcases h.mem_library.1 hd with hIn | ⟨rfl, rfl⟩
    · obtain ⟨owner, hCon, hUser, hSize⟩ := hValid c d hIn
      obtain ⟨hSameUser, -, hSameSize⟩ := h.old_datum (hOld hIn)
      rw [h.owner, hSameUser, hSameSize]
      exact ⟨owner, hCon, hUser, hSize⟩
    · obtain ⟨hUser, -, hSize⟩ := h.new_datum
      rw [h.owner, hUser, hSize]
      exact ⟨user, hOwner, rfl, hNew⟩

/-- The files that a command adds are valid exactly when none of their sizes is the mark. -/
theorem Adds.valid_iff {sizes : List UInt32} (h : Adds con user sizes s t) (hShelf : Shelf s)
    (hOptions : (s.con con).uopt.isSome = true) (hOwner : (s.con con).user = some user) :
    ValidRecords t ↔ ValidRecords s ∧ invalidSize ∉ sizes := by
  induction h with
  | none s => simp
  | @more sizes s t info _ _ ih =>
    have hGains := gains_insertDatum hShelf.index hOptions user info
    have hStay : ((s.insertDatum con user info).con con).uopt.isSome = true := by
      have hUopt := congrArg (fun c : Connection => c.uopt.isSome)
        (congrFun (congrArg Core.con (s.fileStep_insertDatum con user info).rest) con)
      simpa [Core.eraseFile, Connection.eraseFiles, hOptions] using hUopt
    rw [ih (hGains.shelf hShelf) hStay (by rw [hGains.owner]; exact hOwner),
      hGains.valid_iff hShelf hOwner, List.mem_cons, not_or]
    tauto

/-- What is allowed when no file is added. -/
def noInsert : Label → Core → Prop
  | .insert _ _, _ => False
  | _, _ => True

/-- Where no file is added, records stay valid. -/
theorem valid_path (hPath : Op.Path noInsert s t) (hSound : Sound s) (hHotlists : Hotlists s)
    (hShelf : Shelf s) (hValid : ValidRecords s) : ValidRecords t := by
  have hAll := hPath.invariant (I := fun s => (Sound s ∧ Hotlists s ∧ Shelf s) ∧ ValidRecords s) ?_
    ⟨⟨hSound, hHotlists, hShelf⟩, hValid⟩
  · exact hAll.2
  · rintro s t hOp ⟨⟨hSound, hHotlists, hShelf⟩, hValid⟩
    refine ⟨⟨hSound.op hOp, hHotlists.op hOp hSound, hShelf.op hOp hSound hHotlists⟩, ?_⟩
    rcases Tidy.op hOp hSound hHotlists with hTidy | ⟨_, _, _, -, -, -, hOk, -⟩
    · exact (hTidy hShelf).valid hValid
    · exact absurd hOk id

end

namespace Server

/-- An event adds a file whose size is the mark. -/
def AddsMarked (s : Server) : Event → Prop
  | .packet con cmd pkt _ => reads s.toCore con = true ∧ s.isUser con = true ∧
      ∃ owner, (s.con con).user = some owner ∧
        invalidSize ∈ sizesAdded (s.reportSharing con cmd).toCore con owner pkt cmd
  | _ => False

theorem allows_noInsert {s : Server} {con : ConId} {pkt : Str} {env : Env} {cmd : Command}
    (hCmd : cmd ∉ shareCommands) : allowsPacket noInsert s con pkt env cmd := by
  cases cmd with
  | addFile | shareFile | addDirectory => exact absurd (by decide) hCmd
  | removeFile => trivial
  | userSharing => exact fun _ _ _ _ _ _ => trivial
  | search | remoteSearch => exact fun _ _ => trivial
  | remoteSearchEnd => trivial
  | _ =>
    refine allowsPacket_of_setting (fun l t hl => ?_) (fun l t hl => ?_) s con pkt env (by decide) <;>
      cases l <;> trivial

/-- What holds in every state and what the records of files depend on. -/
def InOrder (s : Server) : Prop := Sound s.toCore ∧ Hotlists s.toCore ∧ Shelf s.toCore

theorem inOrder_path {ok : Label → Core → Prop} {s t : Core} (hPath : Op.Path ok s t)
    (h : Sound s ∧ Hotlists s ∧ Shelf s) : Sound t ∧ Hotlists t ∧ Shelf t := by
  refine hPath.invariant (I := fun s => Sound s ∧ Hotlists s ∧ Shelf s) ?_ h
  rintro s t hOp ⟨hSound, hHotlists, hShelf⟩
  exact ⟨hSound.op hOp, hHotlists.op hOp hSound, hShelf.op hOp hSound hHotlists⟩

theorem InOrder.step {s : Server} (h : s.InOrder) (e : Event) : (s.step e).InOrder :=
  inOrder_path (step_path h.1 e (allows_any s e)) h

theorem not_mem_sizesAdded (s : Core) (con : ConId) (owner : UserId) (pkt : Str) {cmd : Command}
    (hCmd : cmd ∉ shareCommands) : sizesAdded s con owner pkt cmd = [] := by
  cases cmd with
  | addFile | shareFile | addDirectory => exact absurd (by decide) hCmd
  | _ => rfl

/-- A command that adds files keeps the records valid exactly when no size is the mark. -/
theorem valid_share_iff {s : Server} {con : ConId} {cmd : Command} (h : s.InOrder)
    (hValid : ValidRecords s.toCore) (hOpen : (s.con con).allocated = true)
    (hCmd : cmd ∈ shareCommands) (hUser : s.isUser con = true) (pkt : Str) (env : Env) :
    ValidRecords (s.dispatch con cmd pkt env).toCore ↔
      ∀ owner, (s.con con).user = some owner → invalidSize ∉ sizesAdded s.toCore con owner pkt cmd := by
  obtain ⟨hSound, hHotlists, hShelf⟩ := h
  have hClass : (s.con con).cls = .user := by simpa [Core.isUser] using hUser
  obtain ⟨owner, -, hOwner, -⟩ := hSound.registry.client con hOpen hClass
  have hOptions := (hHotlists.options con).2 ⟨hOpen, hClass⟩
  have hCases : cmd = .addFile ∨ cmd = .shareFile ∨ cmd = .addDirectory := by
    simpa [shareCommands] using hCmd
  rw [(adds_dispatch hOwner hOptions hCases hUser pkt env).valid_iff hShelf hOptions hOwner]
  constructor
  · rintro ⟨-, hNot⟩ other hOther
    rw [hOwner] at hOther
    rw [← Option.some.inj hOther]
    exact hNot
  · exact fun hAll => ⟨hValid, hAll owner hOwner⟩

/-- Who is no user adds no files, and neither do other commands. -/
theorem handlePacket_noInsert {s : Server} {con : ConId} {cmd : Command} (hSound : Sound s.toCore)
    (hOpen : (s.con con).allocated = true) (h : ¬ (cmd ∈ shareCommands ∧ s.isUser con = true))
    (pkt : Str) (env : Env) : Op.Path noInsert s.toCore (s.handlePacket con cmd pkt env).toCore := by
  by_cases hCmd : cmd ∈ shareCommands
  · have hUser : (s.reportSharing con cmd).isUser con = false := by
      obtain ⟨user, f, hReport, -⟩ := s.toCore_reportSharing con cmd
      rw [hReport]
      exact Bool.eq_false_iff.2 fun hUser => h ⟨hCmd, hUser⟩
    have hDispatch : (s.reportSharing con cmd).dispatch con cmd pkt env = s.reportSharing con cmd := by
      simp only [shareCommands, List.mem_cons, List.not_mem_nil, or_false] at hCmd
      rcases hCmd with rfl | rfl | rfl <;> simp only [dispatch, hUser, Bool.false_eq_true, if_false]
    simp only [handlePacket, hDispatch]
    split
    · rename_i hUnknown
      simp only [Bool.and_eq_true, Core.isUnknown, beq_iff_eq] at hUnknown
      exact Op.quietPath (detail_markDestroy s.toCore (by simpa [Core.isUnknown] using hUnknown.1.1))
        fun h => h
    · exact Op.quietPath (s.detail_reportSharing con cmd) (flagsApart_reportSharing s con cmd)
  · exact handlePacket_path hSound cmd pkt env hOpen (allows_noInsert hCmd)

/-- A step keeps the records valid exactly when it adds no file whose size is the mark. -/
theorem valid_step_iff {s : Server} (h : s.InOrder) (hValid : ValidRecords s.toCore) (e : Event) :
    ValidRecords (s.step e).toCore ↔ ¬ s.AddsMarked e := by
  obtain ⟨hSound, hHotlists, hShelf⟩ := h
  -- where no file is added
  have hPath {t : Core} (hPath : Op.Path noInsert s.toCore t) : ValidRecords t :=
    valid_path hPath hSound hHotlists hShelf hValid
  cases e with
  | packet con cmd pkt env =>
    by_cases hReads : reads s.toCore con = true
    · have hStep : s.step (.packet con cmd pkt env) = s.handlePacket con cmd pkt env := by
        simp only [step, hReads, if_true]
      have hOpen : (s.con con).allocated = true := by
        simp only [reads, Bool.and_eq_true] at hReads
        exact hReads.1
      rw [hStep]
      by_cases hShares : cmd ∈ shareCommands ∧ s.isUser con = true
      · obtain ⟨hCmd, hUser⟩ := hShares
        have hKnown : s.isUnknown con = false := by
          simp only [Core.isUser, beq_iff_eq] at hUser
          simp [Core.isUnknown, hUser]
        have hHandle : s.handlePacket con cmd pkt env =
            (s.reportSharing con cmd).dispatch con cmd pkt env := by
          simp [handlePacket, hKnown]
        obtain ⟨user, f, hReport, -⟩ := s.toCore_reportSharing con cmd
        have hCon : (s.reportSharing con cmd).con = s.con := by rw [hReport]; rfl
        have hReported : Op.Path anyOp s.toCore (s.reportSharing con cmd).toCore :=
          Op.quietPath (s.detail_reportSharing con cmd) (flagsApart_reportSharing s con cmd)
        have hQuiet : (s.reportSharing con cmd).InOrder :=
          inOrder_path hReported ⟨hSound, hHotlists, hShelf⟩
        have hStill : ValidRecords (s.reportSharing con cmd).toCore :=
          hPath (Op.quietPath (s.detail_reportSharing con cmd) (flagsApart_reportSharing s con cmd))
        rw [hHandle, valid_share_iff hQuiet hStill (by rw [hCon]; exact hOpen) hCmd
          (by rw [Core.isUser, hCon]; exact hUser)]
        simp only [AddsMarked, hReads, hUser, true_and, not_exists, not_and, hCon]
      · refine iff_of_true (hPath ?_) ?_
        · exact handlePacket_noInsert hSound hOpen hShares pkt env
        · rintro ⟨-, hUser, owner, -, hIn⟩
          rw [not_mem_sizesAdded _ _ _ _ fun hCmd => hShares ⟨hCmd, hUser⟩] at hIn
          cases hIn
    · have hStep : s.step (.packet con cmd pkt env) = s := by simp [step, hReads]
      rw [hStep]
      exact iff_of_true hValid fun hAdds => hReads hAdds.1
  | drop =>
    exact iff_of_true (hPath (step_path hSound _ fun _ => ⟨trivial, fun _ => trivial⟩)) id
  | expireBans => exact iff_of_true (hPath (step_path hSound _ fun _ => trivial)) id
  | dumpState => exact iff_of_true (hPath (step_path hSound _ fun _ _ _ _ => trivial)) id
  | _ => exact iff_of_true (hPath (step_path hSound _ trivial)) id

/-- In every run, the records of shared files are valid after each step exactly when no step adds a file
whose size is the mark. -/
theorem records_valid_iff (f : Startup) (events : List Event) :
    (∀ n, ValidRecords (reach f (events.take n)).toCore) ↔
      Runs.Meets step (fun s e => ¬ s.AddsMarked e) (start f) events := by
  refine Runs.meets_iff (J := InOrder) (I := fun s => ValidRecords s.toCore)
    (fun s e h => h.step e) (fun s e h hValid => valid_step_iff h hValid e)
    ⟨start_sound f, Hotlists.start f, Shelf.start f⟩ ?_ events
  intro con d hd
  rw [show ((start f).toCore.library con).values = [] from (start_empty f).1 con] at hd
  cases hd

/-- Joe shares a file that he says is as large as the mark. -/
def markedFile : List Event :=
  [.accept 1 (str "pc") 6699 8888, .packet 0 .login (str "joe pw 6699 \"c\" 3") {},
    .packet 0 .addFile (str "a.mp3 0 4294967295 128 44100 9") {}, .collect]

/-- The collector frees the record while it is in his table. -/
theorem marked_file_freed : ¬ ∀ (f : Startup) (events : List Event),
    ValidRecords (reach f events).toCore := by
  intro h
  have hIn : 2 ∈ ((reach hub markedFile).library 0).values := by decide +kernel
  obtain ⟨user, -, hUser, -⟩ := h hub markedFile 0 2 hIn
  have hFreed : ((reach hub markedFile).datum 2).user = none := by decide +kernel
  rw [hFreed] at hUser
  cases hUser

end Server

end OpenNap
