import OpenNap.DatumCounts

/-! The life of the records of shared files, over any run of the steps that enter and drop them: files
are shared and removed, users leave, and the two indexes are rid of garbage, in any order.  A record is
released once, when nothing holds it any more.  In a server built with RESUME, though, a file with
thirty words has more references than five bits can count. -/

namespace OpenNap

open CText

/-- A step of the server that has to do with the records of files. -/
inductive Filing
  /-- A user logs in on a connection and gets options. -/
  | login (con : ConId) (usermode : Nat)
  | share (con : ConId) (user : UserId) (info : Datum) (hash : Str)
  | remove (con : ConId) (user : UserId) (name : Str)
  /-- The user on a connection leaves. -/
  | leave (con : ConId)
  | collect (index : Index)
  /-- The filter is read again. -/
  | filter (words : NameTable Str)

namespace Depot

/-- Whether a file of that name may be shared: the user has options and no such file. -/
def accepts (s : Depot) (con : ConId) (name : Str) : Bool :=
  (s.con con).uopt.isSome && (s.lookupFile con name).isNone

/-- `new_datum`: the references of a record are counted from zero. -/
def newDatum (info : Datum) : Datum := { info with refcount := 0 }

/-- One step. -/
def step (s : Depot) : Filing → Depot
  | .login con usermode =>
    s.onCore (·.modCon con fun c => { c with uopt := some (c.uopt.getD { usermode := usermode }) })
  | .share con user info hash =>
    if s.accepts con info.filename then s.insertDatum con user (newDatum info) hash else s
  | .remove con user name =>
    if (s.user user).shared = 0 then s
    else
      match s.lookupFile con name with
      | none => s
      | some d => s.dropFile con user d
  | .leave con => (s.freeFiles con).onCore (·.modCon con fun c => { c with uopt := none })
  | .collect index => s.fdbGarbageCollect index
  | .filter words => s.onCore fun c => { c with filter := words }

/-- A server of either build when it starts. -/
def start (resume : Bool) (f : Startup) : Depot where
  toCore := Core.start f
  resume := resume
  md5 := Bucket.Table.empty byName FlistId 2053 pos_2053

/-- The server after any number of steps. -/
def reach (resume : Bool) (f : Startup) (events : List Filing) : Depot :=
  Runs.run step (start resume f) events

/-! ### Every step keeps the counts -/

theorem Kept.start (most : Nat) (resume : Bool) (f : Startup) : Kept most (start resume f) := by
  obtain ⟨next, channels, chan, userDb, db, filter, hLoaded⟩ := Core.loaded_start f
  have hTable : ∀ index, ((Depot.start resume f).table index).values = [] := by
    intro index
    cases index with
    | words =>
      show (Core.start f).fileTable.values = []
      rw [hLoaded]
      exact Bucket.Table.values_empty _ _
    | hashes => exact Bucket.Table.values_empty _ _
  have hEntries : ∀ index, ((Depot.start resume f).table index).entries = [] :=
    fun index => List.map_eq_nil_iff.1 (hTable index)
  have hContents : ∀ c, (Depot.start resume f).contents c = [] := by
    intro c
    cases c with
    | owner con =>
      show ((Core.start f).library con).values = []
      rw [hLoaded]
      exact Bucket.Table.values_empty _ _
    | bin index bin => exact contents_of_not_mem (by rw [hTable]; exact List.not_mem_nil)
  have hHolders : ∀ d, (Depot.start resume f).store.holders d = ∅ := by
    intro d
    rw [Set.eq_empty_iff_forall_notMem]
    intro c hc
    have hIn : d ∈ (Depot.start resume f).contents c := hc
    rw [hContents] at hIn
    cases hIn
  have hNumber : ∀ d, (Depot.start resume f).store.number d = 0 := by
    intro d
    rw [RefCount.Store.number, hHolders, Set.ncard_empty]
  have hTotal : ∀ d, (Depot.start resume f).store.total d = 0 := by
    intro d
    rw [RefCount.Store.total, hNumber]
    rfl
  refine ⟨⟨?_, ?_, ?_, ?_, ?_⟩, ?_, ⟨?_, ?_, ?_, ?_⟩, ?_, ?_, ?_, ?_⟩
  · intro index
    rw [Bucket.Table.Distinct, hEntries]
    exact List.nodup_nil
  · intro index e he
    rw [hEntries] at he
    cases he
  · intro i j bin hBin
    rw [hTable] at hBin
    cases hBin
  · intro index bin hBin
    rw [hTable] at hBin
    cases hBin
  · intro index bin hBin
    rw [hTable] at hBin
    cases hBin
  · intro index bin hBin
    rw [hTable] at hBin
    cases hBin
  · intro c
    show ((Depot.start resume f).contents c).Nodup
    rw [hContents]
    exact List.nodup_nil
  · intro d
    rw [hHolders]
    exact Set.finite_empty
  · intro d
    rw [hNumber]
    show ((Core.start f).datum d).refcount = 0
    rw [hLoaded]
    rfl
  · exact fun d => rfl
  · intro c d hd
    rw [hContents] at hd
    cases hd
  · intro e he
    cases he
  · intro d
    rw [hTotal]
    omega
  · intro d
    rw [hTotal]
    exact ⟨fun h => (by cases h), fun h => absurd h (Nat.lt_irrefl 0)⟩

section

variable {most : Nat} {s : Depot}

theorem share_entered (h : Kept most s) {con : ConId} {info : Datum}
    (hAccepts : s.accepts con info.filename = true) (user : UserId) (hash : Str) :
    Entered s.next Set.univ (s.references info.filename) s
      (s.insertDatum con user (newDatum info) hash) := by
  have hCount : (newDatum info).refcount = 0 := rfl
  exact (insertDatum_entered h (Bool.and_eq_true_iff.1 hAccepts).1 hCount user hash).1

/-- A user who leaves takes the table of files along. -/
theorem files_freeFiles (s : Depot) (con : ConId) : (s.freeFiles con).files con = none := by
  unfold Depot.freeFiles
  split
  · assumption
  · simp only [onCore, Core.files, Core.setFiles, Core.modCon_con, if_true]
    rw [Option.bind_map]
    exact Option.bind_eq_none_iff.2 fun _ _ => rfl

/-- No record that a step enters is held by more containers. -/
def Within (most : Nat) (s : Depot) : Filing → Prop
  | .share con _ info _ =>
    s.accepts con info.filename = true → s.references info.filename ≤ most
  | _ => True

theorem Kept.step (h : Kept most s) (e : Filing) (hMost : s.Within most e) :
    Kept most (s.step e) := by
  cases e with
  | login con usermode =>
    refine h.of_same (fun other => ?_) (fun index => by cases index <;> rfl) rfl rfl rfl rfl rfl
    refine congrArg Bucket.Table.values ?_
    by_cases hCon : other = con
    · subst hCon
      simp only [Depot.step, onCore, Core.library, Core.files, Core.modCon_con, if_true]
      cases (s.con other).uopt <;> rfl
    · simp [Depot.step, onCore, Core.library, Core.files, hCon]
  | share con user info hash =>
    simp only [Depot.step]
    split
    · rename_i hAccepts
      exact h.insertDatum (Bool.and_eq_true_iff.1 hAccepts).1 rfl (hMost hAccepts)
    · exact h
  | remove con user name =>
    simp only [Depot.step]
    split
    · exact h
    · split
      · exact h
      · exact h.dropFile con user _
  | leave con =>
    refine (h.freeFiles con).of_same (fun other => ?_) (fun index => by cases index <;> rfl)
      rfl rfl rfl rfl rfl
    refine congrArg Bucket.Table.values ?_
    by_cases hCon : other = con
    · subst hCon
      rw [Core.library, Core.library, files_freeFiles]
      simp [Depot.step, onCore, Core.files]
    · simp [Depot.step, onCore, Core.library, Core.files, hCon]
  | collect index => exact h.fdbGarbageCollect index
  | filter words =>
    exact h.of_same (fun other => rfl) (fun index => by cases index <;> rfl) rfl rfl rfl rfl rfl

end

/-- A record is entered in thirty-two containers at most. -/
theorem within_all (s : Depot) (e : Filing) : s.Within 32 e := by
  cases e with
  | share con user info hash =>
    intro _
    rw [references]
    split <;> omega
  | login | remove | leave | collect | filter => trivial

/-- What is kept holds after every run. -/
theorem kept_reach (resume : Bool) (f : Startup) (events : List Filing) :
    Kept 32 (reach resume f events) :=
  Runs.run_invariant (fun s e h => h.step e (within_all s e)) (Kept.start 32 resume f) events

/-! ### The references of a new record -/

/-- The count of a record that a step enters is the number of the containers that refer to it. -/
def counts (s : Depot) : Filing → Prop
  | .share con user info hash =>
    s.accepts con info.filename = true →
      ((s.step (.share con user info hash)).datum s.next).refcount.toNat =
        (s.step (.share con user info hash)).store.number s.next
  | _ => True

/-- With RESUME, a file that a step enters has fewer than thirty words that are not filtered. -/
def fits (s : Depot) : Filing → Prop
  | .share con _ info _ =>
    s.accepts con info.filename = true → s.resume = true → (s.tokenize info.filename).length < 30
  | _ => True

section

variable {most : Nat} {s : Depot}

theorem references_lt (s : Depot) (name : Str) :
    s.references name < 32 ↔ (s.resume = true → (s.tokenize name).length < 30) := by
  rw [references]
  cases s.resume with
  | false =>
    simp only [Bool.false_eq_true, if_false, false_implies, iff_true]
    omega
  | true =>
    simp only [if_true, true_implies]
    omega

theorem counts_iff (h : Kept most s) (e : Filing) : s.counts e ↔ s.fits e := by
  cases e with
  | share con user info hash =>
    refine imp_congr_right fun hAccepts => ?_
    have hStep : s.step (.share con user info hash) =
        s.insertDatum con user (newDatum info) hash := if_pos hAccepts
    rw [hStep]
    have hEntered := share_entered h hAccepts user hash
    have hExact := hEntered.exact.toNat_count s.next
    rw [hEntered.number, h.number_next, Nat.zero_add] at hExact
    rw [hEntered.number, h.number_next, Nat.zero_add]
    exact hExact.trans (references_lt s info.filename)
  | login | remove | leave | collect | filter => exact Iff.rfl

theorem within_of_fits {e : Filing} (h : s.fits e) : s.Within 31 e := by
  cases e with
  | share con user info hash =>
    intro hAccepts
    exact Nat.le_of_lt_succ ((references_lt s info.filename).2 (h hAccepts))
  | login | remove | leave | collect | filter => trivial

end

/-- In every run of either build, the count of each new record is the number of the containers that
refer to it, and no call of `free_datum` finds a count of zero, exactly when no file with thirty words
or more is shared with RESUME. -/
theorem refcount_fits_iff (resume : Bool) (f : Startup) (events : List Filing) :
    (Runs.Meets step counts (start resume f) events ∧
        ∀ e ∈ (reach resume f events).freed, e.2 ≠ 0) ↔
      Runs.Meets step fits (start resume f) events := by
  have hStep : ∀ s e, Kept 32 s → Kept 32 (s.step e) := fun s e h => h.step e (within_all s e)
  have hSame := Runs.meets_congr hStep (fun s e h => counts_iff h e) (Kept.start 32 resume f) events
  constructor
  · exact fun h => hSame.1 h.1
  · intro h
    have hKept : Kept 31 (reach resume f events) :=
      Runs.Meets.invariant (fun s e hFits hs => hs.step e (within_of_fits hFits)) h
        (Kept.start 31 resume f)
    exact ⟨hSame.2 h, hKept.exact.drop_ne_zero fun d =>
      Nat.lt_of_le_of_lt (hKept.bounded d) (by decide)⟩

/-- A name of thirty words. -/
def thirtyWords : Str := str "a b c d e f g h i j k l m n o p q r s t u v w x y z 0 1 2 3"

/-- A file with that name is shared and removed. -/
def sharedAndRemoved : List Filing :=
  [.login 0 0, .share 0 1 { filename := thirtyWords, size := 4096 } (str "00"),
    .remove 0 1 thirtyWords]

/-- With RESUME, the count of the record is zero when `free_datum` gets it. -/
theorem refcount_wraps : ¬ ∀ (resume : Bool) (f : Startup) (events : List Filing),
    Runs.Meets step counts (start resume f) events ∧
      ∀ e ∈ (reach resume f events).freed, e.2 ≠ 0 := by
  intro h
  have hFreed : (reach true hub sharedAndRemoved).freed.map Prod.snd = [0] := by decide +kernel
  have hIn : (0 : BitVec 5) ∈ (reach true hub sharedAndRemoved).freed.map Prod.snd := by
    rw [hFreed]
    exact List.mem_singleton_self 0
  obtain ⟨e, he, hZero⟩ := List.mem_map.1 hIn
  exact (h true hub sharedAndRemoved).2 e he hZero

/-! ### The release of a record -/

/-- A record is held by nothing exactly when the number of its holders is zero. -/
theorem Kept.number_eq_zero {most : Nat} {s : Depot} (h : Kept most s) (d : DatumId) :
    s.store.number d = 0 ↔ ∀ c, d ∉ s.contents c := by
  rw [RefCount.Store.number, Set.ncard_eq_zero (h.exact.finite d), Set.eq_empty_iff_forall_notMem]
  exact Iff.rfl

/-- In every run of either build, each call of `free_datum` finds the number of the containers that
still hold the record, modulo 32.  None of them finds a count of one, and so none releases the record,
while a container holds it; when none does, the last one has, and only that one.  A bin counts what it
lists, and is never empty. -/
theorem datum_lifetime (resume : Bool) (f : Startup) (events : List Filing) :
    (∀ d ∈ (reach resume f events).made,
      (reach resume f events).store.history d =
          RefCount.countdown 5 ((reach resume f events).store.total d)
            ((reach resume f events).store.history d).length ∧
        (∀ c, d ∈ (reach resume f events).contents c → 1 ∉ (reach resume f events).store.history d) ∧
        ((∀ c, d ∉ (reach resume f events).contents c) →
          ∃ before, (reach resume f events).store.history d = before ++ [1] ∧ 1 ∉ before)) ∧
      ∀ index, ∀ bin ∈ ((reach resume f events).table index).values,
        ((reach resume f events).flist bin).count = ((reach resume f events).flist bin).list.length ∧
          ((reach resume f events).flist bin).list ≠ [] := by
  have hKept := kept_reach resume f events
  generalize reach resume f events = s at hKept ⊢
  constructor
  · intro d hMade
    have hBound : s.store.total d ≤ 2 ^ 5 := hKept.bounded d
    refine ⟨hKept.exact.history d, ?_, ?_⟩
    · intro c hc
      refine hKept.exact.one_not_mem (by decide) hBound (Nat.pos_of_ne_zero ?_)
      intro hNone
      exact (hKept.number_eq_zero d).1 hNone c hc
    · intro hNone
      exact hKept.exact.last_one (by decide) hBound ((hKept.number_eq_zero d).2 hNone)
        ((hKept.made d).1 hMade)
  · exact fun index bin hBin =>
      ⟨hKept.shelved.counted index bin hBin, hKept.filled index bin hBin⟩

end Depot

end OpenNap
