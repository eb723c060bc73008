import OpenNap.Timers

/-! Runs of the timers: calls of `add_timer` with positive intervals and of `exec_timers`, while the
clock goes on.  The timers stay in order, each call fires what is due once, and no timer fires more
often than it was made for. -/

namespace OpenNap

namespace Timers

variable {F : Type}

/-- What happens to the timers in a run. -/
inductive Call : Timers F → Timers F → Prop
  /-- A timer is added. -/
  | add {s : Timers F} {interval : Int} (events : BitVec 32) (func : F) (h : 0 < interval) :
      Call s (s.addTimer interval events func)
  /-- The clock goes on. -/
  | tick {s : Timers F} (n : Nat) : Call s { s with now := s.now + n }
  /-- The timers that are due are run, with `now` the current time. -/
  | exec {s t : Timers F} (h : ExecTimers s.now s t) : Call s t

/-- The timers that are due, in their order. -/
def due (s : Timers F) : List (Timer F) := s.pending.list.filter (·.nextTime ≤ s.now)

/-- How often a timer has fired. -/
def shots (s : Timers F) (id : Nat) : Nat := s.fired.countP (·.timer.id = id)

/-- The events that a timer in the list has left, -1 as an unsigned value. -/
def remaining (l : List (Timer F)) (id : Nat) : Nat :=
  (l.map fun t => if t.id = id then t.events.toNat else 0).sum

section

variable {l l' : List (Timer F)} {t : Timer F} {id : Nat}

theorem remaining_cons : remaining (t :: l) id =
    (if t.id = id then t.events.toNat else 0) + remaining l id := by
  rw [remaining, List.map_cons, List.sum_cons, remaining]

theorem remaining_perm (h : l.Perm l') : remaining l id = remaining l' id := (h.map _).sum_nat

theorem le_remaining (h : t ∈ l) : t.events.toNat ≤ remaining l t.id := by
  induction l with
  | nil => cases h
  | cons u l ih =>
    rw [remaining_cons]
    rcases List.mem_cons.1 h with rfl | h
    · rw [if_pos rfl]
      exact Nat.le_add_right _ _
    · exact Nat.le_trans (ih h) (Nat.le_add_left _ _)

/-- Timers with other numbers count nothing. -/
theorem remaining_eq_zero (h : ∀ t ∈ l, t.id ≠ id) : remaining l id = 0 := by
  induction l with
  | nil => rfl
  | cons t l ih =>
    rw [remaining_cons, if_neg (h t (by simp)), ih fun u hu => h u (by simp [hu])]

end

/-- What the calls of a run keep. -/
structure Steady (s : Timers F) : Prop where
  /-- Every interval is positive. -/
  positive : ∀ t ∈ s.pending.list, 0 < t.interval
  /-- A timer is in the list once at most. -/
  once : (s.pending.list.map (·.id)).Nodup
  /-- The numbers are those of timers that were made. -/
  pendingMade : ∀ t ∈ s.pending.list, t.id < s.made.length
  firedMade : ∀ f ∈ s.fired, f.timer.id < s.made.length
  /-- No callback was run before its time. -/
  notEarly : ∀ f ∈ s.fired, f.timer.nextTime ≤ f.time
  /-- A timer without end is in the list. -/
  endless : ∀ id, s.made[id]? = some (-1) → ∃ t ∈ s.pending.list, t.id = id ∧ t.events = -1
  /-- The callbacks that were run and those that are left are no more than the timer was made for. -/
  account : ∀ id events, s.made[id]? = some events → events ≠ -1 →
    shots s id + remaining s.pending.list id ≤ events.toNat

theorem Steady.start (now : Int) : Steady (start F now) where
  positive := by simp [Timers.start, Pending.empty]
  once := List.nodup_nil
  pendingMade := by simp [Timers.start, Pending.empty]
  firedMade := by simp [Timers.start]
  notEarly := by simp [Timers.start]
  endless := by simp [Timers.start]
  account := by simp [Timers.start]

theorem Steady.tick {s : Timers F} (h : Steady s) (n : Nat) : Steady { s with now := s.now + n } :=
  ⟨h.positive, h.once, h.pendingMade, h.firedMade, h.notEarly, h.endless, h.account⟩

/-- An entry of a list with one more. -/
theorem made_append {made : List (BitVec 32)} {new events : BitVec 32} {id : Nat}
    (h : (made ++ [new])[id]? = some events) :
    made[id]? = some events ∨ id = made.length ∧ events = new := by
  rcases Nat.lt_or_ge id made.length with hLess | hGe
  · rw [List.getElem?_append_left hLess] at h
    exact .inl h
  · rw [List.getElem?_append_right hGe] at h
    have hZero : id - made.length = 0 := by
      by_contra hPos
      rw [List.getElem?_eq_none (by simp; omega)] at h
      cases h
    rw [hZero] at h
    exact .inr ⟨by omega, (Option.some.inj h).symm⟩

/-- A timer that is made has a number of its own and all its events left. -/
theorem Steady.add {s : Timers F} {interval : Int} (h : Steady s) (hInterval : 0 < interval)
    (events : BitVec 32) (func : F) : Steady (s.addTimer interval events func) := by
  by_cases hZero : events = 0
  · rw [addTimer, if_pos hZero]
    exact h
  have hList : ∃ new : Timer F, new.interval = interval ∧ new.events = events ∧
      new.id = s.made.length ∧
      (s.addTimer interval events func).pending.list.Perm (new :: s.pending.list) := by
    rw [addTimer, if_neg hZero, Pending.list_schedule hZero]
    exact ⟨_, rfl, rfl, rfl, insertTimer_perm _ _⟩
  have hMade : (s.addTimer interval events func).made = s.made ++ [events] := by
    rw [addTimer, if_neg hZero]
  have hFired : (s.addTimer interval events func).fired = s.fired := by
    rw [addTimer, if_neg hZero]
  obtain ⟨new, hNewInterval, hNewEvents, hNewId, hPerm⟩ := hList
  have hLength : (s.addTimer interval events func).made.length = s.made.length + 1 := by
    rw [hMade, List.length_append, List.length_singleton]
  have hOther : ∀ t ∈ s.pending.list, t.id ≠ s.made.length := fun t ht =>
    Nat.ne_of_lt (h.pendingMade t ht)
  constructor
  · intro t ht
    rcases List.mem_cons.1 (hPerm.mem_iff.1 ht) with rfl | ht
    · rw [hNewInterval]
      exact hInterval
    · exact h.positive t ht
  · refine ((hPerm.map _).nodup_iff).2 (List.nodup_cons.2 ⟨?_, h.once⟩)
    intro hIn
    obtain ⟨t, ht, hId⟩ := List.mem_map.1 hIn
    exact hOther t ht (hId.trans hNewId)
  · intro t ht
    rw [hLength]
    rcases List.mem_cons.1 (hPerm.mem_iff.1 ht) with rfl | ht
    · omega
    · exact Nat.lt_succ_of_lt (h.pendingMade t ht)
  · intro f hf
    rw [hFired] at hf
    rw [hLength]
    exact Nat.lt_succ_of_lt (h.firedMade f hf)
  · rw [hFired]
    exact h.notEarly
  · intro id hId
    rw [hMade] at hId
    rcases made_append hId with hOld | ⟨rfl, hNew⟩
    · obtain ⟨t, ht, hRest⟩ := h.endless id hOld
      exact ⟨t, hPerm.mem_iff.2 (List.mem_cons_of_mem _ ht), hRest⟩
    · exact ⟨new, hPerm.mem_iff.2 (List.mem_cons_self ..), hNewId, hNewEvents.trans hNew.symm⟩
  · intro id n hId hEnd
    rw [hMade] at hId
    rw [remaining_perm hPerm, remaining_cons, hNewId, hNewEvents, shots, hFired]
    rcases made_append hId with hOld | ⟨rfl, rfl⟩
    · have hLess : id < s.made.length := (List.getElem?_eq_some_iff.1 hOld).1
      rw [if_neg (by omega), Nat.zero_add]
      exact h.account id n hOld hEnd
    · have hShots : s.fired.countP (fun f => f.timer.id = s.made.length) = 0 := by
        refine List.countP_eq_zero.2 fun f hf => ?_
        have hLess := h.firedMade f hf
        simp only [decide_eq_true_eq]
        omega
      rw [hShots, if_pos rfl, remaining_eq_zero hOther]
      omega

/-- The list after a callback: at most one timer more than the rest, with one event less. -/
theorem remaining_fire {s : Timers F} {current : Timer F} {rest : List (Timer F)}
    (h : s.pending.list = current :: rest) (id : Nat) :
    remaining (s.fire current).pending.list id =
      (if current.id = id then (eventsLeft current.events).toNat else 0) + remaining rest id := by
  rcases list_fire h with ⟨hZero, hRest⟩ | ⟨-, hAgain⟩
  · rw [hRest, hZero]
    simp
  · rw [hAgain, remaining_perm (insertTimer_perm _ rest), remaining_cons]
    rfl

/-- A timer that is in the list after a callback is one of the others, or the one that fired. -/
theorem mem_fire {s : Timers F} {current t : Timer F} {rest : List (Timer F)}
    (h : s.pending.list = current :: rest) (ht : t ∈ (s.fire current).pending.list) :
    t ∈ rest ∨ t = again s.now current s.pending.calls := by
  rcases list_fire h with ⟨-, hRest⟩ | ⟨-, hAgain⟩
  · rw [hRest] at ht
    exact .inl ht
  · rw [hAgain] at ht
    exact (List.mem_cons.1 ((insertTimer_perm _ rest).mem_iff.1 ht)).symm

/-- A callback that is due keeps the invariant. -/
theorem Steady.fire {s : Timers F} {current : Timer F} {rest : List (Timer F)} (h : Steady s)
    (hList : s.pending.list = current :: rest) (hDue : current.nextTime ≤ s.now) :
    Steady (s.fire current) := by
  obtain ⟨-, hMade, hFired⟩ := rest_fire s current
  have hCurrent : current ∈ s.pending.list := by simp [hList]
  have hRest : ∀ t ∈ rest, t ∈ s.pending.list := fun t ht => by simp [hList, ht]
  have hLive : current.events ≠ 0 := s.pending.live current hCurrent
  have hOnce : (current.id :: rest.map (·.id)).Nodup := by
    have hAll := h.once
    rwa [hList] at hAll
  constructor
  · intro t ht
    rcases mem_fire hList ht with ht | rfl
    · exact h.positive t (hRest t ht)
    · exact h.positive current hCurrent
  · rcases list_fire hList with ⟨-, hNew⟩ | ⟨-, hNew⟩
    · rw [hNew]
      exact (List.nodup_cons.1 hOnce).2
    · rw [hNew]
      exact (((insertTimer_perm _ rest).map _).nodup_iff).2 hOnce
  · intro t ht
    rw [hMade]
    rcases mem_fire hList ht with ht | rfl
    · exact h.pendingMade t (hRest t ht)
    · exact h.pendingMade current hCurrent
  · intro f hf
    rw [hMade]
    rw [hFired] at hf
    rcases List.mem_append.1 hf with hf | hf
    · exact h.firedMade f hf
    · rw [List.mem_singleton.1 hf]
      exact h.pendingMade current hCurrent
  · intro f hf
    rw [hFired] at hf
    rcases List.mem_append.1 hf with hf | hf
    · exact h.notEarly f hf
    · rw [List.mem_singleton.1 hf]
      exact hDue
  · intro id hId
    rw [hMade] at hId
    obtain ⟨t, ht, hIs, hForever⟩ := h.endless id hId
    rw [hList] at ht
    rcases list_fire hList with ⟨hZero, hNew⟩ | ⟨-, hNew⟩
    · rw [hNew]
      rcases List.mem_cons.1 ht with rfl | ht
      · rw [hForever, eventsLeft_forever] at hZero
        exact absurd hZero (by decide)
      · exact ⟨t, ht, hIs, hForever⟩
    · rw [hNew]
      rcases List.mem_cons.1 ht with rfl | ht
      · refine ⟨_, (insertTimer_perm _ rest).mem_iff.2 (List.mem_cons_self ..), hIs, ?_⟩
        rw [again, hForever, eventsLeft_forever]
      · exact ⟨t, (insertTimer_perm _ rest).mem_iff.2 (List.mem_cons_of_mem _ ht), hIs, hForever⟩
  · intro id n hId hEnd
    rw [hMade] at hId
    have hBefore := h.account id n hId hEnd
    rw [hList, remaining_cons] at hBefore
    rw [remaining_fire hList, shots, hFired, List.countP_append, List.countP_singleton]
    by_cases hIs : current.id = id
    · -- a timer that was made with an end still has one
      have hLess : current.events ≠ -1 := by
        intro hForever
        rw [if_pos hIs, hForever] at hBefore
        exact hEnd (by bv_omega)
      obtain ⟨hLeft, -⟩ := eventsLeft_toNat hLive hLess
      rw [if_pos hIs] at hBefore
      rw [if_pos hIs, if_pos (by simpa using hIs)]
      change shots s id + 1 + ((eventsLeft current.events).toNat + remaining rest id) ≤ n.toNat
      omega
    · rw [if_neg hIs] at hBefore
      rw [if_neg hIs, if_neg (by simpa using hIs)]
      exact hBefore

/-! ### A call of `exec_timers` -/

section

variable {s t u : Timers F}

/-- With a positive interval a timer that fires is not due again in the same call. -/
theorem due_fire {current : Timer F} {rest : List (Timer F)} (hList : s.pending.list = current :: rest)
    (hDue : current.nextTime ≤ s.now) (hInterval : 0 < current.interval) :
    due s = current :: due (s.fire current) := by
  have hAgain : ¬ s.now + current.interval ≤ s.now := by omega
  rw [due, due, hList, List.filter_cons_of_pos (by simpa using hDue), (rest_fire s current).1]
  congr 1
  rcases list_fire hList with ⟨-, hNew⟩ | ⟨-, hNew⟩
  · rw [hNew]
  · rw [hNew, filter_insertTimer (decide_eq_false hAgain)]

/-- Where the loop of `exec_timers` is: the callbacks that were run and those that are due are the same
at every pass. -/
structure Draining (s u : Timers F) : Prop where
  steady : Steady u
  time : u.now = s.now
  calls : u.fired ++ (due u).map (⟨·, s.now⟩) = s.fired ++ (due s).map (⟨·, s.now⟩)

theorem Draining.next (h : Draining s u) (hPass : execPass s.now u = .inl t) : Draining s t := by
  rcases execPass_cases s.now u with ⟨current, rest, hList, hDue, hFire⟩ | ⟨hDone, -⟩
  · rw [hFire] at hPass
    cases hPass
    rw [← h.time] at hDue
    refine ⟨h.steady.fire hList hDue, (rest_fire u current).1.trans h.time, ?_⟩
    rw [← h.calls, (rest_fire u current).2.2,
      due_fire hList hDue (h.steady.positive current (by simp [hList])), h.time, List.append_assoc]
    rfl
  · rw [hDone] at hPass
    cases hPass

theorem Draining.done (h : Draining s u) (hPass : execPass s.now u = .inr t) :
    Steady t ∧ t.fired = s.fired ++ (due s).map (⟨·, s.now⟩) := by
  rcases execPass_cases s.now u with ⟨current, rest, -, -, hFire⟩ | ⟨hDone, hLater⟩
  · rw [hFire] at hPass
    cases hPass
  · rw [hDone] at hPass
    cases hPass
    have hNone : due t = [] := by
      refine List.filter_eq_nil_iff.2 fun v hv => ?_
      have hAfter := hLater v hv
      rw [← h.time] at hAfter
      simpa using hAfter
    refine ⟨h.steady, ?_⟩
    rw [← h.calls, hNone]
    simp

/-- A call of `exec_timers` runs the callbacks of the timers that were due, in their order. -/
theorem exec_fires (hSteady : Steady s) (h : ExecTimers s.now s t) :
    Steady t ∧ t.fired = s.fired ++ (due s).map (⟨·, s.now⟩) :=
  Loop.Ends.post (I := Draining s)
    (Q := fun t => Steady t ∧ t.fired = s.fired ++ (due s).map (⟨·, s.now⟩))
    (fun _ _ hu hPass => hu.next hPass) (fun _ _ hu hPass => hu.done hPass) ⟨hSteady, rfl, rfl⟩ h

theorem Call.steady (h : Call s t) (hSteady : Steady s) : Steady t := by
  cases h with
  | add events func hInterval => exact hSteady.add hInterval events func
  | tick n => exact hSteady.tick n
  | exec hExec => exact (exec_fires hSteady hExec).1

end

/-! ### Runs -/

/-- The timers are in order, and have fired as they should. -/
structure Orderly (s : Timers F) : Prop where
  /-- `Pending_Timers` is sorted. -/
  sorted : s.pending.list.Pairwise fun a b => a.nextTime ≤ b.nextTime
  /-- No timer has fired before its time. -/
  notEarly : ∀ f ∈ s.fired, f.timer.nextTime ≤ f.time
  /-- The next call of `exec_timers` returns. -/
  returns : ∃ t, ExecTimers s.now s t
  /-- It runs the callbacks of the timers that are due, and no others. -/
  fires : ∀ t, ExecTimers s.now s t → t.fired = s.fired ++ (due s).map (⟨·, s.now⟩)
  /-- Each timer is among these once at most. -/
  once : ((due s).map (·.id)).Nodup
  /-- They are in the order of their times, and of their insertion where these are the same. -/
  order : (due s).Pairwise Timer.Before
  /-- A timer that was made with a number of events fires at most so many times. -/
  atMost : ∀ id events, s.made[id]? = some events → 0 < events.toInt →
    (shots s id : Int) ≤ events.toInt
  /-- A timer that was made with -1 is in the list. -/
  always : ∀ id, s.made[id]? = some (-1) → ∃ t ∈ s.pending.list, t.id = id

theorem Steady.orderly {s : Timers F} (h : Steady s) : Orderly s where
  sorted := s.pending.sorted.imp fun hBefore => by
    simp only [Timer.Before] at hBefore
    omega
  notEarly := h.notEarly
  returns := exec_ends fun t ht hStuck => by
    have hPositive := h.positive t ht
    exact absurd hStuck.2.2 (by omega)
  fires := fun _ hExec => (exec_fires h hExec).2
  once := h.once.sublist ((List.filter_sublist).map _)
  order := s.pending.sorted.sublist List.filter_sublist
  atMost := fun id events hId hPos => by
    have hEnd : events ≠ -1 := by
      rintro rfl
      exact absurd hPos (by decide)
    have hAccount := h.account id events hId hEnd
    have hSame : events.toInt = events.toNat := by
      rw [BitVec.toInt_eq_toNat_cond] at hPos ⊢
      split at hPos <;> omega
    omega
  always := fun id hId => by
    obtain ⟨t, ht, hIs, -⟩ := h.endless id hId
    exact ⟨t, ht, hIs⟩

/-- In every run the timers stay in order, every call of `exec_timers` fires what is due once, and no
timer fires more often than it was made for. -/
theorem run_orderly {now : Int} {s : Timers F} (h : Runs.Path Call (start F now) s) : Orderly s :=
  (h.invariant (fun _ _ hCall hSteady => hCall.steady hSteady) (Steady.start now)).orderly

/-- A timer for one event and one without end: when both have fired, the first is gone. -/
theorem run_orderly_two : ∃ s : Timers Callback, s.fired.length = 2 ∧ s.pending.list.length = 1 ∧
    Orderly s := by
  let once := (start Callback 1000).addTimer 5 1 .updateStats
  let both := once.addTimer 5 (-1) .expireBans
  let late := { both with now := both.now + (7 : Nat) }
  have hOnce : Call (start Callback 1000) once := .add 1 Callback.updateStats (by decide)
  have hBoth : Call once both := .add (-1) Callback.expireBans (by decide)
  have hExec : ExecTimers late.now late ((late.fire ⟨.updateStats, 1005, 5, 1, 1, 0, 0⟩).fire
      ⟨.expireBans, 1005, 5, -1, 2, 1, 1⟩) := ⟨3, rfl⟩
  exact ⟨_, rfl, rfl, run_orderly
    ((((Relation.ReflTransGen.single hOnce).tail hBoth).tail (.tick 7)).tail (.exec hExec))⟩

end Timers

end OpenNap
