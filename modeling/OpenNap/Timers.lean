import Mathlib.Algebra.Ring.Nat
import OpenNap.Lib.CText
import OpenNap.Lib.Loop
import OpenNap.Lib.Run

/-! `timer.c`: the list of pending timers, and the loop that runs the callbacks of those that are due.
A timer that fires goes back into the same list, so that the loop ends only if it goes far enough. -/

namespace OpenNap

open CText

/-- `TIMER`.  `func` is the callback with its argument, and `events` is an `int`, -1 for a timer without
end.  `id` is the number of the timer among all that were made, and `serial` that of the call of
`schedule_timer` that put it where it is. -/
structure Timer (F : Type) where
  func : F
  nextTime : Int
  interval : Int
  events : BitVec 32
  refnum : Nat
  id : Nat
  serial : Nat := 0

/-- `a` is due before `b`, or at the same time and was scheduled first. -/
def Timer.Before {F : Type} (a b : Timer F) : Prop :=
  a.nextTime < b.nextTime ∨ a.nextTime = b.nextTime ∧ a.serial < b.serial

section

variable {F : Type}

/-- The loop of `schedule_timer`: a timer goes in front of the first one that is due later. -/
def insertTimer (new : Timer F) : List (Timer F) → List (Timer F)
  | [] => [new]
  | t :: ts => if new.nextTime < t.nextTime then new :: t :: ts else t :: insertTimer new ts

theorem insertTimer_perm (new : Timer F) (l : List (Timer F)) :
    (insertTimer new l).Perm (new :: l) := by
  induction l with
  | nil => exact List.Perm.refl _
  | cons t l ih =>
    rw [insertTimer]
    split
    · exact List.Perm.refl _
    · exact (ih.cons t).trans (List.Perm.swap new t l)

theorem insertTimer_sorted {new : Timer F} {l : List (Timer F)} (h : l.Pairwise Timer.Before)
    (hNew : ∀ t ∈ l, t.serial < new.serial) : (insertTimer new l).Pairwise Timer.Before := by
  induction l with
  | nil => exact List.pairwise_singleton _ _
  | cons t l ih =>
    obtain ⟨hFirst, hRest⟩ := List.pairwise_cons.1 h
    rw [insertTimer]
    split
    · rename_i hLess
      refine List.pairwise_cons.2 ⟨fun u hu => ?_, h⟩
      rcases List.mem_cons.1 hu with rfl | hu
      · exact .inl hLess
      · have hAfter := hFirst u hu
        simp only [Timer.Before] at hAfter ⊢
        omega
    · rename_i hNot
      refine List.pairwise_cons.2 ⟨fun u hu => ?_, ih hRest fun u hu => hNew u (List.mem_cons_of_mem t hu)⟩
      rcases List.mem_cons.1 ((insertTimer_perm new l).mem_iff.1 hu) with rfl | hu
      · have hSerial := hNew t (List.mem_cons_self ..)
        simp only [Timer.Before]
        omega
      · exact hFirst u hu

/-- A timer that does not count changes nothing about those that do. -/
theorem filter_insertTimer {p : Timer F → Bool} {new : Timer F} (h : p new = false)
    (l : List (Timer F)) : (insertTimer new l).filter p = l.filter p := by
  induction l with
  | nil => simp [insertTimer, h]
  | cons t l ih =>
    rw [insertTimer]
    split
    · rw [List.filter_cons_of_neg (by simp [h])]
    · rw [List.filter_cons, List.filter_cons, ih]

end

/-- `Pending_Timers`, after `calls` calls of `schedule_timer` that put a timer into it.  The timers are
in the order in which they are due, and each has events left. -/
structure Pending (F : Type) where
  list : List (Timer F)
  calls : Nat
  live : ∀ t ∈ list, t.events ≠ 0
  sorted : list.Pairwise Timer.Before
  known : ∀ t ∈ list, t.serial < calls

namespace Pending

variable {F : Type}

/-- `Pending_Timers = NULL`. -/
def empty (F : Type) : Pending F where
  list := []
  calls := 0
  live := by simp
  sorted := List.Pairwise.nil
  known := by simp

/-- The list without its first timer. -/
def tail (p : Pending F) : Pending F where
  list := p.list.tail
  calls := p.calls
  live t ht := p.live t (List.mem_of_mem_tail ht)
  sorted := p.sorted.sublist (List.tail_sublist _)
  known t ht := p.known t (List.mem_of_mem_tail ht)

/-- `schedule_timer`. -/
def schedule (p : Pending F) (new : Timer F) : Pending F :=
  if h : new.events = 0 then p
  else
    { list := insertTimer { new with serial := p.calls } p.list
      calls := p.calls + 1
      live := fun t ht => by
        rcases List.mem_cons.1 ((insertTimer_perm _ p.list).mem_iff.1 ht) with rfl | ht
        · exact h
        · exact p.live t ht
      sorted := insertTimer_sorted p.sorted p.known
      known := fun t ht => by
        rcases List.mem_cons.1 ((insertTimer_perm _ p.list).mem_iff.1 ht) with rfl | ht
        · exact Nat.lt_succ_self _
        · exact Nat.lt_succ_of_lt (p.known t ht) }

theorem schedule_zero {new : Timer F} (h : new.events = 0) (p : Pending F) : p.schedule new = p := by
  rw [schedule, dif_pos h]

theorem list_schedule {new : Timer F} (h : new.events ≠ 0) (p : Pending F) :
    (p.schedule new).list = insertTimer { new with serial := p.calls } p.list := by
  rw [schedule, dif_neg h]

end Pending

/-- A callback that was run, with the time. -/
structure Firing (F : Type) where
  timer : Timer F
  time : Int

/-- The timers of a server.  `now` is `Current_Time`; `made` are the events with which `add_timer` made
the timers, and `fired` the callbacks that were run. -/
structure Timers (F : Type) where
  now : Int
  pending : Pending F
  made : List (BitVec 32) := []
  fired : List (Firing F) := []

namespace Timers

variable {F : Type}

/-- No timers yet. -/
def start (F : Type) (now : Int) : Timers F := { now := now, pending := Pending.empty F }

/-- `add_timer`, with the number that `make_refnum` gives. -/
def addTimer (s : Timers F) (interval : Int) (events : BitVec 32) (func : F) : Timers F :=
  if events = 0 then s
  else
    { s with
      pending := s.pending.schedule
        { func := func
          nextTime := s.now + interval
          interval := interval
          events := events
          refnum := s.pending.list.length + 1
          id := s.made.length }
      made := s.made ++ [events] }

/-- The number of events after a callback; -1 stays. -/
def eventsLeft (events : BitVec 32) : BitVec 32 := if events = -1 then events else events - 1

/-- The body of the loop of `exec_timers`: the first timer leaves the list, its callback is run, and it
is scheduled again. -/
def fire (s : Timers F) (current : Timer F) : Timers F :=
  let s := { s with pending := s.pending.tail, fired := s.fired ++ [⟨current, s.now⟩] }
  -- a timer without events is freed
  if current.events = 0 then s
  else
    { s with
      pending := s.pending.schedule
        { current with
          events := eventsLeft current.events
          nextTime := s.now + current.interval } }

/-- One pass of the loop of `exec_timers`. -/
def execPass (now : Int) (s : Timers F) : Timers F ⊕ Timers F :=
  match s.pending.list with
  | [] => .inr s
  | current :: _ => if current.nextTime ≤ now then .inl (s.fire current) else .inr s

/-- `exec_timers` returns. -/
def ExecTimers (now : Int) : Timers F → Timers F → Prop := Loop.Ends (execPass now)

/-! ### One pass -/

section

variable {s t : Timers F} {current : Timer F} {rest : List (Timer F)} {now : Int}

/-- A timer that fires at `now`, as it is scheduled again. -/
def again (now : Int) (current : Timer F) (calls : Nat) : Timer F :=
  { current with
    events := eventsLeft current.events
    nextTime := now + current.interval
    serial := calls }

/-- What a callback does to the list: the timer goes, or comes back with a later time. -/
theorem list_fire (h : s.pending.list = current :: rest) :
    (eventsLeft current.events = 0 ∧ (s.fire current).pending.list = rest) ∨
      (eventsLeft current.events ≠ 0 ∧ (s.fire current).pending.list =
        insertTimer (again s.now current s.pending.calls) rest) := by
  have hLive : current.events ≠ 0 := s.pending.live current (by simp [h])
  have hTail : s.pending.tail.list = rest := congrArg List.tail h
  simp only [fire, if_neg hLive]
  by_cases hZero : eventsLeft current.events = 0
  · refine .inl ⟨hZero, ?_⟩
    rw [Pending.schedule_zero hZero]
    exact hTail
  · refine .inr ⟨hZero, ?_⟩
    rw [Pending.list_schedule hZero, hTail]
    rfl

theorem rest_fire (s : Timers F) (current : Timer F) :
    (s.fire current).now = s.now ∧ (s.fire current).made = s.made ∧
      (s.fire current).fired = s.fired ++ [⟨current, s.now⟩] := by
  simp only [fire]
  split <;> exact ⟨rfl, rfl, rfl⟩

/-- A pass goes on with a timer that is due, or nothing is due. -/
theorem execPass_cases (now : Int) (s : Timers F) :
    (∃ current rest, s.pending.list = current :: rest ∧ current.nextTime ≤ now ∧
      execPass now s = .inl (s.fire current)) ∨
    (execPass now s = .inr s ∧ ∀ t ∈ s.pending.list, now < t.nextTime) := by
  simp only [execPass]
  cases hList : s.pending.list with
  | nil => exact .inr ⟨rfl, by simp⟩
  | cons current rest =>
    by_cases hDue : current.nextTime ≤ now
    · exact .inl ⟨current, rest, rfl, hDue, if_pos hDue⟩
    · refine .inr ⟨if_neg hDue, fun t ht => ?_⟩
      have hSorted := s.pending.sorted
      rw [hList] at hSorted
      rcases List.mem_cons.1 ht with rfl | ht
      · omega
      · have hBefore := (List.pairwise_cons.1 hSorted).1 t ht
        simp only [Timer.Before] at hBefore
        omega

end

/-! ### When the loop ends -/

section

variable {s t : Timers F} {current : Timer F} {rest : List (Timer F)} {now : Int}

theorem eventsLeft_forever : eventsLeft (-1) = -1 := if_pos rfl

/-- A timer with an end has one event less after a callback, and still has an end. -/
theorem eventsLeft_toNat {events : BitVec 32} (hLive : events ≠ 0) (hEnd : events ≠ -1) :
    (eventsLeft events).toNat + 1 = events.toNat ∧ eventsLeft events ≠ -1 := by
  rw [eventsLeft, if_neg hEnd]
  constructor
  · bv_omega
  · bv_omega

/-- A timer that fires without end in the same call. -/
def Stuck (now : Int) (t : Timer F) : Prop := t.events = -1 ∧ t.nextTime ≤ now ∧ t.interval ≤ 0

/-- How many callbacks of a timer a call of `exec_timers` runs at most, if it is not stuck. -/
def turns (now : Int) (t : Timer F) : Nat :=
  if t.nextTime ≤ now then if t.events = -1 then 1 else t.events.toNat else 0

theorem turns_again {calls : Nat} (hDue : current.nextTime ≤ now) (hLive : current.events ≠ 0)
    (hFree : ¬ Stuck now current) : turns now (again now current calls) < turns now current := by
  have hAgain : turns now (again now current calls) = if now + current.interval ≤ now then
      if eventsLeft current.events = -1 then 1 else (eventsLeft current.events).toNat else 0 := rfl
  rw [hAgain, turns, if_pos hDue]
  by_cases hForever : current.events = -1
  · have hPos : ¬ now + current.interval ≤ now := by
      intro hLate
      exact hFree ⟨hForever, hDue, by omega⟩
    rw [if_neg hPos, if_pos hForever]
    exact Nat.zero_lt_one
  · obtain ⟨hLess, hEnd⟩ := eventsLeft_toNat hLive hForever
    rw [if_neg hEnd, if_neg hForever]
    split <;> omega

/-- No timer is stuck. -/
structure Free (now : Int) (s : Timers F) : Prop where
  time : s.now = now
  free : ∀ t ∈ s.pending.list, ¬ Stuck now t

/-- A pass that goes on leaves fewer callbacks. -/
theorem Free.next (h : Free now s) (hPass : execPass now s = .inl t) :
    Free now t ∧ (t.pending.list.map (turns now)).sum < (s.pending.list.map (turns now)).sum := by
  rcases execPass_cases now s with ⟨current, rest, hList, hDue, hFire⟩ | ⟨hDone, -⟩
  · rw [hFire] at hPass
    cases hPass
    have hLive : current.events ≠ 0 := s.pending.live current (by simp [hList])
    have hHead : ¬ Stuck now current := h.free current (by simp [hList])
    have hTurns : turns now (again s.now current s.pending.calls) < turns now current := by
      rw [h.time]
      exact turns_again hDue hLive hHead
    refine ⟨⟨(rest_fire s current).1.trans h.time, ?_⟩, ?_⟩
    · rcases list_fire hList with ⟨-, hRest⟩ | ⟨-, hAgain⟩
      · rw [hRest]
        exact fun t ht => h.free t (by simp [hList, ht])
      · rw [hAgain]
        intro t ht
        rcases List.mem_cons.1 ((insertTimer_perm _ rest).mem_iff.1 ht) with rfl | ht
        · rintro ⟨hForever, -, hInterval⟩
          have hWas : current.events = -1 := by
            by_contra hEnd
            exact (eventsLeft_toNat hLive hEnd).2 hForever
          exact hHead ⟨hWas, hDue, hInterval⟩
        · exact h.free t (by simp [hList, ht])
    · rcases list_fire hList with ⟨hZero, hRest⟩ | ⟨-, hAgain⟩
      · have hSome : 0 < turns now current := Nat.zero_lt_of_lt hTurns
        rw [hRest, hList, List.map_cons, List.sum_cons]
        omega
      · rw [hAgain, ((insertTimer_perm _ rest).map _).sum_nat, hList]
        simp only [List.map_cons, List.sum_cons]
        omega
  · rw [hDone] at hPass
    cases hPass

theorem exec_ends (h : ∀ t ∈ s.pending.list, ¬ Stuck s.now t) : ∃ t, ExecTimers s.now s t := by
  have hFree : Free s.now s := ⟨rfl, h⟩
  obtain ⟨r, hEnds, -⟩ := Loop.ends_of_measure (Q := fun _ => True)
    (fun u => (u.pending.list.map (turns s.now)).sum) (fun u v hu hPass => hu.next hPass)
    (fun _ _ _ _ => trivial) hFree
  exact ⟨r, hEnds⟩

/-- A timer that is stuck is still there after each callback, and so the loop goes on. -/
theorem exec_hangs {stuck : Timer F} (hStuck : stuck ∈ s.pending.list) (h : Stuck s.now stuck)
    (t : Timers F) : ¬ ExecTimers s.now s t := by
  refine Loop.not_ends (I := fun u => u.now = s.now ∧ ∃ t ∈ u.pending.list, Stuck s.now t) ?_
    ⟨rfl, stuck, hStuck, h⟩ t
  rintro u ⟨hNow, stuck, hIn, hForever, hDue, hInterval⟩
  rcases execPass_cases s.now u with ⟨current, rest, hList, hFirst, hFire⟩ | ⟨-, hLater⟩
  · refine ⟨u.fire current, hFire, (rest_fire u current).1.trans hNow, ?_⟩
    rw [hList] at hIn
    rcases List.mem_cons.1 hIn with rfl | hIn
    · rcases list_fire hList with ⟨hZero, -⟩ | ⟨-, hAgain⟩
      · rw [hForever, eventsLeft_forever] at hZero
        exact absurd hZero (by decide)
      · refine ⟨again u.now stuck u.pending.calls, ?_, ?_, ?_, hInterval⟩
        · rw [hAgain]
          exact (insertTimer_perm _ rest).mem_iff.2 (List.mem_cons_self ..)
        · rw [again, hForever, eventsLeft_forever]
        · simp only [again, hNow]
          omega
    · refine ⟨stuck, ?_, hForever, hDue, hInterval⟩
      rcases list_fire hList with ⟨-, hRest⟩ | ⟨-, hAgain⟩
      · rw [hRest]
        exact hIn
      · rw [hAgain]
        exact (insertTimer_perm _ rest).mem_iff.2 (List.mem_cons_of_mem _ hIn)
  · have hAfter := hLater stuck hIn
    omega

/-- `exec_timers` runs finitely many callbacks exactly when every timer without end that is due has a
positive interval. -/
theorem exec_ends_iff (s : Timers F) : (∃ t, ExecTimers s.now s t) ↔
    ∀ t ∈ s.pending.list, t.events = -1 → t.nextTime ≤ s.now → 0 < t.interval := by
  constructor
  · rintro ⟨t, hEnds⟩ stuck hIn hForever hDue
    by_contra hInterval
    exact exec_hangs hIn ⟨hForever, hDue, by omega⟩ t hEnds
  · intro hPositive
    refine exec_ends fun t ht hStuck => ?_
    have hInterval := hPositive t ht hStuck.1 hStuck.2.1
    exact absurd hStuck.2.2 (by omega)

end

/-! ### The timers of the server -/

/-- What `set_var` stores for a variable of type `VAR_TYPE_INT`, if the text is a number. -/
def intVar (val : Str) : Option Int :=
  let (n, ptr) := strtol val
  if ptr = [] then some (toInt32 n) else none

/-- `Collect_Interval`, `Stat_Click` and `User_Db_Interval`, with their defaults. -/
structure Intervals where
  collectInterval : Int := 300
  statClick : Int := 60
  userDbInterval : Int := 1800

/-- The callbacks of `main`. -/
inductive Callback where
  | fdbGarbageCollect
  | updateStats
  | dumpState
  | expireBans
deriving DecidableEq

/-- The periodic events that `main` schedules when the server starts; `resume` is `RESUME`. -/
def periodic (resume : Bool) (now : Int) (vars : Intervals) : Timers Callback :=
  let s := (start Callback now).addTimer vars.collectInterval (-1) .fdbGarbageCollect
  let s := if resume then s.addTimer vars.collectInterval (-1) .fdbGarbageCollect else s
  let s := s.addTimer vars.statClick (-1) .updateStats
  let s := s.addTimer vars.userDbInterval (-1) .dumpState
  s.addTimer 60 (-1) .expireBans

section

variable {s : Timers F} {interval : Int} {events : BitVec 32} {func : F}

/-- `add_timer` takes no timer away. -/
theorem mem_addTimer {t : Timer F} (h : t ∈ s.pending.list) :
    t ∈ (s.addTimer interval events func).pending.list := by
  by_cases hZero : events = 0
  · simpa [addTimer, hZero] using h
  · rw [addTimer, if_neg hZero, Pending.list_schedule hZero, (insertTimer_perm _ _).mem_iff]
    exact List.mem_cons_of_mem _ h

theorem now_addTimer : (s.addTimer interval events func).now = s.now := by
  rw [addTimer]
  split <;> rfl

/-- Some timer that is due would fire without end. -/
def Hangs (s : Timers F) : Prop := ∃ t ∈ s.pending.list, Stuck s.now t

theorem Hangs.addTimer (h : Hangs s) : Hangs (s.addTimer interval events func) := by
  obtain ⟨t, hIn, hStuck⟩ := h
  refine ⟨t, mem_addTimer hIn, ?_⟩
  rw [now_addTimer]
  exact hStuck

theorem hangs_addTimer (h : interval ≤ 0) : Hangs (s.addTimer interval (-1) func) := by
  have hLive : (-1 : BitVec 32) ≠ 0 := by decide
  rw [Timers.addTimer, if_neg hLive, Hangs, Pending.list_schedule hLive]
  exact ⟨_, (insertTimer_perm _ _).mem_iff.2 (List.mem_cons_self ..), rfl,
    Int.add_le_of_le_sub_left (by simpa using h), h⟩

end

/-- With an interval of `stat_click` that is not positive the first call of `exec_timers` does not
end. -/
theorem periodic_hangs {resume : Bool} {now : Int} {vars : Intervals} (h : vars.statClick ≤ 0)
    (t : Timers Callback) : ¬ ExecTimers now (periodic resume now vars) t := by
  have hNow : (periodic resume now vars).now = now := by
    cases resume <;> simp only [periodic, now_addTimer] <;> rfl
  have hHangs : Hangs (periodic resume now vars) := (hangs_addTimer h).addTimer.addTimer
  obtain ⟨stuck, hIn, hStuck⟩ := hHangs
  have hEndless := exec_hangs hIn hStuck t
  rwa [hNow] at hEndless

/-- `stat_click 0` in the file of the configuration is taken, and the server comes to a standstill. -/
theorem stat_click_zero_hangs : ∃ n, intVar (str "0") = some n ∧
    ¬ ∃ t, ExecTimers 1000 (periodic false 1000 { statClick := n }) t :=
  ⟨0, by decide, fun ⟨t, h⟩ => periodic_hangs (Int.le_refl 0) t h⟩

end Timers

end OpenNap
