import Mathlib.Logic.Function.Basic
import OpenNap.Connection
import OpenNap.Lib.Run

/-! The array `Clients` by itself: `add_client` finds a slot for a connection or makes ten more, and the
end of `remove_connection` empties the slot.  What `realloc` leaves in new memory is arbitrary. -/

namespace OpenNap

open CText

/-- `Clients` with its `Max_Clients` slots, `Num_Clients`, the `id` of each connection, and which
connections are open. -/
@[ext] structure ClientArray where
  clients : List (Option ConId) := []
  numClients : Nat := 0
  id : ConId → Int := fun _ => 0
  live : ConId → Bool := fun _ => false

namespace ClientArray

/-- `realloc` to ten more slots, and `memset` for all new ones but the first. -/
def grow (s : ClientArray) (junk : Nat → Option ConId) : List (Option ConId) :=
  (List.range 9).foldl (fun clients k => clients.set (s.clients.length + 1 + k) none)
    (s.clients ++ (List.range 10).map junk)

/-- `Clients[slot] = cli; cli->id = slot`. -/
def put (s : ClientArray) (clients : List (Option ConId)) (slot : Nat) (cli : ConId) : ClientArray :=
  { s with
    clients := clients.set slot (some cli)
    id := Function.update s.id cli (toShort slot) }

/-- `add_client`. -/
def addClient (s : ClientArray) (junk : Nat → Option ConId) (cli : ConId) : ClientArray :=
  let s :=
    if s.clients.length = s.numClients then s.put (s.grow junk) s.numClients cli
    else
      match s.clients.findIdx? (·.isNone) with
      | some i => s.put s.clients i cli
      | none => s
  { s with numClients := s.numClients + 1 }

/-- A new connection, which `CALLOC` gives. -/
def opened (s : ClientArray) (cli : ConId) : ClientArray :=
  { s with
    id := Function.update s.id cli 0
    live := Function.update s.live cli true }

/-- The end of `remove_connection`. -/
def freeConnection (s : ClientArray) (con : ConId) : ClientArray :=
  { s with
    clients := if 0 ≤ s.id con then s.clients.set (s.id con).toNat none else s.clients
    numClients := s.numClients - 1
    live := Function.update s.live con false }

/-- The slot that the next connection takes. -/
def nextSlot (s : ClientArray) : Nat :=
  if s.clients.length = s.numClients then s.numClients
  else (s.clients.findIdx? (·.isNone)).getD 0

/-- There are fewer than `n` connections. -/
def Fewer (s : ClientArray) (n : Nat) : Prop :=
  ∀ l : List ConId, l.Nodup → (∀ con ∈ l, s.live con = true) → l.length < n

/-- A connection comes, or one that is open goes. -/
inductive Call : ClientArray → ClientArray → Prop
  | add {s : ClientArray} (junk : Nat → Option ConId) {cli : ConId} (hNew : s.live cli = false)
      (hFew : s.Fewer 32768) : Call s ((s.opened cli).addClient junk cli)
  | remove {s : ClientArray} {con : ConId} (hLive : s.live con = true) :
      Call s (s.freeConnection con)

/-- Every open connection is in one slot, that of its number, and no other connection is in any. -/
structure InStep (s : ClientArray) : Prop where
  own : ∀ con, s.live con = true → ∃ slot : Nat, s.id con = slot ∧ s.clients[slot]? = some (some con)
  slot : ∀ (slot : Nat) con, s.clients[slot]? = some (some con) → s.live con = true ∧ s.id con = slot
  count : s.clients.countP (·.isSome) = s.numClients

/-! ### Both calls -/

variable {s t : ClientArray} {con cli : ConId}

/-- Whatever lies in the new memory, nothing of it is left when the connection is stored. -/
theorem grow_set (s : ClientArray) (junk : Nat → Option ConId) (cli : ConId) :
    (s.grow junk).set s.clients.length (some cli) =
      s.clients ++ some cli :: List.replicate 9 none := by
  have hSet (new : List (Option ConId)) (k : Nat) (c : Option ConId) :
      (s.clients ++ new).set (s.clients.length + k) c = s.clients ++ new.set k c := by
    rw [List.set_append_right _ _ (Nat.le_add_right _ _), Nat.add_sub_cancel_left]
  have hFold (ks : List Nat) (new : List (Option ConId)) :
      ks.foldl (fun clients k => clients.set (s.clients.length + 1 + k) none) (s.clients ++ new) =
        s.clients ++ ks.foldl (fun new k => new.set (1 + k) none) new := by
    induction ks generalizing new with
    | nil => rfl
    | cons k ks ih => rw [List.foldl_cons, List.foldl_cons, Nat.add_assoc, hSet, ih]
  rw [grow, hFold, ← Nat.add_zero s.clients.length, hSet]
  rfl

theorem toShort_eq {slot : Nat} (h : slot < 32768) : toShort slot = slot := by
  simp only [toShort, Int.bmod_def]
  split <;> omega

/-- A connection takes an empty slot. -/
theorem InStep.take (h : InStep s) (slot : Nat) (hNew : s.live cli = false)
    (hLive : t.live = Function.update s.live cli true)
    (hId : t.id = Function.update s.id cli (slot : Int))
    (hHere : t.clients[slot]? = some (some cli))
    (hRest : ∀ (i : Nat) c, i ≠ slot → (t.clients[i]? = some (some c) ↔ s.clients[i]? = some (some c)))
    (hEmpty : ∀ c, s.clients[slot]? ≠ some (some c))
    (hCount : t.clients.countP (·.isSome) = t.numClients) : InStep t where
  own c hc := by
    by_cases hEq : c = cli
    · subst hEq
      exact ⟨slot, by rw [hId, Function.update_self], hHere⟩
    · rw [hLive, Function.update_of_ne hEq] at hc
      rw [hId, Function.update_of_ne hEq]
      obtain ⟨i, hi, hIn⟩ := h.own c hc
      have hNe : i ≠ slot := by
        rintro rfl
        exact hEmpty c hIn
      exact ⟨i, hi, (hRest i c hNe).2 hIn⟩
  slot i c hIn := by
    rw [hLive, hId]
    by_cases hEq : i = slot
    · subst hEq
      rw [hHere] at hIn
      cases hIn
      rw [Function.update_self, Function.update_self]
      exact ⟨rfl, rfl⟩
    · have hOld := h.slot i c ((hRest i c hEq).1 hIn)
      have hNe : c ≠ cli := by
        rintro rfl
        rw [hNew] at hOld
        cases hOld.1
      rw [Function.update_of_ne hNe, Function.update_of_ne hNe]
      exact hOld
  count := hCount

/-- Every slot in front of the first empty one is taken. -/
theorem le_count {clients : List (Option ConId)} {i : Nat}
    (h : clients.findIdx? (·.isNone) = some i) : i ≤ clients.countP (·.isSome) := by
  obtain ⟨hLess, -, hBefore⟩ := List.findIdx?_eq_some_iff_getElem.1 h
  have hTaken : ∀ c ∈ clients.take i, c.isSome = true := by
    intro c hc
    obtain ⟨j, hj, rfl⟩ := List.getElem_of_mem hc
    have hj' : j < i := by
      rw [List.length_take] at hj
      omega
    have hNot := hBefore j hj'
    rw [List.getElem_take]
    cases hAt : clients[j] with
    | none => simp [hAt] at hNot
    | some d => rfl
  calc i = (clients.take i).length := by rw [List.length_take]; omega
    _ = (clients.take i).countP (·.isSome) := (List.countP_eq_length.2 hTaken).symm
    _ ≤ clients.countP (·.isSome) := (List.take_sublist i clients).countP_le

theorem InStep.nextSlot_le (h : InStep s) : s.nextSlot ≤ s.numClients := by
  rw [nextSlot]
  by_cases hLength : s.clients.length = s.numClients
  · rw [if_pos hLength]
  · rw [if_neg hLength]
    cases hFind : s.clients.findIdx? (·.isNone) with
    | none => exact Nat.zero_le _
    | some slot => exact (le_count hFind).trans_eq h.count

/-- The connections in the slots. -/
def occupants (s : ClientArray) : List ConId := s.clients.filterMap fun c => c

theorem InStep.nodup (h : InStep s) : s.occupants.Nodup := by
  refine List.pairwise_filterMap.2 (List.pairwise_iff_getElem.2 fun i j hi hj hLess b hb c hc => ?_)
  have hFirst := (h.slot i b (by rw [List.getElem?_eq_getElem hi]; exact congrArg some hb)).2
  have hSecond := (h.slot j c (by rw [List.getElem?_eq_getElem hj]; exact congrArg some hc)).2
  rintro rfl
  omega

/-- `Num_Clients` is the number of connections. -/
theorem InStep.fewer_iff (h : InStep s) {n : Nat} : s.Fewer n ↔ s.numClients < n := by
  have hLength : s.occupants.length = s.numClients := by
    rw [occupants, List.length_filterMap_eq_countP]
    exact h.count
  constructor
  · intro hFew
    rw [← hLength]
    refine hFew _ h.nodup fun c hc => ?_
    obtain ⟨d, hd, hEq⟩ := List.mem_filterMap.1 hc
    cases hEq
    obtain ⟨i, hi, hAt⟩ := List.getElem_of_mem hd
    exact (h.slot i c (by rw [List.getElem?_eq_getElem hi, hAt])).1
  · intro hNum l hNodup hAll
    have hSub : l.length ≤ s.occupants.length := by
      refine (List.subperm_of_subset hNodup fun c hc => ?_).length_le
      obtain ⟨i, -, hIn⟩ := h.own c (hAll c hc)
      exact List.mem_filterMap.2 ⟨some c, List.mem_of_getElem? hIn, rfl⟩
    omega

/-- `add_client` for a new connection whose slot has a number that fits. -/
theorem InStep.add (h : InStep s) (junk : Nat → Option ConId) (hNew : s.live cli = false)
    (hFits : s.nextSlot < 32768) : InStep ((s.opened cli).addClient junk cli) := by
  rw [nextSlot] at hFits
  by_cases hLength : s.clients.length = s.numClients
  · rw [if_pos hLength] at hFits
    have hAdd : (s.opened cli).addClient junk cli =
        { (s.opened cli) with
          clients := s.clients ++ some cli :: List.replicate 9 none
          id := Function.update (s.opened cli).id cli (toShort s.numClients)
          numClients := s.numClients + 1 } := by
      have hGrow := (s.opened cli).grow_set junk cli
      have hFull : (s.opened cli).clients.length = (s.opened cli).numClients := hLength
      rw [hFull] at hGrow
      rw [addClient, if_pos hFull]
      exact congrArg (fun clients => (⟨clients, _, _, _⟩ : ClientArray)) hGrow
    rw [hAdd]
    refine h.take s.numClients hNew rfl ?_ ?_ ?_ ?_ ?_
    · rw [opened, Function.update_idem, toShort_eq hFits]
    · simp [← hLength]
    · intro i c hi
      rw [← hLength] at hi
      by_cases hLess : i < s.clients.length
      · rw [List.getElem?_append_left hLess]
      · rw [List.getElem?_append_right (by omega), List.getElem?_eq_none (l := s.clients) (by omega)]
        obtain ⟨k, hk⟩ : ∃ k, i - s.clients.length = k + 1 := ⟨i - s.clients.length - 1, by omega⟩
        rw [hk, List.getElem?_cons_succ, List.getElem?_replicate]
        split <;> simp
    · intro c
      rw [List.getElem?_eq_none (by omega)]
      simp
    · simp [h.count]
  · rw [if_neg hLength] at hFits
    -- when not every slot is in use, one is empty
    cases hFind : s.clients.findIdx? (·.isNone) with
    | some slot =>
      obtain ⟨hLess, hEmpty, -⟩ := List.findIdx?_eq_some_iff_getElem.1 hFind
      have hNone : s.clients[slot] = none := Option.isNone_iff_eq_none.1 hEmpty
      rw [hFind, Option.getD_some] at hFits
      have hAdd : (s.opened cli).addClient junk cli =
          { (s.opened cli) with
            clients := s.clients.set slot (some cli)
            id := Function.update (s.opened cli).id cli (toShort slot)
            numClients := s.numClients + 1 } := by
        have hRoom : ¬ (s.opened cli).clients.length = (s.opened cli).numClients := hLength
        have hFind' : (s.opened cli).clients.findIdx? (·.isNone) = some slot := hFind
        rw [addClient, if_neg hRoom, hFind']
        rfl
      rw [hAdd]
      refine h.take slot hNew rfl ?_ ?_ ?_ ?_ ?_
      · rw [opened, Function.update_idem, toShort_eq hFits]
      · simp [hLess]
      · intro i c hi
        simp [Ne.symm hi]
      · intro c
        rw [List.getElem?_eq_getElem hLess, hNone]
        simp
      · have hCount := List.countP_set (p := fun slot : Option ConId => slot.isSome)
          (a := some cli) hLess
        simp only [hNone, Option.isSome_none, Option.isSome_some] at hCount
        simpa [h.count] using hCount
    | none =>
      have hAll : ∀ slot ∈ s.clients, slot.isSome = true := by
        simpa [List.findIdx?_eq_none_iff, Option.isSome_iff_ne_none] using hFind
      have hCount := h.count
      rw [List.countP_eq_length.2 hAll] at hCount
      exact absurd hCount hLength

/-- A connection gives its slot back. -/
theorem InStep.free (h : InStep s) (hLive : s.live con = true) : InStep (s.freeConnection con) := by
  obtain ⟨slot, hId, hHere⟩ := h.own con hLive
  have hLess : slot < s.clients.length := (List.getElem?_eq_some_iff.1 hHere).1
  have hSet : (s.freeConnection con).clients = s.clients.set slot none := by
    simp [freeConnection, hId]
  have hOther (c : ConId) (hc : c ≠ con) : (s.freeConnection con).live c = s.live c :=
    Function.update_of_ne hc ..
  constructor
  · intro c hc
    have hNe : c ≠ con := by
      rintro rfl
      simp [freeConnection] at hc
    rw [hOther c hNe] at hc
    obtain ⟨i, hi, hIn⟩ := h.own c hc
    refine ⟨i, hi, ?_⟩
    have hSlot : slot ≠ i := by
      rintro rfl
      rw [hHere] at hIn
      cases hIn
      exact hNe rfl
    rw [hSet, List.getElem?_set_ne hSlot]
    exact hIn
  · intro i c hIn
    rw [hSet] at hIn
    have hSlot : slot ≠ i := by
      rintro rfl
      simp [hLess] at hIn
    rw [List.getElem?_set_ne hSlot] at hIn
    obtain ⟨hc, hi⟩ := h.slot i c hIn
    have hNe : c ≠ con := by
      rintro rfl
      rw [hId] at hi
      omega
    rw [hOther c hNe]
    exact ⟨hc, hi⟩
  · have hCount := List.countP_set (p := fun slot : Option ConId => slot.isSome) (a := none) hLess
    have hSome : s.clients[slot] = some con := (List.getElem?_eq_some_iff.1 hHere).2
    rw [hSet, hCount, hSome, h.count]
    simp [freeConnection]

/-! ### Any sequence of calls -/

theorem Call.inStep (h : Call s t) (hStep : InStep s) : InStep t := by
  cases h with
  | add junk hNew hFew =>
    exact hStep.add junk hNew (Nat.lt_of_le_of_lt hStep.nextSlot_le (hStep.fewer_iff.1 hFew))
  | remove hLive => exact hStep.free hLive

theorem inStep_start : InStep {} := ⟨by simp, by simp, rfl⟩

/-- A call gives no connection another number, but the new one. -/
theorem Call.id_eq (h : Call s t) (hLive : s.live con = true) : t.id con = s.id con := by
  cases h with
  | @add junk cli hNew hFew =>
    have hOther : con ≠ cli := by
      rintro rfl
      rw [hNew] at hLive
      cases hLive
    have hOpened : (s.opened cli).id con = s.id con := Function.update_of_ne hOther ..
    rw [← hOpened, addClient]
    by_cases hFull : (s.opened cli).clients.length = (s.opened cli).numClients
    · rw [if_pos hFull]
      exact Function.update_of_ne hOther ..
    · rw [if_neg hFull]
      cases (s.opened cli).clients.findIdx? (·.isNone) with
      | none => rfl
      | some i => exact Function.update_of_ne hOther ..
  | remove => rfl

/-- After any sequence of calls `Num_Clients` is the number of slots in use, every connection in a slot
has its number, and every open connection is in exactly one slot; and no call takes a connection that
stays open out of its slot. -/
theorem run_slots {s : ClientArray} (h : Runs.Path Call {} s) :
    s.numClients = s.clients.countP (·.isSome) ∧
      (∀ (i : Nat) con, s.clients[i]? = some (some con) → s.id con = i) ∧
      (∀ con, s.live con = true → ∃! i : Nat, s.clients[i]? = some (some con)) ∧
      ∀ t, Call s t → ∀ (i : Nat) con, s.clients[i]? = some (some con) → t.live con = true →
        t.clients[i]? = some (some con) := by
  have hStep : InStep s := h.invariant (fun _ _ hCall hStep => hCall.inStep hStep) inStep_start
  refine ⟨hStep.count.symm, fun i con hIn => (hStep.slot i con hIn).2, fun con hLive => ?_,
    fun t hCall i con hIn hStays => ?_⟩
  · obtain ⟨i, hId, hIn⟩ := hStep.own con hLive
    refine ⟨i, hIn, fun j hj => ?_⟩
    have hSame := (hStep.slot j con hj).2
    omega
  · obtain ⟨hLive, hId⟩ := hStep.slot i con hIn
    obtain ⟨j, hj, hThere⟩ := (hCall.inStep hStep).own con hStays
    rw [hCall.id_eq hLive, hId] at hj
    have hSame : i = j := Int.ofNat_inj.1 hj
    rw [hSame]
    exact hThere

/-- New memory that is not empty. -/
def dirty : Nat → Option ConId := fun _ => some 99

/-- Two connections come, and the first one goes. -/
def oneLeft : ClientArray :=
  ((((opened {} 5).addClient dirty 5).opened 6).addClient dirty 6).freeConnection 5

/-- A third connection gets the slot of the first one. -/
def reused : ClientArray := (oneLeft.opened 7).addClient dirty 7

theorem run_slots_reused :
    reused.clients = [some 7, some 6, none, none, none, none, none, none, none, none] ∧
      reused.numClients = reused.clients.countP (·.isSome) ∧
      (∀ (i : Nat) con, reused.clients[i]? = some (some con) → reused.id con = i) ∧
      (∀ con, reused.live con = true → ∃! i : Nat, reused.clients[i]? = some (some con)) ∧
      ∀ t, Call reused t → ∀ (i : Nat) con, reused.clients[i]? = some (some con) →
        t.live con = true → t.clients[i]? = some (some con) := by
  have hOne : Call {} ((opened {} 5).addClient dirty 5) :=
    .add dirty rfl (inStep_start.fewer_iff.2 (by decide))
  have hTwo : Call _ ((((opened {} 5).addClient dirty 5).opened 6).addClient dirty 6) :=
    .add dirty (by decide +kernel) ((hOne.inStep inStep_start).fewer_iff.2 (by decide +kernel))
  have hGone : Call _ oneLeft := .remove (by decide +kernel)
  have hStep : InStep oneLeft := hGone.inStep (hTwo.inStep (hOne.inStep inStep_start))
  have hThree : Call oneLeft reused :=
    .add dirty (by decide +kernel) (hStep.fewer_iff.2 (by decide +kernel))
  exact ⟨by decide +kernel,
    run_slots ((((Relation.ReflTransGen.single hOne).tail hTwo).tail hGone).tail hThree)⟩

end ClientArray

/-! ### The array of the server -/

/-- `Clients` of a server. -/
def Core.clientArray (s : Core) : ClientArray where
  clients := s.clients
  numClients := s.numClients
  id con := (s.con con).id
  live con := (s.con con).allocated

namespace Core

variable {s : Core}

theorem clientArray_newConnection (ip : UInt32) (host : Str) (port localPort : UInt16) :
    (s.newConnection ip host port localPort).clientArray = s.clientArray.opened s.next := by
  refine ClientArray.ext rfl rfl (funext fun c => ?_) (funext fun c => ?_)
  · by_cases hc : c = s.next <;> simp [clientArray, ClientArray.opened, newConnection, hc]
  · by_cases hc : c = s.next <;> simp [clientArray, ClientArray.opened, newConnection, hc]

/-- The connection with its number, in the array. -/
theorem clientArray_put (con : ConId) (slot : Nat) (clients : List (Option ConId)) :
    { s.modCon con fun c => { c with id := toShort slot } with
      clients := clients.set slot (some con) }.clientArray = s.clientArray.put clients slot con := by
  refine ClientArray.ext rfl rfl (funext fun c => ?_) (funext fun c => ?_)
  · by_cases hc : c = con <;> simp [clientArray, ClientArray.put, hc]
  · by_cases hc : c = con <;> simp [clientArray, ClientArray.put, hc]

/-- The data of a server change as `add_client` says, whatever lies in new memory. -/
theorem clientArray_addClient (junk : Nat → Option ConId) (con : ConId) :
    (s.addClient con).clientArray = s.clientArray.addClient junk con := by
  simp only [addClient, ClientArray.addClient]
  by_cases hFull : s.clients.length = s.numClients
  · have hFull' : s.clientArray.clients.length = s.clientArray.numClients := hFull
    have hGrow := s.clientArray.grow_set junk con
    rw [hFull'] at hGrow
    have hSet : s.clients ++ some con :: List.replicate 9 none =
        (s.clientArray.grow junk).set s.numClients (some con) := hGrow.symm
    rw [if_pos hFull, if_pos hFull', hSet]
    exact congrArg (fun a : ClientArray => { a with numClients := s.numClients + 1 })
      (clientArray_put con s.numClients (s.clientArray.grow junk))
  · have hFull' : ¬ s.clientArray.clients.length = s.clientArray.numClients := hFull
    have hClients : s.clientArray.clients = s.clients := rfl
    rw [if_neg hFull, if_neg hFull', hClients]
    cases s.clients.findIdx? (·.isNone) with
    | none => rfl
    | some slot =>
      exact congrArg (fun a : ClientArray => { a with numClients := s.numClients + 1 })
        (clientArray_put con slot s.clients)

theorem clientArray_accept (junk : Nat → Option ConId) (ip : UInt32) (host : Str)
    (port localPort : UInt16) : (s.accept ip host port localPort).clientArray =
      (s.clientArray.opened s.next).addClient junk s.next := by
  rw [accept, clientArray_addClient junk, clientArray_newConnection]

theorem clientArray_freeConnection (con : ConId) :
    (s.freeConnection con).clientArray = s.clientArray.freeConnection con := by
  refine ClientArray.ext rfl rfl (funext fun c => ?_) (funext fun c => ?_)
  · by_cases hc : c = con <;> simp [clientArray, ClientArray.freeConnection, freeConnection, hc]
  · by_cases hc : c = con <;> simp [clientArray, ClientArray.freeConnection, freeConnection, hc]

end Core

end OpenNap
