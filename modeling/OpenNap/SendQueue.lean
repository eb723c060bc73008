import OpenNap.Compress

/-! The limit on what is queued for a connection: `send_queued_data` reports a connection whose
reader does not keep up. -/

namespace OpenNap

open CText

/-- `Server_Queue_Length` and `Client_Queue_Length`. -/
structure QueueLimits where
  server : Int32
  client : Int32

/-- A connection, as far as its output goes. -/
structure Sender where
  /-- `ISSERVER` -/
  isServer : Bool := false
  /-- what is not compressed yet -/
  outbuf : List Buffer := []
  sendbuf : List Buffer := []

/-- What `WRITE` does: it takes up to so many of the bytes that it is offered, would block, or fails
in another way. -/
inductive WriteResult
  | took (n : Nat)
  | wouldBlock
  | failed

/-- What happens to the output of a connection. -/
inductive SendEvent
  /-- the other end has shown that it is a server -/
  | linked
  /-- `queue_data` of one byte and those after it -/
  | queue (first : UInt8) (more : List UInt8)
  /-- `send_queued_data`, with what `deflate` and `WRITE` do -/
  | send (calls : List Deflated) (w : WriteResult)

namespace Sender

variable (cfg : QueueLimits)

/-- `queue_data`. -/
def queueData (c : Sender) (d : List UInt8) : Sender :=
  if c.isServer then { c with outbuf := Buffer.queue c.outbuf d }
  else { c with sendbuf := Buffer.queue c.sendbuf d }

/-- The beginning of `send_queued_data`: what is queued for a server is compressed. -/
def compressed (c : Sender) (calls : List Deflated) : Sender :=
  if c.isServer then
    let r := Buffer.compress calls c.outbuf
    { c with outbuf := r.2, sendbuf := c.sendbuf ++ r.1 }
  else c

/-- The queue length for a connection of this kind. -/
def limit (c : Sender) : Int := if c.isServer then cfg.server.toInt else cfg.client.toInt

/-- What the write leaves of the output. -/
def written (c : Sender) : WriteResult → Sender
  | .took n =>
    match c.sendbuf with
    | [] => c
    | b :: _ =>
      let n := min n (b.datasize - b.consumed)
      if 0 < n then { c with sendbuf := Buffer.consume n c.sendbuf } else c
  | .wouldBlock => c
  | .failed => c

/-- `send_queued_data`, with what it returns. -/
def sendQueuedData (c : Sender) (calls : List Deflated) (w : WriteResult) : Sender × Int :=
  let c := c.compressed calls
  if c.sendbuf.isEmpty then (c, 0)
  else
    match w with
    | .failed => (c, -1)
    | .wouldBlock => (c, 0)
    | .took n =>
      let c := c.written (.took n)
      if c.limit cfg < Buffer.size c.sendbuf then (c, -1) else (c, 0)

def step (c : Sender) : SendEvent → Sender
  | .linked => { c with isServer := true }
  | .queue first more => c.queueData (first :: more)
  | .send calls w => (c.sendQueuedData cfg calls w).1

/-- The bytes of `sendbuf` that are still to be written. -/
def unsent (c : Sender) : Nat := (c.sendbuf.flatMap Buffer.rest).length

/-- All blocks of the connection are in order. -/
structure Valid (c : Sender) : Prop where
  outbuf : ∀ b ∈ c.outbuf, b.Valid
  sendbuf : ∀ b ∈ c.sendbuf, b.Valid

/-- A call of `send_queued_data` that returns 0 leaves no more to be written than the queue length. -/
def Bounded (c : Sender) : SendEvent → Prop
  | .send calls w => (c.sendQueuedData cfg calls w).2 = 0 →
      ((c.sendQueuedData cfg calls w).1.unsent : Int) ≤ c.limit cfg
  | _ => True

/-- A call of `send_queued_data` in which there is no more to be written than the queue length when
the write would block, and in which the bytes left after it can be counted in an `int` otherwise. -/
def KeepsUp (c : Sender) : SendEvent → Prop
  | .send calls w =>
    let c' := c.compressed calls
    if c'.unsent = 0 then 0 ≤ c.limit cfg
    else
      match w with
      | .failed => True
      | .wouldBlock => c'.unsent ≤ c.limit cfg
      | .took n =>
        (c'.written (.took n)).unsent < 2 ^ 31 ∨
          c.limit cfg < toInt32 (c'.written (.took n)).unsent
  | _ => True

section Facts

variable {cfg} {c : Sender}

theorem isServer_written (w : WriteResult) : (c.written w).isServer = c.isServer := by
  cases w with
  | took n =>
    simp only [written]
    split
    · rfl
    · split <;> rfl
  | wouldBlock => rfl
  | failed => rfl

theorem isServer_compressed (calls : List Deflated) :
    (c.compressed calls).isServer = c.isServer := by
  unfold compressed
  split <;> rfl

theorem Valid.compressed (h : c.Valid) (calls : List Deflated) : (c.compressed calls).Valid := by
  unfold Sender.compressed
  split
  · cases hOut : c.outbuf with
    | nil => exact ⟨by simp [Buffer.compress], by simpa [Buffer.compress] using h.sendbuf⟩
    | cons b more =>
      have hAll := h.outbuf
      rw [hOut] at hAll
      refine ⟨(Buffer.compress_in calls hAll).2, fun x hx => ?_⟩
      rcases List.mem_append.1 hx with hx | hx
      · exact h.sendbuf x hx
      · exact (Buffer.compress_out calls).1 x hx
  · exact h

theorem Valid.written (h : c.Valid) (w : WriteResult) : (c.written w).Valid := by
  cases w with
  | took n =>
    simp only [Sender.written]
    split
    · exact h
    · rename_i b chain hChain
      split
      · have hAll := h.sendbuf
        rw [hChain] at hAll
        have hConsumed := (Buffer.consume_spec hAll (Nat.min_le_right n _)).2
        rw [← hChain] at hConsumed
        exact ⟨h.outbuf, hConsumed⟩
      · exact h
  | wouldBlock => exact h
  | failed => exact h

theorem Valid.queueData (h : c.Valid) (first : UInt8) (more : List UInt8) :
    (c.queueData (first :: more)).Valid := by
  unfold Sender.queueData
  split
  · exact ⟨(Buffer.queue_spec h.outbuf first more).2, h.sendbuf⟩
  · exact ⟨h.outbuf, (Buffer.queue_spec h.sendbuf first more).2⟩

theorem Valid.sendQueuedData (h : c.Valid) (calls : List Deflated) (w : WriteResult) :
    (c.sendQueuedData cfg calls w).1.Valid := by
  have hNext := h.compressed calls
  simp only [Sender.sendQueuedData]
  split
  · exact hNext
  · cases w with
    | failed => exact hNext
    | wouldBlock => exact hNext
    | took n =>
      simp only
      split
      · exact hNext.written (.took n)
      · exact hNext.written (.took n)

theorem Valid.step (h : c.Valid) (e : SendEvent) : (Sender.step cfg c e).Valid := by
  cases e with
  | linked => exact ⟨h.outbuf, h.sendbuf⟩
  | queue first more => exact h.queueData first more
  | send calls w => exact h.sendQueuedData calls w

/-- A block in the chain has something to be written. -/
theorem Valid.unsent_eq_zero (h : c.Valid) : c.unsent = 0 ↔ c.sendbuf.isEmpty = true := by
  cases hChain : c.sendbuf with
  | nil => simp [unsent, hChain]
  | cons b chain =>
    have hPending := (h.sendbuf b (by simp [hChain])).pending
    have hLength := b.rest_length
    simp only [unsent, hChain, List.flatMap_cons, List.length_append, List.isEmpty_cons,
      Bool.false_eq_true, iff_false]
    omega

theorem Valid.size_eq (h : c.Valid) : Buffer.size c.sendbuf = toInt32 c.unsent :=
  Buffer.size_eq h.sendbuf

theorem limit_eq {c' : Sender} (h : c'.isServer = c.isServer) : c'.limit cfg = c.limit cfg := by
  rw [limit, limit, h]

theorem limit_lt : c.limit cfg < 2 ^ 31 := by
  unfold limit
  split
  · exact cfg.server.toInt_lt
  · exact cfg.client.toInt_lt

/-- The bytes that are left are what was checked, unless there are more than an `int` can count. -/
theorem bounded_took {calls : List Deflated} (h : (c.compressed calls).Valid) (n : Nat)
    (hSome : ¬ (c.compressed calls).sendbuf.isEmpty = true) :
    Bounded cfg c (.send calls (.took n)) ↔
      ((c.compressed calls).written (.took n)).unsent < 2 ^ 31 ∨
        c.limit cfg < toInt32 ((c.compressed calls).written (.took n)).unsent := by
  have hLeft := h.written (.took n)
  have hLimit : ((c.compressed calls).written (.took n)).limit cfg = c.limit cfg :=
    limit_eq ((isServer_written _).trans (isServer_compressed calls))
  have hBound : c.limit cfg < 2 ^ 31 := limit_lt
  simp only [Bounded, sendQueuedData, hSome, hLimit, hLeft.size_eq]
  by_cases hOver : c.limit cfg < toInt32 ((c.compressed calls).written (.took n)).unsent
  · simp [hOver]
  · simp only [hOver, or_false, Bool.false_eq_true, if_false, true_implies]
    constructor
    · intro hFits
      omega
    · intro hCount
      rw [toInt32_eq (by omega) (by omega)] at hOver
      omega

theorem bounded_iff (h : c.Valid) (e : SendEvent) : Bounded cfg c e ↔ KeepsUp cfg c e := by
  cases e with
  | linked => exact Iff.rfl
  | queue first more => exact Iff.rfl
  | send calls w =>
    have hNext := h.compressed calls
    simp only [KeepsUp, hNext.unsent_eq_zero]
    split
    · rename_i hNone
      have hZero := hNext.unsent_eq_zero.2 hNone
      simp only [Bounded, sendQueuedData, hNone, if_true, hZero, true_implies]
      exact Iff.rfl
    · rename_i hSome
      cases w with
      | failed => simp [Bounded, sendQueuedData, hSome]
      | wouldBlock => simp [Bounded, sendQueuedData, hSome]
      | took n => exact bounded_took hNext n hSome

end Facts

/-- Whatever is queued, and however `deflate` and `WRITE` behave: the calls of `send_queued_data` that
return 0 leave no more to be written than the queue length in exactly the runs in which every call
finds no more than that when the write would block, and leaves less than an `int` can count. -/
theorem run_bounded_iff (events : List SendEvent) :
    Runs.Meets (step cfg) (Bounded cfg) {} events ↔
      Runs.Meets (step cfg) (KeepsUp cfg) {} events := by
  have hEmpty : Valid {} := ⟨by simp, by simp⟩
  exact Runs.meets_congr (J := Valid) (fun _ e h => h.step e) (fun _ e h => bounded_iff h e) hEmpty
    events

/-- A queue length of one byte, two bytes queued for a client, and a write that would block. -/
theorem blocked_unbounded :
    ¬ Runs.Meets (step ⟨1, 1⟩) (Bounded ⟨1, 1⟩) {} [.queue 0 [0], .send [] .wouldBlock] := by
  rintro ⟨-, hSend, -⟩
  exact absurd (hSend rfl) (by decide)

end Sender

end OpenNap
