import OpenNap.Lib.CText
import OpenNap.Lib.Run

/-! The output queue of a connection: a chain of blocks, filled at its end and written from its
front. -/

namespace OpenNap

open CText

/-- `BUFFER_SIZE`. -/
def bufferBlock : Nat := 2048

/-- `BUFFER`, without the link to the next one; a queue is the list of its blocks. -/
structure Buffer where
  /-- the bytes of `data` that are in use -/
  data : List UInt8 := []
  datamax : Nat
  consumed : Nat := 0

namespace Buffer

/-- `datasize`. -/
def datasize (b : Buffer) : Nat := b.data.length

/-- What is left of the block for more data. -/
def room (b : Buffer) : Nat := b.datamax - b.datasize

/-- The bytes that are still to be written. -/
def rest (b : Buffer) : List UInt8 := b.data.drop b.consumed

/-- `buffer_new`. -/
def new : Buffer := { datamax := bufferBlock }

/-- The `memcpy` of `buffer_queue`: as much of the data as the block has room for. -/
def copy (b : Buffer) (d : List UInt8) : Buffer := { b with data := b.data ++ d.take b.room }

/-- The loop of `buffer_queue` at the last block of the chain.  A pass takes a byte at least, so that
as many passes as there are bytes are enough. -/
def fill : Nat → Buffer → List UInt8 → List Buffer
  | 0, b, _ => [b]
  | _ + 1, b, [] => [b]
  | passes + 1, b, c :: cs =>
    let d := c :: cs
    if b.datasize = b.datamax then b :: fill passes (new.copy d) (d.drop new.room)
    else fill passes (b.copy d) (d.drop b.room)

/-- `buffer_queue`. -/
def queue (chain : List Buffer) (d : List UInt8) : List Buffer :=
  match chain.getLast? with
  | none => if d.isEmpty then [] else fill d.length (new.copy d) (d.drop new.room)
  | some b => chain.dropLast ++ fill d.length b d

/-- `buffer_consume`. -/
def consume (n : Nat) : List Buffer → List Buffer
  | [] => []
  | b :: chain =>
    if b.datasize ≤ b.consumed + n then chain else { b with consumed := b.consumed + n } :: chain

/-- `buffer_size`, whose sum is an `int`. -/
def size (chain : List Buffer) : Int :=
  chain.foldl (fun n b => toInt32 (n + ((b.datasize : Int) - b.consumed))) 0

end Buffer

/-- A connection that is not compressed, as far as its output goes, and what was written to its
socket so far. -/
structure Output where
  sendbuf : List Buffer := []
  written : List UInt8 := []

/-- What happens to the output of a connection. -/
inductive OutputEvent
  /-- `queue_data` of one byte and those after it -/
  | queue (first : UInt8) (more : List UInt8)
  /-- `send_queued_data`, where the socket takes up to so many bytes of those it is offered -/
  | send (accepted : Nat)
  /-- `send_queued_data`, where the socket takes nothing because the call would block -/
  | blocked

namespace Output

/-- `queue_data`. -/
def queueData (c : Output) (d : List UInt8) : Output := { c with sendbuf := Buffer.queue c.sendbuf d }

/-- The part of `send_queued_data` that writes.  The length of what is left is checked after it, and
the caller closes the connection when there is too much. -/
def sendQueuedData (c : Output) (accepted : Nat) : Output :=
  match c.sendbuf with
  | [] => c
  | b :: _ =>
    let n := min accepted (b.datasize - b.consumed)
    if n = 0 then c
    else { sendbuf := Buffer.consume n c.sendbuf, written := c.written ++ b.rest.take n }

def step (c : Output) : OutputEvent → Output
  | .queue first more => c.queueData (first :: more)
  | .send accepted => c.sendQueuedData accepted
  | .blocked => c

/-- The bytes of the chain that are still to be written, in order. -/
def unsent (c : Output) : List UInt8 := c.sendbuf.flatMap Buffer.rest

end Output

/-! ### Blocks -/

namespace Buffer

/-- What `buffer_validate` checks, of a block of which something is still to be written. -/
structure Valid (b : Buffer) : Prop where
  fits : b.datasize ≤ b.datamax
  pending : b.consumed < b.datasize

theorem rest_length (b : Buffer) : b.rest.length = b.datasize - b.consumed := List.length_drop

theorem valid_new_copy (c : UInt8) (cs : List UInt8) : (new.copy (c :: cs)).Valid := by
  constructor
  · simp only [new, copy, datasize, room, List.nil_append, List.length_take]
    omega
  · simp [new, copy, datasize, room, bufferBlock]

theorem rest_new_copy (d : List UInt8) : (new.copy d).rest = d.take new.room := rfl

theorem Valid.copy {b : Buffer} (h : b.Valid) (d : List UInt8) : (b.copy d).Valid := by
  have hFits := h.fits
  have hPending := h.pending
  unfold datasize at hFits hPending
  constructor
  · simp only [Buffer.copy, datasize, room, List.length_append, List.length_take]
    omega
  · simp only [Buffer.copy, datasize, List.length_append]
    omega

theorem Valid.rest_copy {b : Buffer} (h : b.Valid) (d : List UInt8) :
    (b.copy d).rest = b.rest ++ d.take b.room := by
  have hPending : b.consumed < b.data.length := h.pending
  simp only [rest, Buffer.copy]
  rw [List.drop_append_of_le_length (by omega)]

/-- The loop puts all of the data behind what the block holds. -/
theorem fill_spec (passes : Nat) {b : Buffer} {d : List UInt8} (h : b.Valid)
    (hPasses : d.length ≤ passes) :
    (fill passes b d).flatMap rest = b.rest ++ d ∧ ∀ x ∈ fill passes b d, x.Valid := by
  induction passes generalizing b d with
  | zero =>
    have hNone : d = [] := List.eq_nil_of_length_eq_zero (by omega)
    simp [fill, hNone, h]
  | succ passes ih =>
    cases d with
    | nil => simp [fill, h]
    | cons c cs =>
      simp only [fill]
      have hLength : cs.length ≤ passes := by simpa using hPasses
      split
      · have hNew : ((c :: cs).drop new.room).length ≤ passes := by
          simp only [List.length_drop, new, room, datasize, bufferBlock, List.length_cons,
            List.length_nil]
          omega
        obtain ⟨hBytes, hValid⟩ := ih (valid_new_copy c cs) hNew
        constructor
        · rw [List.flatMap_cons, hBytes, rest_new_copy, List.take_append_drop]
        · intro x hx
          rcases List.mem_cons.1 hx with rfl | hx
          · exact h
          · exact hValid x hx
      · rename_i hNotFull
        have hRoom : 0 < b.room := by
          have hFits := h.fits
          unfold room
          omega
        have hRest : ((c :: cs).drop b.room).length ≤ passes := by
          simp only [List.length_drop, List.length_cons]
          omega
        obtain ⟨hBytes, hValid⟩ := ih (h.copy (c :: cs)) hRest
        exact ⟨by rw [hBytes, h.rest_copy, List.append_assoc, List.take_append_drop], hValid⟩

/-- `buffer_queue` puts the data behind what the chain holds. -/
theorem queue_spec {chain : List Buffer} (h : ∀ b ∈ chain, b.Valid) (c : UInt8) (cs : List UInt8) :
    (queue chain (c :: cs)).flatMap rest = chain.flatMap rest ++ c :: cs ∧
      ∀ b ∈ queue chain (c :: cs), b.Valid := by
  unfold queue
  cases hLast : chain.getLast? with
  | none =>
    obtain rfl := List.getLast?_eq_none_iff.1 hLast
    have hFill := fill_spec (c :: cs).length (d := (c :: cs).drop new.room) (valid_new_copy c cs)
      (by simp only [List.length_drop]; omega)
    rw [rest_new_copy, List.take_append_drop] at hFill
    simpa using hFill
  | some b =>
    obtain ⟨front, rfl⟩ := List.getLast?_eq_some_iff.1 hLast
    obtain ⟨hBytes, hValid⟩ := fill_spec (c :: cs).length (h b (by simp)) (le_refl _)
    rw [List.dropLast_concat]
    constructor
    · rw [List.flatMap_append, hBytes, List.flatMap_append, List.append_assoc]
      simp
    · intro x hx
      rcases List.mem_append.1 hx with hx | hx
      · exact h x (by simp [hx])
      · exact hValid x hx

/-- `buffer_consume` takes the bytes off the front. -/
theorem consume_spec {b : Buffer} {chain : List Buffer} (h : ∀ x ∈ b :: chain, x.Valid) {n : Nat}
    (hn : n ≤ b.datasize - b.consumed) :
    b.rest.take n ++ (consume n (b :: chain)).flatMap rest = (b :: chain).flatMap rest ∧
      ∀ x ∈ consume n (b :: chain), x.Valid := by
  have hLength := b.rest_length
  simp only [consume]
  split
  · have hAll : n = b.rest.length := by omega
    refine ⟨by rw [hAll, List.take_length, List.flatMap_cons], fun x hx => h x (by simp [hx])⟩
  · constructor
    · have hRest : ({ b with consumed := b.consumed + n } : Buffer).rest = b.rest.drop n := by
        simp [rest, List.drop_drop]
      rw [List.flatMap_cons, List.flatMap_cons, hRest, ← List.append_assoc, List.take_append_drop]
    · intro x hx
      rcases List.mem_cons.1 hx with rfl | hx
      · exact ⟨(h b (by simp)).fits, by simp only [datasize] at *; omega⟩
      · exact h x (by simp [hx])

/-- The sum of `buffer_size` wraps like an `int`. -/
theorem size_eq {chain : List Buffer} (h : ∀ b ∈ chain, b.Valid) :
    size chain = toInt32 (chain.flatMap rest).length := by
  have hLoop (l : List Buffer) (hl : ∀ b ∈ l, b.Valid) (n : Int) :
      l.foldl (fun n b => toInt32 (n + ((b.datasize : Int) - b.consumed))) (toInt32 n) =
        toInt32 (n + (l.flatMap rest).length) := by
    induction l generalizing n with
    | nil => simp
    | cons b l ih =>
      have hPending := (hl b (by simp)).pending
      have hLength := b.rest_length
      have hNumber : (b.datasize : Int) - b.consumed = b.rest.length := by omega
      rw [List.foldl_cons, toInt32_add, hNumber, ih fun x hx => hl x (by simp [hx])]
      rw [List.flatMap_cons, List.length_append, Int.natCast_add, Int.add_assoc]
  have hZero := hLoop chain h 0
  rw [Int.zero_add] at hZero
  exact hZero

end Buffer

namespace Output

/-- All that was queued in a list of events, in order. -/
def queued (events : List OutputEvent) : List UInt8 :=
  events.flatMap fun
    | .queue first more => first :: more
    | .send _ => []
    | .blocked => []

/-- What was written and what is still to be written is what was queued, and the blocks are valid. -/
structure Faithful (c : Output) (all : List UInt8) : Prop where
  bytes : c.written ++ c.unsent = all
  valid : ∀ b ∈ c.sendbuf, b.Valid

theorem Faithful.step {c : Output} {all : List UInt8} (h : Faithful c all) (e : OutputEvent) :
    Faithful (c.step e) (all ++ queued [e]) := by
  cases e with
  | queue first more =>
    obtain ⟨hBytes, hValid⟩ := Buffer.queue_spec h.valid first more
    refine ⟨?_, hValid⟩
    simp only [Output.step, queueData, unsent, hBytes, ← h.bytes]
    simp [queued]
  | send accepted =>
    have hSame : all ++ queued [.send accepted] = all := by simp [queued]
    rw [hSame]
    simp only [Output.step, sendQueuedData]
    split
    · exact h
    · rename_i b chain hChain
      split
      · exact h
      · have hAll := h.valid
        rw [hChain] at hAll
        obtain ⟨hBytes, hValid⟩ := Buffer.consume_spec hAll (Nat.min_le_right accepted _)
        rw [← hChain] at hBytes hValid
        refine ⟨?_, hValid⟩
        rw [← h.bytes]
        simp only [unsent, List.append_assoc, hBytes]
  | blocked =>
    simpa [Output.step, queued] using h

theorem faithful_run (events : List OutputEvent) (c : Output) (all : List UInt8)
    (h : Faithful c all) : Faithful (Runs.run Output.step c events) (all ++ queued events) := by
  induction events generalizing c all with
  | nil => simpa [queued] using h
  | cons e events ih =>
    have hNext := ih _ _ (h.step e)
    simpa [queued] using hNext

/-- Whatever is queued and however much of it is written each time, the bytes written so far and
those of the chain are those that were queued, in order; every block is valid; and `buffer_size` is
the number of bytes of the chain exactly as long as an `int` can hold it. -/
theorem run_output (events : List OutputEvent) :
    let c := Runs.run Output.step {} events
    c.written ++ c.unsent = queued events ∧
    (∀ b ∈ c.sendbuf, (b.consumed < b.datasize ∨ b.consumed = 0) ∧ b.datasize ≤ b.datamax) ∧
    (Buffer.size c.sendbuf = c.unsent.length ↔ c.unsent.length < 2 ^ 31) := by
  intro c
  have hFaithful : Faithful c (queued events) := by
    have hEmpty : Faithful {} [] := ⟨rfl, by simp⟩
    simpa using faithful_run events {} [] hEmpty
  refine ⟨hFaithful.bytes, fun b hb => ?_, ?_⟩
  · have hValid := hFaithful.valid b hb
    exact ⟨.inl hValid.pending, hValid.fits⟩
  · rw [Buffer.size_eq hFaithful.valid]
    change toInt32 (c.unsent.length : Nat) = _ ↔ _
    constructor
    · intro hEq
      have hBound := (toInt32_bounds (c.unsent.length : Nat)).2
      omega
    · intro hLess
      exact toInt32_eq (by omega) (by omega)

/-- Two calls of `queue_data`, the second with one byte, and more bytes than an `int` can count. -/
theorem size_overflows :
    let c := Runs.run Output.step {}
      [.queue 0 (List.replicate (2 ^ 31 - 2) 0), .queue 0 []]
    Buffer.size c.sendbuf ≠ c.unsent.length := by
  have hRun (n : Nat) (hn : n = 2 ^ 31 - 2) :
      let c := Runs.run Output.step {} [.queue 0 (List.replicate n 0), .queue 0 []]
      Buffer.size c.sendbuf ≠ c.unsent.length := by
    intro c
    have hFaithful : Faithful c _ := faithful_run [.queue 0 (List.replicate n 0), .queue 0 []] {} []
      ⟨rfl, by simp⟩
    have hWritten : c.written = [] := rfl
    have hBytes := hFaithful.bytes
    rw [hWritten] at hBytes
    have hLength : c.unsent.length = n + 2 := by
      have hEq := congrArg List.length hBytes
      simpa [queued] using hEq
    rw [Buffer.size_eq hFaithful.valid]
    change toInt32 (c.unsent.length : Nat) ≠ _
    have hBound := (toInt32_bounds (c.unsent.length : Nat)).2
    omega
  exact hRun _ rfl

end Output

end OpenNap
