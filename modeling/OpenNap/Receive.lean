import Mathlib.Logic.Function.Iterate
import OpenNap.Lib.Framing
import OpenNap.Lib.Inflate

/-! The input of a connection: `handle_connection` reads what has arrived into the receive buffer and
hands the packets that are complete to `dispatch_command`. -/

namespace OpenNap

/-- A message as it is sent over a connection. -/
structure Packet where
  tag : UInt16
  payload : List UInt8
  fits : payload.length < 65536

/-- A 16-bit number as two bytes, the low one first. -/
def word (low high : UInt8) : UInt16 := UInt16.ofNat (low.toNat + 256 * high.toNat)

def wordBytes (n : UInt16) : List UInt8 := [UInt8.ofNat n.toNat, UInt8.ofNat (n.toNat / 256)]

namespace Packet

def len (p : Packet) : UInt16 := UInt16.ofNat p.payload.length

def encode (p : Packet) : List UInt8 := wordBytes p.len ++ wordBytes p.tag ++ p.payload

/-- The first packet of a stream, when it is complete. -/
def next : List UInt8 → Option (Packet × List UInt8)
  | l0 :: l1 :: t0 :: t1 :: rest =>
    let len := (word l0 l1).toNat
    if len ≤ rest.length then
      some (⟨word t0 t1, rest.take len,
        Nat.lt_of_le_of_lt (List.length_take_le _ _) (word l0 l1).toNat_lt⟩, rest.drop len)
    else none
  | _ => none

end Packet

/-- A call of `dispatch_command` as the handler sees it.  `pkt` is what stands in memory from the
pointer that it is given, as far as the byte after the packet. -/
structure Call where
  tag : UInt16
  len : UInt16
  pkt : List UInt8
  deriving DecidableEq

/-- The call that a packet is to lead to. -/
def Packet.call (p : Packet) : Call := ⟨p.tag, p.len, p.payload ++ [0]⟩

/-- What a handler makes of a message: the new state, and the bytes that it leaves in place of those
it was given, which it may use to cut its arguments apart. -/
abbrev Handler (σ : Type) := σ → Call → σ × List UInt8

/-- Bytes are written over those of a block of memory. -/
def splice (data : List UInt8) (i : Nat) (bytes : List UInt8) : List UInt8 :=
  data.take i ++ bytes ++ data.drop (i + bytes.length)

theorem length_splice {data bytes : List UInt8} {i : Nat} (h : i + bytes.length ≤ data.length) :
    (splice data i bytes).length = data.length := by
  simp only [splice, List.length_append, List.length_take, List.length_drop]
  omega

/-- `BUFFER`, as the input of a connection uses it.  The block has room for a header at least, and
for one byte more than `datamax`. -/
structure RecvBuf where
  data : List UInt8
  datamax : Nat
  datasize : Nat
  consumed : Nat
  allocated : data.length = datamax + 1
  header : 4 ≤ datamax
  fits : datasize ≤ datamax
  behind : consumed ≤ datasize

namespace RecvBuf

/-- The buffer that `handle_connection` makes before it reads the first header. -/
def new : RecvBuf := ⟨List.replicate 5 0, 4, 0, 0, rfl, by decide, by decide, by decide⟩

/-- The bytes that are in the buffer and were not dispatched yet. -/
def live (b : RecvBuf) : List UInt8 := (b.data.take b.datasize).drop b.consumed

/-- All that is in the buffer, the packets that were dispatched and not moved away yet included. -/
def held (b : RecvBuf) : List UInt8 := b.data.take b.datasize

/-- `safe_realloc` of a larger block. -/
def grow (b : RecvBuf) (size : Nat) (h : b.datamax ≤ size) : RecvBuf where
  data := b.data ++ List.replicate (size - b.datamax) 0
  datamax := size
  datasize := b.datasize
  consumed := b.consumed
  allocated := by
    rw [List.length_append, List.length_replicate, b.allocated]
    omega
  header := Nat.le_trans b.header h
  fits := Nat.le_trans b.fits h
  behind := b.behind

/-- More bytes, read into the place behind those that are there. -/
def put (b : RecvBuf) (bytes : List UInt8) (h : b.datasize + bytes.length ≤ b.datamax) : RecvBuf where
  data := splice b.data b.datasize bytes
  datamax := b.datamax
  datasize := b.datasize + bytes.length
  consumed := b.consumed
  allocated := by
    rw [length_splice (by rw [b.allocated]; omega), b.allocated]
  header := b.header
  fits := h
  behind := Nat.le_trans b.behind (Nat.le_add_right _ _)

/-- The byte at some distance from the first one that was not dispatched. -/
def byteAt (b : RecvBuf) (i : Nat) : UInt8 := b.data.getD (b.consumed + i) 0

/-- The length in the header of the next packet. -/
def len (b : RecvBuf) : UInt16 := word (b.byteAt 0) (b.byteAt 1)

def tag (b : RecvBuf) : UInt16 := word (b.byteAt 2) (b.byteAt 3)

/-- Where the next packet ends. -/
def packetEnd (b : RecvBuf) : Nat := b.consumed + 4 + b.len.toNat

/-- The memory while the handler runs: the byte after the packet is a nul. -/
def terminated (b : RecvBuf) : List UInt8 := b.data.set b.packetEnd 0

/-- What `dispatch_command` gives to the handler. -/
def call (b : RecvBuf) : Call :=
  ⟨b.tag, b.len, (b.terminated.drop (b.consumed + 4)).take (b.len.toNat + 1)⟩

/-- The memory after `dispatch_command`: the handler wrote over its packet, and the byte after it is
restored. -/
def restored (b : RecvBuf) (left : List UInt8) : List UInt8 :=
  (splice b.terminated (b.consumed + 4) (left.take (b.len.toNat + 1))).set b.packetEnd
    (b.data.getD b.packetEnd 0)

theorem length_restored (b : RecvBuf) (left : List UInt8) (h : b.packetEnd ≤ b.datasize) :
    (b.restored left).length = b.datamax + 1 := by
  have hFits := b.fits
  have hTerminated : b.terminated.length = b.datamax + 1 := by
    rw [terminated, List.length_set, b.allocated]
  have hTake : (left.take (b.len.toNat + 1)).length ≤ b.len.toNat + 1 := List.length_take_le _ _
  rw [restored, List.length_set, length_splice, hTerminated]
  rw [hTerminated]
  unfold packetEnd at h
  omega

/-- The packet was dispatched. -/
def advance (b : RecvBuf) (left : List UInt8) (h : b.packetEnd ≤ b.datasize) : RecvBuf where
  data := b.restored left
  datamax := b.datamax
  datasize := b.datasize
  consumed := b.packetEnd
  allocated := b.length_restored left h
  header := b.header
  fits := b.fits
  behind := h

/-- What was dispatched makes room: `memmove`. -/
def compact (b : RecvBuf) : RecvBuf where
  data := splice b.data 0 b.live
  datamax := b.datamax
  datasize := b.datasize - b.consumed
  consumed := 0
  allocated := by
    have hLive : b.live.length ≤ b.data.length := by
      rw [live, List.length_drop, List.length_take]
      omega
    rw [length_splice (by rw [Nat.zero_add]; exact hLive), b.allocated]
  header := b.header
  fits := Nat.le_trans (Nat.sub_le _ _) b.fits
  behind := Nat.zero_le _

end RecvBuf

/-- What can be read from a socket, in order. -/
inductive Arrival
  /-- bytes, none of them at the end of the stream -/
  | bytes (bs : List UInt8)
  /-- nothing for now, `EWOULDBLOCK` -/
  | nothing
  /-- any other error -/
  | failure

/-- What `READ` returns when it is asked for so many bytes. -/
inductive ReadResult (want : Nat)
  | bytes (bs : List UInt8) (h : bs.length ≤ want)
  | wouldBlock
  | failed

/-- `READ`: as many of the bytes that are there as are wanted. -/
def read (want : Nat) : List Arrival → ReadResult want × List Arrival
  | [] => (.wouldBlock, [])
  | .nothing :: fd => (.wouldBlock, fd)
  | .failure :: fd => (.failed, fd)
  | .bytes [] :: fd => (.failed, fd)
  | .bytes (b :: bs) :: fd =>
    (.bytes ((b :: bs).take want) (List.length_take_le _ _),
      if (b :: bs).length ≤ want then fd else .bytes ((b :: bs).drop want) :: fd)

/-- The size of `Buf`. -/
def bufSize : Nat := 2048

/-- A connection that is registered, as far as its input goes. -/
structure Input (σ ζ : Type) where
  isServer : Bool
  recvbuf : RecvBuf := .new
  /-- the state of the decompression -/
  zin : ζ
  /-- what comes over the socket -/
  fd : List Arrival
  destroy : Bool := false
  /-- what the handlers work on -/
  state : σ
  /-- the calls of `dispatch_command` so far -/
  dispatched : List Call := []

/-- What `handle_connection` relies on. -/
structure Reader (σ ζ : Type) where
  /-- the table of handlers, and the answer to a tag that is not in it -/
  handler : Handler σ
  /-- a handler has marked the connection for destruction -/
  marked : σ → Bool
  inflate : Zlib.Inflate ζ
  /-- `Max_Command_Length` -/
  maxCommandLength : Int
  /-- the number of times that the loop of `buffer_decompress` may go round -/
  passes : Nat

namespace Input

variable {σ ζ : Type} (env : Reader σ ζ)

/-- The loop over the complete packets of `handle_connection`.  The checks of it that only talk to
the client or to other servers are part of the handler. -/
def process : Nat → Input σ ζ → Input σ ζ
  | 0, c => c
  | fuel + 1, c =>
    let b := c.recvbuf
    if b.consumed < b.datasize then
      if b.datasize - b.consumed < 4 then c
      else if h : b.packetEnd ≤ b.datasize then
        let result := env.handler c.state b.call
        process fuel
          { c with
            recvbuf := b.advance result.2 h
            state := result.1
            dispatched := c.dispatched ++ [b.call] }
      else c
    else c

/-- The loop in which the header of a packet is read; `false` where `handle_connection` returns. -/
def readHeader : Nat → Input σ ζ → Input σ ζ × Bool
  | 0, c => (c, true)
  | passes + 1, c =>
    if h : c.recvbuf.datasize < 4 then
      match read (4 - c.recvbuf.datasize) c.fd with
      | (.bytes bs hRead, fd) =>
        have hRoom : c.recvbuf.datasize + bs.length ≤ c.recvbuf.datamax := by
          have hHeader := c.recvbuf.header
          omega
        readHeader passes { c with fd := fd, recvbuf := c.recvbuf.put bs hRoom }
      | (.wouldBlock, fd) => ({ c with fd := fd }, false)
      | (.failed, fd) => ({ c with fd := fd, destroy := true }, false)
    else (c, true)

/-- The buffer of a client gets room for the whole packet. -/
def makeRoom (b : RecvBuf) (size : Nat) : RecvBuf :=
  if h : b.datamax < size then b.grow size (Nat.le_of_lt h) else b

theorem le_datamax_makeRoom (b : RecvBuf) (size : Nat) : size ≤ (makeRoom b size).datamax := by
  unfold makeRoom
  split
  · exact Nat.le_refl _
  · omega

@[simp] theorem datasize_makeRoom (b : RecvBuf) (size : Nat) :
    (makeRoom b size).datasize = b.datasize := by
  unfold makeRoom
  split <;> rfl

/-- The body of a packet of some length is read, as much of it as is there. -/
def readLength (c : Input σ ζ) (len : Nat) : Input σ ζ × Bool :=
  if 0 < len then
    if env.maxCommandLength < (len : Int) then ({ c with destroy := true }, false)
    else
      let b := makeRoom c.recvbuf (4 + len)
      match read (len + 4 - b.datasize) c.fd with
      | (.bytes bs hRead, fd) =>
        have hRoom : b.datasize + bs.length ≤ b.datamax := by
          have hMade : 4 + len ≤ b.datamax := le_datamax_makeRoom c.recvbuf (4 + len)
          have hFits := b.fits
          omega
        ({ c with fd := fd, recvbuf := b.put bs hRoom }, true)
      | (.wouldBlock, fd) => ({ c with fd := fd, recvbuf := b }, false)
      | (.failed, fd) => ({ c with fd := fd, recvbuf := b, destroy := true }, false)
  else (c, true)

/-- The packet body is read, whose length stands in the first two bytes. -/
def readBody (c : Input σ ζ) : Input σ ζ × Bool :=
  readLength env c (word (c.recvbuf.data.getD 0 0) (c.recvbuf.data.getD 1 0)).toNat

/-- What `handle_connection` reads from a client: never more than one packet. -/
def readClient (c : Input σ ζ) : Input σ ζ × Bool :=
  let header := readHeader 4 c
  if header.2 then readBody env header.1 else header

/-- The block of a server grows when it is full. -/
def moreRoom (b : RecvBuf) : RecvBuf :=
  if b.datasize = b.datamax then b.grow (b.datamax + 2048) (Nat.le_add_right _ _) else b

/-- The loop of `buffer_decompress`; `inflate` puts its output into the room that it is offered. -/
def decompress : Nat → RecvBuf → ζ → List UInt8 → Option (RecvBuf × ζ)
  | 0, _, _, _ => none
  | passes + 1, b, zin, input =>
    let b := moreRoom b
    let r := env.inflate zin input (b.datamax - b.datasize)
    if h : r.ok = true ∧ b.datasize + r.out.length ≤ b.datamax then
      let b := b.put r.out h.2
      if b.datasize = b.datamax then decompress passes b r.state r.rest else some (b, r.state)
    else none

/-- What `handle_connection` reads from a server: as much as there is, decompressed. -/
def readServer (c : Input σ ζ) : Input σ ζ × Bool :=
  match read bufSize c.fd with
  | (.bytes bs _, fd) =>
    match decompress env env.passes c.recvbuf c.zin bs with
    | some (b, zin) => ({ c with fd := fd, recvbuf := b, zin := zin }, true)
    | none => ({ c with fd := fd, destroy := true }, false)
  | (.wouldBlock, fd) => ({ c with fd := fd, destroy := true }, false)
  | (.failed, fd) => ({ c with fd := fd, destroy := true }, false)

/-- `handle_connection`. -/
def handleConnection (c : Input σ ζ) : Input σ ζ :=
  let input := if c.isServer then readServer env c else readClient env c
  if input.2 then
    let c := process env input.1.recvbuf.datasize input.1
    { c with recvbuf := c.recvbuf.compact }
  else input.1

/-- A turn of the main loop, for this connection: it is handled when there is something to read. -/
def turn (c : Input σ ζ) : Input σ ζ :=
  if c.destroy || env.marked c.state then c
  else
    match c.fd with
    | [] => c
    | .nothing :: fd => { c with fd := fd }
    | _ :: _ => handleConnection env c

/-- Some turns of the main loop. -/
def turns (n : Nat) (c : Input σ ζ) : Input σ ζ := (turn env)^[n] c

end Input

/-! ### Packets -/

theorem word_wordBytes (n : UInt16) :
    word (UInt8.ofNat n.toNat) (UInt8.ofNat (n.toNat / 256)) = n := by
  have hLt := n.toNat_lt
  apply UInt16.toNat_inj.1
  simp only [word, UInt8.toNat_ofNat', UInt16.toNat_ofNat']
  omega

namespace Packet

theorem toNat_len (p : Packet) : p.len.toNat = p.payload.length := by
  have hFits := p.fits
  simp only [len, UInt16.toNat_ofNat']
  omega

theorem encode_eq (p : Packet) : p.encode =
    UInt8.ofNat p.len.toNat :: UInt8.ofNat (p.len.toNat / 256) :: UInt8.ofNat p.tag.toNat ::
      UInt8.ofNat (p.tag.toNat / 256) :: p.payload := rfl

theorem next_encode (p : Packet) (more : List UInt8) : next (p.encode ++ more) = some (p, more) := by
  rw [encode_eq]
  have hFits : p.len.toNat ≤ (p.payload ++ more).length := by
    rw [toNat_len, List.length_append]
    omega
  have hTake : (p.payload ++ more).take p.len.toNat = p.payload := by
    rw [toNat_len, List.take_left]
  have hDrop : (p.payload ++ more).drop p.len.toNat = more := by
    rw [toNat_len, List.drop_left]
  simp only [List.cons_append, next, word_wordBytes, hFits, if_true, hTake, hDrop]

theorem wordBytes_word (low high : UInt8) : wordBytes (word low high) = [low, high] := by
  have hLow := low.toNat_lt
  have hHigh := high.toNat_lt
  have hWord : (word low high).toNat = low.toNat + 256 * high.toNat := by
    simp only [word, UInt16.toNat_ofNat']
    omega
  have hFirst : UInt8.ofNat (word low high).toNat = low := by
    apply UInt8.toNat_inj.1
    rw [UInt8.toNat_ofNat', hWord]
    omega
  have hSecond : UInt8.ofNat ((word low high).toNat / 256) = high := by
    apply UInt8.toNat_inj.1
    rw [UInt8.toNat_ofNat', hWord]
    omega
  rw [wordBytes, hFirst, hSecond]

/-- A packet that was read is one that was encoded. -/
theorem eq_encode_of_next (l : List UInt8) (p : Packet) (rest : List UInt8)
    (h : next l = some (p, rest)) : l = p.encode ++ rest := by
  match l, h with
  | l0 :: l1 :: t0 :: t1 :: more, h =>
    simp only [next] at h
    split at h
    · rename_i hWhole
      cases h
      have hLen : (Packet.mk (word t0 t1) (more.take (word l0 l1).toNat)
          (Nat.lt_of_le_of_lt (List.length_take_le _ _) (word l0 l1).toNat_lt)).len = word l0 l1 := by
        simp only [len, List.length_take, Nat.min_eq_left hWhole, UInt16.ofNat_toNat]
      simp only [encode, hLen, wordBytes_word]
      simp
    · cases h

/-- The header, and what follows it as far as the header says. -/
theorem next_eq {l : List UInt8} (h : 4 ≤ l.length) :
    next l =
      if 4 + (word (l.getD 0 0) (l.getD 1 0)).toNat ≤ l.length then
        some (⟨word (l.getD 2 0) (l.getD 3 0), (l.drop 4).take (word (l.getD 0 0) (l.getD 1 0)).toNat,
          Nat.lt_of_le_of_lt (List.length_take_le _ _) (word (l.getD 0 0) (l.getD 1 0)).toNat_lt⟩,
          l.drop (4 + (word (l.getD 0 0) (l.getD 1 0)).toNat))
      else none := by
  match l, h with
  | l0 :: l1 :: t0 :: t1 :: rest, _ =>
    have hSize : (4 + (word l0 l1).toNat ≤ (l0 :: l1 :: t0 :: t1 :: rest).length) ↔
        (word l0 l1).toNat ≤ rest.length := by
      simp only [List.length_cons]
      omega
    have hDrop : (l0 :: l1 :: t0 :: t1 :: rest).drop (4 + (word l0 l1).toNat) =
        rest.drop (word l0 l1).toNat := by
      rw [Nat.add_comm]
      rfl
    simp only [next, List.getD_cons_zero, List.getD_cons_succ, List.drop_succ_cons, List.drop_zero, hSize,
      hDrop]

theorem next_short {l : List UInt8} (h : l.length < 4) : next l = none := by
  match l, h with
  | [], _ | [_], _ | [_, _], _ | [_, _, _], _ => rfl

/-- The packets of a stream. -/
def splitter : Framing.Splitter UInt8 Packet where
  next := next
  shorter l p rest h := by
    by_cases hLong : 4 ≤ l.length
    · rw [next_eq hLong] at h
      split at h
      · cases h
        rw [List.length_drop]
        omega
      · cases h
    · rw [next_short (by omega)] at h
      cases h
  stable l p rest more h := by
    by_cases hLong : 4 ≤ l.length
    · have hGet (i : Nat) (hi : i < 4) : (l ++ more).getD i 0 = l.getD i 0 := by
        simp only [List.getD_eq_getElem?_getD]
        rw [List.getElem?_append_left (by omega)]
      have hLonger : 4 ≤ (l ++ more).length := by
        rw [List.length_append]
        omega
      rw [next_eq hLong] at h
      rw [next_eq hLonger]
      simp only [hGet 0 (by omega), hGet 1 (by omega), hGet 2 (by omega), hGet 3 (by omega)]
      split at h
      · rename_i hWhole
        rw [if_pos (by rw [List.length_append]; omega)]
        cases h
        have hPayload : ((l ++ more).drop 4).take (word (l.getD 0 0) (l.getD 1 0)).toNat =
            (l.drop 4).take (word (l.getD 0 0) (l.getD 1 0)).toNat := by
          rw [List.drop_append_of_le_length hLong, List.take_append_of_le_length]
          rw [List.length_drop]
          omega
        have hRest : (l ++ more).drop (4 + (word (l.getD 0 0) (l.getD 1 0)).toNat) =
            l.drop (4 + (word (l.getD 0 0) (l.getD 1 0)).toNat) ++ more :=
          List.drop_append_of_le_length hWhole
        simp only [hPayload, hRest]
      · cases h
    · rw [next_short (by omega)] at h
      cases h

end Packet

/-! ### The receive buffer -/

theorem getElem?_splice {data bytes : List UInt8} {i : Nat} (h : i + bytes.length ≤ data.length)
    (j : Nat) : (splice data i bytes)[j]? =
      if j < i then data[j]? else if j < i + bytes.length then bytes[j - i]? else data[j]? := by
  have hTake : (data.take i).length = i := by
    rw [List.length_take]
    omega
  rw [splice, List.append_assoc]
  by_cases hBefore : j < i
  · rw [if_pos hBefore, List.getElem?_append_left (by omega), List.getElem?_take_of_lt hBefore]
  · rw [if_neg hBefore, List.getElem?_append_right (by omega), hTake]
    by_cases hIn : j < i + bytes.length
    · rw [if_pos hIn, List.getElem?_append_left (by omega)]
    · rw [if_neg hIn, List.getElem?_append_right (by omega), List.getElem?_drop]
      congr 1
      omega

namespace RecvBuf

theorem length_live (b : RecvBuf) : b.live.length = b.datasize - b.consumed := by
  have hAllocated := b.allocated
  have hFits := b.fits
  rw [live, List.length_drop, List.length_take]
  omega

@[simp] theorem live_grow (b : RecvBuf) (size : Nat) (h : b.datamax ≤ size) :
    (b.grow size h).live = b.live := by
  have hAllocated := b.allocated
  have hFits := b.fits
  simp only [live, grow]
  rw [List.take_append_of_le_length (by omega)]

@[simp] theorem live_put (b : RecvBuf) (bytes : List UInt8)
    (h : b.datasize + bytes.length ≤ b.datamax) : (b.put bytes h).live = b.live ++ bytes := by
  have hAllocated := b.allocated
  have hBehind := b.behind
  have hTake : (splice b.data b.datasize bytes).take (b.datasize + bytes.length) =
      b.data.take b.datasize ++ bytes := by
    have hLength : (b.data.take b.datasize ++ bytes).length = b.datasize + bytes.length := by
      rw [List.length_append, List.length_take]
      omega
    rw [splice, ← hLength, List.take_left]
  simp only [live, put, hTake]
  apply List.drop_append_of_le_length
  rw [List.length_take]
  omega

theorem live_eq (b : RecvBuf) : b.live = b.held.drop b.consumed := rfl

theorem length_held (b : RecvBuf) : b.held.length = b.datasize := by
  have hAllocated := b.allocated
  have hFits := b.fits
  rw [held, List.length_take]
  omega

theorem held_grow (b : RecvBuf) (size : Nat) (h : b.datamax ≤ size) :
    (b.grow size h).held = b.held := by
  have hAllocated := b.allocated
  have hFits := b.fits
  simp only [held, grow]
  rw [List.take_append_of_le_length (by omega)]

theorem held_put (b : RecvBuf) (bytes : List UInt8)
    (h : b.datasize + bytes.length ≤ b.datamax) : (b.put bytes h).held = b.held ++ bytes := by
  have hLength : (b.held ++ bytes).length = b.datasize + bytes.length := by
    rw [List.length_append, length_held]
  show (splice b.data b.datasize bytes).take (b.datasize + bytes.length) = b.held ++ bytes
  rw [splice, ← held, ← hLength, List.take_left]

@[simp] theorem live_compact (b : RecvBuf) : b.compact.live = b.live := by
  simp only [live, compact, List.drop_zero]
  rw [← live, ← b.length_live, splice, List.take_zero, List.nil_append, List.take_left]

@[simp] theorem consumed_compact (b : RecvBuf) : b.compact.consumed = 0 := rfl

/-- The bytes in the buffer are those of its memory. -/
theorem getD_live (b : RecvBuf) {i : Nat} (h : i < b.datasize - b.consumed) :
    b.live.getD i 0 = b.byteAt i := by
  simp only [live, byteAt, List.getD_eq_getElem?_getD]
  rw [List.getElem?_drop, List.getElem?_take_of_lt (by omega)]

/-- From the end of the packet on nothing has changed in the memory. -/
theorem drop_restored (b : RecvBuf) (left : List UInt8) (h : b.packetEnd ≤ b.datasize) :
    (b.restored left).drop b.packetEnd = b.data.drop b.packetEnd := by
  have hAllocated := b.allocated
  have hFits := b.fits
  have hTake : (left.take (b.len.toNat + 1)).length ≤ b.len.toNat + 1 := List.length_take_le _ _
  have hEnd : b.packetEnd = b.consumed + 4 + b.len.toNat := rfl
  have hTerminated : b.terminated.length = b.data.length := by rw [terminated, List.length_set]
  apply List.ext_getElem?
  intro j
  rw [List.getElem?_drop, List.getElem?_drop, restored]
  by_cases hFirst : j = 0
  · subst hFirst
    show ((splice b.terminated (b.consumed + 4) (left.take (b.len.toNat + 1))).set b.packetEnd
      (b.data.getD b.packetEnd 0))[b.packetEnd]? = b.data[b.packetEnd]?
    rw [List.getElem?_set_self]
    · rw [List.getD_eq_getElem?_getD, List.getElem?_eq_getElem (by omega)]
      rfl
    · rw [length_splice (by omega), hTerminated]
      omega
  · rw [List.getElem?_set_ne (by omega), getElem?_splice (by omega), if_neg (by omega),
      if_neg (by omega), terminated, List.getElem?_set_ne (by omega)]

theorem live_advance (b : RecvBuf) (left : List UInt8) (h : b.packetEnd ≤ b.datasize) :
    (b.advance left h).live = b.live.drop (4 + b.len.toNat) := by
  have hEnd : b.packetEnd = b.consumed + (4 + b.len.toNat) := by
    unfold packetEnd
    omega
  simp only [live, advance]
  rw [List.drop_drop, ← hEnd, List.drop_take, List.drop_take, b.drop_restored left h]

/-- The handler is given the packet and a nul. -/
theorem pkt_eq (b : RecvBuf) (h : b.packetEnd ≤ b.datasize) :
    b.call.pkt = (b.live.drop 4).take b.len.toNat ++ [0] := by
  have hAllocated := b.allocated
  have hFits := b.fits
  have hEnd : b.packetEnd = b.consumed + 4 + b.len.toNat := rfl
  have hLength : ((b.live.drop 4).take b.len.toNat).length = b.len.toNat := by
    rw [List.length_take, List.length_drop, b.length_live]
    omega
  apply List.ext_getElem?
  intro j
  simp only [call]
  by_cases hIn : j < b.len.toNat
  · rw [List.getElem?_take_of_lt (by omega), List.getElem?_drop, terminated,
      List.getElem?_set_ne (by omega), List.getElem?_append_left (by omega),
      List.getElem?_take_of_lt hIn, List.getElem?_drop, live, List.getElem?_drop,
      List.getElem?_take_of_lt (by omega)]
    congr 1
    omega
  · rw [List.getElem?_append_right (by omega), hLength]
    by_cases hLast : j = b.len.toNat
    · subst hLast
      rw [List.getElem?_take_of_lt (by omega), List.getElem?_drop, terminated, ← hEnd,
        List.getElem?_set_self (by omega), Nat.sub_self]
      rfl
    · rw [List.getElem?_eq_none (by rw [List.length_take]; omega),
        List.getElem?_eq_none (by rw [List.length_singleton]; omega)]

/-- No packet is complete as long as the header, or the end that it tells of, is not there. -/
theorem next_live_none (b : RecvBuf) (h : b.datasize - b.consumed < 4 ∨ b.datasize < b.packetEnd) :
    Packet.next b.live = none := by
  have hLength := b.length_live
  by_cases hLong : 4 ≤ b.live.length
  · rw [Packet.next_eq hLong, b.getD_live (by omega), b.getD_live (by omega)]
    apply if_neg
    show ¬ 4 + b.len.toNat ≤ b.live.length
    unfold packetEnd at h
    omega
  · exact Packet.next_short (by omega)

/-- A complete packet is the one that is dispatched, and the next one begins where it ends. -/
theorem next_live_some (b : RecvBuf) (hHeader : 4 ≤ b.datasize - b.consumed)
    (h : b.packetEnd ≤ b.datasize) :
    ∃ p, Packet.next b.live = some (p, b.live.drop (4 + b.len.toNat)) ∧ p.call = b.call := by
  have hLength := b.length_live
  have hEnd : b.packetEnd = b.consumed + 4 + b.len.toNat := rfl
  have hPkt := b.pkt_eq h
  rw [Packet.next_eq (by omega), b.getD_live (by omega), b.getD_live (by omega),
    b.getD_live (by omega), b.getD_live (by omega)]
  have hWhole : 4 + (word (b.byteAt 0) (b.byteAt 1)).toNat ≤ b.live.length := by
    show 4 + b.len.toNat ≤ b.live.length
    omega
  rw [if_pos hWhole]
  refine ⟨_, rfl, ?_⟩
  have hLen : UInt16.ofNat ((b.live.drop 4).take b.len.toNat).length = b.len := by
    have hTake : ((b.live.drop 4).take b.len.toNat).length = b.len.toNat := by
      rw [List.length_take, List.length_drop]
      omega
    rw [hTake, UInt16.ofNat_toNat]
  show Call.mk b.tag (UInt16.ofNat ((b.live.drop 4).take b.len.toNat).length)
    ((b.live.drop 4).take b.len.toNat ++ [0]) = ⟨b.tag, b.len, b.call.pkt⟩
  rw [hLen, hPkt]

end RecvBuf

/-! ### Reading -/

namespace Arrival

/-- The bytes that arrive. -/
def data : Arrival → List UInt8
  | .bytes bs => bs
  | _ => []

/-- The stream neither ends nor breaks. -/
def Sound : Arrival → Prop
  | .bytes bs => bs ≠ []
  | .nothing => True
  | .failure => False

end Arrival

/-- The bytes that are still to be read. -/
def unread (fd : List Arrival) : List UInt8 := fd.flatMap Arrival.data

/-- What is still to come, in bytes and in moments. -/
def backlog (fd : List Arrival) : Nat := fd.length + (unread fd).length

theorem read_bytes {want : Nat} (hWant : 0 < want) {bs : List UInt8} {fd : List Arrival}
    (hSome : bs ≠ []) (hSound : ∀ a ∈ fd, a.Sound) :
    ∃ got h rest, read want (.bytes bs :: fd) = (.bytes got h, rest) ∧ got = bs.take want ∧ got ≠ [] ∧
      got ++ unread rest = bs ++ unread fd ∧ (∀ a ∈ rest, a.Sound) ∧
      backlog rest < backlog (.bytes bs :: fd) := by
  match bs, hSome with
  | b :: bs, _ =>
    refine ⟨_, _, _, rfl, rfl, ?_, ?_, ?_, ?_⟩
    · simp only [ne_eq, List.take_eq_nil_iff, reduceCtorEq, or_false]
      omega
    · split
      · rename_i hAll
        rw [List.take_of_length_le hAll]
      · simp only [unread, List.flatMap_cons, Arrival.data]
        rw [← List.append_assoc, List.take_append_drop]
    · intro a ha
      split at ha
      · exact hSound a ha
      · rename_i hMore
        rcases List.mem_cons.1 ha with rfl | ha
        · simp only [Arrival.Sound, ne_eq, List.drop_eq_nil_iff]
          exact hMore
        · exact hSound a ha
    · split
      · simp only [backlog, unread, List.flatMap_cons, Arrival.data, List.length_append,
          List.length_cons]
        omega
      · simp only [backlog, unread, List.flatMap_cons, Arrival.data, List.length_append,
          List.length_cons, List.length_drop]
        omega

/-- Some bytes are read, or there are none for now. -/
theorem read_sound {want : Nat} (hWant : 0 < want) {fd : List Arrival} (hSound : ∀ a ∈ fd, a.Sound) :
    (∃ rest, read want fd = (.wouldBlock, rest) ∧ unread rest = unread fd ∧ (∀ a ∈ rest, a.Sound) ∧
      backlog rest ≤ backlog fd) ∨
    ∃ got h rest, read want fd = (.bytes got h, rest) ∧ got ≠ [] ∧ got ++ unread rest = unread fd ∧
      (∀ a ∈ rest, a.Sound) ∧ backlog rest ≤ backlog fd := by
  match fd, hSound with
  | [], hSound => exact .inl ⟨[], rfl, rfl, hSound, Nat.le_refl _⟩
  | .nothing :: fd, hSound =>
    refine .inl ⟨fd, rfl, rfl, fun a ha => hSound a (List.mem_cons_of_mem _ ha), ?_⟩
    simp only [backlog, unread, List.flatMap_cons, Arrival.data, List.nil_append, List.length_cons]
    omega
  | .failure :: _, hSound => exact (hSound .failure List.mem_cons_self).elim
  | .bytes bs :: fd, hSound =>
    obtain ⟨got, h, rest, hRead, -, hSome, hGot, hRest, hLess⟩ := read_bytes hWant
      (hSound (.bytes bs) List.mem_cons_self) fun a ha => hSound a (List.mem_cons_of_mem _ ha)
    exact .inr ⟨got, h, rest, hRead, hSome, hGot, hRest, Nat.le_of_lt hLess⟩

/-! ### Handling what was read -/

namespace Input

variable {σ ζ : Type} {env : Reader σ ζ}

/-- The state after the handlers of some calls. -/
def handled (env : Reader σ ζ) (s : σ) (calls : List Call) : σ :=
  calls.foldl (fun s call => (env.handler s call).1) s

theorem handled_append (s : σ) (before after : List Call) :
    handled env s (before ++ after) = handled env (handled env s before) after :=
  List.foldl_append

/-- Some packets were dispatched, and nothing was read. -/
structure Hands (env : Reader σ ζ) (c t : Input σ ζ) (ps : List Packet) : Prop where
  isServer : t.isServer = c.isServer
  zin : t.zin = c.zin
  fd : t.fd = c.fd
  destroy : t.destroy = c.destroy
  dispatched : t.dispatched = c.dispatched ++ ps.map Packet.call
  state : t.state = handled env c.state (ps.map Packet.call)

/-- The loop dispatches all packets that are complete. -/
theorem process_spec (fuel : Nat) (c : Input σ ζ)
    (hFuel : c.recvbuf.datasize - c.recvbuf.consumed ≤ fuel) :
    (process env fuel c).recvbuf.live = (Packet.splitter.items c.recvbuf.live).2 ∧
      Hands env c (process env fuel c) (Packet.splitter.items c.recvbuf.live).1 := by
  have hStuck (h : Packet.next c.recvbuf.live = none) :
      c.recvbuf.live = (Packet.splitter.items c.recvbuf.live).2 ∧
        Hands env c c (Packet.splitter.items c.recvbuf.live).1 := by
    rw [Packet.splitter.items_of_none h]
    exact ⟨rfl, rfl, rfl, rfl, rfl, (List.append_nil _).symm, rfl⟩
  induction fuel generalizing c with
  | zero =>
    exact hStuck (c.recvbuf.next_live_none (by omega))
  | succ fuel ih =>
    simp only [process]
    split
    · split
      · rename_i hShort
        exact hStuck (c.recvbuf.next_live_none (.inl hShort))
      · rename_i hHeader
        split
        · rename_i hWhole
          obtain ⟨p, hNext, hCall⟩ := c.recvbuf.next_live_some (by omega) hWhole
          have hEnd : c.recvbuf.packetEnd = c.recvbuf.consumed + 4 + c.recvbuf.len.toNat := rfl
          let left := (env.handler c.state c.recvbuf.call).2
          let c' : Input σ ζ :=
            { c with
              recvbuf := c.recvbuf.advance left hWhole
              state := (env.handler c.state c.recvbuf.call).1
              dispatched := c.dispatched ++ [c.recvbuf.call] }
          have hLess : c'.recvbuf.datasize - c'.recvbuf.consumed ≤ fuel := by
            show c.recvbuf.datasize - c.recvbuf.packetEnd ≤ fuel
            omega
          have hLive : c'.recvbuf.live = c.recvbuf.live.drop (4 + c.recvbuf.len.toNat) :=
            c.recvbuf.live_advance left hWhole
          have hRest := ih c' hLess fun h => by
            rw [Packet.splitter.items_of_none h]
            exact ⟨rfl, rfl, rfl, rfl, rfl, (List.append_nil _).symm, rfl⟩
          rw [hLive] at hRest
          rw [Packet.splitter.items_of_some hNext]
          obtain ⟨hLeft, hServer, hZin, hFd, hDestroy, hDispatched, hState⟩ := hRest
          refine ⟨hLeft, hServer, hZin, hFd, hDestroy, ?_, ?_⟩
          · rw [List.map_cons, hCall]
            exact hDispatched.trans (by rw [List.append_assoc]; rfl)
          · rw [List.map_cons, hCall]
            exact hState
        · rename_i hPartial
          exact hStuck (c.recvbuf.next_live_none (.inr (by omega)))
    · exact hStuck (c.recvbuf.next_live_none (.inl (by omega)))

/-! ### The stream of a connection -/

/-- What the bytes that were not read yet stand for. -/
def pending (decoded : ζ → List UInt8 → Option (List UInt8)) (c : Input σ ζ) : Option (List UInt8) :=
  if c.isServer then decoded c.zin (unread c.fd) else some (unread c.fd)

/-- Of the packets that were sent some are dispatched, in order, and the others are in the buffer and
on the way. -/
structure Carries (env : Reader σ ζ) (decoded : ζ → List UInt8 → Option (List UInt8))
    (calls : List Call) (start : σ) (c : Input σ ζ) (done rest : List Packet) : Prop where
  alive : c.destroy = false
  sound : ∀ a ∈ c.fd, a.Sound
  ahead : ∃ bytes, c.pending decoded = some bytes ∧ c.recvbuf.live ++ bytes = rest.flatMap Packet.encode
  /-- the decompression holds nothing back -/
  flushed : c.isServer = true → decoded c.zin [] = some []
  dispatched : c.dispatched = calls ++ done.map Packet.call
  state : c.state = handled env start (done.map Packet.call)

/-- Between two turns of the main loop, moreover, no packet in the buffer is complete. -/
structure Waits (c : Input σ ζ) : Prop where
  partly : Packet.next c.recvbuf.live = none
  compacted : c.recvbuf.consumed = 0

variable {decoded : ζ → List UInt8 → Option (List UInt8)} {calls : List Call} {start : σ}
  {c : Input σ ζ} {done rest : List Packet}

/-- The loop over the complete packets takes them off the stream. -/
theorem Carries.process (h : Carries env decoded calls start c done rest) (fuel : Nat)
    (hFuel : c.recvbuf.datasize - c.recvbuf.consumed ≤ fuel) :
    ∃ more left, rest = more ++ left ∧
      Carries env decoded calls start (Input.process env fuel c) (done ++ more) left ∧
      Packet.next (Input.process env fuel c).recvbuf.live = none := by
  obtain ⟨hLive, hHands⟩ := @process_spec _ _ env fuel c hFuel
  obtain ⟨bytes, hBytes, hAhead⟩ := h.ahead
  have hItems : Packet.splitter.items (rest.flatMap Packet.encode) = (rest, []) := by
    have hEncode := @Framing.Splitter.items_encode _ _ Packet.splitter Packet.encode
      Packet.next_encode rest []
    rw [List.append_nil, Packet.splitter.items_of_none (l := []) rfl] at hEncode
    rw [hEncode, List.append_nil]
  have hSplit := Packet.splitter.items_append c.recvbuf.live bytes
  rw [hAhead, hItems] at hSplit
  obtain ⟨hRest, hNone⟩ := Prod.mk.inj hSplit
  have hLeft := Packet.splitter.eq_encode Packet.eq_encode_of_next
    ((Packet.splitter.items c.recvbuf.live).2 ++ bytes)
  rw [← hNone, List.append_nil] at hLeft
  refine ⟨_, _, hRest, ⟨?_, ?_, ⟨bytes, ?_, ?_⟩, ?_, ?_, ?_⟩, ?_⟩
  · rw [hHands.destroy]
    exact h.alive
  · rw [hHands.fd]
    exact h.sound
  · rw [pending, hHands.isServer, hHands.zin, hHands.fd]
    exact hBytes
  · rw [hLive]
    exact hLeft
  · rw [hHands.isServer, hHands.zin]
    exact h.flushed
  · rw [hHands.dispatched, h.dispatched, List.append_assoc, List.map_append]
  · rw [hHands.state, h.state, List.map_append, handled_append]
  · rw [hLive]
    exact Packet.splitter.next_rest _

/-! ### What a client sends -/

/-- Bytes were read from a client, or nothing happened. -/
structure Reads (c t : Input σ ζ) : Prop where
  isServer : t.isServer = c.isServer
  zin : t.zin = c.zin
  destroy : t.destroy = c.destroy
  dispatched : t.dispatched = c.dispatched
  state : t.state = c.state
  consumed : t.recvbuf.consumed = c.recvbuf.consumed
  sound : ∀ a ∈ t.fd, a.Sound
  bytes : t.recvbuf.live ++ unread t.fd = c.recvbuf.live ++ unread c.fd
  backlog : backlog t.fd ≤ backlog c.fd

theorem Reads.refl (hSound : ∀ a ∈ c.fd, a.Sound) : Reads c c :=
  ⟨rfl, rfl, rfl, rfl, rfl, rfl, hSound, rfl, Nat.le_refl _⟩

theorem Reads.trans {t u : Input σ ζ} (h1 : Reads c t) (h2 : Reads t u) : Reads c u where
  isServer := h2.isServer.trans h1.isServer
  zin := h2.zin.trans h1.zin
  destroy := h2.destroy.trans h1.destroy
  dispatched := h2.dispatched.trans h1.dispatched
  state := h2.state.trans h1.state
  consumed := h2.consumed.trans h1.consumed
  sound := h2.sound
  bytes := h2.bytes.trans h1.bytes
  backlog := Nat.le_trans h2.backlog h1.backlog

/-- Reading from a client leaves its stream as it is. -/
theorem Carries.reads {t : Input σ ζ} (h : Carries env decoded calls start c done rest)
    (hClient : c.isServer = false) (hReads : Reads c t) :
    Carries env decoded calls start t done rest := by
  obtain ⟨bytes, hBytes, hAhead⟩ := h.ahead
  have hUnread : bytes = unread c.fd := by
    simpa [pending, hClient] using hBytes.symm
  refine ⟨hReads.destroy.trans h.alive, hReads.sound, ⟨unread t.fd, ?_, ?_⟩,
    fun hServer => (by rw [hReads.isServer, hClient] at hServer; cases hServer), hReads.dispatched.trans h.dispatched, hReads.state.trans h.state⟩
  · simp [pending, hReads.isServer, hClient]
  · rw [hReads.bytes, ← hUnread]
    exact hAhead

/-- Bytes that were read are put into the buffer. -/
theorem reads_put {got : List UInt8} {fd : List Arrival} (b : RecvBuf)
    (hRoom : b.datasize + got.length ≤ b.datamax) (hLive : b.live = c.recvbuf.live)
    (hConsumed : b.consumed = c.recvbuf.consumed)
    (hGot : got ++ unread fd = unread c.fd) (hSound : ∀ a ∈ fd, a.Sound)
    (hBacklog : OpenNap.backlog fd ≤ OpenNap.backlog c.fd) :
    Reads c { c with fd := fd, recvbuf := b.put got hRoom } := by
  refine ⟨rfl, rfl, rfl, rfl, rfl, hConsumed, hSound, ?_, hBacklog⟩
  show (b.put got hRoom).live ++ unread fd = c.recvbuf.live ++ unread c.fd
  rw [RecvBuf.live_put, hLive, List.append_assoc, hGot]

/-- Nothing was there to be read. -/
theorem reads_none {fd : List Arrival} (b : RecvBuf) (hLive : b.live = c.recvbuf.live)
    (hConsumed : b.consumed = c.recvbuf.consumed) (hUnread : unread fd = unread c.fd)
    (hSound : ∀ a ∈ fd, a.Sound) (hBacklog : OpenNap.backlog fd ≤ OpenNap.backlog c.fd) :
    Reads c { c with fd := fd, recvbuf := b } := by
  refine ⟨rfl, rfl, rfl, rfl, rfl, hConsumed, hSound, ?_, hBacklog⟩
  show b.live ++ unread fd = c.recvbuf.live ++ unread c.fd
  rw [hLive, hUnread]

theorem readHeader_spec (passes : Nat) (c : Input σ ζ) (hSound : ∀ a ∈ c.fd, a.Sound)
    (hPasses : 4 - c.recvbuf.datasize ≤ passes) :
    Reads c (readHeader passes c).1 ∧
      ((readHeader passes c).2 = true ∧
          ((readHeader passes c).1.recvbuf.datasize = 4 ∨
            readHeader passes c = (c, true) ∧ 4 ≤ c.recvbuf.datasize) ∨
        (readHeader passes c).2 = false ∧ (readHeader passes c).1.recvbuf.datasize < 4) := by
  induction passes generalizing c with
  | zero => exact ⟨.refl hSound, .inl ⟨rfl, .inr ⟨rfl, by omega⟩⟩⟩
  | succ passes ih =>
    by_cases hShort : c.recvbuf.datasize < 4
    · have hWant : 0 < 4 - c.recvbuf.datasize := by omega
      rcases read_sound hWant hSound with
        ⟨fd, hRead, hUnread, hRest, hLess⟩ | ⟨got, h, fd, hRead, hSome, hGot, hRest, hLess⟩
      · have hStep : readHeader (passes + 1) c = ({ c with fd := fd }, false) := by
          simp only [readHeader, hShort, hRead, dite_true]
        rw [hStep]
        exact ⟨reads_none c.recvbuf rfl rfl hUnread hRest hLess, .inr ⟨rfl, hShort⟩⟩
      · have hHeader := c.recvbuf.header
        have hRoom : c.recvbuf.datasize + got.length ≤ c.recvbuf.datamax := by omega
        have hStep : readHeader (passes + 1) c =
            readHeader passes { c with fd := fd, recvbuf := c.recvbuf.put got hRoom } := by
          simp only [readHeader, hShort, hRead, dite_true]
        have hSize : (c.recvbuf.put got hRoom).datasize = c.recvbuf.datasize + got.length := rfl
        have hLength := List.length_pos_iff.2 hSome
        have hPut := reads_put c.recvbuf hRoom rfl rfl hGot hRest hLess
        obtain ⟨hReads, hEnds⟩ := ih { c with fd := fd, recvbuf := c.recvbuf.put got hRoom } hRest
          (by show 4 - (c.recvbuf.put got hRoom).datasize ≤ passes; omega)
        rw [hStep]
        refine ⟨hPut.trans hReads, hEnds.imp_left fun ⟨hGoes, hFour⟩ => ⟨hGoes, .inl ?_⟩⟩
        rcases hFour with hFour | ⟨hSame, hLong⟩
        · exact hFour
        · rw [hSame]
          show (c.recvbuf.put got hRoom).datasize = 4
          have hLong' : 4 ≤ (c.recvbuf.put got hRoom).datasize := hLong
          omega
    · have hStep : readHeader (passes + 1) c = (c, true) := by
        simp only [readHeader, hShort, dite_false]
      rw [hStep]
      exact ⟨.refl hSound, .inl ⟨rfl, .inr ⟨rfl, by omega⟩⟩⟩

/-- When bytes are there and the header is not complete, some are read. -/
theorem readHeader_backlog (passes : Nat) {bs : List UInt8} {fd : List Arrival}
    (hSound : ∀ a ∈ c.fd, a.Sound) (hFd : c.fd = .bytes bs :: fd) (hShort : c.recvbuf.datasize < 4)
    (hPasses : 4 - c.recvbuf.datasize ≤ passes + 1) :
    backlog (readHeader (passes + 1) c).1.fd < backlog c.fd := by
  rw [hFd] at hSound
  have hSome : bs ≠ [] := hSound (.bytes bs) List.mem_cons_self
  obtain ⟨got, h, rest, hRead, -, hGot, -, hRest, hLess⟩ := @read_bytes (4 - c.recvbuf.datasize)
    (by omega) bs fd hSome fun a ha => hSound a (List.mem_cons_of_mem _ ha)
  have hHeader := c.recvbuf.header
  have hRoom : c.recvbuf.datasize + got.length ≤ c.recvbuf.datamax := by omega
  have hStep : readHeader (passes + 1) c =
      readHeader passes { c with fd := rest, recvbuf := c.recvbuf.put got hRoom } := by
    simp only [readHeader, hShort, hFd, hRead, dite_true]
  have hLength := List.length_pos_iff.2 hGot
  have hSize : (c.recvbuf.put got hRoom).datasize = c.recvbuf.datasize + got.length := rfl
  have hReads := (readHeader_spec passes { c with fd := rest, recvbuf := c.recvbuf.put got hRoom } hRest
    (by show 4 - (c.recvbuf.put got hRoom).datasize ≤ passes; omega)).1
  rw [hStep, hFd]
  exact Nat.lt_of_le_of_lt hReads.backlog hLess

@[simp] theorem live_makeRoom (b : RecvBuf) (size : Nat) : (makeRoom b size).live = b.live := by
  unfold makeRoom
  split
  · exact b.live_grow size _
  · rfl

@[simp] theorem consumed_makeRoom (b : RecvBuf) (size : Nat) :
    (makeRoom b size).consumed = b.consumed := by
  unfold makeRoom
  split <;> rfl

/-- The body of a packet whose header is there and is not too long. -/
theorem readBody_spec (c : Input σ ζ) (hSound : ∀ a ∈ c.fd, a.Sound) (hConsumed : c.recvbuf.consumed = 0)
    (hMax : (c.recvbuf.len.toNat : Int) ≤ env.maxCommandLength)
    (hPart : 0 < c.recvbuf.len.toNat → c.recvbuf.datasize < 4 + c.recvbuf.len.toNat) :
    Reads c (readBody env c).1 ∧
      ((readBody env c).2 = false → Packet.next (readBody env c).1.recvbuf.live = none) ∧
      ∀ bs fd, 0 < c.recvbuf.len.toNat → c.fd = .bytes bs :: fd →
        backlog (readBody env c).1.fd < backlog c.fd := by
  have hLen : readBody env c = readLength env c c.recvbuf.len.toNat := by
    simp only [readBody, RecvBuf.len, RecvBuf.byteAt, hConsumed, Nat.zero_add]
  by_cases hPos : 0 < c.recvbuf.len.toNat
  · have hNotLong : ¬ env.maxCommandLength < (c.recvbuf.len.toNat : Int) := by omega
    have hSize := datasize_makeRoom c.recvbuf (4 + c.recvbuf.len.toNat)
    have hWant : 0 < c.recvbuf.len.toNat + 4 -
        (makeRoom c.recvbuf (4 + c.recvbuf.len.toNat)).datasize := by
      have hLess := hPart hPos
      omega
    have hLive := live_makeRoom c.recvbuf (4 + c.recvbuf.len.toNat)
    have hCons := consumed_makeRoom c.recvbuf (4 + c.recvbuf.len.toNat)
    rcases read_sound hWant hSound with
      ⟨fd, hRead, hUnread, hRest, hLess⟩ | ⟨got, h, fd, hRead, hSome, hGot, hRest, hLess⟩
    · have hBody : readBody env c =
          ({ c with fd := fd, recvbuf := makeRoom c.recvbuf (4 + c.recvbuf.len.toNat) }, false) := by
        rw [hLen]
        simp only [readLength, hPos, if_true, hNotLong, if_false, hRead]
      rw [hBody]
      refine ⟨reads_none _ hLive hCons hUnread hRest hLess, fun _ => ?_, fun bs rest _ hFd => ?_⟩
      · show Packet.next (makeRoom c.recvbuf (4 + c.recvbuf.len.toNat)).live = none
        rw [hLive]
        apply c.recvbuf.next_live_none
        have hEnd : c.recvbuf.packetEnd = c.recvbuf.consumed + 4 + c.recvbuf.len.toNat := rfl
        have hLess := hPart hPos
        omega
      · rw [hFd] at hSound hRead
        obtain ⟨got, h, rest', hGot, -⟩ := read_bytes hWant (hSound (.bytes bs) List.mem_cons_self)
          fun a ha => hSound a (List.mem_cons_of_mem _ ha)
        rw [hGot] at hRead
        cases hRead
    · have hMade := le_datamax_makeRoom c.recvbuf (4 + c.recvbuf.len.toNat)
      have hFits := (makeRoom c.recvbuf (4 + c.recvbuf.len.toNat)).fits
      have hRoom : (makeRoom c.recvbuf (4 + c.recvbuf.len.toNat)).datasize + got.length ≤
          (makeRoom c.recvbuf (4 + c.recvbuf.len.toNat)).datamax := by omega
      have hBody : readBody env c =
          ({ c with fd := fd, recvbuf := (makeRoom c.recvbuf (4 + c.recvbuf.len.toNat)).put got hRoom },
            true) := by
        rw [hLen]
        simp only [readLength, hPos, if_true, hNotLong, if_false, hRead]
      rw [hBody]
      refine ⟨reads_put _ hRoom hLive hCons hGot hRest hLess, fun h => (by cases h), ?_⟩
      intro bs rest _ hFd
      show backlog fd < backlog c.fd
      rw [hFd] at hSound hRead
      obtain ⟨got', h', rest', hGot', -, -, -, -, hStrict⟩ := read_bytes hWant
        (hSound (.bytes bs) List.mem_cons_self) fun a ha => hSound a (List.mem_cons_of_mem _ ha)
      rw [hGot'] at hRead
      cases hRead
      rw [hFd]
      exact hStrict
  · have hBody : readBody env c = (c, true) := by
      rw [hLen]
      simp only [readLength, hPos, if_false]
    rw [hBody]
    exact ⟨.refl hSound, fun h => (by cases h), fun _ _ h => absurd h hPos⟩

/-- The header in the buffer is that of the first packet to come. -/
theorem Carries.len_le (h : Carries env decoded calls start c done rest)
    (hLong : 4 ≤ c.recvbuf.datasize - c.recvbuf.consumed) :
    ∃ p ∈ rest, c.recvbuf.len.toNat = p.payload.length := by
  obtain ⟨bytes, -, hAhead⟩ := h.ahead
  have hLength := c.recvbuf.length_live
  match rest, hAhead with
  | [], hAhead =>
    have hNil := (List.append_eq_nil_iff.1 hAhead).1
    rw [hNil] at hLength
    simp only [List.length_nil] at hLength
    omega
  | p :: rest, hAhead =>
    refine ⟨p, List.mem_cons_self, ?_⟩
    have hNext : Packet.next (c.recvbuf.live ++ bytes) = some (p, rest.flatMap Packet.encode) := by
      rw [hAhead, List.flatMap_cons]
      exact Packet.next_encode p _
    have hGet (i : Nat) (hi : i < 4) :
        (c.recvbuf.live ++ bytes).getD i 0 = c.recvbuf.byteAt i := by
      rw [← c.recvbuf.getD_live (by omega)]
      simp only [List.getD_eq_getElem?_getD]
      rw [List.getElem?_append_left (by omega)]
    have hMore : 4 ≤ (c.recvbuf.live ++ bytes).length := by
      rw [List.length_append]
      omega
    rw [Packet.next_eq hMore] at hNext
    split at hNext
    · rename_i hWhole
      have hFirst := congrArg (fun found => found.1.payload.length) (Option.some.inj hNext)
      simp only [List.length_take, List.length_drop, hGet 0 (by omega), hGet 1 (by omega)] at hFirst
      rw [hGet 0 (by omega), hGet 1 (by omega)] at hWhole
      have hPayload : min c.recvbuf.len.toNat ((c.recvbuf.live ++ bytes).length - 4) =
        p.payload.length := hFirst
      have hWhole' : 4 + c.recvbuf.len.toNat ≤ (c.recvbuf.live ++ bytes).length := hWhole
      omega
    · cases hNext

/-- The connection has gone on: some more packets are dispatched, and it waits for the next one. -/
def GoesOn (env : Reader σ ζ) (decoded : ζ → List UInt8 → Option (List UInt8)) (calls : List Call)
    (start : σ) (c t : Input σ ζ) (done rest : List Packet) : Prop :=
  t.isServer = c.isServer ∧ backlog t.fd < backlog c.fd ∧ Waits t ∧
    ∃ more left, rest = more ++ left ∧ Carries env decoded calls start t (done ++ more) left

/-- The last part of `handle_connection`. -/
theorem Carries.finish (h : Carries env decoded calls start c done rest) :
    Waits { Input.process env c.recvbuf.datasize c with
        recvbuf := (Input.process env c.recvbuf.datasize c).recvbuf.compact } ∧
      (Input.process env c.recvbuf.datasize c).isServer = c.isServer ∧
      (Input.process env c.recvbuf.datasize c).fd = c.fd ∧
      ∃ more left, rest = more ++ left ∧
        Carries env decoded calls start
          { Input.process env c.recvbuf.datasize c with
            recvbuf := (Input.process env c.recvbuf.datasize c).recvbuf.compact } (done ++ more) left := by
  have hFuel : c.recvbuf.datasize - c.recvbuf.consumed ≤ c.recvbuf.datasize := Nat.sub_le _ _
  have hHands := (@process_spec _ _ env c.recvbuf.datasize c hFuel).2
  obtain ⟨more, left, hRest, hCarries, hPartly⟩ := h.process c.recvbuf.datasize hFuel
  have hLive := (Input.process env c.recvbuf.datasize c).recvbuf.live_compact
  refine ⟨⟨?_, rfl⟩, hHands.isServer, hHands.fd, more, left, hRest, hCarries.alive, hCarries.sound, ?_,
    hCarries.flushed, hCarries.dispatched, hCarries.state⟩
  · show Packet.next (Input.process env c.recvbuf.datasize c).recvbuf.compact.live = none
    rw [hLive]
    exact hPartly
  · obtain ⟨bytes, hBytes, hAhead⟩ := hCarries.ahead
    refine ⟨bytes, hBytes, ?_⟩
    show (Input.process env c.recvbuf.datasize c).recvbuf.compact.live ++ bytes = _
    rw [hLive]
    exact hAhead

/-- An incomplete packet in the buffer, of which the header is there. -/
theorem Waits.part (h : Waits c) (hLong : 4 ≤ c.recvbuf.datasize) :
    0 < c.recvbuf.len.toNat ∧ c.recvbuf.datasize < 4 + c.recvbuf.len.toNat := by
  have hEnd : c.recvbuf.packetEnd = c.recvbuf.consumed + 4 + c.recvbuf.len.toNat := rfl
  have hCompacted := h.compacted
  have hPart : c.recvbuf.datasize < c.recvbuf.packetEnd := by
    by_contra hNot
    obtain ⟨p, hNext, -⟩ := c.recvbuf.next_live_some (by omega) (by omega)
    rw [h.partly] at hNext
    cases hNext
  omega

/-- A call of `handle_connection` for a client from which something can be read. -/
theorem client_turn (h : Carries env decoded calls start c done rest) (hWaits : Waits c)
    (hClient : c.isServer = false)
    (hMax : ∀ p ∈ rest, (p.payload.length : Int) ≤ env.maxCommandLength)
    {bs : List UInt8} {fd : List Arrival} (hFd : c.fd = .bytes bs :: fd) :
    GoesOn env decoded calls start c (handleConnection env c) done rest := by
  have hConsumed := hWaits.compacted
  obtain ⟨hHeader, hEnds⟩ := readHeader_spec 4 c h.sound (by omega)
  have hCarries := h.reads hClient hHeader
  rcases hEnds with ⟨hGoes, hFour⟩ | ⟨hStops, hShort⟩
  · -- the header is there, and now the body
    have hAgain : (readHeader 4 c).1.recvbuf.consumed = 0 := hHeader.consumed.trans hConsumed
    have hLong : 4 ≤ (readHeader 4 c).1.recvbuf.datasize := by
      rcases hFour with hFour | ⟨hSame, hLong⟩
      · omega
      · rw [hSame]
        exact hLong
    obtain ⟨p, hp, hLen⟩ := hCarries.len_le (by omega)
    have hPart : 0 < (readHeader 4 c).1.recvbuf.len.toNat →
        (readHeader 4 c).1.recvbuf.datasize < 4 + (readHeader 4 c).1.recvbuf.len.toNat := by
      intro hPos
      rcases hFour with hFour | ⟨hSame, hLong⟩
      · omega
      · rw [hSame]
        exact (hWaits.part hLong).2
    obtain ⟨hBody, hPartly, hLess⟩ := @readBody_spec _ _ env (readHeader 4 c).1 hHeader.sound hAgain
      (by rw [hLen]; exact hMax p hp) hPart
    have hBacklog : backlog (readBody env (readHeader 4 c).1).1.fd < backlog c.fd := by
      by_cases hShort : c.recvbuf.datasize < 4
      · exact Nat.lt_of_le_of_lt hBody.backlog (readHeader_backlog 3 h.sound hFd hShort (by omega))
      · rcases hFour with hFour | ⟨hSame, hLong⟩
        · have hSame : readHeader 4 c = (c, true) := by
            simp only [readHeader, hShort, dite_false]
          rw [hSame] at hLess ⊢
          exact hLess bs fd (hWaits.part (by omega)).1 hFd
        · rw [hSame] at hLess ⊢
          exact hLess bs fd (hWaits.part (by omega)).1 hFd
    have hClient' : (readHeader 4 c).1.isServer = false := hHeader.isServer.trans hClient
    have hCarries' := hCarries.reads hClient' hBody
    have hRead : readClient env c = readBody env (readHeader 4 c).1 := by
      simp only [readClient, hGoes, if_true]
    cases hDone : (readBody env (readHeader 4 c).1).2 with
    | true =>
      obtain ⟨hWait, hSame, hSameFd, hMore⟩ := hCarries'.finish
      have hHandle : handleConnection env c =
          { Input.process env (readBody env (readHeader 4 c).1).1.recvbuf.datasize
              (readBody env (readHeader 4 c).1).1 with
            recvbuf := (Input.process env (readBody env (readHeader 4 c).1).1.recvbuf.datasize
              (readBody env (readHeader 4 c).1).1).recvbuf.compact } := by
        simp only [handleConnection, hClient, Bool.false_eq_true, if_false, hRead, hDone, if_true]
      rw [hHandle]
      refine ⟨hSame.trans (hBody.isServer.trans hHeader.isServer), ?_, hWait, hMore⟩
      show backlog (Input.process env _ _).fd < _
      rw [hSameFd]
      exact hBacklog
    | false =>
      have hHandle : handleConnection env c = (readBody env (readHeader 4 c).1).1 := by
        simp only [handleConnection, hClient, hRead, hDone, Bool.false_eq_true, if_false]
      rw [hHandle]
      refine ⟨hBody.isServer.trans hHeader.isServer, hBacklog,
        ⟨hPartly hDone, hBody.consumed.trans hAgain⟩, [], rest, rfl, ?_⟩
      rw [List.append_nil]
      exact hCarries'
  · -- the rest of the header has not arrived
    have hHandle : handleConnection env c = (readHeader 4 c).1 := by
      simp only [handleConnection, hClient, readClient, hStops, Bool.false_eq_true, if_false]
    have hShort' : c.recvbuf.datasize < 4 := by
      by_contra hNot
      have hSame : readHeader 4 c = (c, true) := by
        simp only [readHeader, hNot, dite_false]
      rw [hSame] at hStops
      cases hStops
    rw [hHandle]
    refine ⟨hHeader.isServer, readHeader_backlog 3 h.sound hFd hShort' (by omega),
      ⟨?_, hHeader.consumed.trans hConsumed⟩, [], rest, rfl, ?_⟩
    · exact (readHeader 4 c).1.recvbuf.next_live_none (by omega)
    · rw [List.append_nil]
      exact hCarries

/-! ### What a server sends -/

/-- The room that `inflate` is offered first. -/
def firstRoom (b : RecvBuf) : Nat := (moreRoom b).datamax - (moreRoom b).datasize

theorem moreRoom_same (b : RecvBuf) :
    (moreRoom b).live = b.live ∧ (moreRoom b).consumed = b.consumed := by
  unfold moreRoom
  split
  · exact ⟨b.live_grow _ _, rfl⟩
  · exact ⟨rfl, rfl⟩

theorem firstRoom_pos (b : RecvBuf) : 0 < firstRoom b := by
  have hFits := b.fits
  unfold firstRoom moreRoom
  split
  · simp only [RecvBuf.grow]
    omega
  · omega

theorem firstRoom_full {b : RecvBuf} (h : b.datasize = b.datamax) : firstRoom b = 2048 := by
  unfold firstRoom moreRoom
  rw [if_pos h]
  simp only [RecvBuf.grow]
  omega

/-- The loop of `buffer_decompress` puts out all of a read, unless that fills the room exactly: then
it asks `inflate` once more, which makes no progress. -/
theorem decompress_spec (hZlib : Zlib.Documented env.inflate decoded) (passes : Nat) (b : RecvBuf)
    (zin : ζ) {input more all part : List UInt8} (hAll : decoded zin (input ++ more) = some all)
    (hPart : decoded zin input = some part) (hWork : input ≠ [] ∨ part ≠ [])
    (hRoom : ∀ k, part.length ≠ firstRoom b + 2048 * k) (hPasses : part.length < passes) :
    ∃ b' zin' after, decompress env passes b zin input = some (b', zin') ∧ b'.live = b.live ++ part ∧
      b'.consumed = b.consumed ∧ decoded zin' more = some after ∧ all = part ++ after ∧
      decoded zin' [] = some [] := by
  induction passes generalizing b zin input all part with
  | zero => omega
  | succ passes ih =>
    obtain ⟨hLive, hConsumed⟩ := moreRoom_same b
    have hPos := firstRoom_pos b
    obtain ⟨after, hAfter, hSplit⟩ := hZlib.hands zin input more (firstRoom b) all hAll
    obtain ⟨left, hLeft, hHanded, hStops⟩ := hZlib.out_eq hPart (firstRoom b)
    have hOk := hZlib.ok_of_work hPart hPos hWork
    have hOut := hZlib.room zin input (firstRoom b)
    have hFirst : (moreRoom b).datamax - (moreRoom b).datasize = firstRoom b := rfl
    have hBound : (moreRoom b).datasize + (env.inflate zin input (firstRoom b)).out.length ≤
        (moreRoom b).datamax := by
      have hFits := (moreRoom b).fits
      omega
    have hLength := congrArg List.length hHanded
    rw [List.length_append] at hLength
    have hNotAll := hRoom 0
    simp only [decompress, hFirst, hOk, hBound, and_self, dite_true]
    split
    · -- the room is full, and more is to come
      rename_i hFull
      have hFull' : (moreRoom b).datasize + (env.inflate zin input (firstRoom b)).out.length =
          (moreRoom b).datamax := hFull
      have hMore : left ≠ [] := by
        intro hNone
        rw [hNone, List.length_nil] at hLength
        omega
      obtain ⟨b', zin', last, hDone, hLive', hConsumed', hLast, hSplit', hFlushed⟩ :=
        ih ((moreRoom b).put (env.inflate zin input (firstRoom b)).out hBound) _ hAfter hLeft
          (.inr hMore) (fun k hExact => hRoom (k + 1) (by
            rw [firstRoom_full hFull] at hExact
            omega)) (by omega)
      refine ⟨b', zin', last, hDone, ?_, hConsumed'.trans hConsumed, hLast, ?_, hFlushed⟩
      · rw [hLive', RecvBuf.live_put, hLive, hHanded, List.append_assoc]
      · rw [hSplit, hSplit', hHanded, List.append_assoc]
    · rename_i hSpare
      have hSpare' : ¬ (moreRoom b).datasize + (env.inflate zin input (firstRoom b)).out.length =
          (moreRoom b).datamax := hSpare
      obtain ⟨hRest, hNone⟩ := hStops (by omega)
      obtain ⟨-, hFlushed⟩ := hZlib.stops zin input (firstRoom b) part hPart (by omega)
      rw [hRest] at hAfter
      rw [hNone, List.append_nil] at hHanded
      refine ⟨_, _, after, rfl, ?_, hConsumed, hAfter, ?_, hFlushed⟩
      · rw [RecvBuf.live_put, hLive, hHanded]
      · rw [hSplit, hHanded]

/-- A server's data fills the room that is left in the receive buffer, and the blocks it grows by,
exactly. -/
def fillsUp (decoded : ζ → List UInt8 → Option (List UInt8)) (c : Input σ ζ) : Prop :=
  c.isServer = true ∧ ∃ bs fd part, c.fd = .bytes bs :: fd ∧
    decoded c.zin (bs.take bufSize) = some part ∧ ∃ k, part.length = firstRoom c.recvbuf + 2048 * k

/-- When nothing is left to do, no progress is made. -/
theorem decompress_nothing (hZlib : Zlib.Documented env.inflate decoded) (passes : Nat) (b : RecvBuf)
    {zin : ζ} (h : decoded zin [] = some []) : decompress env passes b zin [] = none := by
  cases passes with
  | zero => rfl
  | succ passes =>
    obtain ⟨left, -, hHanded, hStops⟩ := hZlib.out_eq h (firstRoom b)
    have hNone := (List.append_eq_nil_iff.1 hHanded.symm).1
    have hRest := (hStops (by rw [hNone]; exact firstRoom_pos b)).1
    have hOk := (hZlib.ok zin [] (firstRoom b) [] h).2 ⟨hRest, hNone⟩
    have hFirst : (moreRoom b).datamax - (moreRoom b).datasize = firstRoom b := rfl
    simp only [decompress, hFirst, hOk, Bool.false_eq_true, false_and, dite_false]

/-- Data that fills the room exactly breaks `buffer_decompress`, with an `inflate` that has read its
input when it has put out what the input decompresses to. -/
theorem decompress_fills (hZlib : Zlib.Documented env.inflate decoded)
    (hEager : ∀ s input room all, decoded s input = some all → all.length ≤ room →
      (env.inflate s input room).rest = []) (passes : Nat) (b : RecvBuf) {zin : ζ}
    {input part : List UInt8} (hPart : decoded zin input = some part) {k : Nat}
    (hExact : part.length = firstRoom b + 2048 * k) : decompress env passes b zin input = none := by
  induction passes generalizing b zin input part k with
  | zero => rfl
  | succ passes ih =>
    obtain ⟨left, hLeft, hHanded, hStops⟩ := hZlib.out_eq hPart (firstRoom b)
    have hOut := hZlib.room zin input (firstRoom b)
    have hLength := congrArg List.length hHanded
    rw [List.length_append] at hLength
    have hWhole : (env.inflate zin input (firstRoom b)).out.length = firstRoom b := by
      by_contra hNot
      have hNone := (hStops (by omega)).2
      rw [hNone, List.length_nil] at hLength
      omega
    have hFirst : (moreRoom b).datamax - (moreRoom b).datasize = firstRoom b := rfl
    simp only [decompress, hFirst]
    split
    · rename_i hOk
      have hFull : ((moreRoom b).put (env.inflate zin input (firstRoom b)).out hOk.2).datasize =
          ((moreRoom b).put (env.inflate zin input (firstRoom b)).out hOk.2).datamax := by
        have hFits := (moreRoom b).fits
        show (moreRoom b).datasize + (env.inflate zin input (firstRoom b)).out.length =
          (moreRoom b).datamax
        omega
      rw [if_pos hFull]
      cases k with
      | zero =>
        have hNone : left = [] := List.eq_nil_of_length_eq_zero (by omega)
        have hRest := hEager zin input (firstRoom b) part hPart (by omega)
        rw [hRest, hNone] at hLeft
        rw [hRest]
        exact decompress_nothing hZlib passes _ hLeft
      | succ k =>
        refine ih _ hLeft (k := k) ?_
        rw [firstRoom_full hFull]
        omega
    · rfl

/-- What was in the buffer stays, and the output of `inflate` stands behind it. -/
theorem decompress_keeps (passes : Nat) (b : RecvBuf) (zin : ζ) (input : List UInt8) {b' : RecvBuf}
    {zin' : ζ} (h : decompress env passes b zin input = some (b', zin')) :
    ∃ out, b'.held = b.held ++ out ∧ b'.consumed = b.consumed := by
  induction passes generalizing b zin input with
  | zero => cases h
  | succ passes ih =>
    have hHeld : (moreRoom b).held = b.held := by
      unfold moreRoom
      split
      · exact b.held_grow _ _
      · rfl
    have hConsumed := (moreRoom_same b).2
    simp only [decompress] at h
    split at h
    · rename_i hOk
      split at h
      · obtain ⟨out, hOut, hSame⟩ := ih _ _ _ h
        rw [RecvBuf.held_put, hHeld, List.append_assoc] at hOut
        exact ⟨_, hOut, hSame.trans hConsumed⟩
      · cases h
        exact ⟨_, by rw [RecvBuf.held_put, hHeld], hConsumed⟩
    · cases h

/-- So the condition is exact: the data of such a read is lost, and the link is given up. -/
theorem fillsUp_breaks (hZlib : Zlib.Documented env.inflate decoded)
    (hEager : ∀ s input room all, decoded s input = some all → all.length ≤ room →
      (env.inflate s input room).rest = []) (h : c.fillsUp decoded) :
    (handleConnection env c).destroy = true ∧ (handleConnection env c).dispatched = c.dispatched := by
  obtain ⟨hServer, bs, fd, part, hFd, hPart, k, hExact⟩ := h
  cases bs with
  | nil => simp only [handleConnection, hServer, if_true, readServer, hFd, read, Bool.false_eq_true,
      if_false, and_self]
  | cons b bs =>
    have hNone := decompress_fills hZlib hEager env.passes c.recvbuf hPart hExact
    simp only [handleConnection, hServer, if_true, readServer, hFd, read, hNone, Bool.false_eq_true,
      if_false, and_self]

/-- A call of `handle_connection` for a server from which something can be read. -/
theorem server_turn (hZlib : Zlib.Documented env.inflate decoded)
    (h : Carries env decoded calls start c done rest) (hServer : c.isServer = true)
    (hRoom : ¬ c.fillsUp decoded) (hPasses : (rest.flatMap Packet.encode).length < env.passes)
    {bs : List UInt8} {fd : List Arrival} (hFd : c.fd = .bytes bs :: fd) :
    GoesOn env decoded calls start c (handleConnection env c) done rest := by
  have hSound := h.sound
  rw [hFd] at hSound
  obtain ⟨got, hGot, fd', hRead, hTaken, hSome, hBytes, hRest, hLess⟩ :=
    @read_bytes bufSize (by decide) bs fd (hSound (.bytes bs) List.mem_cons_self)
      fun a ha => hSound a (List.mem_cons_of_mem _ ha)
  obtain ⟨bytes, hPending, hAhead⟩ := h.ahead
  have hUnread : unread c.fd = got ++ unread fd' := by
    rw [hFd, hBytes]
    rfl
  have hAll : decoded c.zin (got ++ unread fd') = some bytes := by
    rw [← hUnread]
    simpa [pending, hServer] using hPending
  obtain ⟨part, hPart⟩ := hZlib.piece c.zin got (unread fd') bytes hAll
  have hNot (k : Nat) : part.length ≠ firstRoom c.recvbuf + 2048 * k := fun hExact =>
    hRoom ⟨hServer, bs, fd, part, hFd, by rw [← hTaken]; exact hPart, k, hExact⟩
  obtain ⟨whole, -, hSplit⟩ : ∃ after, decoded (env.inflate c.zin got (bytes.length + 1)).state
      ((env.inflate c.zin got (bytes.length + 1)).rest ++ unread fd') = some after ∧
      bytes = (env.inflate c.zin got (bytes.length + 1)).out ++ after :=
    hZlib.hands c.zin got (unread fd') (bytes.length + 1) bytes hAll
  have hShort : part.length ≤ bytes.length := by
    obtain ⟨left, -, hHanded, hStops⟩ := hZlib.out_eq hPart (bytes.length + 1)
    have hFits : (env.inflate c.zin got (bytes.length + 1)).out.length ≤ bytes.length := by
      have hLength := congrArg List.length hSplit
      rw [List.length_append] at hLength
      omega
    obtain ⟨-, hNone⟩ := hStops (by omega)
    rw [hHanded, hNone, List.append_nil]
    exact hFits
  have hTotal : bytes.length ≤ (rest.flatMap Packet.encode).length := by
    rw [← hAhead, List.length_append]
    exact Nat.le_add_left _ _
  obtain ⟨b, zin, after, hDone, hLive, hConsumed, hAfter, hParts, hFlushed⟩ :=
    decompress_spec hZlib env.passes c.recvbuf c.zin hAll hPart (.inl hSome) hNot (by omega)
  have hCarries : Carries env decoded calls start { c with fd := fd', recvbuf := b, zin := zin } done rest := by
    refine ⟨h.alive, hRest, ⟨after, ?_, ?_⟩, fun _ => hFlushed, h.dispatched, h.state⟩
    · simpa [pending, hServer] using hAfter
    · show b.live ++ after = _
      rw [hLive, List.append_assoc, ← hParts, hAhead]
  obtain ⟨hWait, hSame, hSameFd, hMore⟩ := hCarries.finish
  have hHandle : handleConnection env c =
      { Input.process env b.datasize { c with fd := fd', recvbuf := b, zin := zin } with
        recvbuf := (Input.process env b.datasize
          { c with fd := fd', recvbuf := b, zin := zin }).recvbuf.compact } := by
    simp only [handleConnection, hServer, if_true, readServer, hFd, hRead, hDone]
  rw [hHandle]
  refine ⟨hSame, ?_, hWait, hMore⟩
  show backlog (Input.process env b.datasize { c with fd := fd', recvbuf := b, zin := zin }).fd < _
  rw [hSameFd, hFd]
  exact hLess

/-! ### Whole runs -/

/-- What a turn of the main loop does to a connection that is not marked. -/
theorem turn_spec (hZlib : Zlib.Documented env.inflate decoded)
    (h : Carries env decoded calls start c done rest) (hWaits : Waits c)
    (hMax : c.isServer = false → ∀ p ∈ rest, (p.payload.length : Int) ≤ env.maxCommandLength)
    (hRoom : ¬ c.fillsUp decoded) (hPasses : (rest.flatMap Packet.encode).length < env.passes) :
    (turn env c).isServer = c.isServer ∧ Waits (turn env c) ∧
      (∃ more left, rest = more ++ left ∧
        Carries env decoded calls start (turn env c) (done ++ more) left) ∧
      (env.marked c.state = false → c.fd ≠ [] → backlog (turn env c).fd < backlog c.fd) ∧
      backlog (turn env c).fd ≤ backlog c.fd := by
  have hIdle : ∃ more left, rest = more ++ left ∧
      Carries env decoded calls start c (done ++ more) left :=
    ⟨[], rest, rfl, by rw [List.append_nil]; exact h⟩
  by_cases hMarked : env.marked c.state = true
  · have hTurn : turn env c = c := by simp [turn, hMarked]
    rw [hTurn]
    exact ⟨rfl, hWaits, hIdle, fun hNot => by simp [hMarked] at hNot, Nat.le_refl _⟩
  · have hGoes : (c.destroy || env.marked c.state) = false := by
      rw [h.alive]
      simpa using hMarked
    cases hFd : c.fd with
    | nil =>
      have hTurn : turn env c = c := by
        simp only [turn, hGoes, hFd, Bool.false_eq_true, if_false]
      rw [hTurn, hFd]
      exact ⟨rfl, hWaits, hIdle, fun _ hSome => absurd rfl hSome, Nat.le_refl _⟩
    | cons a fd =>
      have hSound := h.sound
      rw [hFd] at hSound
      cases a with
      | nothing =>
        have hTurn : turn env c = { c with fd := fd } := by
          simp only [turn, hGoes, hFd, Bool.false_eq_true, if_false]
        have hLess : backlog fd < backlog (.nothing :: fd) := by
          simp only [backlog, unread, List.flatMap_cons, Arrival.data, List.nil_append,
            List.length_cons]
          omega
        obtain ⟨bytes, hPending, hAhead⟩ := h.ahead
        have hSame : pending decoded { c with fd := fd } = some bytes := by
          rw [← hPending]
          simp only [pending, hFd, unread, List.flatMap_cons, Arrival.data, List.nil_append]
        rw [hTurn]
        exact ⟨rfl, ⟨hWaits.partly, hWaits.compacted⟩, ⟨[], rest, rfl, by
          rw [List.append_nil]
          exact ⟨h.alive, fun a ha => hSound a (List.mem_cons_of_mem _ ha), ⟨bytes, hSame, hAhead⟩,
            h.flushed, h.dispatched, h.state⟩⟩, fun _ _ => hLess, Nat.le_of_lt hLess⟩
      | failure => exact (hSound .failure List.mem_cons_self).elim
      | bytes bs =>
        have hTurn : turn env c = handleConnection env c := by
          simp only [turn, hGoes, hFd, Bool.false_eq_true, if_false]
        have hOn : GoesOn env decoded calls start c (handleConnection env c) done rest := by
          cases hServer : c.isServer with
          | true => exact server_turn hZlib h hServer hRoom hPasses hFd
          | false => exact client_turn h hWaits hServer (hMax hServer) hFd
        obtain ⟨hSame, hLess, hWaits', hMore⟩ := hOn
        rw [hTurn, ← hFd]
        exact ⟨hSame, hWaits', hMore, fun _ _ => hLess, Nat.le_of_lt hLess⟩

/-- A connection that is registered, with nothing in its buffer, to which packets are sent. -/
structure Starts (env : Reader σ ζ) (decoded : ζ → List UInt8 → Option (List UInt8)) (c : Input σ ζ)
    (ps : List Packet) : Prop where
  alive : c.destroy = false
  sound : ∀ a ∈ c.fd, a.Sound
  empty : c.recvbuf.live = []
  compacted : c.recvbuf.consumed = 0
  stream : c.pending decoded = some (ps.flatMap Packet.encode)
  flushed : c.isServer = true → decoded c.zin [] = some []
  /-- a client may not send more than `Max_Command_Length` bytes -/
  limit : c.isServer = false → ∀ p ∈ ps, (p.payload.length : Int) ≤ env.maxCommandLength
  passes : (ps.flatMap Packet.encode).length < env.passes

/-- What the turns of the main loop lead to. -/
theorem turns_spec (hZlib : Zlib.Documented env.inflate decoded) {ps : List Packet}
    (h : Starts env decoded c ps) (hRoom : ∀ n, ¬ (turns env n c).fillsUp decoded) (n : Nat) :
    (turns env n c).isServer = c.isServer ∧ Waits (turns env n c) ∧
      (∃ done rest, done ++ rest = ps ∧
        Carries env decoded c.dispatched c.state (turns env n c) done rest) ∧
      (env.marked (turns env n c).state = false →
        (turns env n c).fd = [] ∨ backlog (turns env n c).fd + n ≤ backlog c.fd) := by
  induction n with
  | zero =>
    refine ⟨rfl, ⟨?_, h.compacted⟩, ⟨[], ps, rfl, h.alive, h.sound, ⟨_, h.stream, ?_⟩, h.flushed,
      (List.append_nil _).symm, rfl⟩, fun _ => .inr (Nat.le_refl _)⟩
    · show Packet.next c.recvbuf.live = none
      rw [h.empty]
      rfl
    · show c.recvbuf.live ++ _ = _
      rw [h.empty, List.nil_append]
  | succ n ih =>
    obtain ⟨hSame, hWaits, ⟨done, rest, hPs, hCarries⟩, hEmpties⟩ := ih
    have hStep : turns env (n + 1) c = turn env (turns env n c) := Function.iterate_succ_apply' _ _ _
    have hMax : (turns env n c).isServer = false →
        ∀ p ∈ rest, (p.payload.length : Int) ≤ env.maxCommandLength := by
      intro hClient p hp
      rw [hSame] at hClient
      exact h.limit hClient p (by rw [← hPs]; exact List.mem_append_right _ hp)
    have hPasses : (rest.flatMap Packet.encode).length < env.passes := by
      have hAll := h.passes
      rw [← hPs, List.flatMap_append, List.length_append] at hAll
      omega
    obtain ⟨hSame', hWaits', ⟨more, left, hRest, hCarries'⟩, hLess, hNoMore⟩ :=
      turn_spec hZlib hCarries hWaits hMax (hRoom n) hPasses
    rw [hStep]
    refine ⟨hSame'.trans hSame, hWaits', ⟨done ++ more, left, ?_, hCarries'⟩, fun hNot => ?_⟩
    · rw [List.append_assoc, ← hRest, hPs]
    · by_cases hMarked : env.marked (turns env n c).state = true
      · have hTurn : turn env (turns env n c) = turns env n c := by simp [turn, hMarked]
        rw [hTurn, hMarked] at hNot
        cases hNot
      · have hNotYet : env.marked (turns env n c).state = false := by simpa using hMarked
        by_cases hNone : (turns env n c).fd = []
        · rw [hNone] at hNoMore
          refine .inl (List.eq_nil_of_length_eq_zero ?_)
          have hZero : backlog [] = 0 := rfl
          unfold backlog at hNoMore hZero
          omega
        · refine .inr ?_
          have hBefore := (hEmpties hNotYet).resolve_left hNone
          have hAfter := hLess hNotYet hNone
          omega

/-- However the bytes of a sequence of packets arrive, the packets are dispatched one after the
other, each as it was sent, and the buffer and what was not read yet hold the others.  All are
dispatched when everything was read, unless a handler marks the connection for destruction.  For a
server this needs that no read fills the receive buffer exactly. -/
theorem framing (hZlib : Zlib.Documented env.inflate decoded) {ps : List Packet}
    (h : Starts env decoded c ps) (hRoom : ∀ n, ¬ (turns env n c).fillsUp decoded) (n : Nat) :
    (turns env n c).destroy = false ∧
      ∃ done rest bytes, done ++ rest = ps ∧
        (turns env n c).dispatched = c.dispatched ++ done.map Packet.call ∧
        (turns env n c).state = handled env c.state (done.map Packet.call) ∧
        (turns env n c).pending decoded = some bytes ∧
        (turns env n c).recvbuf.live ++ bytes = rest.flatMap Packet.encode ∧
        Packet.next (turns env n c).recvbuf.live = none ∧
        (env.marked (turns env n c).state = false → backlog c.fd ≤ n →
          rest = [] ∧ (turns env n c).recvbuf.live = []) := by
  obtain ⟨-, hWaits, ⟨done, rest, hPs, hCarries⟩, hEmpties⟩ := turns_spec hZlib h hRoom n
  obtain ⟨bytes, hPending, hAhead⟩ := hCarries.ahead
  refine ⟨hCarries.alive, done, rest, bytes, hPs, hCarries.dispatched, hCarries.state, hPending, hAhead,
    hWaits.partly, fun hNot hEnough => ?_⟩
  have hFd : (turns env n c).fd = [] := by
    refine (hEmpties hNot).elim id fun hLess => List.eq_nil_of_length_eq_zero ?_
    have hZero : backlog (turns env n c).fd = 0 := by omega
    unfold backlog at hZero
    omega
  have hNone : bytes = [] := by
    rw [pending, hFd] at hPending
    split at hPending
    · rename_i hServer
      have hFlushed := hCarries.flushed hServer
      rw [show unread [] = [] from rfl, hFlushed] at hPending
      exact (Option.some.inj hPending).symm
    · exact (Option.some.inj hPending).symm
  rw [hNone, List.append_nil] at hAhead
  cases rest with
  | nil => exact ⟨rfl, hAhead⟩
  | cons p rest =>
    have hPartly := hWaits.partly
    rw [hAhead, List.flatMap_cons, Packet.next_encode] at hPartly
    cases hPartly

theorem turns_of_nil (h : c.fd = []) (n : Nat) : turns env n c = c := by
  have hTurn : turn env c = c := by
    unfold turn
    rw [h]
    split <;> rfl
  exact Function.iterate_fixed hTurn n

/-- A daemon whose handlers leave a blank at the beginning of every packet, on a link that is
compressed at level 0. -/
def storedReader : Reader Unit Zlib.Stored where
  handler := fun _ _ => ((), [32])
  marked := fun _ => false
  inflate := Zlib.stored.inflate
  maxCommandLength := 2048
  passes := 100

/-- A link with another server, after a login message of 40 bytes, over which one packet of so many
bytes comes in one read: the header of the stream, a stored block and an empty one. -/
def storedLink (size : Nat) : Input Unit Zlib.Stored where
  isServer := true
  recvbuf := RecvBuf.new.grow 44 (by decide)
  zin := .method
  fd := [.bytes ([0x78, 0x01, 0x00] ++ wordBytes (UInt16.ofNat (4 + size)) ++
    (wordBytes (UInt16.ofNat (4 + size))).map (~~~ ·) ++ wordBytes (UInt16.ofNat size) ++ [10, 0] ++
    List.replicate size 65 ++ [0, 0, 0, 0xFF, 0xFF])]
  state := ()

theorem storedLink_sound (size : Nat) : ∀ a ∈ (storedLink size).fd, a.Sound := by
  intro a ha
  rw [List.mem_singleton.1 ha]
  exact List.cons_ne_nil _ _

theorem framing_stored :
    (turns storedReader 100 (storedLink 3)).dispatched = [⟨10, 3, [65, 65, 65, 0]⟩] := by
  have hStarts : Starts storedReader Zlib.stored.decoded (storedLink 3) [⟨10, [65, 65, 65], by decide⟩] :=
    ⟨rfl, storedLink_sound 3, rfl, rfl, by decide, fun _ => rfl, by decide, by decide⟩
  have hRead : (turn storedReader (storedLink 3)).fd = [] := by decide
  have hRoom (n : Nat) : ¬ (turns storedReader n (storedLink 3)).fillsUp Zlib.stored.decoded := by
    cases n with
    | zero =>
      rintro ⟨-, bs, fd, part, hFd, hPart, k, hExact⟩
      cases hFd
      have hSame : some part = some ((Packet.mk 10 [65, 65, 65] (by decide)).encode) := hPart.symm
      have hLength : part.length = 7 := by
        rw [Option.some.inj hSame]
        rfl
      have hFirst : firstRoom (storedLink 3).recvbuf = 44 := by decide
      rw [show turns storedReader 0 (storedLink 3) = storedLink 3 from rfl, hFirst] at hExact
      omega
    | succ n =>
      rintro ⟨-, bs, fd, part, hFd, -⟩
      have hSame : turns storedReader (n + 1) (storedLink 3) = turn storedReader (storedLink 3) :=
        turns_of_nil hRead n
      rw [hSame, hRead] at hFd
      cases hFd
  obtain ⟨-, done, rest, bytes, hAll, hDispatched, -, -, -, -, hEnd⟩ :=
    framing Zlib.stored.documented hStarts hRoom 100
  obtain ⟨hNone, -⟩ := hEnd rfl (by decide)
  rw [hNone, List.append_nil] at hAll
  rw [hDispatched, hAll]
  rfl

/-- A packet that fills the receive buffer exactly is lost, and the link with it. -/
theorem framing_fills : Starts storedReader Zlib.stored.decoded (storedLink 40)
      [⟨10, List.replicate 40 65, by decide⟩] ∧
    (turns storedReader 100 (storedLink 40)).destroy = true ∧
    (turns storedReader 100 (storedLink 40)).dispatched = [] := by
  refine ⟨⟨rfl, storedLink_sound 40, rfl, rfl, ?_, fun _ => rfl, ?_, ?_⟩, ?_, ?_⟩ <;> decide +kernel

/-- `buffer_decompress` puts what a piece of the stream decompresses to behind the data that the
buffer holds, and keeps the buffer in order, exactly unless that fills the room exactly. -/
theorem decompress_iff (hZlib : Zlib.Documented env.inflate decoded)
    (hEager : ∀ s input room all, decoded s input = some all → all.length ≤ room →
      (env.inflate s input room).rest = []) (passes : Nat) (b : RecvBuf) (zin : ζ)
    {input more all part : List UInt8} (hInput : input ≠ [])
    (hAll : decoded zin (input ++ more) = some all) (hPart : decoded zin input = some part)
    (hPasses : part.length < passes) :
    (∃ b' zin', decompress env passes b zin input = some (b', zin') ∧ b'.held = b.held ++ part ∧
      b'.consumed = b.consumed ∧ b'.datasize ≤ b'.datamax ∧ b'.data.length = b'.datamax + 1) ↔
    ∀ k, part.length ≠ firstRoom b + 2048 * k := by
  constructor
  · rintro ⟨b', zin', hDone, -⟩ k hExact
    rw [decompress_fills hZlib hEager passes b hPart hExact] at hDone
    cases hDone
  · intro hRoom
    obtain ⟨b', zin', -, hDone, hLive, hConsumed, -⟩ :=
      decompress_spec hZlib passes b zin hAll hPart (.inl hInput) hRoom hPasses
    obtain ⟨out, hHeld, -⟩ := decompress_keeps passes b zin input hDone
    have hBehind : b.consumed ≤ b.held.length := by
      rw [b.length_held]
      exact b.behind
    rw [RecvBuf.live_eq, RecvBuf.live_eq, hConsumed, hHeld, List.drop_append_of_le_length hBehind]
      at hLive
    have hOut : out = part := List.append_cancel_left hLive
    exact ⟨b', zin', hDone, by rw [hHeld, hOut], hConsumed, b'.fits, b'.allocated⟩

/-- Three bytes in a packet, where there is room for 40. -/
theorem decompress_iff_stored : ∃ b' zin',
    decompress storedReader 100 (storedLink 3).recvbuf .method (unread (storedLink 3).fd) =
        some (b', zin') ∧
      b'.held = (storedLink 3).recvbuf.held ++ [3, 0, 10, 0, 65, 65, 65] ∧
      b'.consumed = (storedLink 3).recvbuf.consumed ∧ b'.datasize ≤ b'.datamax ∧
      b'.data.length = b'.datamax + 1 := by
  have hPart : Zlib.stored.decoded .method (unread (storedLink 3).fd) =
      some [3, 0, 10, 0, 65, 65, 65] := by decide
  have hAll : Zlib.stored.decoded .method (unread (storedLink 3).fd ++ []) =
      some [3, 0, 10, 0, 65, 65, 65] := by decide
  have hZlib : Zlib.Documented storedReader.inflate Zlib.stored.decoded := Zlib.stored.documented
  have hIff := decompress_iff hZlib Zlib.stored.eager 100 (storedLink 3).recvbuf .method (by decide)
    hAll hPart (by decide)
  have hFirst : firstRoom (storedLink 3).recvbuf = 44 := by decide
  refine hIff.2 fun k => ?_
  rw [hFirst]
  simp only [List.length_cons, List.length_nil]
  omega

/-- 40 bytes in a packet fill the room exactly: the decompression fails. -/
theorem decompress_fills_stored :
    Zlib.stored.decoded .method (unread (storedLink 40).fd) =
        some ([40, 0, 10, 0] ++ List.replicate 40 65) ∧
      decompress storedReader 100 (storedLink 40).recvbuf .method (unread (storedLink 40).fd) =
        none := by
  have hFirst : firstRoom (storedLink 40).recvbuf = 44 := by decide
  have hPart : Zlib.stored.decoded .method (unread (storedLink 40).fd) =
      some ([40, 0, 10, 0] ++ List.replicate 40 65) := by decide +kernel
  have hZlib : Zlib.Documented storedReader.inflate Zlib.stored.decoded := Zlib.stored.documented
  refine ⟨hPart, decompress_fills hZlib Zlib.stored.eager 100 _ hPart (k := 0) ?_⟩
  rw [hFirst]
  decide

end Input

end OpenNap
