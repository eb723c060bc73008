import Mathlib.Data.List.Basic

/-! Decompression of a stream that arrives in pieces, as the manual of zlib describes `inflate`.  A
decoder that goes through the stream byte by byte behaves so. -/

namespace Zlib

/-- What a call of `inflate` leaves behind. -/
structure Result (ζ : Type) where
  state : ζ
  /-- the input that it did not come to -/
  rest : List UInt8
  out : List UInt8
  /-- `Z_OK` was returned -/
  ok : Bool

/-- `inflate` of some input into a space of some size. -/
abbrev Inflate (ζ : Type) := ζ → List UInt8 → Nat → Result ζ

variable {ζ : Type}

/-- The manual.  `decoded` is what a piece of the stream decompresses to. -/
structure Documented (inflate : Inflate ζ) (decoded : ζ → List UInt8 → Option (List UInt8)) :
    Prop where
  /-- a piece of a stream is one -/
  piece : ∀ s input more all, decoded s (input ++ more) = some all →
    ∃ part, decoded s input = some part
  /-- the output comes first in what the stream decompresses to -/
  hands : ∀ s input more room all, decoded s (input ++ more) = some all →
    ∃ after, decoded (inflate s input room).state ((inflate s input room).rest ++ more) = some after ∧
      all = (inflate s input room).out ++ after
  room : ∀ s input room, (inflate s input room).out.length ≤ room
  /-- it stops before the space is full only when nothing is left to do -/
  stops : ∀ s input room all, decoded s input = some all →
    (inflate s input room).out.length < room →
      (inflate s input room).rest = [] ∧ decoded (inflate s input room).state [] = some []
  /-- `Z_BUF_ERROR` says that no progress was possible -/
  ok : ∀ s input room all, decoded s input = some all →
    ((inflate s input room).ok = false ↔
      (inflate s input room).rest = input ∧ (inflate s input room).out = [])

namespace Documented

variable {inflate : Inflate ζ} {decoded : ζ → List UInt8 → Option (List UInt8)}

/-- What a piece decompresses to is handed out as far as there is room. -/
theorem out_eq (h : Documented inflate decoded) {s : ζ} {input all : List UInt8}
    (hAll : decoded s input = some all) (room : Nat) :
    ∃ after, decoded (inflate s input room).state (inflate s input room).rest = some after ∧
      all = (inflate s input room).out ++ after ∧
      ((inflate s input room).out.length < room → (inflate s input room).rest = [] ∧ after = []) := by
  obtain ⟨after, hAfter, hSplit⟩ := h.hands s input [] room all (by rw [List.append_nil]; exact hAll)
  rw [List.append_nil] at hAfter
  refine ⟨after, hAfter, hSplit, fun hShort => ?_⟩
  obtain ⟨hRest, hDone⟩ := h.stops s input room all hAll hShort
  rw [hRest, hDone] at hAfter
  exact ⟨hRest, (Option.some.inj hAfter).symm⟩

/-- Progress is made as long as there is something to do and room for it. -/
theorem ok_of_work (h : Documented inflate decoded) {s : ζ} {input all : List UInt8}
    (hAll : decoded s input = some all) {room : Nat} (hRoom : 0 < room)
    (hWork : input ≠ [] ∨ all ≠ []) : (inflate s input room).ok = true := by
  by_contra hNot
  obtain ⟨hRest, hOut⟩ := (h.ok s input room all hAll).1 (by simpa using hNot)
  obtain ⟨after, -, hSplit, hStops⟩ := h.out_eq hAll room
  have hShort : (inflate s input room).out.length < room := by
    rw [hOut]
    exact hRoom
  obtain ⟨hNone, hAfter⟩ := hStops hShort
  rw [hRest] at hNone
  rw [hOut, hAfter] at hSplit
  exact hWork.elim (fun hInput => hInput hNone) (fun hSome => hSome hSplit)

end Documented

/-- A decoder that reads a byte at a time, and puts out one at most for it; `none` for a byte that
cannot stand there. -/
structure Transducer (ζ : Type) where
  byte : ζ → UInt8 → Option (ζ × Option UInt8)

namespace Transducer

variable (T : Transducer ζ)

/-- The decoder goes on until the input is read or there is no room for a byte. -/
def inflate (s : ζ) : List UInt8 → Nat → Result ζ
  | [], _ => ⟨s, [], [], false⟩
  | b :: input, room =>
    match T.byte s b, room with
    | none, _ => ⟨s, b :: input, [], false⟩
    | some (s', none), room => { inflate s' input room with ok := true }
    | some (_, some _), 0 => ⟨s, b :: input, [], false⟩
    | some (s', some o), room + 1 =>
      let r := inflate s' input room
      { r with out := o :: r.out, ok := true }

def decoded (s : ζ) : List UInt8 → Option (List UInt8)
  | [] => some []
  | b :: input =>
    match T.byte s b with
    | none => none
    | some (s', o) => (decoded s' input).map (o.toList ++ ·)

theorem inflate_stuck {s : ζ} {b : UInt8} (h : T.byte s b = none) (input : List UInt8) (room : Nat) :
    T.inflate s (b :: input) room = ⟨s, b :: input, [], false⟩ := by
  simp only [inflate, h]

theorem inflate_skip {s s' : ζ} {b : UInt8} (h : T.byte s b = some (s', none)) (input : List UInt8)
    (room : Nat) :
    T.inflate s (b :: input) room = { T.inflate s' input room with ok := true } := by
  simp only [inflate, h]

theorem inflate_full {s s' : ζ} {b o : UInt8} (h : T.byte s b = some (s', some o))
    (input : List UInt8) : T.inflate s (b :: input) 0 = ⟨s, b :: input, [], false⟩ := by
  simp only [inflate, h]

theorem inflate_emit {s s' : ζ} {b o : UInt8} (h : T.byte s b = some (s', some o))
    (input : List UInt8) (room : Nat) :
    T.inflate s (b :: input) (room + 1) =
      { T.inflate s' input room with out := o :: (T.inflate s' input room).out, ok := true } := by
  simp only [inflate, h]

/-- A stream that goes on with a byte. -/
theorem decoded_cons {s : ζ} {b : UInt8} {input all : List UInt8}
    (h : T.decoded s (b :: input) = some all) :
    ∃ s' o all', T.byte s b = some (s', o) ∧ T.decoded s' input = some all' ∧ all = o.toList ++ all' := by
  rw [decoded] at h
  cases hByte : T.byte s b with
  | none =>
    rw [hByte] at h
    cases h
  | some next =>
    obtain ⟨s', o⟩ := next
    rw [hByte] at h
    obtain ⟨all', hAll', hEq⟩ := Option.map_eq_some_iff.1 h
    exact ⟨s', o, all', rfl, hAll', hEq.symm⟩

theorem piece (s : ζ) (input more all : List UInt8) (h : T.decoded s (input ++ more) = some all) :
    ∃ part, T.decoded s input = some part := by
  induction input generalizing s all with
  | nil => exact ⟨[], rfl⟩
  | cons b input ih =>
    obtain ⟨s', o, all', hByte, hAll', -⟩ := T.decoded_cons h
    obtain ⟨part, hPart⟩ := ih s' all' hAll'
    exact ⟨o.toList ++ part, by simp only [decoded, hByte, hPart, Option.map_some]⟩

theorem hands (s : ζ) (input more : List UInt8) (room : Nat) (all : List UInt8)
    (h : T.decoded s (input ++ more) = some all) :
    ∃ after, T.decoded (T.inflate s input room).state ((T.inflate s input room).rest ++ more) =
        some after ∧ all = (T.inflate s input room).out ++ after := by
  induction input generalizing s room all with
  | nil => exact ⟨all, h, rfl⟩
  | cons b input ih =>
    obtain ⟨s', o, all', hByte, hAll', hEq⟩ := T.decoded_cons h
    cases o with
    | none =>
      obtain ⟨after, hAfter, hSplit⟩ := ih s' room all' hAll'
      rw [T.inflate_skip hByte]
      exact ⟨after, hAfter, hEq.trans hSplit⟩
    | some o =>
      cases room with
      | zero =>
        rw [T.inflate_full hByte]
        exact ⟨all, h, rfl⟩
      | succ room =>
        obtain ⟨after, hAfter, hSplit⟩ := ih s' room all' hAll'
        rw [T.inflate_emit hByte]
        exact ⟨after, hAfter, by rw [hEq, hSplit]; rfl⟩

theorem room_le (s : ζ) (input : List UInt8) (room : Nat) :
    (T.inflate s input room).out.length ≤ room := by
  induction input generalizing s room with
  | nil => exact Nat.zero_le _
  | cons b input ih =>
    cases hByte : T.byte s b with
    | none =>
      rw [T.inflate_stuck hByte]
      exact Nat.zero_le _
    | some next =>
      obtain ⟨s', o⟩ := next
      cases o with
      | none =>
        rw [T.inflate_skip hByte]
        exact ih s' room
      | some o =>
        cases room with
        | zero =>
          rw [T.inflate_full hByte]
          exact Nat.zero_le _
        | succ room =>
          rw [T.inflate_emit hByte]
          exact Nat.succ_le_succ (ih s' room)

theorem stops (s : ζ) (input : List UInt8) (room : Nat) (all : List UInt8)
    (h : T.decoded s input = some all) (hShort : (T.inflate s input room).out.length < room) :
    (T.inflate s input room).rest = [] ∧ T.decoded (T.inflate s input room).state [] = some [] := by
  induction input generalizing s room all with
  | nil => exact ⟨rfl, rfl⟩
  | cons b input ih =>
    obtain ⟨s', o, all', hByte, hAll', -⟩ := T.decoded_cons h
    cases o with
    | none =>
      rw [T.inflate_skip hByte] at hShort ⊢
      exact ih s' room all' hAll' hShort
    | some o =>
      cases room with
      | zero => exact absurd hShort (Nat.not_lt_zero _)
      | succ room =>
        rw [T.inflate_emit hByte] at hShort ⊢
        exact ih s' room all' hAll' (Nat.lt_of_succ_lt_succ hShort)

theorem rest_length (s : ζ) (input : List UInt8) (room : Nat) :
    (T.inflate s input room).rest.length ≤ input.length := by
  induction input generalizing s room with
  | nil => exact Nat.le_refl _
  | cons b input ih =>
    cases hByte : T.byte s b with
    | none =>
      exact Nat.le_of_eq (by rw [T.inflate_stuck hByte])
    | some next =>
      obtain ⟨s', o⟩ := next
      cases o with
      | none =>
        rw [T.inflate_skip hByte]
        exact Nat.le_succ_of_le (ih s' room)
      | some o =>
        cases room with
        | zero =>
          exact Nat.le_of_eq (by rw [T.inflate_full hByte])
        | succ room =>
          rw [T.inflate_emit hByte]
          exact Nat.le_succ_of_le (ih s' room)

theorem ok_iff (s : ζ) (input : List UInt8) (room : Nat) (all : List UInt8)
    (h : T.decoded s input = some all) :
    (T.inflate s input room).ok = false ↔
      (T.inflate s input room).rest = input ∧ (T.inflate s input room).out = [] := by
  cases input with
  | nil => exact ⟨fun _ => ⟨rfl, rfl⟩, fun _ => rfl⟩
  | cons b input =>
    obtain ⟨s', o, all', hByte, -, -⟩ := T.decoded_cons h
    have hShorter := T.rest_length s' input
    have hNot (room : Nat) : (T.inflate s' input room).rest ≠ b :: input := by
      intro hRest
      have hLength := hShorter room
      rw [hRest, List.length_cons] at hLength
      omega
    cases o with
    | none =>
      rw [T.inflate_skip hByte]
      exact ⟨fun hFalse => (by cases hFalse), fun hStuck => absurd hStuck.1 (hNot room)⟩
    | some o =>
      cases room with
      | zero =>
        rw [T.inflate_full hByte]
        exact ⟨fun _ => ⟨rfl, rfl⟩, fun _ => rfl⟩
      | succ room =>
        rw [T.inflate_emit hByte]
        exact ⟨fun hFalse => (by cases hFalse), fun hStuck => absurd hStuck.1 (hNot room)⟩

/-- It reads on without room for more as long as nothing is put out. -/
theorem eager (s : ζ) (input : List UInt8) (room : Nat) (all : List UInt8)
    (h : T.decoded s input = some all) (hRoom : all.length ≤ room) :
    (T.inflate s input room).rest = [] := by
  induction input generalizing s room all with
  | nil => rfl
  | cons b input ih =>
    obtain ⟨s', o, all', hByte, hAll', hEq⟩ := T.decoded_cons h
    cases o with
    | none =>
      rw [T.inflate_skip hByte]
      exact ih s' room all' hAll' (by rw [hEq] at hRoom; exact hRoom)
    | some o =>
      rw [hEq] at hRoom
      cases room with
      | zero => exact absurd hRoom (Nat.not_succ_le_zero _)
      | succ room =>
        rw [T.inflate_emit hByte]
        exact ih s' room all' hAll' (Nat.le_of_succ_le_succ hRoom)

/-- A decoder that goes byte by byte does what the manual says. -/
theorem documented : Documented T.inflate T.decoded where
  piece := T.piece
  hands := T.hands
  room := T.room_le
  stops := T.stops
  ok := T.ok_iff

end Transducer

/-! ### Stored blocks

A stream of level 0 consists of a header and of blocks that hold their bytes as they are. -/

/-- What comes next in a stream of stored blocks. -/
inductive Stored
  | method
  | flags
  | block
  /-- the size of the block and its complement, with the bytes of them that are read -/
  | size (read : List UInt8)
  | data (left : Nat)

/-- The size of a stored block, which is followed by its complement. -/
def blockSize : List UInt8 → Option Nat
  | [l0, l1, n0, n1] => if n0 = ~~~l0 ∧ n1 = ~~~l1 then some (l0.toNat + 256 * l1.toNat) else none
  | _ => none

def Stored.afterSize : Nat → Stored
  | 0 => .block
  | left + 1 => .data (left + 1)

/-- The decoder of a stream of stored blocks, none of which is the last one. -/
def stored : Transducer Stored where
  byte
  | .method, b => if b = 0x78 then some (.flags, none) else none
  | .flags, b => if (0x7800 + b.toNat) % 31 = 0 ∧ b &&& 0x20 = 0 then some (.block, none) else none
  | .block, b => if b = 0 then some (.size [], none) else none
  | .size read, b =>
    let read := read ++ [b]
    if read.length < 4 then some (.size read, none)
    else (blockSize read).map fun left => (Stored.afterSize left, none)
  | .data left, b => some (Stored.afterSize (left - 1), some b)

end Zlib
