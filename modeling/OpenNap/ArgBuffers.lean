import Mathlib.Data.List.Forall2
import OpenNap.Lib.Memory
import OpenNap.Util

/-! The argument parsers on the buffer of a packet.  Both write NULs into the packet and hand out
pointers into it; what the pointers point to in the end is what the parsers of `Util` return.
Neither touches a byte behind the one that ends the packet. -/

namespace OpenNap

open CText Memory

/-- What `split_line` leaves: its return value, the pointers it stored, and the packet. -/
structure Split where
  code : Int
  slots : List Nat
  bytes : Bytes
deriving DecidableEq

/-- The fields, read where the pointers point to. -/
def Split.fields (r : Split) : Checked (List Str) := r.slots.mapM (text r.bytes)

/-- The loop of `split_line` into an array of `cap` pointers, with `slots` stored already and room
for `room` more. -/
def splitLoop (cap : Nat) : Nat → Bytes → Nat → List Nat → Checked Split
  | 0, b, pkt, slots => do
    let _ ← load b pkt
    return ⟨slots.length, slots, b⟩
  | room + 1, b, pkt, slots => do
    let c ← load b pkt
    if c = nul then return ⟨slots.length, slots, b⟩
    else if isQuote c then
      let slots ← push cap slots (pkt + 1)
      match ← search isQuote b (pkt + 1) with
      | none => return ⟨-1, slots, b⟩
      | some q =>
        let b ← store b q nul
        let c ← load b (q + 1)
        if c = nul then return ⟨slots.length, slots, b⟩
        else splitLoop cap room b (← span isSpace b (q + 2)) slots
    else
      let slots ← push cap slots pkt
      match ← search isBlank b pkt with
      | none => return ⟨slots.length, slots, b⟩
      | some q =>
        let b ← store b q nul
        splitLoop cap room b (← span isSpace b (q + 1)) slots

/-- `split_line (template, count, pkt)` with an array `template` of `cap` pointers. -/
def splitLineAt (cap count : Nat) (b : Bytes) (pkt : Nat) : Checked Split := do
  splitLoop cap count b (← span isSpace b pkt) []

/-- The rest of `next_arg` once the argument starts at `r`: it is ended at the first byte with
`stop`, and white space behind it is skipped. -/
def argFrom (stop : Char → Bool) (b : Bytes) (r : Nat) :
    Checked (Option Nat × Option Nat × Bytes) := do
  match ← search stop b r with
  | none => return (some r, none, b)
  | some e =>
    let b ← store b e nul
    let s ← span isSpace b (e + 1)
    let c ← load b s
    return (some r, if c = nul then none else some s, b)

/-- `next_arg (&s)`: the pointer it returns, what it leaves in `s`, and the packet. -/
def nextArgAt (b : Bytes) : Option Nat → Checked (Option Nat × Option Nat × Bytes)
  | none => return (none, none, b)
  | some s => do
    let r ← span isSpace b s
    let c ← load b r
    if isQuote c then argFrom isQuote b (r + 1) else argFrom isBlank b r

/-- `while ((arg = next_arg (&s)))` in at most `fuel` calls: the pointers returned before the null
pointer; `none` when it was not returned. -/
def argsAt : Nat → Bytes → Option Nat → Checked (Option (List Nat × Bytes))
  | 0, _, _ => return none
  | fuel + 1, b, s => do
    match ← nextArgAt b s with
    | (none, _, b) => return some ([], b)
    | (some q, s, b) => return (← argsAt fuel b s).map fun (qs, b) => (q :: qs, b)

/-! ### What the pointers point to -/

/-- Each pointer is to its field. -/
theorem fields_of_holds {b : Bytes} {ps : List Nat} {fields : List Str}
    (h : List.Forall₂ (Holds b) ps fields) : ps.mapM (text b) = .ok fields := by
  induction h with
  | nil => rfl
  | cons hp _ ih =>
    rw [List.mapM_cons, hp.text, ok_bind, ih]
    rfl

theorem isSpace_nul : isSpace nul = false := by decide

theorem isQuote_nul : isQuote nul = false := by decide

theorem isBlank_nul : isBlank nul = false := by decide

/-- What `split_line` did to a text: bytes before it stay, and with the fields of the text the
return value is their number and the new pointers are to them. -/
structure SplitDone (b : Bytes) (pkt : Nat) (slots : List Nat) (fields : Option (List Str))
    (r : Split) : Prop where
  length : r.bytes.length = b.length
  front : r.bytes.take pkt = b.take pkt
  done : match fields with
    | some fields => r.code = r.slots.length ∧
        ∃ ps, r.slots = slots ++ ps ∧ List.Forall₂ (Holds r.bytes) ps fields
    | none => r.code = -1

theorem push_ok {cap : Nat} {slots : List Nat} (p : Nat) (h : slots.length < cap) :
    push cap slots p = .ok (slots ++ [p]) := if_pos h

/-- A field in front of the ones that a later part of the loop found. -/
theorem SplitDone.cons {b : Bytes} {pkt p q : Nat} {slots : List Nat} {word : Str}
    {fields : Option (List Str)} {r : Split} {e : Nat} (hp : pkt ≤ p) (hWord : Holds (b.set e nul) p word)
    (hq : p + word.length < q) (he : pkt ≤ e)
    (h : SplitDone (b.set e nul) q (slots ++ [p]) fields r) :
    SplitDone b pkt slots (fields.map (word :: ·)) r := by
  have hFront : r.bytes.take pkt = b.take pkt := by
    have hLe : pkt ≤ q := by omega
    rw [← Nat.min_eq_left hLe, ← List.take_take, h.front, List.take_take, Nat.min_eq_left hLe,
      List.take_set_of_le he]
  refine ⟨by rw [h.length, List.length_set], hFront, ?_⟩
  have hDone := h.done
  cases fields with
  | none => exact hDone
  | some fields =>
    obtain ⟨hCode, ps, hSlots, hHolds⟩ := hDone
    exact ⟨hCode, p :: ps, by simp [hSlots], .cons (hWord.of_take hq h.front) hHolds⟩

/-- The string that a cut leaves in front is there once the byte it was cut at is a NUL. -/
theorem holds_cut {b : Bytes} {i : Nat} {s word rest : Str} {p : Char → Bool} (h : Holds b i s)
    (hCut : cutAt p s = (word, some rest)) :
    i + word.length < b.length ∧ Holds (b.set (i + word.length) nul) i word ∧
      Holds (b.set (i + word.length) nul) (i + word.length + 1) rest := by
  obtain ⟨-, ⟨hNone, -⟩ | ⟨c, rest', -, hSome, hEq⟩⟩ := cutAt_spec p s
  · rw [hCut] at hNone
    cases hNone
  · rw [hCut] at hSome hEq
    cases hSome
    have hLength := h.lt_length
    have hLen := congrArg List.length hEq
    simp only [List.length_append, List.length_cons] at hLen
    exact ⟨by omega, h.cut hEq⟩

theorem holds_uncut {b : Bytes} {i : Nat} {s word : Str} {p : Char → Bool} (h : Holds b i s)
    (hCut : cutAt p s = (word, none)) : Holds b i word := by
  obtain ⟨-, ⟨-, hAll⟩ | ⟨_, _, -, hSome, -⟩⟩ := cutAt_spec p s
  · rw [hCut] at hAll
    subst hAll
    exact h
  · rw [hCut] at hSome
    cases hSome

theorem splitLoop_done {cap room : Nat} {b : Bytes} {pkt : Nat} {slots : List Nat} {s : Str}
    (h : Holds b pkt s) (hRoom : slots.length + room ≤ cap) :
    ∃ r, splitLoop cap room b pkt slots = .ok r ∧
      SplitDone b pkt slots (splitFields room s) r := by
  induction room generalizing b pkt slots s with
  | zero =>
    refine ⟨⟨slots.length, slots, b⟩, by simp only [splitLoop, h.head, ok_bind]; rfl, rfl, rfl, ?_⟩
    cases s <;> exact ⟨rfl, [], by simp, .nil⟩
  | succ room ih =>
    cases s with
    | nil =>
      refine ⟨⟨slots.length, slots, b⟩, ?_, rfl, rfl, rfl, [], by simp, .nil⟩
      simp only [splitLoop, h.head, ok_bind, List.head?_nil, Option.getD_none, if_true]
      rfl
    | cons c cs =>
      have hc : c ≠ nul := fun hEq => h.plain (by simp [hEq])
      have hPush (p : Nat) : push cap slots p = .ok (slots ++ [p]) := push_ok p (by omega)
      have hMore (p : Nat) : (slots ++ [p]).length + room ≤ cap := by
        rw [List.length_append, List.length_singleton]
        omega
      simp only [splitLoop, h.head, ok_bind, List.head?_cons, Option.getD_some, if_neg hc, hPush,
        splitFields]
      by_cases hQuote : isQuote c = true
      · have hText : Holds b (pkt + 1) cs := h.drop (List.singleton_append (x := c)).symm
        simp only [if_pos hQuote, hText.search isQuote_nul, ok_bind]
        cases hCut : cutAt isQuote cs with
        | mk word more =>
          cases more with
          | none => exact ⟨⟨-1, slots ++ [pkt + 1], b⟩, rfl, rfl, rfl, rfl⟩
          | some rest =>
            obtain ⟨hLess, hWord, hRest⟩ := holds_cut hText hCut
            simp only [Option.map_some, store_ok hLess, ok_bind, hRest.head]
            cases rest with
            | nil =>
              refine ⟨_, rfl, List.length_set, List.take_set_of_le (by omega), rfl, [pkt + 1], rfl,
                .cons hWord .nil⟩
            | cons d rest =>
              have hd : d ≠ nul := fun hEq => hRest.plain (by simp [hEq])
              have hAfter : Holds (b.set (pkt + 1 + word.length) nul) (pkt + 1 + word.length + 2) rest :=
                hRest.drop (List.singleton_append (x := d)).symm
              simp only [List.head?_cons, Option.getD_some, if_neg hd, hAfter.span isSpace_nul, ok_bind]
              obtain ⟨r, hRun, hDone⟩ := ih hAfter.spanned (hMore (pkt + 1))
              exact ⟨r, hRun, hDone.cons (by omega) hWord (by omega) (by omega)⟩
      · simp only [if_neg hQuote, h.search isBlank_nul, ok_bind]
        cases hCut : cutAt isBlank (c :: cs) with
        | mk word more =>
          cases more with
          | none =>
            exact ⟨⟨(slots ++ [pkt]).length, slots ++ [pkt], b⟩, rfl, rfl, rfl, rfl, [pkt], rfl,
              .cons (holds_uncut h hCut) .nil⟩
          | some rest =>
            obtain ⟨hLess, hWord, hRest⟩ := holds_cut h hCut
            simp only [Option.map_some, store_ok hLess, ok_bind, hRest.span isSpace_nul]
            obtain ⟨r, hRun, hDone⟩ := ih hRest.spanned (hMore pkt)
            exact ⟨r, hRun, hDone.cons (Nat.le_refl _) hWord (by omega) (by omega)⟩

/-- `split_line` on a packet stays inside the packet and inside an array with room for `count`
pointers, and finds the fields of the text. -/
theorem splitLineAt_ok {cap count : Nat} {b : Bytes} {pkt : Nat} {s : Str} (h : Holds b pkt s)
    (hRoom : count ≤ cap) :
    ∃ r, splitLineAt cap count b pkt = .ok r ∧
      match splitLine count s with
      | some fields => r.code = fields.length ∧ r.fields = .ok fields
      | none => r.code = -1 := by
  have hFirst : ([] : List Nat).length + count ≤ cap := by simpa using hRoom
  obtain ⟨r, hRun, hDone⟩ := splitLoop_done h.spanned hFirst
  refine ⟨r, by rw [splitLineAt, h.span isSpace_nul, ok_bind, hRun], ?_⟩
  have hFields := hDone.done
  rw [splitLine, skipSpace]
  cases hSplit : splitFields count (s.dropWhile isSpace) with
  | none =>
    rw [hSplit] at hFields
    exact hFields
  | some fields =>
    rw [hSplit] at hFields
    obtain ⟨hCode, ps, hSlots, hHolds⟩ := hFields
    rw [List.nil_append] at hSlots
    subst hSlots
    exact ⟨by rw [hCode, hHolds.length_eq], fields_of_holds hHolds⟩

/-! ### One argument after the other -/

/-- What is left of a text stands at a pointer from `start` on, which is null when nothing is. -/
def Left (b : Bytes) (start : Nat) : Option Str → Option Nat → Prop
  | none, s => s = none
  | some rest, s => ∃ e, s = some e ∧ start ≤ e ∧ Holds b e rest

/-- What `next_arg` did to a text: bytes before it stay, the pointer returned is to the argument,
and what is left stands behind it. -/
structure ArgDone (b : Bytes) (p : Nat) (found : Str × Option Str) (q : Nat) (s : Option Nat)
    (b' : Bytes) : Prop where
  front : b'.take p = b.take p
  behind : p ≤ q
  arg : Holds b' q found.1
  rest : Left b' (q + found.1.length + 1) found.2 s

/-- The pointer to what is left when white space has been skipped. -/
theorem left_restAfter {b : Bytes} {e start : Nat} {rest : Str} {c : Char} (h : Holds b e rest)
    (hStart : start ≤ e) (hHead : c = (skipSpace rest).head?.getD nul) :
    Left b start (restAfter (some rest))
      (if c = nul then none else some (e + (rest.takeWhile isSpace).length)) := by
  have hLeft : Holds b (e + (rest.takeWhile isSpace).length) (skipSpace rest) := h.spanned
  rw [restAfter]
  cases hSkip : skipSpace rest with
  | nil =>
    have hNul : c = nul := by rw [hHead, hSkip]; rfl
    rw [if_pos rfl, if_pos hNul]
    rfl
  | cons d cs =>
    rw [hSkip] at hLeft
    have hEq : c = d := by rw [hHead, hSkip]; rfl
    have hd : c ≠ nul := by
      rintro rfl
      exact hLeft.plain (by rw [← hEq]; exact List.mem_cons_self ..)
    rw [if_neg (by simp), if_neg hd]
    exact ⟨_, rfl, by omega, hLeft⟩

theorem argFrom_done {b : Bytes} {p r : Nat} {t : Str} {stop : Char → Bool} (hr : p ≤ r)
    (h : Holds b r t) (hStop : stop nul = false) :
    ∃ rest b', argFrom stop b r = .ok (some r, rest, b') ∧
      ArgDone b p ((cutAt stop t).1, restAfter (cutAt stop t).2) r rest b' := by
  cases hCut : cutAt stop t with
  | mk word more =>
    simp only [argFrom, h.search hStop, hCut, ok_bind]
    cases more with
    | none => exact ⟨none, b, rfl, rfl, hr, holds_uncut h hCut, rfl⟩
    | some rest =>
      obtain ⟨hLess, hWord, hRest⟩ := holds_cut h hCut
      have hLeft : Holds _ _ (skipSpace rest) := hRest.spanned
      simp only [Option.map_some, store_ok hLess, ok_bind, hRest.span isSpace_nul, hLeft.head]
      exact ⟨_, _, rfl, List.take_set_of_le (by omega), hr, hWord,
        left_restAfter hRest (Nat.le_refl _) rfl⟩

theorem nextArgAt_done {b : Bytes} {p : Nat} {s : Str} (h : Holds b p s) :
    ∃ q rest b', nextArgAt b (some p) = .ok (some q, rest, b') ∧
      ArgDone b p (nextArg s) q rest b' := by
  have hStart : Holds b (p + (s.takeWhile isSpace).length) (skipSpace s) := h.spanned
  simp only [nextArgAt, h.span isSpace_nul, ok_bind, nextArg]
  cases hSkip : skipSpace s with
  | nil =>
    rw [hSkip] at hStart
    have hEnd : load b (p + (s.takeWhile isSpace).length) = .ok nul := hStart.head
    simp only [hEnd, ok_bind, isQuote_nul, Bool.false_eq_true, if_false]
    obtain ⟨rest, b', hRun, hDone⟩ := argFrom_done (Nat.le_add_right _ _) hStart isBlank_nul
    exact ⟨_, rest, b', hRun, hDone⟩
  | cons c cs =>
    rw [hSkip] at hStart
    have hFirst : load b (p + (s.takeWhile isSpace).length) = .ok c := hStart.head
    simp only [hFirst, ok_bind]
    by_cases hQuote : isQuote c = true
    · rw [if_pos hQuote, if_pos hQuote]
      have hText : Holds b (p + (s.takeWhile isSpace).length + 1) cs :=
        hStart.drop (List.singleton_append (x := c)).symm
      have hBehind : p ≤ p + (s.takeWhile isSpace).length + 1 := by omega
      obtain ⟨rest, b', hRun, hDone⟩ := argFrom_done hBehind hText isQuote_nul
      exact ⟨_, rest, b', hRun, hDone⟩
    · rw [if_neg hQuote, if_neg hQuote]
      obtain ⟨rest, b', hRun, hDone⟩ := argFrom_done (Nat.le_add_right _ _) hStart isBlank_nul
      exact ⟨_, rest, b', hRun, hDone⟩

/-- Repeated calls of `next_arg` come to an end, and return the arguments of the text. -/
theorem argsAt_done {fuel : Nat} {b : Bytes} {p : Nat} {s : Str} (h : Holds b p s)
    (hFuel : s.length + 1 < fuel) :
    ∃ ps b', argsAt fuel b (some p) = .ok (some (ps, b')) ∧
      List.Forall₂ (Holds b') ps (args (some s)) ∧ b'.take p = b.take p := by
  induction fuel generalizing b p s with
  | zero => omega
  | succ fuel ih =>
    obtain ⟨q, rest, b1, hRun, hDone⟩ := nextArgAt_done h
    simp only [argsAt, hRun, ok_bind, args_some]
    have hRest := hDone.rest
    cases hLeft : (nextArg s).2 with
    | none =>
      rw [hLeft] at hRest
      subst hRest
      obtain ⟨fuel, rfl⟩ : ∃ n, fuel = n + 1 := ⟨fuel - 1, by omega⟩
      exact ⟨[q], b1, rfl, .cons hDone.arg .nil, hDone.front⟩
    | some rest =>
      rw [hLeft] at hRest
      obtain ⟨e, rfl, hLess, hText⟩ := hRest
      have hShorter := nextArg_rest_length hLeft
      obtain ⟨ps, b2, hMore, hHolds, hFront⟩ := ih hText (by omega)
      refine ⟨q :: ps, b2, by rw [hMore]; rfl, .cons (hDone.arg.of_take hLess hFront) hHolds, ?_⟩
      have hBehind := hDone.behind
      have hLe : p ≤ e := by omega
      rw [← Nat.min_eq_left hLe, ← List.take_take, hFront, List.take_take, Nat.min_eq_left hLe,
        hDone.front]

end OpenNap
