import Mathlib.Data.List.DropRight
import OpenNap.ArgBuffers

/-! When the two argument parsers give back the fields that a packet was made of, and how many
pointers `channel_level` has stored. -/

namespace OpenNap

open CText Memory

/-- A text without a NUL, which one NUL ends in a buffer. -/
abbrev CString := {s : Str // nul ∉ s}

/-- The buffer that a text just fits. -/
def CString.buffer (s : CString) : Bytes := s.1 ++ [nul]

theorem CString.holds (s : CString) : Holds s.buffer 0 s.1 := holds_self s.2

/-- A field of a packet: a word, or a text between quotes. -/
inductive Field
  | word (w : Str) (plain : Word w) (ended : nul ∉ w)
  | quoted (q : Str) (plain : ∀ c ∈ q, isQuote c = false) (ended : nul ∉ q)

namespace Field

/-- The text of a field. -/
def text : Field → Str
  | word w _ _ => w
  | quoted q _ _ => q

/-- How a field stands in a packet. -/
def shown : Field → Str
  | word w _ _ => w
  | quoted q _ _ => '"' :: (q ++ ['"'])

/-- A field ends before the white space behind it, which a word does not do when that starts with a
vertical tab or a form feed. -/
def EndsAt (trail : Str) : Field → Prop
  | word .. => ∀ c ∈ trail.head?, isBlank c = true
  | quoted .. => True

end Field

/-- Fields with single blanks between them and white space around them. -/
structure Rendering where
  fields : List Field
  lead : Str
  trail : Str
  lead_space : ∀ c ∈ lead, isSpace c = true
  trail_space : ∀ c ∈ trail, isSpace c = true

namespace Rendering

/-- The texts of the fields. -/
def texts (r : Rendering) : List Str := r.fields.map Field.text

/-- The packet. -/
def packet (r : Rendering) : Str := r.lead ++ line (r.fields.map Field.shown) ++ r.trail

/-- There is a field, and the last one ends before the white space at the end. -/
def Ends (r : Rendering) : Prop := ∃ f ∈ r.fields.getLast?, f.EndsAt r.trail

end Rendering

/-! ### One field -/

theorem skipSpace_append {lead s : Str} (h : ∀ c ∈ lead, isSpace c = true) :
    skipSpace (lead ++ s) = skipSpace s :=
  List.dropWhile_append_of_pos h

theorem skipSpace_space {s : Str} (h : ∀ c ∈ s, isSpace c = true) : skipSpace s = [] :=
  List.dropWhile_eq_nil_iff.2 h

theorem Field.skipSpace (f : Field) (s : Str) : CText.skipSpace (f.shown ++ s) = f.shown ++ s := by
  cases f with
  | word w plain => exact plain.skipSpace s
  | quoted q => exact skipSpace_cons_of_not (by decide)

theorem Field.shown_ne_nil (f : Field) : f.shown ≠ [] := by
  cases f with
  | word w plain => exact plain.nonempty
  | quoted q => simp [shown]

/-- A field up to a blank is the next argument. -/
theorem Field.nextArg_blank (f : Field) (s : Str) :
    nextArg (f.shown ++ ' ' :: s) = (f.text, restAfter (some s)) := by
  have hSkip := f.skipSpace (' ' :: s)
  cases f with
  | word w plain =>
    obtain ⟨c, cs, rfl, -, hc⟩ := plain.cons
    have hCut : cutAt isBlank ((c :: cs) ++ ' ' :: s) = (c :: cs, some s) :=
      cutAt_append plain.blank (by decide)
    simp only [shown] at hSkip ⊢
    rw [List.cons_append] at hCut hSkip ⊢
    simp only [nextArg, hSkip, hc, hCut, Bool.false_eq_true, if_false, text]
  | quoted q plain =>
    have hCut : cutAt isQuote (q ++ '"' :: (' ' :: s)) = (q, some (' ' :: s)) :=
      cutAt_append plain (by decide)
    have hShown : (quoted q plain ‹_›).shown ++ ' ' :: s = '"' :: (q ++ '"' :: (' ' :: s)) := by
      simp [shown]
    have hQuote : isQuote '"' = true := rfl
    have hRest : restAfter (some (' ' :: s)) = restAfter (some s) := by
      rw [restAfter, restAfter, skipSpace_blank]
    rw [hShown] at hSkip ⊢
    simp only [nextArg, hSkip, hQuote, if_true, hCut, hRest, text]

theorem cutAt_append_left {p : Char → Bool} {s : Str} (h : ∀ c ∈ s, p c = false) (t : Str) :
    cutAt p (s ++ t) = (s ++ (cutAt p t).1, (cutAt p t).2) := by
  induction s with
  | nil => rfl
  | cons c s ih =>
    have hc := h c (by simp)
    simp only [List.cons_append, cutAt, hc, Bool.false_eq_true, if_false,
      ih fun d hd => h d (by simp [hd])]

theorem mem_of_cutAt {p : Char → Bool} {s rest : Str} (h : (cutAt p s).2 = some rest) :
    ∀ c ∈ rest, c ∈ s := by
  obtain ⟨-, ⟨hNone, -⟩ | ⟨d, rest', -, hSome, hEq⟩⟩ := cutAt_spec p s
  · rw [hNone] at h
    cases h
  · rw [hSome] at h
    cases h
    intro c hc
    rw [hEq]
    simp [hc]

/-- Nothing is left of white space. -/
theorem restAfter_space {rest : Option Str} (h : ∀ s ∈ rest, ∀ c ∈ s, isSpace c = true) :
    restAfter rest = none := by
  cases rest with
  | none => rfl
  | some s => rw [restAfter, if_pos (skipSpace_space (h s rfl))]

/-- White space is cut at its start when it starts with a byte that ends a word. -/
theorem cutAt_trail {trail : Str} :
    (cutAt isBlank trail).1 = [] ↔ ∀ c ∈ trail.head?, isBlank c = true := by
  cases trail with
  | nil => simp [cutAt]
  | cons c t => cases hc : isBlank c <;> simp [cutAt, hc]

/-- The last field is the last argument exactly when it ends before the white space behind it. -/
theorem Field.nextArg_last (f : Field) {trail : Str} (h : ∀ c ∈ trail, isSpace c = true) :
    (nextArg (f.shown ++ trail)).2 = none ∧
      ((nextArg (f.shown ++ trail)).1 = f.text ↔ f.EndsAt trail) := by
  have hSkip := f.skipSpace trail
  cases f with
  | word w plain =>
    have hCut := cutAt_append_left plain.blank trail
    have hRest : restAfter (cutAt isBlank trail).2 = none :=
      restAfter_space fun s hs c hc => h c (mem_of_cutAt hs c hc)
    obtain ⟨c, cs, rfl, -, hc⟩ := plain.cons
    simp only [shown] at hSkip ⊢
    rw [List.cons_append] at hCut hSkip ⊢
    simp only [nextArg, hSkip, hc, hCut, Bool.false_eq_true, if_false, hRest, text, EndsAt,
      true_and, ← cutAt_trail]
    rw [List.append_right_eq_self]
  | quoted q plain =>
    have hCut : cutAt isQuote (q ++ '"' :: trail) = (q, some trail) := cutAt_append plain (by decide)
    have hShown : (quoted q plain ‹_›).shown ++ trail = '"' :: (q ++ '"' :: trail) := by
      simp [shown]
    have hQuote : isQuote '"' = true := rfl
    have hRest : restAfter (some trail) = none := restAfter_space fun s hs => by cases hs; exact h
    rw [hShown] at hSkip ⊢
    simp only [nextArg, hSkip, hQuote, if_true, hCut, hRest, text, EndsAt, and_self]

/-- Where a field ends before white space, `split_line` finds it. -/
theorem Field.splitFields_blank (f : Field) (count : Nat) (s : Str) :
    splitFields (count + 1) (f.shown ++ ' ' :: s) =
      (splitFields count (CText.skipSpace s)).map (f.text :: ·) := by
  cases f with
  | word w plain => exact splitFields_word_blank plain
  | quoted q plain =>
    have hShown : (quoted q plain ‹_›).shown ++ ' ' :: s = '"' :: (q ++ '"' :: ' ' :: s) := by
      simp [shown]
    rw [hShown]
    exact splitFields_quoted plain

theorem splitFields_nil (count : Nat) : splitFields count [] = some [] := by
  cases count <;> rfl

theorem Field.splitFields_last (f : Field) (count : Nat) {trail : Str}
    (h : ∀ c ∈ trail, isSpace c = true) :
    splitFields (count + 1) (f.shown ++ trail) = some [f.text] ↔ f.EndsAt trail := by
  cases f with
  | word w plain =>
    have hCut := cutAt_append_left plain.blank trail
    have hSplit : splitFields (count + 1) (w ++ trail) = some [w ++ (cutAt isBlank trail).1] := by
      have hRest (rest : Str) (hSome : (cutAt isBlank trail).2 = some rest) :
          CText.skipSpace rest = [] :=
        skipSpace_space fun c hc => h c (mem_of_cutAt hSome c hc)
      obtain ⟨c, cs, rfl, -, hc⟩ := plain.cons
      rw [List.cons_append] at hCut ⊢
      simp only [splitFields, hc, Bool.false_eq_true, if_false, hCut]
      cases hSome : (cutAt isBlank trail).2 with
      | none => rfl
      | some rest => simp only [hRest rest hSome, splitFields_nil, Option.map_some]
    simp only [shown, text, EndsAt, hSplit, ← cutAt_trail, Option.some.injEq, List.cons.injEq, and_true]
    rw [List.append_right_eq_self]
  | quoted q plain =>
    simp only [shown, text, EndsAt, iff_true]
    cases trail with
    | nil => simpa using splitFields_quoted_end plain
    | cons c t =>
      have hShown : '"' :: (q ++ ['"']) ++ c :: t = '"' :: (q ++ '"' :: c :: t) := by simp
      rw [hShown, splitFields_quoted plain, skipSpace_space fun d hd => h d (by simp [hd]),
        splitFields_nil]
      rfl

/-! ### Lines of fields -/

/-- The line of some fields and the white space behind it. -/
def fieldLine (fields : List Field) (trail : Str) : Str := line (fields.map Field.shown) ++ trail

theorem fieldLine_cons (f g : Field) (l : List Field) (trail : Str) :
    fieldLine (f :: g :: l) trail = f.shown ++ ' ' :: fieldLine (g :: l) trail := by
  simp [fieldLine, line]

theorem skipSpace_fieldLine (f : Field) (l : List Field) (trail : Str) :
    skipSpace (fieldLine (f :: l) trail) = fieldLine (f :: l) trail := by
  cases l with
  | nil => exact f.skipSpace trail
  | cons g l =>
    rw [fieldLine_cons]
    exact f.skipSpace _

theorem fieldLine_ne_nil (f : Field) (l : List Field) (trail : Str) :
    fieldLine (f :: l) trail ≠ [] := by
  cases l with
  | nil => simp [fieldLine, line, f.shown_ne_nil]
  | cons g l => simp [fieldLine_cons]

/-- The arguments of a line are its fields exactly when the last one ends before the white space. -/
theorem args_fieldLine {fields : List Field} {last : Field} {trail : Str}
    (hLast : fields.getLast? = some last) (h : ∀ c ∈ trail, isSpace c = true) :
    args (some (fieldLine fields trail)) = fields.map Field.text ↔ last.EndsAt trail := by
  induction fields with
  | nil => cases hLast
  | cons f l ih =>
    cases l with
    | nil =>
      rw [List.getLast?_singleton, Option.some.injEq] at hLast
      subst hLast
      obtain ⟨hNone, hFirst⟩ := f.nextArg_last h
      have hLine : fieldLine [f] trail = f.shown ++ trail := rfl
      rw [args_some, hLine, hNone, args_none, List.map_singleton, List.cons.injEq, hFirst]
      exact and_iff_left rfl
    | cons g l =>
      have hRest : restAfter (some (fieldLine (g :: l) trail)) = some (fieldLine (g :: l) trail) := by
        rw [restAfter, skipSpace_fieldLine, if_neg (fieldLine_ne_nil g l trail)]
      rw [args_some, fieldLine_cons, f.nextArg_blank, hRest, List.map_cons, List.cons.injEq]
      exact (and_iff_right rfl).trans (ih hLast)

/-- A line is split into its fields, with room for all of them exactly when the last one ends before
the white space. -/
theorem splitFields_fieldLine {fields : List Field} {last : Field} {trail : Str} {count : Nat}
    (hLast : fields.getLast? = some last) (h : ∀ c ∈ trail, isSpace c = true) :
    splitFields count (fieldLine fields trail) = some ((fields.map Field.text).take count) ↔
      (count < fields.length ∨ last.EndsAt trail) := by
  induction fields generalizing count with
  | nil => cases hLast
  | cons f l ih =>
    cases count with
    | zero => simp [splitFields]
    | succ count =>
      cases l with
      | nil =>
        rw [List.getLast?_singleton, Option.some.injEq] at hLast
        subst hLast
        have hLine : fieldLine [f] trail = f.shown ++ trail := rfl
        rw [hLine, List.map_singleton, List.take_succ_cons, List.take_nil, f.splitFields_last count h]
        simp
      | cons g l =>
        rw [fieldLine_cons, f.splitFields_blank, skipSpace_fieldLine, List.map_cons,
          List.take_succ_cons]
        have hRest : splitFields count (fieldLine (g :: l) trail) =
            some (((g :: l).map Field.text).take count) ↔
              (count < (g :: l).length ∨ last.EndsAt trail) := ih hLast
        rw [List.length_cons, Nat.succ_lt_succ_iff, ← hRest]
        cases splitFields count (fieldLine (g :: l) trail) <;> simp

namespace Rendering

theorem packet_eq (r : Rendering) : r.packet = r.lead ++ fieldLine r.fields r.trail := by
  rw [packet, fieldLine, List.append_assoc]

theorem packet_ended (r : Rendering) : nul ∉ r.packet := by
  have hSpace : isSpace nul = false := by decide
  have hLine (l : List Field) : nul ∉ line (l.map Field.shown) := by
    have hShown (f : Field) : nul ∉ f.shown := by
      cases f with
      | word w _ ended => exact ended
      | quoted q _ ended =>
        have hNe : nul ≠ '"' := by decide
        simp [Field.shown, hNe, ended]
    have hNe : nul ≠ ' ' := by decide
    induction l with
    | nil => simp [line]
    | cons f l ih =>
      cases l with
      | nil => exact hShown f
      | cons g l =>
        rw [List.map_cons, List.map_cons, line_cons, List.mem_append, List.mem_cons, not_or, not_or]
        exact ⟨hShown f, hNe, ih⟩
  rw [packet, List.mem_append, List.mem_append, not_or, not_or]
  refine ⟨⟨fun hMem => ?_, hLine r.fields⟩, fun hMem => ?_⟩
  · rw [r.lead_space nul hMem] at hSpace
    cases hSpace
  · rw [r.trail_space nul hMem] at hSpace
    cases hSpace

/-- The packet in its buffer. -/
def cstring (r : Rendering) : CString := ⟨r.packet, r.packet_ended⟩

/-- `split_line` with room for `n` fields returns the first `n` of them. -/
def SplitsInto (r : Rendering) (n : Nat) : Prop :=
  ∃ split, splitLineAt n n r.cstring.buffer 0 = .ok split ∧
    split.code = (r.texts.take n).length ∧ split.fields = .ok (r.texts.take n)

/-- Repeated calls of `next_arg` return the fields and then the null pointer. -/
def ArgsAre (r : Rendering) : Prop :=
  ∃ ps b, argsAt (r.packet.length + 2) r.cstring.buffer (some 0) = .ok (some (ps, b)) ∧
    ps.mapM (text b) = .ok r.texts

theorem splitsInto_iff (r : Rendering) (n : Nat) :
    r.SplitsInto n ↔ splitLine n r.packet = some (r.texts.take n) := by
  obtain ⟨split, hRun, hDone⟩ := splitLineAt_ok r.cstring.holds (Nat.le_refl n)
  constructor
  · rintro ⟨split', hRun', hCode, hFields⟩
    rw [hRun, Except.ok.injEq] at hRun'
    subst hRun'
    cases hSplit : splitLine n r.packet with
    | none =>
      have hMinus : split.code = -1 := by
        rw [cstring, hSplit] at hDone
        exact hDone
      omega
    | some fields =>
      have hSame : split.fields = .ok fields := by
        rw [cstring, hSplit] at hDone
        exact hDone.2
      rw [hFields, Except.ok.injEq] at hSame
      rw [hSame]
  · intro hSplit
    rw [cstring, hSplit] at hDone
    exact ⟨split, hRun, hDone⟩

theorem argsAre_iff (r : Rendering) : r.ArgsAre ↔ args (some r.packet) = r.texts := by
  obtain ⟨ps, b, hRun, hHolds, -⟩ :=
    argsAt_done r.cstring.holds (Nat.lt_succ_self (r.packet.length + 1))
  have hTexts := fields_of_holds hHolds
  constructor
  · rintro ⟨ps', b', hRun', hTexts'⟩
    have hSame := hRun.symm.trans hRun'
    rw [Except.ok.injEq, Option.some.injEq, Prod.mk.injEq] at hSame
    obtain ⟨rfl, rfl⟩ := hSame
    rw [hTexts', Except.ok.injEq] at hTexts
    exact hTexts.symm
  · intro hArgs
    exact ⟨ps, b, hRun, hArgs ▸ hTexts⟩

end Rendering

theorem nextArg_lead {lead s : Str} (h : ∀ c ∈ lead, isSpace c = true) :
    nextArg (lead ++ s) = nextArg s := by
  rw [nextArg, skipSpace_append h]
  rfl

/-- The two parsers stay inside every packet and come to an end, and both give back the fields of a
packet if and only if there is a field and the last one ends before the white space behind it. -/
theorem parsers_invert_iff (s : CString) (r : Rendering) :
    ((∀ n, ∃ split, splitLineAt n n s.buffer 0 = .ok split) ∧
      ∃ ps b, argsAt (s.1.length + 2) s.buffer (some 0) = .ok (some (ps, b))) ∧
    (((∀ n, r.SplitsInto n) ∧ r.ArgsAre) ↔ r.Ends) := by
  refine ⟨⟨fun n => ?_, ?_⟩, ?_⟩
  · obtain ⟨split, hRun, -⟩ := splitLineAt_ok s.holds (Nat.le_refl n)
    exact ⟨split, hRun⟩
  · obtain ⟨ps, b, hRun, -, -⟩ := argsAt_done s.holds (Nat.lt_succ_self (s.1.length + 1))
    exact ⟨ps, b, hRun⟩
  have hArgs : args (some r.packet) = args (some (fieldLine r.fields r.trail)) := by
    rw [r.packet_eq, args_some, args_some, nextArg_lead r.lead_space]
  rw [r.argsAre_iff, hArgs]
  cases hLast : r.fields.getLast? with
  | none =>
    -- a call on white space still returns one argument, the empty one
    have hNil : r.fields = [] := List.getLast?_eq_none_iff.1 hLast
    have hEnds : ¬ r.Ends := by simp [Rendering.Ends, hNil]
    refine iff_of_false (fun h => ?_) hEnds
    have hBad := h.2
    rw [args_some, Rendering.texts, hNil] at hBad
    cases hBad
  | some last =>
    have hEnds : r.Ends ↔ last.EndsAt r.trail := by simp [Rendering.Ends, hLast]
    rw [Rendering.texts, args_fieldLine hLast r.trail_space, hEnds]
    refine ⟨fun h => h.2, fun h => ⟨fun n => ?_, h⟩⟩
    obtain ⟨f, l, hFields⟩ : ∃ f l, r.fields = f :: l := by
      cases hCons : r.fields with
      | nil => rw [hCons] at hLast; cases hLast
      | cons f l => exact ⟨f, l, rfl⟩
    have hSkip : skipSpace r.packet = fieldLine r.fields r.trail := by
      rw [r.packet_eq, skipSpace_append r.lead_space, hFields, skipSpace_fieldLine]
    rw [r.splitsInto_iff, splitLine, hSkip]
    exact (splitFields_fieldLine hLast r.trail_space).2 (.inr h)

/-- A packet that is made of no field at all, and one whose only word has a vertical tab behind
it. -/
theorem parsers_miss_fields :
    ¬ Rendering.ArgsAre ⟨[], [], [], by simp, by simp⟩ ∧
      ¬ Rendering.SplitsInto ⟨[.word (str "a") (by decide) (by decide)], [], [Char.ofNat 11], by simp,
        List.forall_mem_singleton.2 (by decide)⟩ 1 := by
  constructor
  · rw [Rendering.argsAre_iff]
    decide
  · rw [Rendering.splitsInto_iff]
    decide

/-! ### The array of `channel_level` -/

/-- The fields of `channel_level`: an array of three pointers, of which `split_line` is told that it
holds as many as the array has bytes.  A pointer has eight. -/
def channelLevelAt (isServer : Bool) (b : Bytes) : Checked (Option Split) := do
  if isServer then
    let c ← load b 0
    if c = ':' then
      let (_, pkt, b) ← nextArgAt b (some 1)
      let pkt ← deref pkt
      return some (← splitLineAt 3 (3 * 8) b pkt)
    else return none
  else return some (← splitLineAt 3 (3 * 8) b 0)

/-- The part of a packet that `channel_level` splits. -/
def levelPart (isServer : Bool) (pkt : Str) : Option Str :=
  if isServer then
    match pkt with
    | ':' :: rest => (nextArg rest).2
    | _ => none
  else some pkt

theorem levelPart_other {c : Char} {rest : Str} (h : c ≠ ':') : levelPart true (c :: rest) = none := by
  rw [levelPart, if_pos rfl]
  intro rest' hEq
  exact h (List.cons.inj hEq).1

/-- What follows the first field of a text: a quoted field takes the byte behind it along. -/
def afterField (s : Str) : Str :=
  match skipSpace s with
  | [] => []
  | c :: cs =>
    if isQuote c then ((cutAt isQuote cs).2.getD []).drop 1
    else (cutAt isBlank (c :: cs)).2.getD []

/-- Nothing but white space follows the first `n` fields of a text. -/
def atMostFields : Nat → Str → Bool
  | 0, s => (skipSpace s).isEmpty
  | n + 1, s => atMostFields n (afterField s)

theorem skipSpace_skipSpace (s : Str) : skipSpace (skipSpace s) = skipSpace s :=
  List.dropWhile_idempotent ..

theorem atMostFields_nil (n : Nat) : atMostFields n [] = true := by
  induction n with
  | zero => rfl
  | succ n ih => exact ih

theorem atMostFields_skipSpace (n : Nat) (s : Str) :
    atMostFields n (skipSpace s) = atMostFields n s := by
  cases n with
  | zero => simp only [atMostFields, skipSpace_skipSpace]
  | succ n => simp only [atMostFields, afterField, skipSpace_skipSpace]

/-- With room for `k` more pointers in the array and for more than that in the count, the loop of
`split_line` stores beyond the array exactly when the text has more than `k` fields. -/
theorem splitLoop_overruns {cap room k : Nat} {b : Bytes} {pkt : Nat} {slots : List Nat} {s : Str}
    (h : Holds b pkt s) (hSkip : skipSpace s = s) (hCap : slots.length + k = cap) (hRoom : k < room) :
    splitLoop cap room b pkt slots = .error .slots ↔ atMostFields k s = false := by
  induction k generalizing room b pkt slots s with
  | zero =>
    obtain ⟨room, rfl⟩ : ∃ n, room = n + 1 := ⟨room - 1, by omega⟩
    have hFull (p : Nat) : push cap slots p = .error .slots := if_neg (by omega)
    cases s with
    | nil => simp [splitLoop, h.head, atMostFields, hSkip, pure, Except.pure]
    | cons c cs =>
      have hc : c ≠ nul := fun hEq => h.plain (by simp [hEq])
      simp only [splitLoop, h.head, ok_bind, List.head?_cons, Option.getD_some, if_neg hc, hFull,
        atMostFields, hSkip]
      split <;> simp [bind, Except.bind]
  | succ k ih =>
    obtain ⟨room, rfl⟩ : ∃ n, room = n + 1 := ⟨room - 1, by omega⟩
    have hPush (p : Nat) : push cap slots p = .ok (slots ++ [p]) := push_ok p (by omega)
    have hMore (p : Nat) : (slots ++ [p]).length + k = cap := by
      rw [List.length_append, List.length_singleton]
      omega
    cases s with
    | nil =>
      rw [atMostFields_nil]
      simp [splitLoop, h.head, pure, Except.pure]
    | cons c cs =>
      have hc : c ≠ nul := fun hEq => h.plain (by simp [hEq])
      simp only [splitLoop, h.head, ok_bind, List.head?_cons, Option.getD_some, if_neg hc, hPush,
        atMostFields, afterField, hSkip]
      by_cases hQuote : isQuote c = true
      · have hText : Holds b (pkt + 1) cs := h.drop (List.singleton_append (x := c)).symm
        simp only [if_pos hQuote, hText.search isQuote_nul, ok_bind]
        cases hCut : cutAt isQuote cs with
        | mk word more =>
          cases more with
          | none => simp [atMostFields_nil, pure, Except.pure]
          | some rest =>
            obtain ⟨hLess, -, hRest⟩ := holds_cut hText hCut
            simp only [Option.map_some, store_ok hLess, ok_bind, hRest.head, Option.getD_some]
            cases rest with
            | nil => simp [atMostFields_nil, pure, Except.pure]
            | cons d rest =>
              have hd : d ≠ nul := fun hEq => hRest.plain (by simp [hEq])
              have hAfter : Holds (b.set (pkt + 1 + word.length) nul) (pkt + 1 + word.length + 2) rest :=
                hRest.drop (List.singleton_append (x := d)).symm
              simp only [List.head?_cons, Option.getD_some, if_neg hd, hAfter.span isSpace_nul, ok_bind,
                List.drop_succ_cons, List.drop_zero]
              rw [← atMostFields_skipSpace]
              exact ih hAfter.spanned (skipSpace_skipSpace rest) (hMore _) (by omega)
      · simp only [if_neg hQuote, h.search isBlank_nul, ok_bind]
        cases hCut : cutAt isBlank (c :: cs) with
        | mk word more =>
          cases more with
          | none => simp [atMostFields_nil, pure, Except.pure]
          | some rest =>
            obtain ⟨hLess, -, hRest⟩ := holds_cut h hCut
            simp only [Option.map_some, store_ok hLess, ok_bind, hRest.span isSpace_nul,
              Option.getD_some]
            rw [← atMostFields_skipSpace]
            exact ih hRest.spanned (skipSpace_skipSpace rest) (hMore _) (by omega)

theorem splitLineAt_overruns {k count : Nat} {b : Bytes} {pkt : Nat} {s : Str} (h : Holds b pkt s)
    (hCount : k < count) :
    splitLineAt k count b pkt = .error .slots ↔ atMostFields k s = false := by
  rw [splitLineAt, h.span isSpace_nul, ok_bind, ← atMostFields_skipSpace]
  exact splitLoop_overruns h.spanned (skipSpace_skipSpace s) (Nat.zero_add k) hCount

/-- `split_line` stores at the indices below its bound for every packet.  `channel_level` keeps to
its array if and only if the text it splits has three fields at most. -/
theorem channelLevelAt_fits_iff (isServer : Bool) (s : CString) :
    (∀ k, ∃ split, splitLineAt k k s.buffer 0 = .ok split) ∧
    (channelLevelAt isServer s.buffer ≠ .error .slots ↔
      ∀ text ∈ levelPart isServer s.1, atMostFields 3 text = true) := by
  refine ⟨fun k => ?_, ?_⟩
  · obtain ⟨split, hRun, -⟩ := splitLineAt_ok s.holds (Nat.le_refl k)
    exact ⟨split, hRun⟩
  -- what is done with the result of `split_line` makes no difference
  have hSome (run : Checked Split) :
      (do return some (← run) : Checked (Option Split)) = .error .slots ↔ run = .error .slots := by
    cases run <;> simp [bind, Except.bind, pure, Except.pure]
  have hSplit {b : Bytes} {pkt : Nat} {text : Str} (h : Holds b pkt text) :
      (do return some (← splitLineAt 3 (3 * 8) b pkt) : Checked (Option Split)) ≠ .error .slots ↔
        atMostFields 3 text = true := by
    rw [ne_eq, hSome, splitLineAt_overruns h (by decide), Bool.not_eq_false]
  cases isServer with
  | false =>
    simp only [channelLevelAt, levelPart, Bool.false_eq_true, if_false, Option.mem_some_iff,
      forall_eq']
    exact hSplit s.holds
  | true =>
    obtain ⟨pkt, hPkt⟩ := s
    cases pkt with
    | nil =>
      have hHead : load (CString.buffer ⟨[], hPkt⟩) 0 = .ok nul := (CString.holds ⟨[], hPkt⟩).head
      have hNe : nul ≠ ':' := by decide
      have hNone : levelPart true [] = none := rfl
      simp only [channelLevelAt, if_true, hHead, ok_bind, if_neg hNe, hNone]
      simp [pure, Except.pure]
    | cons c rest =>
      have hHead : load (CString.buffer ⟨c :: rest, hPkt⟩) 0 = .ok c :=
        (CString.holds ⟨c :: rest, hPkt⟩).head
      simp only [channelLevelAt, if_true, hHead, ok_bind]
      by_cases hColon : c = ':'
      · subst hColon
        have hRest : Holds (CString.buffer ⟨':' :: rest, hPkt⟩) 1 rest :=
          (CString.holds ⟨':' :: rest, hPkt⟩).drop (List.singleton_append (x := ':')).symm
        obtain ⟨q, left, b, hRun, hDone⟩ := nextArgAt_done hRest
        have hLeft := hDone.rest
        have hText : levelPart true (':' :: rest) = (nextArg rest).2 := rfl
        simp only [if_true, hRun, ok_bind, hText]
        cases hMore : (nextArg rest).2 with
        | none =>
          rw [hMore] at hLeft
          have hNull : left = none := hLeft
          subst hNull
          simp [deref, bind, Except.bind]
        | some text =>
          rw [hMore] at hLeft
          obtain ⟨e, rfl, -, hHolds⟩ := hLeft
          simp only [deref, ok_bind, Option.mem_some_iff, forall_eq']
          exact hSplit hHolds
      · rw [if_neg hColon, levelPart_other hColon]
        simp [pure, Except.pure]

/-- A local user sends four fields, and the fourth pointer is stored behind the array. -/
theorem channelLevelAt_overruns :
    channelLevelAt false (CString.buffer ⟨str "#chan Leech 1 more", by decide⟩) = .error .slots := by
  decide +kernel

end OpenNap
