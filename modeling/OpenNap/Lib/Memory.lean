import OpenNap.Lib.CText

/-! Byte buffers as a C program uses them.  An access outside a buffer, a store beyond the end of an
array of pointers and a read through the null pointer are faults; a computation that goes through
has made none of them.  A string in a buffer ends at the first NUL from its start. -/

namespace Memory

open CText

/-- What an access may do that the language does not define. -/
inductive Fault
  /-- a read through the null pointer -/
  | null
  /-- a read or write outside a buffer -/
  | bounds
  /-- a store beyond the end of an array of pointers -/
  | slots
deriving DecidableEq, Repr

/-- A computation whose accesses are checked. -/
abbrev Checked := Except Fault

@[simp] theorem ok_bind {α β : Type} (a : α) (f : α → Checked β) :
    ((.ok a : Checked α) >>= f) = f a := rfl

@[simp] theorem pure_eq {α : Type} (a : α) : (pure a : Checked α) = .ok a := rfl

@[simp] theorem map_ok {α β : Type} (f : α → β) (a : α) : f <$> (.ok a : Checked α) = .ok (f a) := rfl

@[simp] theorem error_bind {α β : Type} (e : Fault) (f : α → Checked β) :
    ((.error e : Checked α) >>= f) = .error e := rfl

@[simp] theorem map_error {α β : Type} (f : α → β) (e : Fault) :
    f <$> (.error e : Checked α) = .error e := rfl

/-- The contents of a buffer. -/
abbrev Bytes := List Char

/-- The byte that ends a string. -/
def nul : Char := Char.ofNat 0

/-- `b[i]`. -/
def load (b : Bytes) (i : Nat) : Checked Char :=
  match b[i]? with
  | some c => .ok c
  | none => .error .bounds

/-- `b[i] = c`. -/
def store (b : Bytes) (i : Nat) (c : Char) : Checked Bytes :=
  if i < b.length then .ok (b.set i c) else .error .bounds

/-- `t[i] = p` for the next free `i` of an array of `cap` pointers. -/
def push (cap : Nat) (slots : List Nat) (p : Nat) : Checked (List Nat) :=
  if slots.length < cap then .ok (slots ++ [p]) else .error .slots

/-- The pointer, which must not be null. -/
def deref {α : Type} : Option α → Checked α
  | some a => .ok a
  | none => .error .null

/-- A read of which only the fact counts. -/
def touch {α : Type} (p : Option α) : Checked Unit := (fun _ => ()) <$> deref p

@[simp] theorem deref_some {α : Type} (a : α) : deref (some a) = .ok a := rfl

@[simp] theorem deref_none {α : Type} : deref (none : Option α) = .error .null := rfl

@[simp] theorem touch_some {α : Type} (a : α) : touch (some a) = .ok () := rfl

@[simp] theorem touch_none {α : Type} : touch (none : Option α) = .error .null := rfl

/-- `p && test (*p)`: the pointer is read only when it is not null. -/
def guarded {α : Type} (p : Option α) (test : α → Bool) : Checked Bool :=
  if p.isSome then test <$> deref p else .ok false

/-- `!p || test (*p)`. -/
def nullOr {α : Type} (p : Option α) (test : α → Bool) : Checked Bool :=
  if p.isNone then .ok true else test <$> deref p

/-- `p ? *p : a`. -/
def derefOr {α : Type} (p : Option α) (a : α) : Checked α := if p.isSome then deref p else .ok a

@[simp] theorem guarded_eq {α : Type} (p : Option α) (test : α → Bool) :
    guarded p test = .ok (p.any test) := by
  cases p <;> rfl

@[simp] theorem nullOr_eq {α : Type} (p : Option α) (test : α → Bool) :
    nullOr p test = .ok (p.all test) := by
  cases p <;> rfl

@[simp] theorem derefOr_eq {α : Type} (p : Option α) (a : α) :
    derefOr p a = .ok (p.getD a) := by
  cases p <;> rfl

/-- The loop of `search` over the bytes from `i` on. -/
def searchFrom (p : Char → Bool) : Bytes → Nat → Checked (Option Nat)
  | [], _ => .error .bounds
  | c :: cs, i => if p c then .ok (some i) else if c = nul then .ok none else searchFrom p cs (i + 1)

/-- `strchr` and `strpbrk`: the first byte with `p` before the end of the string. -/
def search (p : Char → Bool) (b : Bytes) (i : Nat) : Checked (Option Nat) := searchFrom p (b.drop i) i

/-- The loop of `span` over the bytes from `i` on. -/
def spanFrom (p : Char → Bool) : Bytes → Nat → Checked Nat
  | [], _ => .error .bounds
  | c :: cs, i => if p c then spanFrom p cs (i + 1) else .ok i

/-- `while (p (b[i])) i++`. -/
def span (p : Char → Bool) (b : Bytes) (i : Nat) : Checked Nat := spanFrom p (b.drop i) i

/-- The string at the start of some bytes. -/
def textFrom : Bytes → Checked Str
  | [] => .error .bounds
  | c :: cs => if c = nul then .ok [] else (c :: ·) <$> textFrom cs

/-- The string at `i`. -/
def text (b : Bytes) (i : Nat) : Checked Str := textFrom (b.drop i)

/-- Bytes written one after the other from `i` on. -/
def storeAll (b : Bytes) (i : Nat) : Str → Checked Bytes
  | [] => .ok b
  | c :: cs => do storeAll (← store b i c) (i + 1) cs

/-- `strncpy (b + i, src, n)`: `n` bytes are written, with NULs after the end of the string. -/
def strncpy (b : Bytes) (i : Nat) (src : Str) (n : Nat) : Checked Bytes :=
  storeAll b i (src.take n ++ List.replicate (n - src.length) nul)

/-- The string at `i` is `s`. -/
structure Holds (b : Bytes) (i : Nat) (s : Str) : Prop where
  plain : nul ∉ s
  there : ∃ back, b.drop i = s ++ nul :: back

section

variable {b : Bytes} {i : Nat} {s : Str} {p : Char → Bool}

/-- A buffer that a string just fits. -/
theorem holds_self (h : nul ∉ s) : Holds (s ++ [nul]) 0 s := ⟨h, [], rfl⟩

namespace Holds

theorem lt_length (h : Holds b i s) : i + s.length < b.length := by
  obtain ⟨back, hBack⟩ := h.there
  have hLen := congrArg List.length hBack
  simp only [List.length_drop, List.length_append, List.length_cons] at hLen
  omega

/-- The end of a string in a buffer is a string there. -/
theorem drop (h : Holds b i s) {front rest : Str} (hs : s = front ++ rest) :
    Holds b (i + front.length) rest := by
  obtain ⟨back, hBack⟩ := h.there
  refine ⟨fun hMem => h.plain (by rw [hs]; exact List.mem_append_right _ hMem), back, ?_⟩
  rw [← List.drop_drop, hBack, hs, List.append_assoc, List.drop_left]

/-- A string stays where only bytes behind it change. -/
theorem of_take (h : Holds b i s) {b' : Bytes} {k : Nat} (hk : i + s.length < k)
    (hSame : b'.take k = b.take k) : Holds b' i s := by
  obtain ⟨back, hBack⟩ := h.there
  refine ⟨h.plain, (b'.drop i).drop (s.length + 1), ?_⟩
  have hPart : (b'.drop i).take (s.length + 1) = (b.drop i).take (s.length + 1) := by
    rw [List.take_drop, List.take_drop]
    have hLe : i + (s.length + 1) ≤ k := by omega
    rw [← Nat.min_eq_left hLe, ← List.take_take, hSame, List.take_take]
  have hFirst : (b.drop i).take (s.length + 1) = s ++ [nul] := by
    rw [hBack, List.take_append, List.take_of_length_le (by omega)]
    simp
  rw [← List.take_append_drop (s.length + 1) (b'.drop i), hPart, hFirst, List.append_assoc]
  simp

theorem head (h : Holds b i s) : load b i = .ok (s.head?.getD nul) := by
  obtain ⟨back, hBack⟩ := h.there
  have hAt : b[i]? = (s ++ nul :: back)[0]? := by
    rw [← hBack, List.getElem?_drop, Nat.add_zero]
  rw [load, hAt]
  cases s <;> rfl

theorem text (h : Holds b i s) : Memory.text b i = .ok s := by
  obtain ⟨back, hBack⟩ := h.there
  rw [Memory.text, hBack]
  have hPlain := h.plain
  clear h hBack
  induction s with
  | nil => rfl
  | cons c s ih =>
    rw [List.mem_cons, not_or] at hPlain
    rw [List.cons_append, textFrom, if_neg (Ne.symm hPlain.1), ih hPlain.2]
    rfl

theorem search (h : Holds b i s) (hp : p nul = false) :
    Memory.search p b i = .ok ((cutAt p s).2.map fun _ => i + (cutAt p s).1.length) := by
  obtain ⟨back, hBack⟩ := h.there
  rw [Memory.search, hBack]
  have hPlain := h.plain
  clear h hBack
  induction s generalizing i with
  | nil =>
    rw [List.nil_append, searchFrom, if_neg (by simp [hp]), if_pos rfl]
    rfl
  | cons c s ih =>
    rw [List.mem_cons, not_or] at hPlain
    rw [List.cons_append, searchFrom]
    by_cases hc : p c = true
    · simp [cutAt, hc]
    · have hNot : p c = false := by simpa using hc
      rw [if_neg hc, if_neg (Ne.symm hPlain.1), ih hPlain.2]
      simp only [cutAt, hNot, Bool.false_eq_true, if_false, List.length_cons]
      cases (cutAt p s).2 with
      | none => rfl
      | some rest => simp only [Option.map_some, Except.ok.injEq, Option.some.injEq]; omega

theorem span (h : Holds b i s) (hp : p nul = false) :
    Memory.span p b i = .ok (i + (s.takeWhile p).length) := by
  obtain ⟨back, hBack⟩ := h.there
  rw [Memory.span, hBack]
  clear h hBack
  induction s generalizing i with
  | nil =>
    rw [List.nil_append, spanFrom, if_neg (by simp [hp])]
    rfl
  | cons c s ih =>
    rw [List.cons_append, spanFrom]
    by_cases hc : p c = true
    · rw [if_pos hc, ih, List.takeWhile_cons_of_pos hc, List.length_cons]
      congr 1
      omega
    · rw [if_neg hc, List.takeWhile_cons_of_neg hc]
      rfl

/-- After the loop of `span` the rest of the string is there. -/
theorem spanned (h : Holds b i s) : Holds b (i + (s.takeWhile p).length) (s.dropWhile p) :=
  h.drop (List.takeWhile_append_dropWhile).symm

/-- The loop of `span` goes to the end of a part of the string. -/
theorem span_end (h : Holds b i s) (hp : p nul = false) :
    ∃ w rest, s = w ++ rest ∧ Memory.span p b i = .ok (i + w.length) ∧
      Holds b (i + w.length) rest :=
  ⟨_, _, List.takeWhile_append_dropWhile.symm, h.span hp, h.spanned⟩

/-- A string stays where no byte from its start on changes. -/
theorem of_drop (h : Holds b i s) {b' : Bytes} (hSame : b'.drop i = b.drop i) : Holds b' i s :=
  ⟨h.plain, h.there.imp fun _ hBack => hSame.trans hBack⟩

end Holds

/-! ### Stores -/

theorem store_ok {c : Char} (h : i < b.length) : store b i c = .ok (b.set i c) := if_pos h

theorem load_ok (h : i < b.length) : load b i = .ok b[i] := by
  rw [load, List.getElem?_eq_getElem h]

/-- A NUL in the middle of a string makes two strings of it. -/
theorem Holds.cut (h : Holds b i s) {front rest : Str} {c : Char} (hs : s = front ++ c :: rest) :
    Holds (b.set (i + front.length) nul) i front ∧
      Holds (b.set (i + front.length) nul) (i + front.length + 1) rest := by
  obtain ⟨back, hBack⟩ := h.there
  have hPlain := h.plain
  have hSet : (b.set (i + front.length) nul).drop i = front ++ nul :: (rest ++ nul :: back) := by
    rw [List.drop_set, if_neg (by omega), hBack, hs, Nat.add_sub_cancel_left, List.append_assoc,
      List.set_append_right _ _ (Nat.le_refl _), Nat.sub_self]
    rfl
  rw [hs, List.mem_append, not_or, List.mem_cons, not_or] at hPlain
  refine ⟨⟨hPlain.1, _, hSet⟩, hPlain.2.2, back, ?_⟩
  rw [Nat.add_assoc, ← List.drop_drop, hSet, ← List.drop_drop, List.drop_left]
  rfl

theorem storeAll_ok {cs : Str} (h : i + cs.length ≤ b.length) :
    storeAll b i cs = .ok (b.take i ++ cs ++ b.drop (i + cs.length)) := by
  induction cs generalizing b i with
  | nil => simp [storeAll]
  | cons c cs ih =>
    rw [List.length_cons] at h
    have hi : i < b.length := by omega
    have hRest : i + 1 + cs.length ≤ (b.set i c).length := by
      rw [List.length_set]
      omega
    rw [storeAll, store_ok hi]
    refine (ih hRest).trans ?_
    have hTake : (b.set i c).take (i + 1) = b.take i ++ [c] := by
      rw [List.take_set, List.take_succ_eq_append_getElem hi,
        List.set_append_right _ _ (List.length_take_le _ _), List.length_take, Nat.min_eq_left (by omega), Nat.sub_self]
      rfl
    have hDrop : (b.set i c).drop (i + 1 + cs.length) = b.drop (i + (c :: cs).length) := by
      rw [List.drop_set_of_lt (by omega), List.length_cons]
      congr 1
      omega
    rw [hTake, hDrop, List.append_assoc (b.take i)]
    rfl

/-- `strncpy` inside a buffer writes the string, cut or filled up to `n` bytes. -/
theorem strncpy_ok {src : Str} {n : Nat} (h : i + n ≤ b.length) :
    strncpy b i src n =
      .ok (b.take i ++ (src.take n ++ List.replicate (n - src.length) nul) ++ b.drop (i + n)) := by
  have hLen : (src.take n ++ List.replicate (n - src.length) nul).length = n := by
    simp only [List.length_append, List.length_take, List.length_replicate]
    omega
  rw [strncpy, storeAll_ok (by rw [hLen]; exact h), hLen]

end

/-! ### A buffer in parts -/

/-- `n` bytes from `i` on, as a function that copies them gets them. -/
def piece (b : Bytes) (i n : Nat) : Checked Bytes :=
  if i + n ≤ b.length then .ok ((b.drop i).take n) else .error .bounds

section

variable {b front back w : Bytes} {i n : Nat} {c : Char}

theorem load_part (h : b = front ++ c :: back) (hi : i = front.length) : load b i = .ok c := by
  rw [load, h, hi, List.getElem?_append_right (Nat.le_refl _), Nat.sub_self]
  rfl

theorem store_part (h : b = front ++ c :: back) (hi : i = front.length) (d : Char) :
    store b i d = .ok (front ++ d :: back) := by
  rw [h, hi, store_ok (by simp), List.set_append_right _ _ (Nat.le_refl _), Nat.sub_self]
  rfl

theorem search_part {p : Char → Bool} (h : b = front ++ (w ++ c :: back)) (hi : i = front.length)
    (hw : ∀ d ∈ w, p d = false ∧ d ≠ nul) (hc : p c = true) :
    search p b i = .ok (some (i + w.length)) := by
  rw [search, h, hi, List.drop_left]
  clear h hi
  generalize front.length = i
  induction w generalizing i with
  | nil => simp [searchFrom, hc]
  | cons d w ih =>
    rw [List.forall_mem_cons] at hw
    rw [List.cons_append, searchFrom, if_neg (by simp [hw.1.1]), if_neg hw.1.2, ih hw.2,
      List.length_cons]
    congr 2
    omega

theorem text_part (h : b = front ++ (w ++ nul :: back)) (hi : i = front.length) (hw : nul ∉ w) :
    text b i = .ok w :=
  Holds.text ⟨hw, back, by rw [h, hi, List.drop_left]⟩

theorem piece_part (h : b = front ++ (w ++ back)) (hi : i = front.length) (hn : n = w.length) :
    piece b i n = .ok w := by
  rw [piece, h, hi, hn, if_pos (by simp only [List.length_append]; omega), List.drop_left,
    List.take_left]

end

end Memory
