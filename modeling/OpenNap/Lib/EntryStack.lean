import OpenNap.Lib.Bucket

/-! What a chained hash table is for: a stack of entries.  A new entry goes on top; a search takes
the topmost entry whose key compares equal, and a removal takes that entry out.  The table is one
way to keep such a stack: each chain is the part of the stack whose keys fall into it, in the order
of the stack. -/

namespace Bucket

variable {K N V : Type} {scheme : Scheme K N}

/-- One operation on a stack of entries. -/
inductive StackOp (K V : Type)
  | add (key : K) (value : V)
  | remove (key : K)
  | lookup (key : K)

/-- The key that an operation is about. -/
def StackOp.key : StackOp K V → K
  | .add key _ => key
  | .remove key => key
  | .lookup key => key

namespace Table

variable {t : Table scheme V} {stack : List (K × V)}

/-- The table keeps the stack. -/
structure Keeps (t : Table scheme V) (stack : List (K × V)) : Prop where
  chain : ∀ i, t.chain i = stack.filter fun e => t.slot e.1 == i
  entries : t.entries.Perm stack

theorem keeps_empty (n : Nat) (h : 0 < n) : (empty scheme V n h).Keeps [] :=
  ⟨fun _ => rfl, by rw [entries_empty]⟩

theorem Keeps.add (h : t.Keeps stack) (key : K) (value : V) :
    (t.add key value).Keeps ((key, value) :: stack) := by
  refine ⟨fun i => ?_, (t.entries_add key value).trans (h.entries.cons _)⟩
  have hSlot : (t.add key value).slot = t.slot := rfl
  rw [hSlot, List.filter_cons]
  by_cases hi : i = t.slot key
  · subst hi
    simp [Table.add, h.chain]
  · have hNe : (t.slot key == i) = false := by simpa using fun hEq => hi hEq.symm
    simp [Table.add, hi, hNe, h.chain]

end Table

open Table

variable [DecidableEq N]

/-- The stack after an operation. -/
def stackStep (scheme : Scheme K N) (stack : List (K × V)) : StackOp K V → List (K × V)
  | .add key value => (key, value) :: stack
  | .remove key => stack.eraseP (answers scheme key)
  | .lookup _ => stack

/-- The entries that some operations leave, beginning with none. -/
def liveEntries (scheme : Scheme K N) (ops : List (StackOp K V)) : List (K × V) :=
  ops.foldl (stackStep scheme) []

/-- Whether an operation is about a key equal to `key`. -/
def StackOp.concerns (scheme : Scheme K N) (key : K) (op : StackOp K V) : Bool :=
  scheme.norm op.key == scheme.norm key

/-- Where the one key is equal, the other is not. -/
theorem not_answers {j k : K} (h : scheme.norm j ≠ scheme.norm k) {e : K × V}
    (he : answers scheme j e = true) : answers scheme k e = false := by
  rw [answers_iff] at he
  simp [answers, he, h]

/-- What a filter keeps whole, a removal from the list is a removal from the filtered list. -/
theorem eraseP_filter_of_imp {α : Type} {p q : α → Bool} (h : ∀ a, p a = true → q a = true)
    (l : List α) : (l.filter q).eraseP p = (l.eraseP p).filter q := by
  have hBoth : (fun a => p a && q a) = p := by
    funext a
    cases hp : p a with
    | false => rfl
    | true => rw [h a hp]; rfl
  rw [List.eraseP_filter, hBoth]

/-- A removal of what a filter leaves out changes nothing that it keeps. -/
theorem filter_eraseP_of_imp {α : Type} {p q : α → Bool} (h : ∀ a, p a = true → q a = false)
    (l : List α) : (l.eraseP p).filter q = l.filter q := by
  induction l with
  | nil => rfl
  | cons a as ih =>
    cases hp : p a with
    | true => rw [List.eraseP_cons_of_pos hp, List.filter_cons_of_neg (by simp [h a hp])]
    | false =>
      rw [List.eraseP_cons_of_neg (by simp [hp]), List.filter_cons, List.filter_cons, ih]

/-! ### Operations on other keys -/

/-- The entries of a key after an operation on another one. -/
theorem filter_stackStep_of_ne {key : K} {op : StackOp K V} (h : op.concerns scheme key = false)
    (stack : List (K × V)) :
    (stackStep scheme stack op).filter (answers scheme key) = stack.filter (answers scheme key) := by
  have hNe : scheme.norm op.key ≠ scheme.norm key := by simpa [StackOp.concerns] using h
  cases op with
  | add j value =>
    have hj : answers scheme key (j, value) = false := not_answers hNe (answers_iff.2 rfl)
    rw [stackStep, List.filter_cons_of_neg (by simp [hj])]
  | remove j => exact filter_eraseP_of_imp (fun e he => not_answers hNe he) stack
  | lookup j => rfl

/-- The entries of a key after an operation on it are those that it makes of them alone. -/
theorem filter_stackStep {key : K} {op : StackOp K V} (h : op.concerns scheme key = true)
    (stack : List (K × V)) :
    (stackStep scheme stack op).filter (answers scheme key) =
      stackStep scheme (stack.filter (answers scheme key)) op := by
  have hEq : scheme.norm op.key = scheme.norm key := by simpa [StackOp.concerns] using h
  cases op with
  | add j value =>
    have hj : answers scheme key (j, value) = true := answers_iff.2 hEq
    rw [stackStep, List.filter_cons_of_pos hj]
    rfl
  | remove j =>
    refine (eraseP_filter_of_imp (fun e he => ?_) stack).symm
    rw [answers_iff] at he ⊢
    exact he.trans hEq
  | lookup j => rfl

theorem filter_foldl_stackStep (key : K) (ops : List (StackOp K V)) (stack : List (K × V)) :
    (ops.foldl (stackStep scheme) stack).filter (answers scheme key) =
      (ops.filter (StackOp.concerns scheme key)).foldl (stackStep scheme)
        (stack.filter (answers scheme key)) := by
  induction ops generalizing stack with
  | nil => rfl
  | cons op ops ih =>
    rw [List.foldl_cons, ih]
    cases hOp : op.concerns scheme key with
    | true => rw [List.filter_cons_of_pos hOp, List.foldl_cons, filter_stackStep hOp]
    | false => rw [List.filter_cons_of_neg (by simp [hOp]), filter_stackStep_of_ne hOp]

/-- The entries of a key are those that the operations on it alone leave. -/
theorem filter_liveEntries (key : K) (ops : List (StackOp K V)) :
    (liveEntries scheme ops).filter (answers scheme key) =
      liveEntries scheme (ops.filter (StackOp.concerns scheme key)) :=
  filter_foldl_stackStep key ops []

/-- What a search finds depends on the operations on its key alone. -/
theorem find_liveEntries (key : K) (ops : List (StackOp K V)) :
    (liveEntries scheme ops).find? (answers scheme key) =
      (liveEntries scheme (ops.filter (StackOp.concerns scheme key))).find? (answers scheme key) := by
  rw [← filter_liveEntries, List.find?_filter]
  congr 1
  funext e
  cases answers scheme key e <;> rfl

/-! ### The table -/

namespace Table

variable {t : Table scheme V} {stack : List (K × V)}

/-- The chain of a key has every entry that answers a search for it. -/
theorem slot_of_answers {key : K} {e : K × V} (he : answers scheme key e = true) :
    (t.slot e.1 == t.slot key) = true := by
  rw [beq_iff_eq]
  exact t.slot_congr (answers_iff.1 he)

theorem Keeps.find (h : t.Keeps stack) (key : K) :
    t.find key = stack.find? (answers scheme key) := by
  rw [Table.find, h.chain, List.find?_filter]
  congr 1
  funext e
  cases he : answers scheme key e with
  | false => simp
  | true => simp [slot_of_answers he]

theorem Keeps.remove (h : t.Keeps stack) (key : K) :
    (t.remove key).Keeps (stack.eraseP (answers scheme key)) := by
  refine ⟨fun i => ?_, ?_⟩
  · have hSlot : (t.remove key).slot = t.slot := rfl
    rw [hSlot]
    by_cases hi : i = t.slot key
    · subst hi
      simp only [Table.remove, if_true, h.chain]
      exact eraseP_filter_of_imp (fun e he => slot_of_answers he) stack
    · simp only [Table.remove, hi, if_false, h.chain]
      refine (filter_eraseP_of_imp (fun e he => ?_) stack).symm
      have hAt : t.slot e.1 = t.slot key := beq_iff_eq.1 (slot_of_answers he)
      simpa [hAt] using fun hEq => hi hEq.symm
  · cases hFind : t.find key with
    | none =>
      have hNone := (h.find key).symm.trans hFind
      rw [remove_of_find_none hFind, List.eraseP_of_forall_not (List.find?_eq_none.1 hNone)]
      exact h.entries
    | some e =>
      have hSome := (h.find key).symm.trans hFind
      have hBoth := (entries_remove hFind).symm.trans
        (h.entries.trans (Lists.perm_eraseP_of_find hSome))
      exact hBoth.cons_inv

end Table

end Bucket
