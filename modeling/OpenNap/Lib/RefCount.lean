import Mathlib.Data.List.Nodup
import Mathlib.Data.List.Perm.Basic
import Mathlib.Data.Set.Card

/-! Reference counts in a field of `w` bits.  Containers hold objects; every object has a count that
goes up when a container takes it and down when one drops it, modulo `2 ^ w`, and each drop is
written down with the count that it found.  As long as a container takes only what it does not hold
and nothing that was dropped before, the count is the number of the holders, modulo `2 ^ w`, and the
counts that the drops find go down by one each time. -/

namespace RefCount

variable {C D : Type} {w : Nat}

/-- What the containers hold, the counts, and the drops so far. -/
structure Store (C D : Type) (w : Nat) where
  contents : C → List D
  count : D → BitVec w
  drops : List (D × BitVec w)

namespace Store

/-- The containers that hold an object. -/
def holders (s : Store C D w) (d : D) : Set C := { c | d ∈ s.contents c }

/-- The number of the containers that hold an object. -/
noncomputable def number (s : Store C D w) (d : D) : Nat := (s.holders d).ncard

variable [DecidableEq D]

/-- The counts that the drops of an object found. -/
def history (s : Store C D w) (d : D) : List (BitVec w) :=
  (s.drops.filter fun e => e.1 = d).map Prod.snd

/-- The number of the containers that ever held an object. -/
noncomputable def total (s : Store C D w) (d : D) : Nat := (s.history d).length + s.number d

theorem mem_history {s : Store C D w} {d : D} {k : BitVec w} :
    k ∈ s.history d ↔ (d, k) ∈ s.drops := by
  simp only [history, List.mem_map, List.mem_filter, decide_eq_true_eq]
  constructor
  · rintro ⟨⟨d', k'⟩, ⟨hIn, rfl⟩, rfl⟩
    exact hIn
  · intro h
    exact ⟨(d, k), ⟨h, rfl⟩, rfl⟩

end Store

/-- The first `n` numbers of a count from `k` down. -/
def countdown (w k n : Nat) : List (BitVec w) := (List.range n).map fun i => BitVec.ofNat w (k - i)

theorem countdown_succ (w k n : Nat) :
    countdown w k (n + 1) = countdown w k n ++ [BitVec.ofNat w (k - n)] := by
  simp [countdown, List.range_succ]

@[simp] theorem length_countdown (w k n : Nat) : (countdown w k n).length = n := by
  simp [countdown]

theorem ofNat_ne_zero {k : Nat} (hSome : 0 < k) (hFits : k < 2 ^ w) : BitVec.ofNat w k ≠ 0 := by
  intro h
  have hNat := congrArg BitVec.toNat h
  rw [BitVec.toNat_ofNat, Nat.mod_eq_of_lt hFits] at hNat
  simp at hNat
  omega

/-- Among the numbers up to `2 ^ w`, only one counts as one. -/
theorem ofNat_eq_one {k : Nat} (hw : 0 < w) (hFits : k ≤ 2 ^ w) :
    BitVec.ofNat w k = 1 ↔ k = 1 := by
  have hOne : 1 < 2 ^ w := Nat.one_lt_two_pow (by omega)
  constructor
  · intro h
    have hNat := congrArg BitVec.toNat h
    have hRight : (1 : BitVec w).toNat = 1 := by simp [Nat.mod_eq_of_lt hOne]
    rw [BitVec.toNat_ofNat, hRight] at hNat
    rcases Nat.lt_or_eq_of_le hFits with hLt | hEq
    · rwa [Nat.mod_eq_of_lt hLt] at hNat
    · rw [hEq, Nat.mod_self] at hNat
      cases hNat
  · rintro rfl
    rfl

theorem zero_not_mem_countdown {k n : Nat} (hn : n ≤ k) (hFits : k < 2 ^ w) :
    0 ∉ countdown w k n := by
  intro h
  obtain ⟨i, hi, hZero⟩ := List.mem_map.1 h
  have hLess := List.mem_range.1 hi
  exact ofNat_ne_zero (by omega) (by omega) hZero

theorem one_not_mem_countdown {k n : Nat} (hw : 0 < w) (hn : n < k) (hFits : k ≤ 2 ^ w) :
    1 ∉ countdown w k n := by
  intro h
  obtain ⟨i, hi, hOne⟩ := List.mem_map.1 h
  have hLess := List.mem_range.1 hi
  have := (ofNat_eq_one hw (by omega : k - i ≤ 2 ^ w)).1 hOne
  omega

/-! ### Steps -/

/-- A container takes an object that it does not hold and that was never dropped. -/
structure Takes [DecidableEq D] (c : C) (d : D) (s t : Store C D w) : Prop where
  new : d ∉ s.contents c
  fresh : s.history d = []
  here : (t.contents c).Perm (d :: s.contents c)
  other : ∀ c', c' ≠ c → t.contents c' = s.contents c'
  count : t.count d = s.count d + 1
  counts : ∀ d', d' ≠ d → t.count d' = s.count d'
  drops : t.drops = s.drops

/-- A container drops some of the objects that it holds. -/
structure Drops [DecidableEq D] (c : C) (l : List D) (s t : Store C D w) : Prop where
  here : (s.contents c).Perm (l ++ t.contents c)
  other : ∀ c', c' ≠ c → t.contents c' = s.contents c'
  count : ∀ d, t.count d = if d ∈ l then s.count d - 1 else s.count d
  drops : t.drops = s.drops ++ l.map fun d => (d, s.count d)

/-- What holds of the counts. -/
structure Exact [DecidableEq D] (s : Store C D w) : Prop where
  nodup : ∀ c, (s.contents c).Nodup
  finite : ∀ d, (s.holders d).Finite
  count : ∀ d, s.count d = BitVec.ofNat w (s.number d)
  history : ∀ d, s.history d = countdown w (s.total d) (s.history d).length

variable [DecidableEq D] {s t : Store C D w} {c : C} {d : D} {l : List D}

namespace Takes

theorem history (h : Takes c d s t) (d' : D) : t.history d' = s.history d' := by
  simp only [Store.history, h.drops]

theorem mem (h : Takes c d s t) {c' : C} {d' : D} :
    d' ∈ t.contents c' ↔ d' ∈ s.contents c' ∨ (c' = c ∧ d' = d) := by
  by_cases hc : c' = c
  · subst hc
    rw [h.here.mem_iff]
    simp [or_comm]
  · simp [h.other c' hc, hc]

theorem holders (h : Takes c d s t) : t.holders d = insert c (s.holders d) := by
  ext c'
  simp only [Store.holders, Set.mem_ofPred_eq, h.mem, and_true, Set.mem_insert_iff]
  exact or_comm

theorem holders_ne (h : Takes c d s t) {d' : D} (hd : d' ≠ d) : t.holders d' = s.holders d' := by
  ext c'
  simp [Store.holders, h.mem, hd]

theorem number (h : Takes c d s t) (hFinite : (s.holders d).Finite) :
    t.number d = s.number d + 1 := by
  rw [Store.number, h.holders]
  exact Set.ncard_insert_of_notMem h.new hFinite

theorem number_ne (h : Takes c d s t) {d' : D} (hd : d' ≠ d) : t.number d' = s.number d' := by
  rw [Store.number, h.holders_ne hd]
  rfl

theorem total_ne (h : Takes c d s t) {d' : D} (hd : d' ≠ d) : t.total d' = s.total d' := by
  rw [Store.total, h.history, h.number_ne hd]
  rfl

end Takes

theorem Exact.takes (hs : Exact s) (h : Takes c d s t) : Exact t where
  nodup c' := by
    by_cases hc : c' = c
    · subst hc
      exact h.here.nodup_iff.2 (List.nodup_cons.2 ⟨h.new, hs.nodup c'⟩)
    · rw [h.other c' hc]
      exact hs.nodup c'
  finite d' := by
    by_cases hd : d' = d
    · subst hd
      rw [h.holders]
      exact (hs.finite d').insert c
    · rw [h.holders_ne hd]
      exact hs.finite d'
  count d' := by
    by_cases hd : d' = d
    · subst hd
      rw [h.count, h.number (hs.finite d'), hs.count, BitVec.ofNat_add]
      rfl
    · rw [h.counts d' hd, h.number_ne hd]
      exact hs.count d'
  history d' := by
    by_cases hd : d' = d
    · subst hd
      rw [h.history, h.fresh]
      rfl
    · rw [h.total_ne hd, h.history]
      exact hs.history d'

namespace Drops

theorem history_of_mem (h : Drops c l s t) (hl : l.Nodup) (hd : d ∈ l) :
    t.history d = s.history d ++ [s.count d] := by
  have hOnce : (l.filter fun x => x = d) = [d] := by
    rw [List.filter_eq, List.count_eq_one_of_mem hl hd]
    rfl
  have hMap : ((l.map fun x => (x, s.count x)).filter fun e => e.1 = d) =
      (l.filter fun x => x = d).map fun x => (x, s.count x) := by
    rw [List.filter_map]
    rfl
  rw [Store.history, h.drops, List.filter_append, List.map_append, hMap, hOnce]
  rfl

theorem history_of_not_mem (h : Drops c l s t) (hd : d ∉ l) : t.history d = s.history d := by
  have hNone : ((l.map fun x => (x, s.count x)).filter fun e => e.1 = d) = [] := by
    rw [List.filter_eq_nil_iff]
    intro e he hEq
    obtain ⟨x, hx, rfl⟩ := List.mem_map.1 he
    have hxd : x = d := by simpa using hEq
    exact hd (hxd ▸ hx)
  rw [Store.history, h.drops, List.filter_append, hNone, List.append_nil]
  rfl

theorem holds (h : Drops c l s t) (hd : d ∈ l) : c ∈ s.holders d :=
  h.here.mem_iff.2 (List.mem_append_left _ hd)

theorem not_holds (h : Drops c l s t) (hs : (s.contents c).Nodup) (hd : d ∈ l) :
    c ∉ t.holders d := by
  intro hIn
  have hSplit := h.here.nodup_iff.1 hs
  exact (List.nodup_append.1 hSplit).2.2 d hd d hIn rfl

theorem holders_of_mem (h : Drops c l s t) (hs : (s.contents c).Nodup) (hd : d ∈ l) :
    t.holders d = s.holders d \ {c} := by
  ext c'
  by_cases hc : c' = c
  · subst hc
    simpa using h.not_holds hs hd
  · simp [Store.holders, h.other c' hc, hc]

theorem holders_of_not_mem (h : Drops c l s t) (hd : d ∉ l) : t.holders d = s.holders d := by
  ext c'
  by_cases hc : c' = c
  · subst hc
    simp [Store.holders, h.here.mem_iff, hd]
  · simp [Store.holders, h.other c' hc]

theorem number_of_mem (h : Drops c l s t) (hs : Exact s) (hd : d ∈ l) :
    t.number d + 1 = s.number d := by
  rw [Store.number, h.holders_of_mem (hs.nodup c) hd]
  exact Set.ncard_sdiff_singleton_add_one (h.holds hd) (hs.finite d)

theorem number_of_not_mem (h : Drops c l s t) (hd : d ∉ l) : t.number d = s.number d := by
  rw [Store.number, h.holders_of_not_mem hd]
  rfl

theorem nodup (h : Drops c l s t) (hs : Exact s) : l.Nodup :=
  (List.nodup_append.1 (h.here.nodup_iff.1 (hs.nodup c))).1

theorem total (h : Drops c l s t) (hs : Exact s) (d : D) : t.total d = s.total d := by
  rw [Store.total, Store.total]
  by_cases hd : d ∈ l
  · have hNumber := h.number_of_mem hs hd
    rw [h.history_of_mem (h.nodup hs) hd, List.length_append, List.length_singleton]
    omega
  · rw [h.history_of_not_mem hd, h.number_of_not_mem hd]

end Drops

theorem Exact.drops (hs : Exact s) (h : Drops c l s t) : Exact t where
  nodup c' := by
    by_cases hc : c' = c
    · subst hc
      exact (List.nodup_append.1 (h.here.nodup_iff.1 (hs.nodup c'))).2.1
    · rw [h.other c' hc]
      exact hs.nodup c'
  finite d := by
    by_cases hd : d ∈ l
    · rw [h.holders_of_mem (hs.nodup c) hd]
      exact (hs.finite d).sdiff
    · rw [h.holders_of_not_mem hd]
      exact hs.finite d
  count d := by
    by_cases hd : d ∈ l
    · have hNumber := h.number_of_mem hs hd
      rw [h.count, if_pos hd, hs.count, ← hNumber, BitVec.ofNat_add]
      exact BitVec.add_sub_cancel _ _
    · rw [h.count, if_neg hd, h.number_of_not_mem hd]
      exact hs.count d
  history d := by
    rw [h.total hs]
    by_cases hd : d ∈ l
    · have hLeft : s.total d - (s.history d).length = s.number d := by
        rw [Store.total]
        omega
      rw [h.history_of_mem (h.nodup hs) hd, List.length_append, List.length_singleton,
        countdown_succ, ← hs.history, hLeft, ← hs.count]
    · rw [h.history_of_not_mem hd]
      exact hs.history d

/-- What is the same in every container stays exact. -/
theorem Exact.congr (hs : Exact s) (hContents : t.contents = s.contents)
    (hCount : t.count = s.count) (hDrops : t.drops = s.drops) : Exact t := by
  cases s
  cases t
  cases hContents
  cases hCount
  cases hDrops
  exact hs

/-! ### What the counts say -/

theorem Exact.toNat_count (hs : Exact s) (d : D) :
    (s.count d).toNat = s.number d ↔ s.number d < 2 ^ w := by
  rw [hs.count, BitVec.toNat_ofNat]
  constructor
  · intro h
    rw [← h]
    exact Nat.mod_lt _ (Nat.two_pow_pos w)
  · exact Nat.mod_eq_of_lt

/-- As long as the field is large enough, no drop finds a count of zero. -/
theorem Exact.drop_ne_zero (hs : Exact s) (hFits : ∀ d, s.total d < 2 ^ w) :
    ∀ e ∈ s.drops, e.2 ≠ 0 := by
  rintro ⟨d, k⟩ he rfl
  have hIn : (0 : BitVec w) ∈ s.history d := Store.mem_history.2 he
  rw [hs.history] at hIn
  exact zero_not_mem_countdown (Nat.le_add_right _ _) (hFits d) hIn

/-- While a container holds an object, no drop has found a count of one. -/
theorem Exact.one_not_mem (hs : Exact s) (hw : 0 < w) (hFits : s.total d ≤ 2 ^ w)
    (hHeld : 0 < s.number d) : 1 ∉ s.history d := by
  rw [hs.history]
  refine one_not_mem_countdown hw ?_ hFits
  rw [Store.total]
  omega

/-- When the last container has dropped an object, that drop and no other found a count of one. -/
theorem Exact.last_one (hs : Exact s) (hw : 0 < w) (hFits : s.total d ≤ 2 ^ w)
    (hNone : s.number d = 0) (hSome : 0 < s.total d) :
    ∃ before, s.history d = before ++ [1] ∧ 1 ∉ before := by
  have hTotal : s.total d = (s.history d).length := by
    rw [Store.total, hNone, Nat.add_zero]
  obtain ⟨n, hn⟩ : ∃ n, s.total d = n + 1 := ⟨s.total d - 1, by omega⟩
  refine ⟨countdown w (n + 1) n, ?_, one_not_mem_countdown hw (by omega) (by omega)⟩
  rw [hs.history, ← hTotal, hn, countdown_succ]
  simp

end RefCount
