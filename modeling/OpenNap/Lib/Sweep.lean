import OpenNap.Lib.Bucket

/-! Walks over chained hash tables.  A walk that removes the entries of a kind as it goes leaves the
others, and adding values under their own keys gives a table of just these. -/

namespace Bucket

namespace Table

variable {K N V : Type} {scheme : Scheme K N} [DecidableEq N]

/-! ### Entries under keys of their own -/

section Keyed

variable (name : V → K)

/-- Every entry is under the key that its value has. -/
def Keyed (t : Table scheme V) : Prop :=
  ∀ e ∈ t.entries, scheme.norm e.1 = scheme.norm (name e.2)

/-- A search finds the same in tables with the same values. -/
theorem Distinct.lookup_eq_of_perm {t u : Table scheme V} {name : V → K} (h : t.Distinct)
    (ht : t.Keyed name) (hu : u.Keyed name) (hPerm : t.values.Perm u.values) (key : K) :
    t.lookup key = u.lookup key := by
  cases hFind : u.lookup key with
  | none =>
    rw [lookup_eq_none] at hFind ⊢
    intro e he hKey
    obtain ⟨k, hk⟩ := mem_values.1 (hPerm.mem_iff.1 (mem_values.2 ⟨e.1, he⟩))
    exact hFind _ hk ((hu _ hk).trans ((ht e he).symm.trans hKey))
  | some v =>
    obtain ⟨k, hk, hKey⟩ := lookup_some hFind
    obtain ⟨j, hj⟩ := mem_values.1 (hPerm.mem_iff.2 (mem_values.2 ⟨k, hk⟩))
    exact h.lookup hj ((ht _ hj).trans ((hu _ hk).symm.trans hKey))

/-- The table after a walk that removes the values of a kind by their keys. -/
def sweep (gone : V → Bool) (t : Table scheme V) (l : List V) : Table scheme V :=
  l.foldl (fun t v => if gone v then t.remove (name v) else t) t

theorem mem_sweep {name : V → K} {gone : V → Bool} {t : Table scheme V} (hDistinct : t.Distinct)
    (hKeyed : t.Keyed name) {l : List V} (hl : ∀ v ∈ l, v ∈ t.values) {e : K × V} :
    e ∈ (t.sweep name gone l).entries ↔ e ∈ t.entries ∧ ¬ (gone e.2 = true ∧ e.2 ∈ l) := by
  -- the walk from any table that is left of `t`
  suffices hWalk : ∀ u : Table scheme V, u.Distinct → (∀ e ∈ u.entries, e ∈ t.entries) →
      (e ∈ (u.sweep name gone l).entries ↔ e ∈ u.entries ∧ ¬ (gone e.2 = true ∧ e.2 ∈ l)) from
    hWalk t hDistinct fun _ h => h
  induction l with
  | nil => simp [sweep]
  | cons v l ih =>
    intro u hu hSub
    obtain ⟨k, hv⟩ := mem_values.1 (hl v (by simp))
    have hk : scheme.norm k = scheme.norm (name v) := hKeyed _ hv
    have hNext := ih fun w hw => hl w (by simp [hw])
    have hSweep : u.sweep name gone (v :: l) =
        (if gone v then u.remove (name v) else u).sweep name gone l := rfl
    rw [hSweep]
    by_cases hGone : gone v = true
    · rw [if_pos hGone, hNext _ (hu.remove _) fun e he => hSub e (mem_entries_of_mem_remove he),
        hu.mem_remove]
      constructor
      · rintro ⟨⟨he, hKey⟩, hNot⟩
        refine ⟨he, fun hBoth => ?_⟩
        rcases List.mem_cons.1 hBoth.2 with rfl | hIn
        · exact hKey (hKeyed e (hSub e he))
        · exact hNot ⟨hBoth.1, hIn⟩
      · rintro ⟨he, hNot⟩
        refine ⟨⟨he, fun hKey => ?_⟩, fun hBoth => hNot ⟨hBoth.1, by simp [hBoth.2]⟩⟩
        have hEq : e = (k, v) := hDistinct.eq_of_mem (hSub e he) hv (hKey.trans hk.symm)
        exact hNot ⟨by rw [hEq]; exact hGone, by simp [hEq]⟩
    · rw [if_neg hGone, hNext u hu hSub]
      constructor
      · rintro ⟨he, hNot⟩
        refine ⟨he, fun hBoth => ?_⟩
        rcases List.mem_cons.1 hBoth.2 with hEq | hIn
        · exact hGone (hEq ▸ hBoth.1)
        · exact hNot ⟨hBoth.1, hIn⟩
      · rintro ⟨he, hNot⟩
        exact ⟨he, fun hBoth => hNot ⟨hBoth.1, by simp [hBoth.2]⟩⟩

theorem Distinct.sweep {t : Table scheme V} (h : t.Distinct) (gone : V → Bool) (l : List V) :
    (t.sweep name gone l).Distinct := by
  induction l generalizing t with
  | nil => exact h
  | cons v l ih =>
    refine @ih (if gone v then t.remove (name v) else t) ?_
    split
    · exact h.remove _
    · exact h

/-- A walk over a whole table leaves the values that are not of the kind. -/
theorem entries_sweep {name : V → K} (gone : V → Bool) {t : Table scheme V} (hDistinct : t.Distinct)
    (hKeyed : t.Keyed name) :
    (t.sweep name gone t.values).entries.Perm (t.entries.filter fun e => !gone e.2) := by
  have hNodup {u : Table scheme V} (hu : u.Distinct) : u.entries.Nodup := hu.of_map _
  refine (List.perm_ext_iff_of_nodup (hNodup (hDistinct.sweep name gone _))
    ((hNodup hDistinct).filter _)).2 fun e => ?_
  rw [mem_sweep hDistinct hKeyed fun _ h => h, List.mem_filter, Bool.not_eq_true']
  refine and_congr_right fun he => ?_
  have hIn : e.2 ∈ t.values := mem_values.2 ⟨e.1, he⟩
  simp [hIn]

omit [DecidableEq N] in
/-- The values that are added under their keys to a table. -/
theorem entries_foldl_add (t : Table scheme V) (l : List V) :
    (l.foldl (fun t v => t.add (name v) v) t).entries.Perm
      (l.map (fun v => (name v, v)) ++ t.entries) := by
  induction l generalizing t with
  | nil => exact .refl _
  | cons v l ih =>
    rw [List.foldl_cons, List.map_cons, List.cons_append]
    exact ((ih _).trans ((t.entries_add _ _).append_left _)).trans List.perm_middle

end Keyed

/-! ### Another view of the values -/

section Map

variable {W : Type} (f : V → W)

/-- The table with each value replaced by what `f` makes of it. -/
def map (t : Table scheme V) : Table scheme W where
  buckets := t.buckets
  positive := t.positive
  chain := fun i => (t.chain i).map fun e => (e.1, f e.2)
  placed := by
    intro i e he
    obtain ⟨d, hd, rfl⟩ := List.mem_map.1 he
    exact t.placed i d hd

omit [DecidableEq N] in
theorem values_map (t : Table scheme V) : (t.map f).values = t.values.map f := by
  simp [values, entries, map, List.map_flatMap, Function.comp_def]

omit [DecidableEq N] in
theorem map_congr {g : V → W} {t : Table scheme V} (h : ∀ v ∈ t.values, f v = g v) :
    t.map f = t.map g := by
  have hChain : (t.map f).chain = (t.map g).chain := by
    funext i
    refine List.map_congr_left fun e he => ?_
    have hSlot : t.slot e.1 = i := t.placed i e he
    have hIn : e ∈ t.entries := mem_entries.2 (by rwa [hSlot])
    rw [h e.2 (mem_values.2 ⟨e.1, hIn⟩)]
  simp only [map] at hChain ⊢
  congr

omit [DecidableEq N] in
theorem add_map (t : Table scheme V) (key : K) (v : V) :
    (t.add key v).map f = (t.map f).add key (f v) := by
  have hChain : ((t.add key v).map f).chain = ((t.map f).add key (f v)).chain := by
    funext i
    show List.map _ (if i = t.slot key then (key, v) :: t.chain i else t.chain i) =
      if i = t.slot key then (key, f v) :: (t.chain i).map _ else (t.chain i).map _
    split <;> rfl
  simp only [map, add] at hChain ⊢
  congr

theorem remove_map (t : Table scheme V) (key : K) : (t.remove key).map f = (t.map f).remove key := by
  have hChain : ((t.remove key).map f).chain = ((t.map f).remove key).chain := by
    funext i
    show List.map _ (if i = t.slot key then (t.chain i).eraseP _ else t.chain i) =
      if i = t.slot key then ((t.chain i).map _).eraseP _ else (t.chain i).map _
    split
    · rw [List.eraseP_map]
      rfl
    · rfl
  simp only [map, remove] at hChain ⊢
  congr

theorem lookup_map (t : Table scheme V) (key : K) : (t.map f).lookup key = (t.lookup key).map f := by
  show (((t.chain (t.slot key)).map _).find? _).map _ = _
  rw [List.find?_map, Option.map_map, lookup, find, Option.map_map]
  rfl

/-- A walk sees only what it asks of the values. -/
theorem sweep_map (name : W → K) (gone : W → Bool) (t : Table scheme V) (l : List V) :
    (t.sweep (fun v => name (f v)) (fun v => gone (f v)) l).map f =
      (t.map f).sweep name gone (l.map f) := by
  induction l generalizing t with
  | nil => rfl
  | cons v l ih =>
    have hStep : (if gone (f v) then t.remove (name (f v)) else t).map f =
        if gone (f v) then (t.map f).remove (name (f v)) else t.map f := by
      split
      · exact remove_map f t _
      · rfl
    simp only [sweep, List.foldl_cons, List.map_cons] at ih ⊢
    rw [ih, hStep]

omit [DecidableEq N] in
theorem foldl_add_map (name : W → K) (t : Table scheme V) (l : List V) :
    (l.foldl (fun t v => t.add (name (f v)) v) t).map f =
      (l.map f).foldl (fun t w => t.add (name w) w) (t.map f) := by
  induction l generalizing t with
  | nil => rfl
  | cons v l ih => rw [List.foldl_cons, ih, List.map_cons, List.foldl_cons, add_map]

end Map

end Table

end Bucket
