import OpenNap.Lib.Memory

/-! The names in the results of a browse: the directory and the base name that `browse_new` cuts a
file name into. -/

namespace OpenNap

open CText Memory

/-- What separates the parts of a path. -/
def isSlash (c : Char) : Bool := c == '/' || c == '\\'

/-- `last_slash`: the last separator behind the byte at `s`, or `s` itself.  Each pass goes on
behind a byte, so that as many passes as there are bytes are enough. -/
def lastSlash (b : Bytes) : Nat → Nat → Checked Nat
  | 0, s => .ok s
  | fuel + 1, s => do
    match ← search isSlash b (s + 1) with
    | none => return s
    | some p => lastSlash b fuel p

/-- `dirname`: the file name in `d`, cut at its last separator. -/
def dirname (d : Bytes) (s : Bytes) : Checked Bytes := do
  let d ← strncpy d 0 (← text s 0) 255
  let d ← store d 255 nul
  let p ← lastSlash d d.length 0
  store d p nul

/-- `my_basename`: what stands behind the last separator. -/
def myBasename (d : Bytes) (s : Bytes) : Checked Bytes := do
  let p ← lastSlash s s.length 0
  let d ← strncpy d 0 (← text s (p + 1)) 255
  store d 255 nul

/-- The two names that `browse_new` reports of a file, cut in buffers with anything in them. -/
def browseNames (path base : Bytes) (filename : Str) : Checked (Str × Str) := do
  let d ← dirname path (filename ++ [nul])
  let b ← myBasename base (filename ++ [nul])
  return (← text d 0, ← text b 0)

/-- The name of a file is made again from its directory and its base name: with the last separator
between them, or from the base name alone when there is no separator. -/
def Rebuilds (filename dir base : Str) : Prop :=
  if filename.any isSlash then
    ∃ c, isSlash c = true ∧ base.any isSlash = false ∧ filename = dir ++ c :: base
  else dir = [] ∧ base = filename

/-- Where the last separator of a string is, if it is not at the start or there is none. -/
structure CutBehind (s front : Str) (c : Char) (rest : Str) : Prop where
  eq : s = front ++ c :: rest
  last : ∀ d ∈ rest, isSlash d = false
  slash : front = [] ∨ isSlash c = true

/-- There is one such place only. -/
theorem CutBehind.unique {s front rest front' rest' : Str} {c c' : Char}
    (h : CutBehind s front c rest) (h' : CutBehind s front' c' rest') :
    front = front' ∧ c = c' ∧ rest = rest' := by
  -- what stands behind the earlier place would have the separator at the later one
  have hNot {s front rest front' rest' : Str} {c c' d : Char} {more : Str}
      (h : CutBehind s front c rest) (h' : CutBehind s front' c' rest')
      (hMore : front' = front ++ d :: more) (hRest : c :: rest = d :: more ++ c' :: rest') : False := by
    rw [List.cons_append, List.cons.injEq] at hRest
    have hLast := h.last c' (by rw [hRest.2]; simp)
    rcases h'.slash with hNil | hSlash
    · rw [hMore] at hNil
      simp at hNil
    · rw [hLast] at hSlash
      cases hSlash
  rcases List.append_eq_append_iff.1 (h.eq.symm.trans h'.eq) with ⟨more, hMore, hRest⟩ | ⟨more, hMore, hRest⟩
  · cases more with
    | nil => simpa [hMore] using hRest
    | cons d more => exact (hNot h h' hMore hRest).elim
  · cases more with
    | nil => simpa [hMore, eq_comm] using hRest
    | cons d more => exact (hNot h' h hMore hRest).elim

theorem isSlash_nul : isSlash nul = false := by decide

/-- `last_slash` comes to the byte behind which there is no separator. -/
theorem lastSlash_ok {b : Bytes} {fuel i : Nat} {s : Str} (h : Holds b i s) (hs : s ≠ [])
    (hFuel : s.length ≤ fuel) :
    ∃ front c rest, CutBehind s front c rest ∧ lastSlash b fuel i = .ok (i + front.length) := by
  induction fuel generalizing i s with
  | zero => exact absurd (List.length_eq_zero_iff.1 (Nat.le_zero.1 hFuel)) hs
  | succ fuel ih =>
    obtain ⟨d, tail, rfl⟩ := List.exists_cons_of_ne_nil hs
    have hTail : Holds b (i + 1) tail := h.drop (List.singleton_append (x := d)).symm
    have hSearch := hTail.search (p := isSlash) isSlash_nul
    simp only [lastSlash, hSearch, ok_bind]
    obtain ⟨hWord, ⟨hNone, hAll⟩ | ⟨c, rest, hc, hSome, hEq⟩⟩ := cutAt_spec isSlash tail
    · refine ⟨[], d, tail, ⟨rfl, ?_, .inl rfl⟩, by rw [hNone]; rfl⟩
      rw [← hAll]
      exact hWord
    · have hNext : Holds b (i + 1 + (cutAt isSlash tail).1.length) (c :: rest) := hTail.drop hEq
      have hLen := congrArg List.length hEq
      simp only [List.length_append, List.length_cons] at hLen hFuel
      obtain ⟨front, c', rest', hCut, hRun⟩ := ih hNext (by simp) (by simp; omega)
      refine ⟨d :: (cutAt isSlash tail).1 ++ front, c', rest', ⟨?_, hCut.last, .inr ?_⟩, ?_⟩
      · rw [List.append_assoc, ← hCut.eq, List.cons_append, ← hEq]
      · rcases hCut.slash with rfl | hSlash
        · have hHead := hCut.eq
          rw [List.nil_append, List.cons.injEq] at hHead
          rw [← hHead.1]
          exact hc
        · exact hSlash
      · rw [hSome]
        simp only [Option.map_some, hRun, List.length_append, List.length_cons, Except.ok.injEq]
        omega

/-- A string that was copied into an array of 256 bytes, with NULs behind it. -/
def padded (s : Str) : Bytes := s ++ List.replicate (256 - s.length) nul

theorem padded_length {s : Str} (h : s.length < 256) : (padded s).length = 256 := by
  simp only [padded, List.length_append, List.length_replicate]
  omega

theorem padded_holds {s : Str} (hPlain : nul ∉ s) (h : s.length < 256) : Holds (padded s) 0 s := by
  refine ⟨hPlain, List.replicate (255 - s.length) nul, ?_⟩
  have hMore : 256 - s.length = 255 - s.length + 1 := by omega
  rw [List.drop_zero, padded, hMore, List.replicate_succ]

/-- The first 255 bytes of a copy. -/
theorem strncpy_front {b : Bytes} {s : Str} (hb : b.length = 256) (h : s.length < 256) :
    strncpy b 0 s 255 = .ok (s ++ List.replicate (255 - s.length) nul ++ b.drop 255) := by
  have hTake : s.take 255 = s := List.take_of_length_le (by omega)
  rw [strncpy_ok (by omega), List.take_zero, List.nil_append, hTake, Nat.zero_add]

/-- A copy that the last byte is made a NUL of. -/
theorem copied {b : Bytes} {s : Str} (hb : b.length = 256) (h : s.length < 256) :
    ∃ c, strncpy b 0 s 255 = .ok c ∧ store c 255 nul = .ok (padded s) := by
  obtain ⟨last, hLast⟩ : ∃ c, b.drop 255 = [c] := List.length_eq_one_iff.1 (by simp [hb])
  have hPad : (s ++ List.replicate (255 - s.length) nul).length = 255 := by
    simp only [List.length_append, List.length_replicate]
    omega
  have hMore : 256 - s.length = 255 - s.length + 1 := by omega
  have hLen : (s ++ List.replicate (255 - s.length) nul ++ [last]).length = 256 := by
    rw [List.length_append, hPad]
    rfl
  refine ⟨_, strncpy_front hb h, ?_⟩
  rw [hLast, store_ok (by omega), List.set_append_right _ _ (by omega), hPad, Nat.sub_self, padded,
    hMore, List.replicate_succ', ← List.append_assoc]
  rfl

/-- Where a file name is cut, the directory and the base name stand on the two sides. -/
theorem browseNames_cut {path base : Bytes} {filename : Str} (hName : filename ≠ [])
    (hPlain : nul ∉ filename) (hShort : filename.length < 256) (hPath : path.length = 256)
    (hBase : base.length = 256) :
    ∃ dir c name, CutBehind filename dir c name ∧
      browseNames path base filename = .ok (dir, name) := by
  have hSelf := holds_self hPlain
  -- the directory
  obtain ⟨d, hCopy, hEnd⟩ := copied hPath hShort
  have hHolds := padded_holds hPlain hShort
  have hd := padded_length hShort
  have hFuel : filename.length ≤ (padded filename).length := by omega
  obtain ⟨dir, c, name, hCut, hSlash⟩ := lastSlash_ok hHolds hName hFuel
  have hDirLess : dir.length < filename.length := by
    rw [hCut.eq]
    simp
  have hDir : dirname path (filename ++ [nul]) = .ok ((padded filename).set dir.length nul) := by
    simp only [dirname, hSelf.text, hCopy, hEnd, hSlash, ok_bind, Nat.zero_add]
    exact store_ok (by omega)
  have hDirText := (hHolds.cut hCut.eq).1.text
  -- the base name
  have hSelfFuel : filename.length ≤ (filename ++ [nul]).length := by simp
  obtain ⟨dir', c', name', hCut', hSlash'⟩ := lastSlash_ok hSelf hName hSelfFuel
  obtain ⟨rfl, rfl, rfl⟩ := hCut'.unique hCut
  have hBehind : Holds (filename ++ [nul]) (dir'.length + 1) name' := by
    have hFront : filename = (dir' ++ [c']) ++ name' := by
      rw [hCut.eq]
      simp
    simpa using hSelf.drop hFront
  have hNameShort : name'.length < 256 := by
    have hLen := congrArg List.length hCut.eq
    simp only [List.length_append, List.length_cons] at hLen
    omega
  obtain ⟨e, hCopy', hEnd'⟩ := copied hBase hNameShort
  have hHolds' := padded_holds hBehind.plain hNameShort
  have hName' : myBasename base (filename ++ [nul]) = .ok (padded name') := by
    simp only [myBasename, hSlash', hBehind.text, hCopy', ok_bind, Nat.zero_add]
    exact hEnd'
  refine ⟨dir', c', name', hCut, ?_⟩
  rw [Nat.zero_add] at hDirText
  simp only [browseNames, hDir, hName', hDirText, hHolds'.text, ok_bind]
  rfl

/-- A client can make the name of a file again from what `browse_new` reports if and only if the
name has a separator: a name without one loses its first byte. -/
theorem browseNames_rebuild {path base : Bytes} {filename : Str} (hName : filename ≠ [])
    (hPlain : nul ∉ filename) (hShort : filename.length < 256) (hPath : path.length = 256)
    (hBase : base.length = 256) :
    ∃ dir name, browseNames path base filename = .ok (dir, name) ∧
      (Rebuilds filename dir name ↔ filename.any isSlash = true) := by
  obtain ⟨dir, c, name, hCut, hRun⟩ := browseNames_cut hName hPlain hShort hPath hBase
  have hLast : name.any isSlash = false := by simpa using hCut.last
  refine ⟨dir, name, hRun, ?_⟩
  by_cases hAny : filename.any isSlash = true
  · have hSlash : isSlash c = true := by
      rcases hCut.slash with rfl | hSlash
      · rw [hCut.eq, List.nil_append, List.any_cons, hLast, Bool.or_false] at hAny
        exact hAny
      · exact hSlash
    simp only [Rebuilds, hAny, if_true, iff_true]
    exact ⟨c, hSlash, hLast, hCut.eq⟩
  · simp only [Rebuilds, hAny, if_false, iff_false, Bool.false_eq_true]
    rintro ⟨rfl, hSame⟩
    have hLen := congrArg List.length hCut.eq
    rw [hSame] at hLen
    simp at hLen

theorem browseNames_rebuild_music :
    ∃ dir name, browseNames (List.replicate 256 'x') (List.replicate 256 'x') (str "/mp3/a.mp3") =
        .ok (dir, name) ∧
      (Rebuilds (str "/mp3/a.mp3") dir name ↔ (str "/mp3/a.mp3").any isSlash = true) :=
  browseNames_rebuild (by decide) (by decide) (by decide) (List.length_replicate ..)
    (List.length_replicate ..)

/-- The name `a.mp3` is reported as `.mp3` without a directory. -/
theorem browseNames_drops_first :
    browseNames (List.replicate 256 'x') (List.replicate 256 'x') (str "a.mp3") =
        .ok ([], str ".mp3") ∧
      ¬ Rebuilds (str "a.mp3") [] (str ".mp3") := by
  refine ⟨by decide +kernel, ?_⟩
  rintro ⟨-, hSame⟩
  exact absurd hSame (by decide)

end OpenNap
