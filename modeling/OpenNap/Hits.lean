import Mathlib
import OpenNap.Reach

/-! What a search finds.  It walks one bin of the index, the first of those of its words with the
fewest files, and compares the names there with all the words.  A word that only stands inside a longer
one is found by the comparison and not through the bin, so the order of the words can make a
difference. -/

namespace OpenNap

open CText

/-! ### The files that the callback gets -/

/-- What the loop hands to a callback that keeps all it gets, when there is no limit. -/
theorem offerLoop_all (accept : DatumId → Bool) {maxhits hits : Int} (hLimit : maxhits ≤ 0)
    (hHits : 0 ≤ hits) (seen l : List DatumId) :
    (offerLoop (fun seen d => (seen ++ [d], accept d)) maxhits seen hits l).1 = seen ++ l := by
  induction l generalizing seen hits with
  | nil => simp [offerLoop]
  | cons d l ih =>
    simp only [offerLoop]
    split
    · split
      · omega
      · rw [ih (by omega)]
        simp
    · rw [ih hHits]
      simp

namespace Core

/-- The files that `fdb_search` hands to a callback that accepts some of them, when no limit stops it. -/
def hits (s : Core) (accept : DatumId → Bool) (tokens : List Str) : List DatumId :=
  (s.fdbSearch tokens 0 (fun seen d => (seen ++ [d], accept d)) []).1

theorem hits_eq (s : Core) (accept : DatumId → Bool) (tokens : List Str) :
    s.hits accept tokens = s.offered tokens := by
  rw [hits, fdbSearch, offerLoop_all accept (le_refl 0) (le_refl 0), List.nil_append]

/-! ### The bin that is walked -/

/-- The number of files that a bin counts. -/
def size (s : Core) (bin : FlistId) : Int := (s.flist bin).count

/-- Every word has a bin. -/
def Known (s : Core) (tokens : List Str) : Prop :=
  ∀ token ∈ tokens, (s.fileTable.lookup token).isSome = true

/-- The bins of the words. -/
def wordBins (s : Core) (tokens : List Str) : List FlistId := tokens.filterMap s.fileTable.lookup

/-- The files of a bin whose names have all the words. -/
def matching (s : Core) (tokens : List Str) (bin : FlistId) : List DatumId :=
  (s.flist bin).list.filter fun d =>
    (s.datum d).size != invalidSize && matchTokens tokens (s.datum d).filename

section

variable {s : Core} {tokens : List Str}

theorem smallestBin_unknown {token : Str} (hIn : token ∈ tokens)
    (hNone : s.fileTable.lookup token = none) (best : Option FlistId) :
    s.smallestBin tokens best = none := by
  induction tokens generalizing best with
  | nil => cases hIn
  | cons first tokens ih =>
    rw [smallestBin]
    cases hFirst : s.fileTable.lookup first with
    | none => rfl
    | some bin =>
      have hRest : token ∈ tokens := by
        rcases List.mem_cons.1 hIn with rfl | hRest
        · rw [hNone] at hFirst
          cases hFirst
        · exact hRest
      cases best with
      | none => exact ih hRest _
      | some b => exact ih hRest _

theorem smallestBin_some (h : s.Known tokens) (bin : FlistId) :
    s.smallestBin tokens (some bin) = List.argmin s.size (bin :: s.wordBins tokens) := by
  induction tokens generalizing bin with
  | nil => rfl
  | cons token tokens ih =>
    obtain ⟨other, hOther⟩ := Option.isSome_iff_exists.1 (h token (by simp))
    rw [smallestBin, hOther, wordBins, List.filterMap_cons_some hOther]
    simp only
    rw [ih fun token hIn => h token (by simp [hIn])]
    -- of two bins that are equally small the earlier one is kept
    rw [List.argmin, List.argmin, List.foldl_cons, List.foldl_cons, List.foldl_cons]
    congr 1
    by_cases hLess : s.size other < s.size bin
    · simp only [List.argAux, if_pos hLess]
      exact congrArg some (if_pos hLess)
    · simp only [List.argAux, if_neg hLess]
      exact congrArg some (if_neg hLess)

/-- The bin that is walked is the first of the smallest ones. -/
theorem smallestBin_known (h : s.Known tokens) :
    s.smallestBin tokens none = List.argmin s.size (s.wordBins tokens) := by
  cases tokens with
  | nil => rfl
  | cons token tokens =>
    obtain ⟨bin, hBin⟩ := Option.isSome_iff_exists.1 (h token (by simp))
    rw [smallestBin, hBin, wordBins, List.filterMap_cons_some hBin]
    exact smallestBin_some (fun token hIn => h token (by simp [hIn])) bin

theorem smallestBin_none (h : ¬ s.Known tokens) : s.smallestBin tokens none = none := by
  simp only [Known, not_forall] at h
  obtain ⟨token, hIn, hNot⟩ := h
  exact smallestBin_unknown hIn (Option.not_isSome_iff_eq_none.1 hNot) none

/-- The bin that is walked is one of the bins of the words. -/
theorem smallestBin_mem {bin : FlistId} (h : s.smallestBin tokens none = some bin) :
    bin ∈ s.wordBins tokens := by
  by_cases hKnown : s.Known tokens
  · rw [smallestBin_known hKnown] at h
    exact List.argmin_mem h
  · rw [smallestBin_none hKnown] at h
    cases h

theorem mem_offered {d : DatumId} : d ∈ s.offered tokens ↔
    s.Known tokens ∧ ∃ bin ∈ List.argmin s.size (s.wordBins tokens), d ∈ s.matching tokens bin := by
  by_cases h : s.Known tokens
  · rw [offered, smallestBin_known h]
    cases List.argmin s.size (s.wordBins tokens) with
    | none => simp
    | some bin => simp [matching, h]
  · rw [offered, smallestBin_none h]
    simp [h]

end

/-! ### The order of the words -/

/-- No bin of the words is smaller. -/
def Smallest (s : Core) (tokens : List Str) (bin : FlistId) : Prop :=
  bin ∈ s.wordBins tokens ∧ ∀ other ∈ s.wordBins tokens, s.size bin ≤ s.size other

/-- The smallest bins of the words have the same files whose names have all the words. -/
def AgreeOnTies (s : Core) (tokens : List Str) : Prop :=
  s.Known tokens → ∀ a b, s.Smallest tokens a → s.Smallest tokens b →
    ∀ d, d ∈ s.matching tokens a ↔ d ∈ s.matching tokens b

section

variable {s : Core} {tokens other : List Str} {bin : FlistId}

theorem matching_perm (h : other.Perm tokens) : s.matching other bin = s.matching tokens bin := by
  simp only [matching, matchTokens, h.all_eq]

theorem known_perm (h : other.Perm tokens) : s.Known other ↔ s.Known tokens := by
  simp only [Known, h.mem_iff]

theorem wordBins_perm (h : other.Perm tokens) : (s.wordBins other).Perm (s.wordBins tokens) :=
  h.filterMap _

theorem smallest_of_argmin (h : bin ∈ List.argmin s.size (s.wordBins tokens)) :
    s.Smallest tokens bin :=
  ⟨List.argmin_mem h, fun _ hOther => List.le_of_mem_argmin hOther h⟩

theorem Smallest.perm (h : s.Smallest other bin) (hPerm : other.Perm tokens) :
    s.Smallest tokens bin := by
  have hBins := wordBins_perm (s := s) hPerm
  exact ⟨hBins.mem_iff.1 h.1, fun c hc => h.2 c (hBins.mem_iff.2 hc)⟩

/-- Each of the smallest bins is walked when its word comes first. -/
theorem Smallest.first (h : s.Smallest tokens bin) : ∃ other, other.Perm tokens ∧
    bin ∈ List.argmin s.size (s.wordBins other) := by
  obtain ⟨token, hIn, hBin⟩ := List.mem_filterMap.1 h.1
  have hPerm : (token :: tokens.erase token).Perm tokens := (List.perm_cons_erase hIn).symm
  refine ⟨_, hPerm, ?_⟩
  rw [wordBins, List.filterMap_cons_some hBin, List.argmin_cons]
  cases hRest : List.argmin s.size ((tokens.erase token).filterMap s.fileTable.lookup) with
  | none => rfl
  | some c =>
    have hLe : s.size bin ≤ s.size c := by
      refine h.2 c ((wordBins_perm hPerm).mem_iff.1 ?_)
      rw [wordBins, List.filterMap_cons_some hBin]
      exact List.mem_cons_of_mem _ (List.argmin_mem hRest)
    simp [not_lt.2 hLe]

end

/-- A search finds the same files in whatever order its words are given, exactly when the smallest bins
of the words have the same matching files. -/
theorem hits_perm_iff (s : Core) (accept : DatumId → Bool) (tokens : List Str) :
    (∀ other, other.Perm tokens → ∀ d, d ∈ s.hits accept other ↔ d ∈ s.hits accept tokens) ↔
      s.AgreeOnTies tokens := by
  simp only [hits_eq]
  constructor
  · intro h hKnown a b ha hb d
    have hWalked {bin : FlistId} (hBin : s.Smallest tokens bin) :
        d ∈ s.offered tokens ↔ d ∈ s.matching tokens bin := by
      obtain ⟨other, hPerm, hFirst⟩ := hBin.first
      rw [← h other hPerm, mem_offered, known_perm hPerm, ← matching_perm hPerm]
      constructor
      · rintro ⟨-, bin', hBin', hd⟩
        rw [Option.mem_unique hFirst hBin']
        exact hd
      · exact fun hd => ⟨hKnown, bin, hFirst, hd⟩
    rw [← hWalked ha, hWalked hb]
  · intro h
    have hMove {one two : List Str} {d : DatumId} (hOne : one.Perm tokens) (hTwo : two.Perm tokens)
        (hHit : d ∈ s.offered one) : d ∈ s.offered two := by
      obtain ⟨hKnown, a, ha, hd⟩ := mem_offered.1 hHit
      have hBins : a ∈ s.wordBins two :=
        (wordBins_perm (hOne.trans hTwo.symm)).mem_iff.1 (List.argmin_mem ha)
      have hSome : List.argmin s.size (s.wordBins two) ≠ none := fun hNone =>
        List.ne_nil_of_mem hBins (List.argmin_eq_none.1 hNone)
      obtain ⟨b, hb⟩ := Option.ne_none_iff_exists'.1 hSome
      rw [known_perm hOne] at hKnown
      rw [matching_perm hOne] at hd
      rw [mem_offered, known_perm hTwo]
      refine ⟨hKnown, b, hb, ?_⟩
      rw [matching_perm hTwo]
      exact (h hKnown a b ((smallest_of_argmin ha).perm hOne) ((smallest_of_argmin hb).perm hTwo)
        d).1 hd
    exact fun other hPerm d => ⟨hMove hPerm (.refl _), hMove (.refl _) hPerm⟩

end Core

namespace Server

/-- Joe shares two files, each of which has a word inside a longer one of the other. -/
def twoTitles : List Event :=
  [.accept 1 (str "pc") 6699 8888, .packet 0 .login (str "joe pw 6699 \"c\" 3") {},
    .packet 0 .addFile (str "\"foo xbar\" 0 5000 128 44100 9") {},
    .packet 0 .addFile (str "\"xfoo bar\" 0 5000 128 44100 9") {}]

/-- Of two words that are in one bin each, the first decides which of the files is found. -/
theorem order_matters : ¬ ∀ (f : Startup) (events : List Event) (accept : DatumId → Bool)
    (tokens other : List Str), other.Perm tokens → ∀ d,
      d ∈ (reach f events).hits accept other ↔ d ∈ (reach f events).hits accept tokens := by
  intro h
  have hSame := h hub twoTitles (fun _ => true) [str "foo", str "bar"] [str "bar", str "foo"]
    (List.Perm.swap _ _ _)
  have hFirst : (reach hub twoTitles).hits (fun _ => true) [str "foo", str "bar"] = [2] := by
    decide +kernel
  have hSecond : (reach hub twoTitles).hits (fun _ => true) [str "bar", str "foo"] = [5] := by
    decide +kernel
  rw [hFirst, hSecond] at hSame
  exact absurd ((hSame 2).2 (by decide)) (by decide)

end Server

end OpenNap
