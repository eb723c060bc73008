import OpenNap.Hits
import OpenNap.NewRecords
import OpenNap.TokenMatch

/-! What the index by word has: each file that is shared, under the words of its name that were
entered, and besides only records that are marked.  A search finds the files that have all its words,
except that a name may have more words than are entered, one of which is empty. -/

namespace OpenNap

open CText

/-- The index has each shared file under its words, and of the unmarked records only those. -/
structure Catalog (s : Core) : Prop where
  shelf : Shelf s
  shared : ∀ con, ∀ d ∈ (s.library con).values, ¬ s.Marked d →
    ∀ key ∈ s.wordsOfFile (s.datum d).filename, s.Filed key d
  filed : ∀ key d, s.Filed key d → ¬ s.Marked d → (∃ con, d ∈ (s.library con).values) ∧
    ∃ k ∈ s.wordsOfFile (s.datum d).filename, byName.norm k = byName.norm key

namespace Catalog

variable {s t : Core} {con : ConId} {user : UserId} {info : Datum}

theorem wordsOfFile_congr (h : t.filter = s.filter) (name : Str) :
    t.wordsOfFile name = s.wordsOfFile name := by
  have hSame : t.isFiltered = s.isFiltered := by
    funext word
    rw [Core.isFiltered, h, Core.isFiltered]
  rw [Core.wordsOfFile, Core.tokenize, hSame, Core.wordsOfFile, Core.tokenize]

/-- Records that go are marked, so the index is as right as it was. -/
theorem keeps (h : Catalog s) (hKeeps : Keeps s t) : Catalog t where
  shelf := hKeeps.shelf h.shelf
  shared con d hd hMark key hKey := by
    obtain ⟨hSame, hBefore⟩ := hKeeps.unmarked hMark
    rw [hSame, wordsOfFile_congr hKeeps.filter] at hKey
    have hFiled := h.shared con d ((hKeeps.tables con).subset hd) hBefore key hKey
    exact (hKeeps.listed key d hFiled).resolve_right hMark
  filed key d hFiled hMark := by
    obtain ⟨hSame, hBefore⟩ := hKeeps.unmarked hMark
    obtain ⟨⟨con, hd⟩, hWord⟩ := h.filed key d (hKeeps.filed key d hFiled) hBefore
    rw [hSame, wordsOfFile_congr hKeeps.filter]
    exact ⟨⟨con, (hKeeps.stays con d hd).resolve_right hMark⟩, hWord⟩

/-- A new file is entered under its words. -/
theorem gains (h : Catalog s) (hGains : Gains con user info s t) : Catalog t where
  shelf := hGains.shelf h.shelf
  shared c d hd hMark key hKey := by
    rw [wordsOfFile_congr hGains.filter] at hKey
    rw [hGains.filed]
    by_cases hNew : d = s.next
    · subst hNew
      rw [hGains.new_datum.2.1] at hKey
      exact .inr ⟨rfl, key, hKey, rfl⟩
    · obtain ⟨-, hName, hSize⟩ := hGains.old_datum hNew
      rw [hName] at hKey
      rw [Core.Marked, hSize] at hMark
      have hOld : d ∈ (s.library c).values :=
        (hGains.mem_library.1 hd).resolve_right fun hHere => hNew hHere.2
      exact .inl (h.shared c d hOld hMark key hKey)
  filed key d hFiled hMark := by
    rw [wordsOfFile_congr hGains.filter]
    rcases (hGains.filed key d).1 hFiled with hOld | ⟨rfl, hWord⟩
    · have hNew : d ≠ s.next := by
        rintro rfl
        exact h.shelf.index.fresh key hOld
      obtain ⟨-, hName, hSize⟩ := hGains.old_datum hNew
      rw [Core.Marked, hSize] at hMark
      rw [hName]
      obtain ⟨⟨c, hd⟩, hWord⟩ := h.filed key d hOld hMark
      exact ⟨⟨c, hGains.mem_library.2 (.inl hd)⟩, hWord⟩
    · rw [hGains.new_datum.2.1]
      exact ⟨⟨con, hGains.mem_library.2 (.inr ⟨rfl, rfl⟩)⟩, hWord⟩

/-- Every operation keeps the index right. -/
theorem op {ok : Label → Core → Prop} (hOp : Op ok s t) (hSound : Sound s) (hHotlists : Hotlists s)
    (h : Catalog s) : Catalog t := by
  rcases Tidy.op hOp hSound hHotlists with hTidy | ⟨con, user, info, hClient, -, -, -, rfl⟩
  · exact h.keeps (hTidy h.shelf)
  · exact h.gains (gains_insertDatum h.shelf.index ((hHotlists.options con).2 hClient) user info)

theorem start (f : Startup) : Catalog (Core.start f) := by
  obtain ⟨hLibrary, hEntries⟩ := start_empty f
  have hFiled (key : Str) (d : DatumId) : ¬ (Core.start f).Filed key d := by
    simp [Core.Filed, hEntries]
  refine ⟨Shelf.start f, ?_, ?_⟩ <;> simp [hLibrary, hFiled]

end Catalog

theorem Server.reach_catalog (f : Startup) (events : List Event) :
    let s := Server.reach f events
    Sound s.toCore ∧ Hotlists s.toCore ∧ Catalog s.toCore := by
  refine Server.reach_keeps (I := fun s => Hotlists s ∧ Catalog s) ?_
    ⟨Hotlists.start f, Catalog.start f⟩ events
  rintro s t hSound hOp ⟨hHotlists, h⟩
  exact ⟨hHotlists.op hOp hSound, h.op hOp hSound hHotlists⟩

/-! ### The words of a name -/

/-- A word as a search has it. -/
structure SearchWord (token : Str) : Prop where
  some : token ≠ []
  lower : strlower token = token
  letters : ∀ c ∈ token, wordChar c = true

section

variable {fuel : Nat} {s w : Str}

theorem wordChar_toLower {c : Char} (h : wordChar c = true) : wordChar c.toLower = true := by
  by_cases hUpper : 65 ≤ c.toNat ∧ c.toNat ≤ 90
  · have hLower : c.toLower.toNat = c.toNat + 32 := by rw [toNat_toLower, if_pos hUpper]
    have hLetter : (decide (97 ≤ c.toLower.toNat) && decide (c.toLower.toNat ≤ 122)) = true := by
      simp only [Bool.and_eq_true, decide_eq_true_eq]
      omega
    have hAlpha : c.toLower.isAlpha = true := by
      change (c.toLower.isUpper || c.toLower.isLower) = true
      exact Bool.or_eq_true_iff.2 (.inr hLetter)
    simp [wordChar, Char.isAlphanum, hAlpha]
  · have hSame : c.toLower = c := by rw [← Char.toNat_inj, toNat_toLower, if_neg hUpper]
    rwa [hSame]

theorem rawWords_letters (h : w ∈ rawWords fuel s) : ∀ c ∈ w, wordChar c = true := by
  fun_induction rawWords fuel s with
  | case1 => cases h
  | case2 => cases h
  | case3 fuel c cs rest ih =>
    rcases List.mem_cons.1 h with rfl | h
    · intro c hc
      obtain ⟨d, hd, rfl⟩ := List.mem_map.1 hc
      exact wordChar_toLower (List.mem_takeWhile_imp hd)
    · exact ih h

/-- A word stands in the text. -/
theorem rawWords_infix (h : w ∈ rawWords fuel s) : w <:+: strlower s := by
  fun_induction rawWords fuel s with
  | case1 => cases h
  | case2 => cases h
  | case3 fuel c cs rest ih =>
    have hRest : strlower rest <:+: strlower (c :: cs) :=
      (List.dropWhile_suffix _).isInfix.map _
    rcases List.mem_cons.1 h with rfl | h
    · exact ((List.takeWhile_prefix _).isInfix.map _).trans hRest
    · refine (ih h).trans (List.IsInfix.trans ?_ hRest)
      exact (((List.drop_suffix _ _).trans (List.dropWhile_suffix _)).isInfix).map _

/-- Only the last word may be empty. -/
theorem rawWords_pairwise (fuel : Nat) (s : Str) : (rawWords fuel s).Pairwise fun a _ => a ≠ [] := by
  fun_induction rawWords fuel s with
  | case1 => exact .nil
  | case2 => exact .nil
  | case3 fuel c cs rest ih =>
    refine .cons (fun w hw hEmpty => ?_) ih
    -- where no word begins, nothing is left
    cases hText : rest with
    | nil =>
      rw [hText] at hw
      cases fuel <;> cases hw
    | cons x xs =>
      have hWord : wordChar x = true := by
        have hHead := List.head?_dropWhile_not (fun d => !wordChar d) (c :: cs)
        rw [show (c :: cs).dropWhile (fun d => !wordChar d) = x :: xs from hText] at hHead
        simpa using hHead
      rw [hText, List.takeWhile_cons_of_pos hWord] at hEmpty
      cases hEmpty

theorem tokenizeWith_sublist (filtered : Str → Bool) (text : Str) :
    (tokenizeWith filtered text).Sublist (wordsOf text) := by
  have hWalk : ∀ l acc before : List Str, acc.Sublist before → (l.foldl (fun tokens word =>
      if filtered word || tokens.contains word then tokens else tokens ++ [word]) acc).Sublist
        (before ++ l) := by
    intro l
    induction l with
    | nil => exact fun acc before h => by simpa using h
    | cons word l ih =>
      intro acc before h
      rw [List.append_cons before]
      refine ih _ _ ?_
      beta_reduce
      split
      · exact h.trans (List.sublist_append_left _ _)
      · exact h.append_right _
  exact hWalk _ [] [] (List.Sublist.refl _)

end

namespace Core

/-- The words of a name that are not empty. -/
def realWords (s : Core) (name : Str) : List Str := (s.tokenize name).filter fun word => word ≠ []

/-- A name has thirty words and an empty one, so that one of the thirty is not entered. -/
def Overfull (s : Core) (name : Str) : Prop :=
  (s.realWords name).length = 30 ∧ [] ∈ s.tokenize name

section

variable {s : Core} {name word : Str}

theorem mem_realWords : word ∈ s.realWords name ↔ word ∈ s.tokenize name ∧ word ≠ [] := by
  simp [realWords]

/-- The words of a name are as a search has them. -/
theorem searchWord (h : word ∈ s.realWords name) : SearchWord word := by
  obtain ⟨hIn, hSome⟩ := mem_realWords.1 h
  have hRaw := (tokenizeWith_sublist s.isFiltered name).subset hIn
  exact ⟨hSome, Depot.rawWords_lower hRaw, rawWords_letters hRaw⟩

theorem tokenize_nodup : (s.tokenize name).Nodup :=
  (Depot.tokenizeWith_distinct s.isFiltered name).of_map _

/-- There is at most one empty word. -/
theorem length_tokenize : (s.tokenize name).length =
    (s.realWords name).length + if [] ∈ s.tokenize name then 1 else 0 := by
  have hSplit := (List.filter_append_perm (fun word => decide (word ≠ [])) (s.tokenize name)).length_eq
  rw [List.length_append] at hSplit
  have hEmpty : ((s.tokenize name).filter fun word => !decide (word ≠ [])).length =
      if [] ∈ s.tokenize name then 1 else 0 := by
    rw [← List.countP_eq_length_filter, ← tokenize_nodup.count, List.count]
    congr 1
    funext word
    cases word <;> rfl
  rw [← hSplit, hEmpty, realWords]

/-- A name with few words is entered under all of them. -/
theorem wordsOfFile_eq (hFew : (s.realWords name).length ≤ 30) (hNot : ¬ s.Overfull name) :
    s.wordsOfFile name = s.tokenize name := by
  have hLength : (s.tokenize name).length ≤ 30 := by
    rw [length_tokenize]
    split
    · rename_i hEmpty
      have hNe : (s.realWords name).length ≠ 30 := fun hThirty => hNot ⟨hThirty, hEmpty⟩
      omega
    · exact hFew
  rw [wordsOfFile, indexTokens, show (s.tokenize name).length - 30 = 0 by omega, List.drop_zero]

/-- The first word of an overfull name is not entered. -/
theorem Overfull.dropped (h : s.Overfull name) :
    ∃ word ∈ s.realWords name, word ∉ s.wordsOfFile name := by
  have hLength : (s.tokenize name).length = 31 := by rw [length_tokenize, h.1, if_pos h.2]
  obtain ⟨word, rest, hWords⟩ := List.exists_cons_of_length_eq_add_one hLength
  have hRest : s.wordsOfFile name = rest := by
    rw [wordsOfFile, indexTokens, hLength, hWords]
    rfl
  have hNodup : (word :: rest).Nodup := hWords ▸ tokenize_nodup
  have hFirst : word ≠ [] := by
    have hPairs : (word :: rest).Pairwise fun a _ => a ≠ [] := by
      rw [← hWords]
      exact (rawWords_pairwise _ _).sublist (tokenizeWith_sublist s.isFiltered name)
    have hSome : rest ≠ [] := by
      rintro rfl
      rw [hWords] at hLength
      simp at hLength
    obtain ⟨other, hOther⟩ := List.exists_mem_of_ne_nil rest hSome
    exact (List.pairwise_cons.1 hPairs).1 other hOther
  refine ⟨word, mem_realWords.2 ⟨by rw [hWords]; simp, hFirst⟩, ?_⟩
  rw [hRest]
  exact (List.nodup_cons.1 hNodup).1

end

end Core

/-! ### What a search finds -/

/-- A search offers shared files that have all its words, each once, and misses none that is not
marked and has them among its first words. -/
structure FindsFiles (s : Core) (accept : DatumId → Bool) (tokens : List Str) : Prop where
  shared : ∀ d ∈ s.hits accept tokens, ∃ con user, s.Client con ∧ (s.con con).user = some user ∧
    user ∈ s.users.values ∧ d ∈ (s.library con).values
  named : ∀ d ∈ s.hits accept tokens, ∀ token ∈ tokens, Occurs token (s.datum d).filename
  once : (s.hits accept tokens).Nodup
  complete : ∀ con, ∀ d ∈ (s.library con).values, ¬ s.Marked d →
    (s.realWords (s.datum d).filename).length ≤ 30 →
    (∀ token ∈ tokens, token ∈ s.realWords (s.datum d).filename) → d ∈ s.hits accept tokens

section

variable {s : Core} {accept : DatumId → Bool} {tokens : List Str} {d : DatumId}

theorem mem_matching {bin : FlistId} : d ∈ s.matching tokens bin ↔
    d ∈ (s.flist bin).list ∧ ¬ s.Marked d ∧ matchTokens tokens (s.datum d).filename = true := by
  simp [Core.matching, Core.Marked]

theorem matchTokens_occurs {file : Str} (hTokens : ∀ token ∈ tokens, token ≠ []) :
    matchTokens tokens file = true ↔ ∀ token ∈ tokens, Occurs token file := by
  rw [matchTokens, List.all_eq_true]
  refine forall₂_congr fun token hIn => ?_
  cases token with
  | nil => exact absurd rfl (hTokens [] hIn)
  | cons x tail => exact tokenIn_iff

/-- A file that is found is in the bin of one of the words. -/
theorem filed_of_hit (hIndex : WordIndex s) (h : d ∈ s.hits accept tokens) :
    ¬ s.Marked d ∧ matchTokens tokens (s.datum d).filename = true ∧
      ∃ token ∈ tokens, s.Filed token d := by
  rw [Core.hits_eq] at h
  obtain ⟨-, bin, hBin, hd⟩ := Core.mem_offered.1 h
  obtain ⟨hIn, hMark, hMatch⟩ := mem_matching.1 hd
  obtain ⟨token, hToken, hLookup⟩ := List.mem_filterMap.1 (List.argmin_mem hBin)
  exact ⟨hMark, hMatch, token, hToken, hIndex.filed_iff.2 ⟨bin, hLookup, hIn⟩⟩

/-- A file that is entered under all the words and has them in its name is found. -/
theorem hit_of_filed (hIndex : WordIndex s) (hSome : tokens ≠ []) (hMark : ¬ s.Marked d)
    (hMatch : matchTokens tokens (s.datum d).filename = true)
    (hFiled : ∀ token ∈ tokens, s.Filed token d) : d ∈ s.hits accept tokens := by
  have hBin (token : Str) (hIn : token ∈ tokens) := hIndex.filed_iff.1 (hFiled token hIn)
  have hKnown : s.Known tokens := by
    intro token hIn
    obtain ⟨bin, hLookup, -⟩ := hBin token hIn
    rw [hLookup]
    rfl
  obtain ⟨token, hToken⟩ := List.exists_mem_of_ne_nil tokens hSome
  obtain ⟨first, hFirst, -⟩ := hBin token hToken
  have hBins : s.wordBins tokens ≠ [] :=
    List.ne_nil_of_mem (List.mem_filterMap.2 ⟨token, hToken, hFirst⟩)
  have hFound : List.argmin s.size (s.wordBins tokens) ≠ none := fun hNone =>
    hBins (List.argmin_eq_none.1 hNone)
  obtain ⟨bin, hWalked⟩ := Option.ne_none_iff_exists'.1 hFound
  obtain ⟨other, hOther, hLookup⟩ := List.mem_filterMap.1 (List.argmin_mem hWalked)
  obtain ⟨bin', hLookup', hIn⟩ := hBin other hOther
  rw [hLookup] at hLookup'
  obtain rfl := Option.some.inj hLookup'
  rw [Core.hits_eq, Core.mem_offered]
  exact ⟨hKnown, bin, hWalked, mem_matching.2 ⟨hIn, hMark, hMatch⟩⟩

theorem hits_nodup (hIndex : WordIndex s) : (s.hits accept tokens).Nodup := by
  rw [Core.hits_eq, Core.offered]
  cases hBin : s.smallestBin tokens none with
  | none => exact List.nodup_nil
  | some bin =>
    obtain ⟨token, -, hLookup⟩ := List.mem_filterMap.1 (Core.smallestBin_mem hBin)
    exact List.Nodup.filter _ (hIndex.once bin (Bucket.Table.mem_values_of_lookup hLookup))

/-- The words of a name stand in it. -/
theorem realWords_occur {name word : Str} (h : word ∈ s.realWords name) : Occurs word name := by
  have hIn := (tokenizeWith_sublist s.isFiltered name).subset (Core.mem_realWords.1 h).1
  rw [Occurs, (Core.searchWord h).lower]
  exact rawWords_infix hIn

end

namespace Server

/-- In every state that is reached, every search finds the files that have its words, exactly when no
shared file has a name with one word too many. -/
theorem search_right_iff (f : Startup) (events : List Event) (accept : DatumId → Bool) :
    let s := (reach f events).toCore
    (∀ tokens, tokens ≠ [] → (∀ token ∈ tokens, SearchWord token) → FindsFiles s accept tokens) ↔
      ∀ con, ∀ d ∈ (s.library con).values, ¬ s.Marked d → ¬ s.Overfull (s.datum d).filename := by
  intro s
  obtain ⟨hSound, hHotlists, hCatalog⟩ : Sound s ∧ Hotlists s ∧ Catalog s := reach_catalog f events
  have hIndex := hCatalog.shelf.index
  constructor
  · intro h con d hd hMark hOver
    obtain ⟨word, hWord, hNot⟩ := hOver.dropped
    have hFinds := h [word] (by simp) fun token hIn => by
      rw [List.mem_singleton.1 hIn]
      exact Core.searchWord hWord
    have hHit := hFinds.complete con d hd hMark (le_of_eq hOver.1) fun token hIn => by
      rw [List.mem_singleton.1 hIn]
      exact hWord
    obtain ⟨-, -, token, hToken, hFiled⟩ := filed_of_hit hIndex hHit
    rw [List.mem_singleton.1 hToken] at hFiled
    obtain ⟨-, k, hk, hNorm⟩ := hCatalog.filed word d hFiled hMark
    have hSame : k = word := by
      have hLower : strlower k = k :=
        Depot.rawWords_lower ((tokenizeWith_sublist s.isFiltered _).subset (List.mem_of_mem_drop hk))
      rw [← hLower, ← (Core.searchWord hWord).lower]
      exact hNorm
    exact hNot (hSame ▸ hk)
  · intro h tokens hSome hTokens
    have hNonempty : ∀ token ∈ tokens, token ≠ [] := fun token hIn => (hTokens token hIn).some
    refine ⟨fun d hd => ?_, fun d hd => ?_, hits_nodup hIndex, fun con d hd hMark hFew hWords => ?_⟩
    · obtain ⟨hMark, -, token, -, hFiled⟩ := filed_of_hit hIndex hd
      obtain ⟨⟨con, hIn⟩, -⟩ := hCatalog.filed token d hFiled hMark
      have hOptions : (s.con con).uopt.isSome = true := by
        cases hNone : (s.con con).uopt with
        | some => rfl
        | none => simp [Core.library, Core.files, hNone] at hIn
      have hClient := (hHotlists.options con).1 hOptions
      obtain ⟨user, hUser, hOwner, -⟩ := hSound.registry.client con hClient.1 hClient.2
      exact ⟨con, user, hClient, hOwner, hUser, hIn⟩
    · exact (matchTokens_occurs hNonempty).1 (filed_of_hit hIndex hd).2.1
    · refine hit_of_filed hIndex hSome hMark ?_ fun token hIn => ?_
      · exact (matchTokens_occurs hNonempty).2 fun token hIn => realWords_occur (hWords token hIn)
      · refine hCatalog.shared con d hd hMark token ?_
        rw [Core.wordsOfFile_eq hFew (h con d hd hMark)]
        exact (Core.mem_realWords.1 (hWords token hIn)).1

/-- Joe shares a file with thirty words in its name, and something behind the last. -/
def thirtyAndMore : List Event :=
  [.accept 1 (str "pc") 6699 8888, .packet 0 .login (str "joe pw 6699 \"c\" 3") {},
    .packet 0 .addFile
      (str "\"a b c d e f g h i j k l m n o p q r s t u v w x y z 0 1 2 3 !\" 0 5000 128 44100 9") {}]

/-- It is not found under the first of them. -/
theorem first_word_lost : ¬ ∀ (f : Startup) (events : List Event) (accept : DatumId → Bool)
    (tokens : List Str), tokens ≠ [] → (∀ token ∈ tokens, SearchWord token) →
      FindsFiles (reach f events).toCore accept tokens := by
  intro h
  have hWord : SearchWord (str "a") :=
    ⟨by decide +kernel, by decide +kernel, List.all_eq_true.1 (by decide +kernel)⟩
  have hFinds := h hub thirtyAndMore (fun _ => true) [str "a"] (by simp) (by simpa using hWord)
  have hShared : 2 ∈ ((reach hub thirtyAndMore).library 0).values := by decide +kernel
  have hMark : ((reach hub thirtyAndMore).datum 2).size ≠ invalidSize := by decide +kernel
  have hThirty : ((reach hub thirtyAndMore).realWords
      ((reach hub thirtyAndMore).datum 2).filename).length = 30 := by decide +kernel
  have hFirst : str "a" ∈ (reach hub thirtyAndMore).realWords
      ((reach hub thirtyAndMore).datum 2).filename := by decide +kernel
  have hHit := hFinds.complete 0 2 hShared hMark (le_of_eq hThirty) (by simpa using hFirst)
  have hNone : (reach hub thirtyAndMore).hits (fun _ => true) [str "a"] = [] := by decide +kernel
  rw [hNone] at hHit
  cases hHit

end Server

end OpenNap
