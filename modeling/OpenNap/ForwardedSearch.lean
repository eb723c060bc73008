import OpenNap.Arguments
import OpenNap.Catalog
import OpenNap.DatumCounts
import OpenNap.Queries

/-! What a peer reads in the text of a request that is passed on to it.  The text has one comparison
for each attribute and the words in one clause, so that a request with more than that comes out
changed. -/

namespace OpenNap

open CText Memory

/-! ### What a request may have -/

/-- A word that `tokenize` returns: in lower case and not filtered. -/
structure TokenOf (filtered : Str → Bool) (token : Str) : Prop where
  letters : ∀ c ∈ token, wordChar c = true
  lower : strlower token = token
  kept : filtered token = false

/-- A number that an `int` holds. -/
def IsInt (i : Int) : Prop := toInt32 i = i

/-- What every request has that is read from a packet. -/
structure Query.Read (filtered : Str → Bool) (q : Query) : Prop where
  token : ∀ token ∈ q.tokens, TokenOf filtered token
  results : IsInt q.maxResults
  minbitrate : IsInt q.minbitrate
  maxbitrate : IsInt q.maxbitrate
  minfreq : IsInt q.minfreq
  maxfreq : IsInt q.maxfreq
  minspeed : IsInt q.minspeed
  maxspeed : IsInt q.maxspeed
  type : q.type < contentTypes.length

section

variable {filtered : Str → Bool} {cfg : Config} {byUser : Bool} {q r : Query} {l : List Str}

theorem tokenizeWith_kept {text : Str} {token : Str} (h : token ∈ tokenizeWith filtered text) :
    filtered token = false := by
  have hWalk : ∀ l acc : List Str, (∀ w ∈ acc, filtered w = false) →
      ∀ w ∈ l.foldl (fun tokens word =>
        if filtered word || tokens.contains word then tokens else tokens ++ [word]) acc,
      filtered w = false := by
    intro l
    induction l with
    | nil => exact fun acc h => h
    | cons word l ih =>
      intro acc h
      refine ih _ ?_
      beta_reduce
      split
      · exact h
      · rename_i hNew
        have hKept : filtered word = false := by
          cases hCase : filtered word with
          | true => exact absurd (by simp [hCase]) hNew
          | false => rfl
        intro w hIn
        rcases List.mem_append.1 hIn with hIn | hIn
        · exact h w hIn
        · rw [List.mem_singleton.1 hIn]
          exact hKept
  exact hWalk (wordsOf text) [] (by simp) token h

theorem tokenOf_tokenizeWith {text : Str} {token : Str} (h : token ∈ tokenizeWith filtered text) :
    TokenOf filtered token :=
  have hWord := (tokenizeWith_sublist filtered text).subset h
  ⟨rawWords_letters hWord, Depot.rawWords_lower hWord, tokenizeWith_kept h⟩

theorem isInt_toInt32 (i : Int) : IsInt (toInt32 i) := toInt32_toInt32 i

theorem isInt_wholeNumber {arg : Str} {n : Int} (h : wholeNumber arg = some n) : IsInt n := by
  rw [wholeNumber] at h
  split at h
  · cases h
    exact isInt_toInt32 _
  · cases h

theorem isInt_capResults (h : IsInt cfg.maxSearchResults) {n : Int} (hn : IsInt n) :
    IsInt (capResults cfg n) := by
  rw [capResults]
  split
  · exact h
  · exact hn

/-- The two bounds after a comparison are ints when those before it are. -/
theorem isInt_setCompare {op : Str} {val : Int} {bounds bounds' : Int × Int} (hVal : IsInt val)
    (hMin : IsInt bounds.1) (hMax : IsInt bounds.2)
    (h : setCompare byUser op val bounds = some bounds') : IsInt bounds'.1 ∧ IsInt bounds'.2 := by
  simp only [setCompare] at h
  split at h
  · cases h
    exact ⟨hVal, hVal⟩
  · split at h
    · cases h
      exact ⟨hVal, hMax⟩
    · split at h
      · cases h
        exact ⟨hMin, hVal⟩
      · split at h
        · cases h
        · cases h
          exact ⟨hMin, hMax⟩

/-- An attribute's bounds are ints, and ints may be put in their place. -/
theorem Query.Read.bounds {name : Str} {get : Query → Int × Int}
    {put : Query → Int × Int → Query} (h : q.Read filtered) (hName : boundsOf name = some (get, put)) :
    (IsInt (get q).1 ∧ IsInt (get q).2) ∧
      ∀ b, IsInt b.1 → IsInt b.2 → (put q b).Read filtered := by
  unfold boundsOf at hName
  split at hName
  · cases hName
    exact ⟨⟨h.minspeed, h.maxspeed⟩, fun b h₁ h₂ => { h with minspeed := h₁, maxspeed := h₂ }⟩
  · split at hName
    · cases hName
      exact ⟨⟨h.minbitrate, h.maxbitrate⟩, fun b h₁ h₂ => { h with minbitrate := h₁, maxbitrate := h₂ }⟩
    · split at hName
      · cases hName
        exact ⟨⟨h.minfreq, h.maxfreq⟩, fun b h₁ h₂ => { h with minfreq := h₁, maxfreq := h₂ }⟩
      · cases hName

/-- The walk over the arguments keeps what a request that is read has. -/
theorem Query.Read.parse (hInt : IsInt cfg.maxSearchResults)
    (h : parseQuery cfg filtered byUser q l = .query r) (hRead : q.Read filtered) :
    r.Read filtered := by
  fun_induction parseQuery cfg filtered byUser q l with
  | case1 q =>
    cases h
    exact hRead
  | case2 _ _ _ _ _ _ _ ih =>
    refine ih h { hRead with token := fun token hIn => ?_ }
    rcases List.mem_append.1 hIn with hIn | hIn
    · exact hRead.token token hIn
    · exact tokenOf_tokenizeWith hIn
  | case5 _ _ _ _ _ _ n hn ih =>
    exact ih h { hRead with results := isInt_capResults hInt (isInt_wholeNumber hn) }
  | case8 _ _ _ _ _ _ _ n hType ih =>
    obtain ⟨hLess, -⟩ := List.findIdx?_eq_some_iff_getElem.1 hType
    exact ih h { hRead with type := hLess }
  | case11 q _ _ _ _ get put hBounds _ _ _ n hn bounds hSet ih =>
    obtain ⟨⟨hMin, hMax⟩, hPut⟩ := hRead.bounds hBounds
    obtain ⟨hMin', hMax'⟩ := isInt_setCompare (isInt_wholeNumber hn) hMin hMax hSet
    exact ih h (hPut bounds hMin' hMax')
  | case15 _ _ _ _ _ _ _ _ ih => exact ih h { hRead with }
  | case3 | case4 | case6 | case7 | case9 | case10 | case12 | case13 | case14 | case16 => cases h

/-- A request that is accepted has words, ints and a type. -/
theorem readQuery_read (hInt : IsInt cfg.maxSearchResults) {pkt : Str}
    (h : readQuery cfg filtered byUser pkt = .query q) : q.Read filtered := by
  refine Query.Read.parse hInt h ?_
  exact {
    token := by simp
    results := hInt
    minbitrate := rfl
    maxbitrate := rfl
    minfreq := rfl
    maxfreq := rfl
    minspeed := rfl
    maxspeed := rfl
    type := show ctMp3 < contentTypes.length by decide }

end

/-! ### The words -/

/-- The words as `generate_request` writes them, with a blank behind each. -/
def joined (tokens : List Str) : Str := tokens.flatMap (· ++ str " ")

theorem joined_cons (token : Str) (tokens : List Str) :
    joined (token :: tokens) = token ++ ' ' :: joined tokens := by
  simp [joined, str]

section

variable {filtered : Str → Bool} {tokens : List Str}

/-- The words are cut off again as they are when only the last one may be empty. -/
theorem rawWords_joined {fuel : Nat} (hToken : ∀ token ∈ tokens, TokenOf filtered token)
    (hWords : tokens.Pairwise fun a _ => a ≠ []) (hFuel : (joined tokens).length ≤ fuel) :
    rawWords fuel (joined tokens) = tokens := by
  induction tokens generalizing fuel with
  | nil => cases fuel <;> rfl
  | cons token tokens ih =>
    rw [List.forall_mem_cons] at hToken
    rw [List.pairwise_cons] at hWords
    rw [joined_cons] at hFuel ⊢
    rw [List.length_append, List.length_cons] at hFuel
    obtain ⟨fuel, rfl⟩ : ∃ n, fuel = n + 1 := ⟨fuel - 1, by omega⟩
    have hBlank : wordChar ' ' = false := by decide
    cases token with
    | nil =>
      have hNone : tokens = [] := List.eq_nil_iff_forall_not_mem.2 fun b hb => hWords.1 b hb rfl
      subst hNone
      cases fuel <;> rfl
    | cons c cs =>
      have hLetters := hToken.1.letters
      have hRest : rawWords fuel (joined tokens) = tokens := ih hToken.2 hWords.2 (by omega)
      have hSkip : (c :: cs ++ ' ' :: joined tokens).dropWhile (fun d => !wordChar d) =
          c :: cs ++ ' ' :: joined tokens := by simp [hLetters c (by simp)]
      have hTake : (c :: cs ++ ' ' :: joined tokens).takeWhile wordChar = c :: cs := by
        rw [List.takeWhile_append_of_pos hLetters, List.takeWhile_cons_of_neg (by simp [hBlank]),
          List.append_nil]
      have hDrop : (c :: cs ++ ' ' :: joined tokens).dropWhile wordChar = ' ' :: joined tokens := by
        rw [List.dropWhile_append_of_pos hLetters, List.dropWhile_cons_of_neg (by simp [hBlank])]
      rw [List.cons_append] at hSkip hTake hDrop ⊢
      simp only [rawWords, hSkip, hTake, hDrop, hToken.1.lower, List.drop_one, List.tail_cons, hRest]

/-- Words that are neither filtered nor listed before are all listed. -/
theorem foldl_new (hKept : ∀ token ∈ tokens, filtered token = false) {acc : List Str}
    (hNodup : (acc ++ tokens).Nodup) :
    tokens.foldl (fun tokens word =>
      if filtered word || tokens.contains word then tokens else tokens ++ [word]) acc =
        acc ++ tokens := by
  induction tokens generalizing acc with
  | nil => simp
  | cons token tokens ih =>
    rw [List.forall_mem_cons] at hKept
    have hNew : token ∉ acc := fun hIn =>
      (List.nodup_append.1 hNodup).2.2 token hIn token (by simp) rfl
    rw [List.append_cons] at hNodup ⊢
    rw [List.foldl_cons, if_neg (by simp [hKept.1, hNew]), ih hKept.2 hNodup]

/-- The words come out as they are exactly when they are distinct and only the last may be empty. -/
theorem tokenizeWith_joined (hToken : ∀ token ∈ tokens, TokenOf filtered token) :
    tokenizeWith filtered (joined tokens) = tokens ↔
      tokens.Nodup ∧ tokens.Pairwise fun a _ => a ≠ [] := by
  constructor
  · intro h
    rw [← h]
    exact ⟨List.Nodup.of_map _ (Depot.tokenizeWith_distinct filtered _),
      (rawWords_pairwise _ _).sublist (tokenizeWith_sublist filtered _)⟩
  · rintro ⟨hNodup, hWords⟩
    rw [tokenizeWith, wordsOf, rawWords_joined hToken hWords (Nat.le_refl _)]
    exact foldl_new (fun token hIn => (hToken token hIn).kept) hNodup

end

/-! ### The fields of the text -/

theorem ended_showInt (i : Int) : nul ∉ showInt i := by
  have hDigits (n : Nat) : nul ∉ showNat n := fun hIn =>
    absurd (isDigit_of_mem_showNat hIn) (by decide)
  cases i with
  | ofNat n => exact hDigits n
  | negSucc n => simp [showInt, hDigits, show nul ≠ '-' by decide]

/-- A number in a request. -/
def number (i : Int) : Field := .word (showInt i) (word_showInt i) (ended_showInt i)

/-- Text without quotes and ends, as it may stand in a quoted field. -/
def Quotable (q : Str) : Prop := (∀ c ∈ q, isQuote c = false) ∧ nul ∉ q

theorem quotable_equalTo : Quotable (str "EQUAL TO") := ⟨by simp [str, isQuote], by simp [str, nul]⟩

theorem quotable_atLeast : Quotable (str "AT LEAST") := ⟨by simp [str, isQuote], by simp [str, nul]⟩

theorem quotable_atBest : Quotable (str "AT BEST") := ⟨by simp [str, isQuote], by simp [str, nul]⟩

/-- The fields that `generate_qualifier` writes. -/
def qualifierFields (attr : Str) (plain : Word attr) (ended : nul ∉ attr) (min max hardmax : Int) :
    List Field :=
  if 0 < min then
    [.word attr plain ended,
      if min = max then .quoted (str "EQUAL TO") quotable_equalTo.1 quotable_equalTo.2
      else .quoted (str "AT LEAST") quotable_atLeast.1 quotable_atLeast.2,
      number min]
  else if max < hardmax then
    [.word attr plain ended, .quoted (str "AT BEST") quotable_atBest.1 quotable_atBest.2,
      number max]
  else []

theorem generateQualifier_eq (attr : Str) (plain : Word attr) (ended : nul ∉ attr)
    (min max hardmax : Int) : generateQualifier attr min max hardmax =
      (qualifierFields attr plain ended min max hardmax).flatMap fun f => ' ' :: f.shown := by
  rw [generateQualifier, qualifierFields]
  split
  · split <;> simp [Field.shown, number, str]
  · split <;> simp [Field.shown, number, str]

/-- The fields that name the type of a request. -/
def typeFields (type : Nat) (plain : Word (contentTypes.getD type []))
    (ended : nul ∉ contentTypes.getD type []) : List Field :=
  if type ≠ ctMp3 then
    [.word (str "TYPE") (by decide +kernel) (by decide +kernel),
      .word (contentTypes.getD type []) plain ended]
  else []

/-- What the fields of a request need. -/
structure Query.Showable (q : Query) : Prop where
  words : ∀ c ∈ joined q.tokens, isQuote c = false
  ended : nul ∉ joined q.tokens
  type : Word (contentTypes.getD q.type [])
  typeEnded : nul ∉ contentTypes.getD q.type []

theorem wordChar_plain {c : Char} (h : wordChar c = true) : isQuote c = false ∧ c ≠ nul := by
  constructor
  · cases hQuote : isQuote c with
    | false => rfl
    | true =>
      rw [show c = '"' by simpa [isQuote] using hQuote] at h
      exact absurd h (by decide)
  · rintro rfl
    exact absurd h (by decide)

theorem Query.Read.showable {filtered : Str → Bool} {q : Query} (h : q.Read filtered) :
    q.Showable := by
  have hPlain : ∀ c ∈ joined q.tokens, isQuote c = false ∧ c ≠ nul := by
    intro c hc
    obtain ⟨token, hIn, hc⟩ := List.mem_flatMap.1 hc
    rcases List.mem_append.1 hc with hc | hc
    · exact wordChar_plain ((h.token token hIn).letters c hc)
    · rw [show c = ' ' by simpa [str] using hc]
      decide
  have hTypes : ∀ kind ∈ contentTypes, Word kind ∧ nul ∉ kind := by decide +kernel
  have hType : contentTypes.getD q.type [] ∈ contentTypes := by
    rw [List.getD_eq_getElem _ _ h.type]
    exact List.getElem_mem _
  exact ⟨fun c hc => (hPlain c hc).1, fun hIn => (hPlain nul hIn).2 rfl, (hTypes _ hType).1,
    (hTypes _ hType).2⟩

section

variable {q : Query}

/-- The fields of a request. -/
def requestFields (results : Int) (q : Query) (h : q.Showable) : List Field :=
  [.word (str "FILENAME") (by decide +kernel) (by decide +kernel),
    .word (str "CONTAINS") (by decide +kernel) (by decide +kernel),
    .quoted (joined q.tokens) h.words h.ended,
    .word (str "MAX_RESULTS") (by decide +kernel) (by decide +kernel), number results] ++
  typeFields q.type h.type h.typeEnded ++
  qualifierFields (str "BITRATE") (by decide +kernel) (by decide +kernel)
    q.minbitrate q.maxbitrate maxBitrate ++
  qualifierFields (str "FREQ") (by decide +kernel) (by decide +kernel)
    q.minfreq q.maxfreq maxFrequency ++
  qualifierFields (str "LINESPEED") (by decide +kernel) (by decide +kernel)
    q.minspeed q.maxspeed maxSpeed

theorem line_eq (w : Str) (l : List Str) : line (w :: l) = w ++ l.flatMap (' ' :: ·) := by
  induction l generalizing w with
  | nil => simp [line]
  | cons v l ih => rw [line_cons, ih, List.flatMap_cons, List.cons_append]

theorem requestText_eq (results : Int) (h : q.Showable) :
    requestText results q = fieldLine (requestFields results q h) [] := by
  have hType : (if q.type ≠ ctMp3 then str " TYPE " ++ contentTypes.getD q.type [] else []) =
      (typeFields q.type h.type h.typeEnded).flatMap fun f => ' ' :: f.shown := by
    rw [typeFields]
    split <;> simp [Field.shown, str]
  rw [requestText, hType,
    generateQualifier_eq (str "BITRATE") (by decide +kernel) (by decide +kernel),
    generateQualifier_eq (str "FREQ") (by decide +kernel) (by decide +kernel),
    generateQualifier_eq (str "LINESPEED") (by decide +kernel) (by decide +kernel)]
  simp only [requestFields, fieldLine, List.cons_append, List.nil_append, List.map_cons,
    List.map_append, line_eq, List.flatMap_append, List.flatMap_cons, List.flatMap_map]
  simp [Field.shown, number, joined, str]

/-- The arguments of the text are the texts of its fields. -/
theorem args_requestText (results : Int) (h : q.Showable) :
    args (some (requestText results q)) = (requestFields results q h).map Field.text := by
  have hSome : requestFields results q h ≠ [] := by simp [requestFields]
  rw [requestText_eq results h]
  refine (args_fieldLine (List.getLast?_eq_some_getLast hSome) (by simp)).2 ?_
  cases (requestFields results q h).getLast hSome with
  | word => simp [Field.EndsAt]
  | quoted => trivial

end

/-! ### What the peer reads -/

/-- The bounds that are read after the fields of `generate_qualifier`, from those before. -/
def heard (min max hardmax : Int) (b : Int × Int) : Int × Int :=
  if 0 < min then (if min = max then (min, max) else (min, b.2))
  else if max < hardmax then (b.1, max)
  else b

/-- The bounds of an attribute can be said in one comparison. -/
def OneComparison (min max hardmax : Int) : Prop :=
  0 < min ∧ (min = max ∨ max = hardmax) ∨ min = 0 ∧ max ≤ hardmax

/-- The bounds come out as they are when one comparison says them. -/
theorem heard_eq {min max hardmax : Int} :
    heard min max hardmax (0, hardmax) = (min, max) ↔ OneComparison min max hardmax := by
  rw [heard, OneComparison]
  split
  · split
    · simp only [true_iff]
      omega
    · simp only [Prod.mk.injEq, true_and]
      omega
  · split
    · simp only [Prod.mk.injEq, and_true]
      omega
    · simp only [Prod.mk.injEq]
      omega

section

variable {cfg : Config} {filtered : Str → Bool} {byUser : Bool} {q : Query} {rest : List Str}

theorem wholeNumber_showInt {i : Int} (h : IsInt i) : wholeNumber (showInt i) = some i := by
  have hRead := strtol_showInt32 i
  rw [h] at hRead
  rw [wholeNumber, hRead, if_pos rfl, h]

/-- Putting an attribute's own bounds in its place changes nothing. -/
theorem put_get {name : Str} {get : Query → Int × Int} {put : Query → Int × Int → Query}
    (h : boundsOf name = some (get, put)) (q : Query) : put q (get q) = q := by
  unfold boundsOf at h
  split at h
  · cases h
    rfl
  · split at h
    · cases h
      rfl
    · split at h
      · cases h
        rfl
      · cases h

/-- A comparison of an attribute is read. -/
theorem parseQuery_comparison {attr op : Str} {get : Query → Int × Int}
    {put : Query → Int × Int → Query} (hAttr : boundsOf attr = some (get, put))
    (hFile : sameText (str "filename") attr = false)
    (hMax : sameText (str "max_results") attr = false) (hType : sameText (str "type") attr = false)
    {n : Int} (hn : IsInt n) {b : Int × Int} (hSet : setCompare byUser op n (get q) = some b) :
    parseQuery cfg filtered byUser q (attr :: op :: showInt n :: rest) =
      parseQuery cfg filtered byUser (put q b) rest := by
  simp only [parseQuery, hFile, hMax, hType, hAttr, wholeNumber_showInt hn, hSet, Bool.false_eq_true,
    if_false]

/-- The fields of `generate_qualifier` are read. -/
theorem parseQuery_qualifier {attr : Str} {plain : Word attr} {ended : nul ∉ attr}
    {get : Query → Int × Int} {put : Query → Int × Int → Query}
    (hAttr : boundsOf attr = some (get, put)) (hFile : sameText (str "filename") attr = false)
    (hMax : sameText (str "max_results") attr = false) (hType : sameText (str "type") attr = false)
    {min max hardmax : Int} (hMinInt : IsInt min) (hMaxInt : IsInt max) :
    parseQuery cfg filtered byUser q
        ((qualifierFields attr plain ended min max hardmax).map Field.text ++ rest) =
      parseQuery cfg filtered byUser (put q (heard min max hardmax (get q))) rest := by
  have hEqual : ∀ val b, setCompare byUser (str "EQUAL TO") val b = some (val, val) :=
    fun val b => by rw [setCompare, if_pos (by decide +kernel)]
  have hLeast : ∀ val b, setCompare byUser (str "AT LEAST") val b = some (val, b.2) :=
    fun val b => by rw [setCompare, if_neg (by decide +kernel), if_pos (by decide +kernel)]
  have hBest : ∀ val b, setCompare byUser (str "AT BEST") val b = some (b.1, val) :=
    fun val b => by
      rw [setCompare, if_neg (by decide +kernel), if_neg (by decide +kernel), if_pos (by decide +kernel)]
  have hRead {op : Str} {n : Int} {b : Int × Int} (hn : IsInt n)
      (hSet : setCompare byUser op n (get q) = some b) :
      parseQuery cfg filtered byUser q (attr :: op :: showInt n :: rest) =
        parseQuery cfg filtered byUser (put q b) rest :=
    parseQuery_comparison hAttr hFile hMax hType hn hSet
  rw [qualifierFields, heard]
  split
  · split
    · rename_i hSame
      rw [← hSame]
      exact hRead hMinInt (hEqual _ _)
    · exact hRead hMinInt (hLeast _ _)
  · split
    · exact hRead hMaxInt (hBest _ _)
    · rw [put_get hAttr]
      rfl

/-- The fields of the type are read. -/
theorem parseQuery_type {type : Nat} {plain : Word (contentTypes.getD type [])}
    {ended : nul ∉ contentTypes.getD type []} (hType : type < contentTypes.length)
    (hDefault : q.type = ctMp3) :
    parseQuery cfg filtered byUser q ((typeFields type plain ended).map Field.text ++ rest) =
      parseQuery cfg filtered byUser { q with type := type } rest := by
  have hFind : ∀ n < contentTypes.length,
      contentTypes.findIdx? (sameText (contentTypes.getD n [])) = some n := by decide +kernel
  have hKind : sameText (str "type") (str "TYPE") = true := by decide +kernel
  have hFile : sameText (str "filename") (str "TYPE") = false := by decide +kernel
  have hMax : sameText (str "max_results") (str "TYPE") = false := by decide +kernel
  rw [typeFields]
  split
  · simp only [List.map_cons, List.map_nil, Field.text, List.cons_append, List.nil_append]
    rw [parseQuery.eq_def]
    simp only [hKind, hFile, hMax, hFind type hType, Bool.false_eq_true, if_false, if_true]
  · rename_i hMp3
    rw [not_not] at hMp3
    rw [hMp3, ← hDefault]
    rfl

/-- The number of results is read, up to the reader's own limit. -/
theorem parseQuery_maxResults {n : Int} (hn : IsInt n) :
    parseQuery cfg filtered byUser q (str "MAX_RESULTS" :: showInt n :: rest) =
      parseQuery cfg filtered byUser { q with maxResults := capResults cfg n } rest := by
  have hFile : sameText (str "filename") (str "MAX_RESULTS") = false := by decide +kernel
  have hMax : sameText (str "max_results") (str "MAX_RESULTS") = true := by decide +kernel
  rw [parseQuery.eq_def]
  simp only [hFile, hMax, wholeNumber_showInt hn, Bool.false_eq_true, if_false, if_true]

/-- The words are read. -/
theorem parseQuery_words {text : Str} :
    parseQuery cfg filtered byUser q (str "FILENAME" :: str "CONTAINS" :: text :: rest) =
      parseQuery cfg filtered byUser { q with tokens := q.tokens ++ tokenizeWith filtered text }
        rest := by
  have hFile : sameText (str "filename") (str "FILENAME") = true := by decide +kernel
  have hContains : sameText (str "contains") (str "CONTAINS") = true := by decide +kernel
  rw [parseQuery.eq_def]
  simp only [hFile, hContains, if_true]

/-- The request that the peer reads. -/
def Query.heard (cfg : Config) (filtered : Str → Bool) (results : Int) (q : Query) : Query where
  tokens := tokenizeWith filtered (joined q.tokens)
  maxResults := capResults cfg results
  minbitrate := (OpenNap.heard q.minbitrate q.maxbitrate maxBitrate (0, maxBitrate)).1
  maxbitrate := (OpenNap.heard q.minbitrate q.maxbitrate maxBitrate (0, maxBitrate)).2
  minfreq := (OpenNap.heard q.minfreq q.maxfreq maxFrequency (0, maxFrequency)).1
  maxfreq := (OpenNap.heard q.minfreq q.maxfreq maxFrequency (0, maxFrequency)).2
  minspeed := (OpenNap.heard q.minspeed q.maxspeed maxSpeed (0, maxSpeed)).1
  maxspeed := (OpenNap.heard q.minspeed q.maxspeed maxSpeed (0, maxSpeed)).2
  type := q.type

theorem readQuery_requestText {words : Str → Bool} (h : q.Read words) {results : Int}
    (hResults : IsInt results) :
    readQuery cfg filtered byUser (requestText results q) = .query (q.heard cfg filtered results) := by
  rw [readQuery, args_requestText results h.showable]
  simp only [requestFields, List.map_append, List.map_cons, Field.text, number,
    List.cons_append, List.nil_append, List.append_assoc]
  rw [parseQuery_words, parseQuery_maxResults hResults, parseQuery_type h.type rfl]
  rw [parseQuery_qualifier rfl (by decide +kernel) (by decide +kernel) (by decide +kernel)
    h.minbitrate h.maxbitrate]
  rw [parseQuery_qualifier rfl (by decide +kernel) (by decide +kernel) (by decide +kernel)
    h.minfreq h.maxfreq]
  rw [← List.append_nil (List.map _ _), parseQuery_qualifier rfl (by decide +kernel) (by decide +kernel)
    (by decide +kernel) h.minspeed h.maxspeed]
  rfl

end

/-! ### The same question -/

/-- A request for the same files as another, with a number of results. -/
structure SameQuestion (q r : Query) (wanted : Int) : Prop where
  tokens : r.tokens = q.tokens
  type : r.type = q.type
  bitrate : (r.minbitrate, r.maxbitrate) = (q.minbitrate, q.maxbitrate)
  freq : (r.minfreq, r.maxfreq) = (q.minfreq, q.maxfreq)
  speed : (r.minspeed, r.maxspeed) = (q.minspeed, q.maxspeed)
  results : r.maxResults = wanted

/-- A request that the text can say: distinct words, of which only the last may be empty, and one
comparison for each attribute at most. -/
structure Query.Sayable (q : Query) : Prop where
  distinct : q.tokens.Nodup
  words : q.tokens.Pairwise fun a _ => a ≠ []
  bitrate : OneComparison q.minbitrate q.maxbitrate maxBitrate
  freq : OneComparison q.minfreq q.maxfreq maxFrequency
  speed : OneComparison q.minspeed q.maxspeed maxSpeed

section

variable {cfg cfg' : Config} {filtered : Str → Bool} {byUser : Bool} {q : Query}

theorem sameQuestion_heard {wanted : Int} (h : q.Read filtered) :
    SameQuestion q (q.heard cfg' filtered wanted) wanted ↔
      q.Sayable ∧ capResults cfg' wanted = wanted := by
  have hTokens := tokenizeWith_joined h.token
  constructor
  · intro hSame
    obtain ⟨hDistinct, hWords⟩ := hTokens.1 hSame.tokens
    exact ⟨⟨hDistinct, hWords, heard_eq.1 hSame.bitrate, heard_eq.1 hSame.freq,
      heard_eq.1 hSame.speed⟩, hSame.results⟩
  · rintro ⟨hSay, hCap⟩
    exact ⟨hTokens.2 ⟨hSay.distinct, hSay.words⟩, rfl, heard_eq.2 hSay.bitrate,
      heard_eq.2 hSay.freq, heard_eq.2 hSay.speed, hCap⟩

/-- The number of results still wanted fits an `int`. -/
theorem isInt_wanted {n : Int} (h : IsInt q.maxResults) (hn : 0 ≤ n) (hMore : n < q.maxResults) :
    IsInt (q.maxResults - n) := by
  have hBounds := toInt32_bounds q.maxResults
  rw [h] at hBounds
  exact toInt32_eq (by omega) (by omega)

/-- A peer with the same filter reads the same question, for the number of results still wanted,
exactly when the text can say it and the peer's own limit allows for that many. -/
theorem search_forwarded_iff (hInt : IsInt cfg.maxSearchResults) {pkt : Str}
    (h : readQuery cfg filtered byUser pkt = .query q) {n : Int} (hn : 0 ≤ n)
    (hMore : n < q.maxResults) (hFits : (requestText (q.maxResults - n) q).length < 2048) :
    (∃ r, readQuery cfg' filtered false (generateRequest (q.maxResults - n) q) = .query r ∧
        SameQuestion q r (q.maxResults - n)) ↔
      q.Sayable ∧ capResults cfg' (q.maxResults - n) = q.maxResults - n := by
  have hRead := readQuery_read hInt h
  have hWhole : generateRequest (q.maxResults - n) q = requestText (q.maxResults - n) q :=
    List.take_of_length_le (by omega)
  rw [hWhole, readQuery_requestText hRead (isInt_wanted hRead.results hn hMore),
    ← sameQuestion_heard hRead]
  constructor
  · rintro ⟨r, hEq, hSame⟩
    cases hEq
    exact hSame
  · exact fun hSame => ⟨_, rfl, hSame⟩

end

namespace Server

/-- A search for a song of 128 kbit/s at least is passed on as it is. -/
theorem search_forwarded_iff_song :
    ∃ r, readQuery hub.cfg (fun _ => false) false (generateRequest (100 - 0)
        { tokens := [str "song"], maxResults := 100, minbitrate := 128 }) = .query r ∧
      SameQuestion { tokens := [str "song"], maxResults := 100, minbitrate := 128 } r (100 - 0) := by
  have hRead : readQuery hub.cfg (fun _ => false) true
      (str "FILENAME CONTAINS \"song\" BITRATE \"AT LEAST\" 128") =
        .query { tokens := [str "song"], maxResults := 100, minbitrate := 128 } := by decide +kernel
  have hInt : IsInt hub.cfg.maxSearchResults := rfl
  refine (search_forwarded_iff hInt hRead (Int.le_refl 0) (by decide) (by decide +kernel)).2 ?_
  refine ⟨⟨by simp, by simp, ?_, ?_, ?_⟩, by decide +kernel⟩
  · exact .inl ⟨by decide, .inr rfl⟩
  · exact .inr ⟨rfl, by decide⟩
  · exact .inr ⟨rfl, by decide⟩

/-- Of a search for bit rates from 128 to 192 the second bound is lost. -/
theorem second_bound_lost : ¬ ∀ (cfg cfg' : Config) (filtered : Str → Bool) (byUser : Bool)
    (q : Query) (pkt : Str) (n : Int), IsInt cfg.maxSearchResults →
      readQuery cfg filtered byUser pkt = .query q → 0 ≤ n → n < q.maxResults →
      (requestText (q.maxResults - n) q).length < 2048 →
      ∃ r, readQuery cfg' filtered false (generateRequest (q.maxResults - n) q) = .query r ∧
        SameQuestion q r (q.maxResults - n) := by
  intro h
  obtain ⟨r, hRead, hSame⟩ := h hub.cfg hub.cfg (fun _ => false) true
    { tokens := [str "song"], maxResults := 100, minbitrate := 128, maxbitrate := 192 }
    (str "FILENAME CONTAINS \"song\" BITRATE \"AT LEAST\" 128 BITRATE \"AT BEST\" 192") 0 rfl
    (by decide +kernel) (by decide) (by decide) (by decide +kernel)
  have hPeer : readQuery hub.cfg (fun _ => false) false (generateRequest (100 - 0)
      { tokens := [str "song"], maxResults := 100, minbitrate := 128, maxbitrate := 192 }) =
        .query { tokens := [str "song"], maxResults := 100, minbitrate := 128 } := by decide +kernel
  rw [hPeer] at hRead
  cases hRead
  exact absurd hSame.bitrate (by decide)

end Server

end OpenNap
