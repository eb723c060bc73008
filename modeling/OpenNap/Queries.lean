import OpenNap.SearchEnds
import OpenNap.Sent

/-! What a search request comes down to: the words that `tokenize` finds in a text, and the number of
results that are sent for it. -/

namespace OpenNap

open CText

/-! ### Words -/

/-- The maximal runs of word characters of a text. -/
def wordRuns (s : Str) : List Str := (s.splitOnP fun c => !wordChar c).filter fun w => !w.isEmpty

/-- The distinct words of a text in lower case that are not filtered, in the order in which they
occur first. -/
def distinctWords (filtered : Str → Bool) (s : Str) : List Str :=
  (((wordRuns s).map strlower).filter fun w => !filtered w).eraseDups

@[simp] theorem wordRuns_nil : wordRuns [] = [] := by
  simp [wordRuns, List.splitOnP_nil]

theorem wordRuns_word {w : Str} (hw : w ≠ []) (h : ∀ c ∈ w, wordChar c = true) :
    wordRuns w = [w] := by
  rw [wordRuns, List.splitOnP_eq_singleton fun c hc => by simp [h c hc]]
  simp [hw]

theorem wordRuns_append_cons (a b : Str) {sep : Char} (h : wordChar sep = false) :
    wordRuns (a ++ sep :: b) = wordRuns a ++ wordRuns b := by
  rw [wordRuns, List.splitOnP_append_cons a b (by simp [h]), List.filter_append]
  rfl

theorem wordRuns_cons {sep : Char} (h : wordChar sep = false) (b : Str) :
    wordRuns (sep :: b) = wordRuns b := by
  simpa using wordRuns_append_cons [] b h

theorem wordRuns_dropWhile (s : Str) : wordRuns (s.dropWhile fun c => !wordChar c) = wordRuns s := by
  induction s with
  | nil => rfl
  | cons c s ih =>
    cases hWord : wordChar c with
    | true => simp [hWord]
    | false => simpa [hWord, wordRuns_cons hWord] using ih

/-- Two separators end the text, or it is a single one. -/
def stray (s : Str) : Bool := !s.isEmpty && (s.reverse.take 2).all fun c => !wordChar c

theorem stray_of_separators {s : Str} (hs : s ≠ []) (h : ∀ c ∈ s, wordChar c = false) :
    stray s = true := by
  have hAll : ∀ c ∈ s.reverse.take 2, wordChar c = false :=
    fun c hc => h c (List.mem_reverse.1 (List.mem_of_mem_take hc))
  simpa [stray, hs] using hAll

theorem stray_concat_word (a : Str) {e : Char} (he : wordChar e = true) :
    stray (a ++ [e]) = false := by
  simp [stray, he]

/-- What comes before a word and a separator does not matter. -/
theorem stray_append (a : Str) {e sep : Char} (b : Str) (he : wordChar e = true)
    (hSep : wordChar sep = false) : stray (a ++ e :: sep :: b) = stray b := by
  have hReverse : (a ++ e :: sep :: b).reverse = b.reverse ++ sep :: e :: a.reverse := by simp
  rw [stray, stray, hReverse]
  cases hShape : b.reverse with
  | nil =>
    obtain rfl := List.reverse_eq_nil_iff.1 hShape
    simp [he]
  | cons x xs =>
    have hSome : b ≠ [] := by
      rintro rfl
      cases hShape
    have hEmpty : b.isEmpty = false := by simpa using hSome
    have hEmpty' : (a ++ e :: sep :: b).isEmpty = false := by simp
    rw [hEmpty, hEmpty']
    cases xs with
    | nil => simp [hSep]
    | cons y ys => simp

theorem ne_nil_of_mem_wordRuns {s w : Str} (h : w ∈ (wordRuns s).map strlower) : w ≠ [] := by
  obtain ⟨v, hv, rfl⟩ := List.mem_map.1 h
  have hSome := (List.mem_filter.1 hv).2
  cases v with
  | nil => cases hSome
  | cons c v => exact List.cons_ne_nil _ _

/-- The loop of `tokenize` cuts off the words, and an empty one where stray separators end the
text. -/
theorem rawWords_eq {fuel : Nat} {s : Str} (hFuel : s.length ≤ fuel) :
    rawWords fuel s = (wordRuns s).map strlower ++ if stray s then [[]] else [] := by
  induction fuel generalizing s with
  | zero =>
    obtain rfl := List.eq_nil_of_length_eq_zero (Nat.le_zero.1 hFuel)
    rfl
  | succ fuel ih =>
    cases s with
    | nil => rfl
    | cons c cs =>
      have hSplit := List.takeWhile_append_dropWhile (p := fun d => !wordChar d) (l := c :: cs)
      have hSkipped : ∀ d ∈ (c :: cs).takeWhile fun d => !wordChar d, wordChar d = false :=
        fun d hd => by simpa using List.mem_takeWhile_imp hd
      rw [rawWords, ← wordRuns_dropWhile]
      have hHead := List.head?_dropWhile_not (fun d => !wordChar d) (c :: cs)
      have hShorter := (List.dropWhile_sublist (fun d => !wordChar d) (l := c :: cs)).length_le
      generalize (c :: cs).takeWhile (fun d => !wordChar d) = skipped at hSplit hSkipped
      generalize (c :: cs).dropWhile (fun d => !wordChar d) = t at hSplit hHead hShorter ⊢
      rw [← hSplit]
      cases t with
      | nil =>
        have hStray : stray (skipped ++ []) = true := by
          refine stray_of_separators (by rw [hSplit]; simp) ?_
          simpa using hSkipped
        rw [hStray]
        cases fuel <;> rfl
      | cons d ds =>
        have hd : wordChar d = true := by simpa using hHead
        have hWord : ∀ e ∈ (d :: ds).takeWhile wordChar, wordChar e = true :=
          fun e he => List.mem_takeWhile_imp he
        have hSome : (d :: ds).takeWhile wordChar ≠ [] := by simp [hd]
        have hRest := List.head?_dropWhile_not wordChar (d :: ds)
        have hLess := (List.dropWhile_sublist wordChar (l := d :: ds)).length_le
        have hWhole := (List.takeWhile_append_dropWhile (p := wordChar) (l := d :: ds)).symm
        generalize (d :: ds).takeWhile wordChar = w at hWord hSome hWhole ⊢
        generalize (d :: ds).dropWhile wordChar = rest at hRest hLess hWhole ⊢
        rw [hWhole]
        obtain ⟨v, e, rfl⟩ : ∃ v e, w = v ++ [e] := by
          rcases List.eq_nil_or_concat w with rfl | ⟨v, e, rfl⟩
          · exact absurd rfl hSome
          · exact ⟨v, e, List.concat_eq_append⟩
        have he : wordChar e = true := hWord e (by simp)
        cases rest with
        | nil =>
          rw [List.append_nil, wordRuns_word hSome hWord, ← List.append_assoc,
            stray_concat_word _ he]
          cases fuel <;> rfl
        | cons sep b =>
          have hSep : wordChar sep = false := by simpa using hRest
          have hShort : b.length ≤ fuel := by
            simp only [List.length_cons] at hFuel hLess hShorter
            omega
          have hSplit' : skipped ++ (v ++ [e] ++ sep :: b) = skipped ++ v ++ e :: sep :: b := by simp
          rw [wordRuns_append_cons _ _ hSep, wordRuns_word hSome hWord, hSplit',
            stray_append _ b he hSep, List.drop_one, List.tail_cons, ih hShort]
          rfl

/-- Words are listed once, and those that are filtered are not. -/
theorem foldl_tokens (filtered : Str → Bool) (l acc : List Str) :
    l.foldl (fun tokens w => if filtered w || tokens.contains w then tokens else tokens ++ [w]) acc =
      acc ++ ((l.filter fun w => !filtered w).removeAll acc).eraseDups := by
  induction l generalizing acc with
  | nil => simp [List.removeAll]
  | cons w l ih =>
    rw [List.foldl_cons]
    cases hFiltered : filtered w with
    | true =>
      rw [Bool.true_or, if_pos rfl, ih, List.filter_cons_of_neg (by simp [hFiltered])]
    | false =>
      rw [Bool.false_or, List.filter_cons_of_pos (by simp [hFiltered]), List.cons_removeAll]
      cases hListed : acc.contains w with
      | true =>
        rw [if_pos rfl, ih, if_neg (by simp)]
      | false =>
        have hRest : (l.filter fun v => !filtered v).removeAll (acc ++ [w]) =
            ((l.filter fun v => !filtered v).removeAll acc).filter fun v => !v == w := by
          rw [List.removeAll, List.removeAll, List.filter_filter (p := fun v => !v == w)]
          refine List.filter_congr fun v _ => ?_
          simp only [List.elem_eq_contains, List.contains_append, List.contains_cons,
            List.contains_nil, Bool.or_false, Bool.not_or]
          exact Bool.and_comm ..
        rw [if_neg (by simp), ih, hRest, if_pos rfl, List.eraseDups_cons, List.append_assoc]
        rfl

theorem nil_not_mem_distinctWords (filtered : Str → Bool) (s : Str) :
    ∀ w ∈ distinctWords filtered s, w ≠ [] := by
  intro w hIn
  exact ne_nil_of_mem_wordRuns (List.mem_filter.1 (List.mem_eraseDups.1 hIn)).1

/-- `tokenize` goes through the words and, where there are stray separators, an empty one. -/
theorem tokenizeWith_eq (filtered : Str → Bool) (s : Str) :
    tokenizeWith filtered s = distinctWords filtered s ++
      if stray s && !filtered [] then [[]] else [] := by
  have hWords : wordsOf s = (wordRuns s).map strlower ++ if stray s then [[]] else [] :=
    rawWords_eq (Nat.le_refl _)
  have hFirst : ((wordRuns s).map strlower).foldl (fun tokens w =>
      if filtered w || tokens.contains w then tokens else tokens ++ [w]) [] =
        distinctWords filtered s := by
    rw [foldl_tokens, List.removeAll_nil, List.nil_append]
    rfl
  rw [tokenizeWith, hWords, List.foldl_append, hFirst]
  cases hStray : stray s with
  | false => simp
  | true =>
    cases hFiltered : filtered [] with
    | true => simp [hFiltered]
    | false =>
      have hNew : [] ∉ distinctWords filtered s :=
        fun hIn => nil_not_mem_distinctWords filtered s [] hIn rfl
      simp [hFiltered, hNew]

theorem not_stray_iff {s : Str} :
    stray s = false ↔ s = [] ∨ ∃ c ∈ s.reverse.take 2, wordChar c = true := by
  rw [stray, Bool.and_eq_false_iff, List.all_eq_false]
  simp

/-- The tokens of a text are its distinct words, and none is empty, exactly where no stray separators
end the text or the empty word is filtered. -/
theorem Core.tokenize_iff (s : Core) (text : Str) :
    (s.tokenize text = distinctWords s.isFiltered text ∧ ∀ w ∈ s.tokenize text, w ≠ []) ↔
      s.isFiltered [] = true ∨ text = [] ∨ ∃ c ∈ text.reverse.take 2, wordChar c = true := by
  rw [← not_stray_iff, Core.tokenize, tokenizeWith_eq]
  cases hStray : stray text with
  | false => simpa using nil_not_mem_distinctWords s.isFiltered text
  | true =>
    cases hFiltered : s.isFiltered [] with
    | true => simpa using nil_not_mem_distinctWords s.isFiltered text
    | false => simp

/-- Two blanks at the end of a file name make an empty word. -/
theorem empty_token : ¬ ∀ (s : Core) (text : Str),
    s.tokenize text = distinctWords s.isFiltered text ∧ ∀ w ∈ s.tokenize text, w ≠ [] := by
  intro h
  have hTokens : (Server.reach hub []).toCore.tokenize (str "abc  ") = [str "abc", []] := by
    decide +kernel
  exact (h _ (str "abc  ")).2 [] (by rw [hTokens]; simp) rfl

/-! ### The number of results -/

/-- The attributes of a file have nothing to do with the number of results. -/
theorem maxResults_put {name : Str} {get : Query → Int × Int} {put : Query → Int × Int → Query}
    (h : boundsOf name = some (get, put)) (q : Query) (bounds : Int × Int) :
    (put q bounds).maxResults = q.maxResults := by
  unfold boundsOf at h
  split at h
  · cases h
    rfl
  · split at h
    · cases h
      rfl
    · split at h
      · cases h
        rfl
      · cases h

/-- The number of results that a request ends up with is no greater than the configured one. -/
theorem maxResults_le {cfg : Config} (hMax : 0 < cfg.maxSearchResults) {filtered : Str → Bool}
    {byUser : Bool} {q q' : Query} {l : List Str}
    (h : parseQuery cfg filtered byUser q l = .query q')
    (hStart : q.maxResults ≤ cfg.maxSearchResults) : q'.maxResults ≤ cfg.maxSearchResults := by
  fun_induction parseQuery cfg filtered byUser q l with
  | case1 q =>
    cases h
    exact hStart
  | case2 _ _ _ _ _ _ _ ih => exact ih h hStart
  | case5 _ _ _ _ _ _ n _ ih =>
    refine ih h ?_
    simp only [capResults]
    split
    · exact Int.le_refl _
    · omega
  | case8 _ _ _ _ _ _ _ _ _ ih => exact ih h hStart
  | case11 q _ _ _ _ get put hBounds _ _ _ n _ bounds _ ih =>
    refine ih h ?_
    rwa [maxResults_put hBounds]
  | case15 _ _ _ _ _ _ _ _ ih => exact ih h hStart
  | case3 | case4 | case6 | case7 | case9 | case10 | case12 | case13 | case14 | case16 => cases h

namespace Server

/-- The results sent to a connection. -/
def results (s : Server) (con : ConId) : List Message :=
  s.sent.filter fun m => m.con == con && m.tag == msgServerSearchResult

theorem results_sendResult (s : Server) (con : ConId) (id : Str) (d : DatumId) :
    ((s.sendResult con false id d).results con).length = (s.results con).length + 1 := by
  simp [results, sendResult, sendCmd, queueData, List.filter_append]

/-- The walk of `fdb_search` sends a result for each record that is accepted, and stops at the number
of results asked for when it starts below it. -/
theorem results_offerLoop (con : ConId) (user : UserId) (id : Str) (q : Query)
    (maxhits hits : Int) (l : List DatumId) (s : Server) :
    ((offerLoop (searchCallback con user false id q) maxhits s hits l).1.results con).length =
      (s.results con).length +
        if hits < maxhits then min (l.countP (accepts s.toCore user q)) (maxhits - hits).toNat
        else l.countP (accepts s.toCore user q) := by
  induction l generalizing s hits with
  | nil => simp [offerLoop]
  | cons d l ih =>
    simp only [offerLoop, searchCallback]
    by_cases hAccept : accepts s.toCore user q d = true
    · have hSame : accepts (s.sendResult con false id d).toCore user q = accepts s.toCore user q := by
        rw [toCore_sendResult]
        rfl
      simp only [hAccept, if_true, List.countP_cons_of_pos]
      split
      · rename_i hLast
        rw [results_sendResult, if_pos (by omega)]
        omega
      · rename_i hMore
        rw [ih, results_sendResult, hSame]
        split <;> split <;> omega
    · simp only [hAccept, Bool.false_eq_true, if_false]
      rw [ih, List.countP_cons_of_neg hAccept]

theorem results_said {s t : Server} (h : Says (fun m => m.tag ≠ msgServerSearchResult) s t)
    (con : ConId) : t.results con = s.results con :=
  h.filter_eq fun m hm => by simp [hm]

theorem says_endSearch {s t : Server} (h : Says (fun m => m.tag ≠ msgServerSearchResult) s t)
    (con : ConId) (id : Str) (reason : EndReason) :
    Says (fun m => m.tag ≠ msgServerSearchResult) s (t.endSearch con id reason) := by
  simp only [endSearch]
  split
  · exact (h.sendCmd (show msgServerSearchEnd ≠ _ by decide)).onCore
  · exact (h.sendCmd (show msgServerRemoteSearchEnd ≠ _ by decide)).onCore

/-- No results are sent for a request that is refused. -/
theorem results_refuse (s : Server) (con : ConId) (id text : Str) :
    ((s.sendIfUser con msgServerNosuch text).endSearch con id .immediate).results con =
      s.results con :=
  results_said (says_endSearch ((Says.refl s).sendIfUser
    fun _ => show msgServerNosuch ≠ _ by decide) con id .immediate) con

/-- No results are sent after the walk over the files. -/
theorem says_askPeers (s : Server) (con : ConId) (user : UserId) (id : Str) (q : Query) (n : Int) :
    Says (fun m => m.tag ≠ msgServerSearchResult) s (s.askPeers con user id q n) := by
  simp only [askPeers]
  split
  · simp only [forwardSearch]
    exact (((Says.refl s).onCore).passMessageArgs
      fun _ _ => show msgServerRemoteSearch ≠ _ by decide).onCore
  · exact says_endSearch (.refl s) con id .immediate

theorem smallestBin_note (s : Core) (e : Traffic) (tokens : List Str) (best : Option FlistId) :
    (s.note e).smallestBin tokens best = s.smallestBin tokens best := by
  induction tokens generalizing best with
  | nil => rfl
  | cons token tokens ih =>
    simp only [Core.smallestBin, ih]
    rfl

theorem offered_note (s : Core) (e : Traffic) (tokens : List Str) :
    (s.note e).offered tokens = s.offered tokens := by
  simp only [Core.offered, smallestBin_note]
  rfl

/-- The results that a client is sent for a request are at most as many as configured exactly where
the number that the request asks for in the end is positive, or the files that match are few. -/
theorem search_results_le_iff (s : Server) {con : ConId} {user : UserId}
    (hUser : (s.con con).user = some user) (hMax : 0 < s.cfg.maxSearchResults) (searchId pkt : Str) :
    ((((s.search con searchId pkt).results con).length : Int) ≤
        (s.results con).length + s.cfg.maxSearchResults) ↔
      ∀ q, readQuery s.cfg s.isFiltered (s.isUser con) pkt = .query q →
        0 < q.maxResults ∨
          ((s.offered q.tokens).countP (accepts s.toCore user q) : Int) ≤ s.cfg.maxSearchResults := by
  simp only [search, hUser, searchInternal]
  generalize hBegun : s.onCore (·.note (.begun searchId con)) = t
  have hSame : t.results con = s.results con := by
    rw [← hBegun]
    rfl
  have hRead : readQuery t.cfg t.isFiltered (t.isUser con) pkt =
      readQuery s.cfg s.isFiltered (s.isUser con) pkt := by
    rw [← hBegun]
    rfl
  rw [hRead]
  cases hQuery : readQuery s.cfg s.isFiltered (s.isUser con) pkt with
  | invalid =>
    simp only [results_refuse, hSame]
    refine ⟨fun _ q hq => ?_, fun _ => by omega⟩
    cases hq
  | refused text =>
    simp only [results_refuse, hSame]
    refine ⟨fun _ q hq => ?_, fun _ => by omega⟩
    cases hq
  | query q =>
    have hLe : q.maxResults ≤ s.cfg.maxSearchResults := maxResults_le hMax hQuery (Int.le_refl _)
    have hCount := results_offerLoop con user searchId q q.maxResults 0 (t.offered q.tokens) t
    have hFiles : (t.offered q.tokens).countP (accepts t.toCore user q) =
        (s.offered q.tokens).countP (accepts s.toCore user q) := by
      rw [← hBegun, toCore_onCore, offered_note]
      rfl
    simp only [Core.fdbSearch]
    rw [results_said (says_askPeers ..), hCount, hSame, hFiles]
    constructor
    · intro hAtMost q' hq'
      cases hq'
      by_cases hPos : 0 < q.maxResults
      · exact .inl hPos
      · rw [if_neg hPos] at hAtMost
        exact .inr (by omega)
    · intro h
      by_cases hPos : 0 < q.maxResults
      · rw [if_pos hPos]
        omega
      · have hFew := (h q rfl).resolve_left hPos
        rw [if_neg hPos]
        omega

/-- One result for a request. -/
def thrifty : Startup := { hub with cfg := { hub.cfg with maxSearchResults := 1 } }

/-- Joe shares two songs, and ann is logged in. -/
def twoSongs : List Event :=
  [.accept 1 (str "client") 6699 8888, .packet 0 .login (str "joe pw 6699 \"client\" 3") {},
    .packet 0 .addFile (str "\"song one.mp3\" 0 1000 128 44100 60") {},
    .packet 0 .addFile (str "\"song two.mp3\" 0 1000 128 44100 60") {},
    .accept 2 (str "client") 6700 8889, .packet 8 .login (str "ann pw 6699 \"client\" 3") {}]

/-- Ann asks for five results and is sent one. -/
theorem search_results_le_iff_songs :
    let s := reach thrifty twoSongs
    (((s.search 8 [] (str "FILENAME CONTAINS \"song\" MAX_RESULTS 5")).results 8).length : Int) ≤
      (s.results 8).length + s.cfg.maxSearchResults := by
  have hUser : ((reach thrifty twoSongs).con 8).user = some 9 := by decide +kernel
  refine (search_results_le_iff (reach thrifty twoSongs) hUser (by decide +kernel) []
    (str "FILENAME CONTAINS \"song\" MAX_RESULTS 5")).2 fun q hq => ?_
  have hRead : readQuery (reach thrifty twoSongs).cfg (reach thrifty twoSongs).isFiltered
      ((reach thrifty twoSongs).isUser 8) (str "FILENAME CONTAINS \"song\" MAX_RESULTS 5") =
        .query { tokens := [str "song"], maxResults := 1 } := by decide +kernel
  rw [hRead] at hq
  cases hq
  exact .inl (by decide)

/-- A request for no results is sent all of them. -/
theorem results_uncapped :
    let s := reach thrifty twoSongs
    0 < s.cfg.maxSearchResults ∧ (s.con 8).user = some 9 ∧
      ¬ (((s.search 8 [] (str "FILENAME CONTAINS \"song\" MAX_RESULTS 0")).results 8).length : Int) ≤
        (s.results 8).length + s.cfg.maxSearchResults :=
  ⟨by decide +kernel, by decide +kernel, by decide +kernel⟩

end Server

end OpenNap
