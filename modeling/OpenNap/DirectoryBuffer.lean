import OpenNap.Arguments
import OpenNap.Browse
import OpenNap.Limits

/-! The buffers of `add_directory`: one of 256 bytes for the directory and one for the path of each
file of a packet.  The tokenizer writes into the path, which is made anew for the next file. -/

namespace OpenNap

open CText Memory

/-- An array of `n` bytes with anything in it. -/
abbrev CharArray (n : Nat) := {b : Bytes // b.length = n}

/-- The directory in `dirbuf`, and the length that it has with its final backslash; `none` where the
source returns because it is too long. -/
def fillDirbuf (dirbuf : Bytes) (dir : Str) : Checked (Option (Bytes × Nat)) := do
  let pathlen := dir.length
  if 256 - 1 ≤ pathlen then return none
  else
    let dirbuf ← store dirbuf (256 - 1) nul
    let dirbuf ← strncpy dirbuf 0 dir (256 - 1)
    if pathlen = 0 then return some (dirbuf, pathlen)
    else
      let last ← load dirbuf (pathlen - 1)
      if last = '\\' then return some (dirbuf, pathlen)
      else
        let dirbuf ← store dirbuf pathlen '\\'
        let pathlen := pathlen + 1
        let dirbuf ← store dirbuf pathlen nul
        if 256 - 1 ≤ pathlen then return none else return some (dirbuf, pathlen)

/-- The path of a file: the directory, and the base name in what is left of the buffer. -/
def fillPath (path dirbuf : Bytes) (pathlen : Nat) (basename : Str) : Checked Bytes := do
  let path ← strncpy path 0 (← text dirbuf 0) (256 - 1)
  strncpy path pathlen basename (256 - 1 - pathlen)

/-- `strlower`, in its buffer. -/
def strlowerAt (b : Bytes) (i : Nat) : Checked Bytes := do storeAll b i (strlower (← text b i))

/-- What `tokenize` writes into its argument: a NUL behind each word, and the word in lower case.
Each pass takes a byte at least. -/
def tokenizeAt : Nat → Bytes → Nat → Checked Bytes
  | 0, b, _ => .ok b
  | fuel + 1, b, s => do
    let c ← load b s
    if c = nul then return b
    else
      let s ← span (fun c => c != nul && !wordChar c) b s
      let ptr ← span wordChar b s
      let c ← load b ptr
      if c = nul then tokenizeAt fuel (← strlowerAt b s) ptr
      else
        let b ← store b ptr nul
        tokenizeAt fuel (← strlowerAt b s) (ptr + 1)

namespace Server

/-- What `add_directory` does with the path of a file, and whether it is inserted. -/
def addNamedFile (s : Server) (con : ConId) (user : UserId) (path size bitrate freq duration : Str) :
    Server × Bool :=
  if (s.lookupFile con path).isSome then (s.sendCmd con msgServerNosuch (str "Duplicate file"), false)
  else
    let fsize := atoi size
    if fsize < 1 then (s.sendCmd con msgServerNosuch (str "invalid size"), false)
    else
      (s.onCore (·.insertDatum con user
        { filename := path
          size := toUint fsize
          bitrate := rateToMask bitRates (atoi bitrate)
          frequency := rateToMask sampleRates (atoi freq)
          duration := toUshort (atoi duration)
          type := ctMp3 }), true)

/-- The loop of `add_directory` with its buffers, over the arguments after the directory: the server
afterwards, and each base name with the path that was used for it. -/
def addDirectoryLoopAt (s : Server) (con : ConId) (user : UserId) (dirbuf path : Bytes)
    (pathlen : Nat) : List Str → Checked (Server × List (Str × Str))
  | [] => return (s, [])
  | basename :: _ :: size :: bitrate :: freq :: duration :: rest =>
    if overShared s.toCore user then return (s.sendOverShared con, [])
    else do
      let path ← fillPath path dirbuf pathlen basename
      let last ← load path (256 - 1)
      if last ≠ nul then return (s, [])
      else
        let name ← text path 0
        let (s, inserted) := s.addNamedFile con user name size bitrate freq duration
        let path ← if inserted then tokenizeAt 256 path 0 else pure path
        let (s, used) ← addDirectoryLoopAt s con user dirbuf path pathlen rest
        return (s, (basename, name) :: used)
  | _ => return (if overShared s.toCore user then s.sendOverShared con else s.unparsable con, [])

/-- `add_directory` with its buffers. -/
def addDirectoryAt (s : Server) (con : ConId) (pkt : Str) (dirbuf path : Bytes) :
    Checked (Server × List (Str × Str)) := do
  match (s.con con).user with
  | none => return (s, [])
  | some user =>
    let (dir, rest) := nextArg pkt
    match ← fillDirbuf dirbuf dir with
    | none => return (s, [])
    | some (dirbuf, pathlen) =>
      let path ← store path (256 - 1) nul
      s.addDirectoryLoopAt con user dirbuf path pathlen (args rest)

end Server

/-- A directory with a backslash behind it, unless it is empty. -/
def withBackslash (dir : Str) : Str :=
  if dir ≠ [] ∧ dir.getLast? ≠ some '\\' then dir ++ ['\\'] else dir

/-! ### The tokenizer -/

/-- A run of bytes written over a string leaves the bytes from its end on. -/
theorem storeAll_over {b : Bytes} {i : Nat} {w cs : Str} (h : Holds b i w)
    (hLen : cs.length = w.length) :
    ∃ b', storeAll b i cs = .ok b' ∧ b'.length = b.length ∧
      ∀ k, i + w.length ≤ k → b'.drop k = b.drop k := by
  have hLess := h.lt_length
  refine ⟨_, storeAll_ok (by omega), ?_, fun k hk => ?_⟩
  · simp only [List.length_append, List.length_take, List.length_drop]
    omega
  · have hFront : (b.take i ++ cs).length = i + cs.length := by
      rw [List.length_append, List.length_take, Nat.min_eq_left (by omega)]
    rw [List.drop_append, List.drop_eq_nil_of_le (by omega), List.nil_append, hFront, List.drop_drop]
    congr 1
    omega

theorem strlowerAt_over {b : Bytes} {i : Nat} {w : Str} (h : Holds b i w) :
    ∃ b', strlowerAt b i = .ok b' ∧ b'.length = b.length ∧
      ∀ k, i + w.length ≤ k → b'.drop k = b.drop k := by
  obtain ⟨b', hRun, hDone⟩ := storeAll_over h (strlower_length w)
  exact ⟨b', by rw [strlowerAt, h.text, ok_bind, hRun], hDone⟩

/-- The tokenizer writes before the end of the string only. -/
theorem tokenizeAt_ok (fuel : Nat) {b : Bytes} {i : Nat} {s : Str} (h : Holds b i s) :
    ∃ b', tokenizeAt fuel b i = .ok b' ∧ b'.length = b.length ∧
      b'.drop (i + s.length) = b.drop (i + s.length) := by
  induction fuel generalizing b i s with
  | zero => exact ⟨b, rfl, rfl, rfl⟩
  | succ fuel ih =>
    cases s with
    | nil =>
      have hHead : load b i = .ok nul := h.head
      exact ⟨b, by simp only [tokenizeAt, hHead, ok_bind, if_true]; rfl, rfl, rfl⟩
    | cons c cs =>
      have hHead : load b i = .ok c := h.head
      have hc : c ≠ nul := fun hEq => h.plain (by simp [hEq])
      obtain ⟨w0, s1, hs1, hSpan1, hStart⟩ :=
        h.span_end (p := fun c => c != nul && !wordChar c) (by decide)
      obtain ⟨w, s2, rfl, hSpan2, hEnd⟩ := hStart.span_end (p := wordChar) (by decide)
      have hLen := congrArg List.length hs1
      simp only [List.length_append] at hLen
      simp only [tokenizeAt, hHead, ok_bind, if_neg hc, hSpan1, hSpan2]
      cases s2 with
      | nil =>
        -- the last word ends with the string
        have hLast : load b (i + w0.length + w.length) = .ok nul := hEnd.head
        rw [List.append_nil] at hStart
        obtain ⟨b1, hLower, hLength, hDrop⟩ := strlowerAt_over hStart
        obtain ⟨b2, hRun, hLength2, hDrop2⟩ := ih (hEnd.of_drop (hDrop _ (Nat.le_refl _)))
        simp only [hLast, ok_bind, if_true, hLower, hRun]
        refine ⟨b2, rfl, hLength2.trans hLength, ?_⟩
        have hAt : i + (c :: cs).length = i + w0.length + w.length + ([] : Str).length := by
          rw [hLen]
          simp
          omega
        rw [hAt, hDrop2, hDrop _ (by omega)]
      | cons d rest =>
        have hNext : load b (i + w0.length + w.length) = .ok d := hEnd.head
        have hd : d ≠ nul := fun hEq => hEnd.plain (by simp [hEq])
        have hLess := hEnd.lt_length
        obtain ⟨hWord, hRest⟩ := hStart.cut rfl
        obtain ⟨b1, hLower, hLength, hDrop⟩ := strlowerAt_over hWord
        have hRest1 := hRest.of_drop (hDrop _ (Nat.le_succ _))
        obtain ⟨b2, hRun, hLength2, hDrop2⟩ := ih hRest1
        simp only [hNext, ok_bind, if_neg hd, store_ok (Nat.lt_of_le_of_lt (Nat.le_add_right _ _) hLess),
          hLower, hRun]
        refine ⟨b2, rfl, hLength2.trans (hLength.trans List.length_set), ?_⟩
        have hAt : i + (c :: cs).length = i + w0.length + w.length + 1 + rest.length := by
          rw [hLen]
          simp
          omega
        rw [hAt, hDrop2, hDrop _ (by omega), List.drop_set_of_lt (by omega)]

/-! ### The two buffers -/

/-- A string in an array whose last byte is a NUL already. -/
theorem strncpy_padded {b : Bytes} {s : Str} (hb : b.length = 256) (hLast : b.drop 255 = [nul])
    (h : s.length < 256) : strncpy b 0 s (256 - 1) = .ok (padded s) := by
  have hMore : 256 - s.length = 255 - s.length + 1 := by omega
  refine (strncpy_front hb h).trans ?_
  rw [hLast, padded, hMore, List.replicate_succ', ← List.append_assoc]

theorem drop_set_last {b : Bytes} (hb : b.length = 256) : (b.set (256 - 1) nul).drop 255 = [nul] := by
  obtain ⟨c, hc⟩ : ∃ c, b.drop 255 = [c] := List.length_eq_one_iff.1 (by simp [hb])
  rw [List.drop_set, if_neg (by omega), hc]
  rfl

/-- A byte right behind the string makes it longer. -/
theorem padded_append {s : Str} (h : s.length < 255) (c : Char) :
    (padded s).set s.length c = padded (s ++ [c]) := by
  have hMore : 256 - s.length = 256 - (s.length + 1) + 1 := by omega
  simp only [padded, List.length_append, List.length_singleton]
  rw [hMore, List.replicate_succ, List.set_append_right _ _ (Nat.le_refl _), Nat.sub_self,
    List.set_cons_zero, List.append_assoc]
  rfl

/-- The NUL behind the string is there already. -/
theorem padded_end {s : Str} (h : s.length < 256) : (padded s).set s.length nul = padded s := by
  have hMore : 256 - s.length = 255 - s.length + 1 := by omega
  rw [padded, hMore, List.replicate_succ, List.set_append_right _ _ (Nat.le_refl _), Nat.sub_self,
    List.set_cons_zero]

/-- The directory of `add_directory` stays inside its buffer, and is there with its backslash. -/
theorem fillDirbuf_ok {dirbuf : Bytes} {dir : Str} (hb : dirbuf.length = 256) (hPlain : nul ∉ dir) :
    match Server.directoryPrefix dir with
    | none => fillDirbuf dirbuf dir = .ok none
    | some d => d = withBackslash dir ∧ d.length < 255 ∧ nul ∉ d ∧
        fillDirbuf dirbuf dir = .ok (some (padded d, d.length)) := by
  have hCopy (hShort : dir.length < 255) :
      strncpy (dirbuf.set (256 - 1) nul) 0 dir (256 - 1) = .ok (padded dir) :=
    strncpy_padded (by rw [List.length_set, hb]) (drop_set_last hb) (by omega)
  have hStore : store dirbuf (256 - 1) nul = .ok (dirbuf.set (256 - 1) nul) := store_ok (by omega)
  have hMax : posixPathMax - 1 = 256 - 1 := rfl
  rw [Server.directoryPrefix, hMax, fillDirbuf, withBackslash]
  by_cases hLong : 256 - 1 ≤ dir.length
  · rw [if_pos hLong]
    simp only [if_pos hLong]
    rfl
  · have hShort : dir.length < 255 := by omega
    have hFits : dir.length < 256 := by omega
    rw [if_neg hLong]
    simp only [if_neg hLong]
    simp only [hStore, ok_bind, hCopy hShort]
    cases hGet : dir.getLast? with
    | none =>
      have hNil : dir = [] := List.getLast?_eq_none_iff.1 hGet
      subst hNil
      simp [pure, Except.pure]
    | some c =>
      have hSome : dir ≠ [] := by
        rintro rfl
        cases hGet
      have hLen : dir.length ≠ 0 := fun hZero => hSome (List.length_eq_zero_iff.1 hZero)
      have hLast : load (padded dir) (dir.length - 1) = .ok c := by
        rw [List.getLast?_eq_getElem?] at hGet
        rw [load, padded, List.getElem?_append_left (by omega), hGet]
      simp only [hLen, if_false, hLast, ok_bind, hSome, ne_eq, not_false_eq_true, true_and,
        Option.some.injEq]
      by_cases hSlash : c = '\\'
      · simp only [hSlash, if_true, not_true_eq_false, if_false]
        exact ⟨trivial, hShort, hPlain, rfl⟩
      · have hFirst : store (padded dir) dir.length '\\' = .ok (padded (dir ++ ['\\'])) := by
          rw [store_ok (by rw [padded_length hFits]; exact hFits), padded_append hShort]
        have hLonger : (dir ++ ['\\']).length = dir.length + 1 := by simp
        have hSecond : store (padded (dir ++ ['\\'])) (dir.length + 1) nul =
            .ok (padded (dir ++ ['\\'])) := by
          have hLess : (dir ++ ['\\']).length < 256 := by omega
          rw [← hLonger, store_ok (by rw [padded_length hLess]; exact hLess), padded_end hLess]
        simp only [hSlash, if_false, not_false_eq_true, if_true, hFirst, hSecond, ok_bind]
        by_cases hFull : 256 - 1 ≤ dir.length + 1
        · rw [if_pos hFull, if_pos hFull]
          rfl
        · rw [if_neg hFull, if_neg hFull]
          have hNe : nul ≠ '\\' := by decide
          refine ⟨rfl, by omega, ?_, by rw [hLonger]; rfl⟩
          rw [List.mem_append, List.mem_singleton, not_or]
          exact ⟨hPlain, hNe⟩

/-- The path stays inside its buffer, and is the directory and the base name, cut. -/
theorem fillPath_ok {path : Bytes} {d basename : Str} (hb : path.length = 256)
    (hLast : path.drop 255 = [nul]) (hd : d.length < 255) (hPlain : nul ∉ d) (hBase : nul ∉ basename) :
    ∃ path', fillPath path (padded d) d.length basename = .ok path' ∧ path'.length = 256 ∧
      path'.drop 255 = [nul] ∧
      Holds path' 0 (d ++ basename.take (posixPathMax - 1 - d.length)) := by
  have hText := (padded_holds hPlain (by omega)).text
  have hRoom : d.length + (256 - 1 - d.length) = 255 := by omega
  have hPadded : (padded d).drop 255 = [nul] := by
    have hMore : 256 - d.length = 255 - d.length + 1 := by omega
    rw [padded, List.drop_append, List.drop_eq_nil_of_le (by omega), hMore, List.drop_replicate]
    have hOne : 255 - d.length + 1 - (255 - d.length) = 1 := by omega
    rw [hOne]
    rfl
  have hTake : (padded d).take d.length = d := List.take_left
  have hCopy : strncpy path 0 d (256 - 1) = .ok (padded d) := strncpy_padded hb hLast (by omega)
  have hFit : d.length + (256 - 1 - d.length) ≤ (padded d).length := by
    rw [padded_length (by omega)]
    omega
  simp only [fillPath, hText, ok_bind, hCopy]
  rw [strncpy_ok hFit, hTake, hRoom, hPadded]
  have hFill : (basename.take (256 - 1 - d.length) ++
      List.replicate (256 - 1 - d.length - basename.length) nul).length = 255 - d.length := by
    simp only [List.length_append, List.length_take, List.length_replicate]
    omega
  have hAll : (d ++ (basename.take (256 - 1 - d.length) ++
      List.replicate (256 - 1 - d.length - basename.length) nul)).length = 255 := by
    rw [List.length_append, hFill]
    omega
  refine ⟨_, rfl, by rw [List.length_append, hAll]; rfl, ?_, ?_, ?_⟩
  · rw [List.drop_append, List.drop_eq_nil_of_le (by omega), hAll, Nat.sub_self]
    rfl
  · rw [List.mem_append, not_or]
    exact ⟨hPlain, fun hMem => hBase (List.mem_of_mem_take hMem)⟩
  · refine ⟨List.replicate (256 - 1 - d.length - basename.length) nul, ?_⟩
    have hEnd : List.replicate (256 - 1 - d.length - basename.length) nul ++ [nul] =
        nul :: List.replicate (256 - 1 - d.length - basename.length) nul := by
      rw [← List.replicate_succ', List.replicate_succ]
    rw [List.drop_zero, posixPathMax, ← hEnd]
    simp only [List.append_assoc]

/-- The path that a file gets. -/
theorem take_path {d basename : Str} (hd : d.length < 255) :
    d ++ basename.take (posixPathMax - 1 - d.length) = (d ++ basename).take 255 := by
  have hMax : posixPathMax - 1 = 255 := rfl
  have hTake : d.take 255 = d := List.take_of_length_le (by omega)
  rw [hMax, List.take_append, hTake]

/-! ### Arguments without a NUL -/

theorem cutAt_plain {p : Char → Bool} {s : Str} (h : nul ∉ s) :
    nul ∉ (cutAt p s).1 ∧ ∀ rest ∈ (cutAt p s).2, nul ∉ rest := by
  rcases (cutAt_spec p s).2 with ⟨hNone, hAll⟩ | ⟨c, after, -, hSome, hEq⟩
  · rw [hNone, hAll]
    exact ⟨h, fun rest hRest => by cases hRest⟩
  · rw [hEq, List.mem_append, not_or, List.mem_cons, not_or] at h
    rw [hSome]
    refine ⟨h.1, fun rest hRest => ?_⟩
    cases hRest
    exact h.2.2

theorem skipSpace_plain {s : Str} (h : nul ∉ s) : nul ∉ skipSpace s :=
  fun hMem => h ((List.dropWhile_sublist _).mem hMem)

theorem restAfter_plain {o : Option Str} (h : ∀ rest ∈ o, nul ∉ rest) :
    ∀ rest ∈ restAfter o, nul ∉ rest := by
  intro rest hRest
  cases o with
  | none => cases hRest
  | some after =>
    rw [restAfter] at hRest
    split at hRest
    · cases hRest
    · cases hRest
      exact skipSpace_plain (h after rfl)

theorem nextArg_plain {s : Str} (h : nul ∉ s) :
    nul ∉ (nextArg s).1 ∧ ∀ rest ∈ (nextArg s).2, nul ∉ rest := by
  have hSkip := skipSpace_plain h
  rw [nextArg]
  split
  · exact ⟨List.not_mem_nil, fun rest hRest => by cases hRest⟩
  · rename_i c cs hs
    rw [hs] at hSkip
    split
    · have hCut := cutAt_plain (p := isQuote) (fun hMem => hSkip (List.mem_cons_of_mem _ hMem))
      exact ⟨hCut.1, restAfter_plain hCut.2⟩
    · have hCut := cutAt_plain (p := isBlank) hSkip
      exact ⟨hCut.1, restAfter_plain hCut.2⟩

theorem args_plain {o : Option Str} (h : ∀ s ∈ o, nul ∉ s) : ∀ a ∈ args o, nul ∉ a := by
  rw [args]
  generalize (o.getD []).length + 1 = fuel
  induction fuel generalizing o with
  | zero =>
    intro a hMem
    cases hMem
  | succ fuel ih =>
    intro a hMem
    cases o with
    | none => cases hMem
    | some s =>
      have hNext := nextArg_plain (h s rfl)
      rw [argsLoop, List.mem_cons] at hMem
      rcases hMem with rfl | hMem
      · exact hNext.1
      · exact ih hNext.2 a hMem

/-! ### The loop -/

namespace Server

variable {s : Server} {con : ConId} {user : UserId}

theorem addDirectoryFile_eq (s : Server) (con : ConId) (user : UserId)
    (dir basename size bitrate freq duration : Str) :
    s.addDirectoryFile con user dir basename size bitrate freq duration =
      (s.addNamedFile con user (dir ++ basename.take (posixPathMax - 1 - dir.length))
        size bitrate freq duration).1 := by
  simp only [addDirectoryFile, addNamedFile]
  split
  · rfl
  · split <;> rfl

/-- Every file finds its path inside the buffer, with a NUL at the end of the buffer: that is what
the tokenizer leaves as it was. -/
theorem addDirectoryLoopAt_ok (s : Server) (con : ConId) (user : UserId) {path : Bytes} {d : Str}
    {l : List Str} (hd : d.length < 255) (hPlain : nul ∉ d) (hb : path.length = 256) (hLast : path.drop 255 = [nul])
    (hArgs : ∀ a ∈ l, nul ∉ a) :
    ∃ used, s.addDirectoryLoopAt con user (padded d) path d.length l =
        .ok (s.addDirectoryLoop con user d l, used) ∧
      ∀ u ∈ used, u.1 ∈ l ∧ u.2 = (d ++ u.1).take 255 := by
  have hNone {r : Server} {l : List Str} :
      ∃ used : List (Str × Str), (.ok (r, []) : Checked _) = .ok (r, used) ∧
        ∀ u ∈ used, u.1 ∈ l ∧ u.2 = (d ++ u.1).take 255 :=
    ⟨[], rfl, fun u hu => by cases hu⟩
  induction s, l using addDirectoryLoop.induct con user d generalizing path with
  | case1 s => exact hNone
  | case2 s basename md5 size bitrate freq duration rest hOver =>
    rw [addDirectoryLoopAt, addDirectoryLoop, if_pos hOver, if_pos hOver]
    exact hNone
  | case3 s basename md5 size bitrate freq duration rest hOver ih =>
    have hBase : nul ∉ basename := hArgs _ List.mem_cons_self
    have hRest : ∀ a ∈ rest, nul ∉ a := fun a ha => hArgs a (by simp [ha])
    obtain ⟨path1, hFill, hLen1, hLast1, hHolds⟩ := fillPath_ok hb hLast hd hPlain hBase
    have hEnd : load path1 (256 - 1) = .ok nul := by
      have hGet : path1[255]? = some nul := by
        rw [← Nat.add_zero 255, ← List.getElem?_drop, hLast1]
        rfl
      rw [load, hGet]
    have hText := hHolds.text
    rw [addDirectoryLoopAt, addDirectoryLoop, if_neg hOver, if_neg hOver, hFill, ok_bind, hEnd,
      ok_bind, if_neg (by simp), hText, ok_bind]
    rw [addDirectoryFile_eq] at ih ⊢
    -- whether the file is inserted or not, the next one finds the same end of the buffer
    obtain ⟨path2, hTokens, hLen2, hDrop2⟩ := tokenizeAt_ok 256 hHolds
    have hLast2 : path2.drop 255 = [nul] := by
      rw [take_path hd, Nat.zero_add] at hDrop2
      have hShort : ((d ++ basename).take 255).length ≤ 255 := List.length_take_le _ _
      have hSame := congrArg (List.drop (255 - ((d ++ basename).take 255).length)) hDrop2
      rw [List.drop_drop, List.drop_drop, Nat.add_sub_cancel' hShort] at hSame
      rw [hSame, hLast1]
    have hNext (path3 : Bytes) (hLen : path3.length = 256) (hEnd : path3.drop 255 = [nul]) :=
      ih hLen hEnd hRest
    have hCons {used : List (Str × Str)}
        (hUsed : ∀ u ∈ used, u.1 ∈ rest ∧ u.2 = (d ++ u.1).take 255) :
        ∀ u ∈ (basename, d ++ basename.take (posixPathMax - 1 - d.length)) :: used,
          u.1 ∈ basename :: md5 :: size :: bitrate :: freq :: duration :: rest ∧
            u.2 = (d ++ u.1).take 255 := by
      intro u hu
      rcases List.mem_cons.1 hu with rfl | hu
      · exact ⟨List.mem_cons_self, take_path hd⟩
      · exact ⟨by simp [(hUsed u hu).1], (hUsed u hu).2⟩
    generalize s.addNamedFile con user (d ++ basename.take (posixPathMax - 1 - d.length))
      size bitrate freq duration = named at hNext ⊢
    obtain ⟨r, inserted⟩ := named
    cases inserted with
    | true =>
      obtain ⟨used, hRun, hUsed⟩ := hNext path2 (hLen2.trans hLen1) hLast2
      refine ⟨_, ?_, hCons hUsed⟩
      simp only [if_true, hTokens, ok_bind, hRun]
      rfl
    | false =>
      obtain ⟨used, hRun, hUsed⟩ := hNext path1 hLen1 hLast1
      refine ⟨_, ?_, hCons hUsed⟩
      simp only [Bool.false_eq_true, if_false, pure_bind, hRun, ok_bind]
      rfl
  | case4 l s hOver hNil hSix =>
    rw [addDirectoryLoopAt, addDirectoryLoop]
    · exact hNone
    all_goals assumption
  | case5 l s hOver hNil hSix =>
    rw [addDirectoryLoopAt, addDirectoryLoop]
    · exact hNone
    all_goals assumption

/-- `add_directory` makes no access outside its buffers, whatever was in them, and each path that it
uses is the directory with its backslash and the base name, cut to 255 bytes. -/
theorem addDirectoryAt_ok (s : Server) (con : ConId) (pkt : CString) (dirbuf path : CharArray 256) :
    ∃ used, s.addDirectoryAt con pkt.1 dirbuf.1 path.1 = .ok (s.addDirectory con pkt.1, used) ∧
      ∀ u ∈ used, u.1 ∈ args (nextArg pkt.1).2 ∧
        u.2 = (withBackslash (nextArg pkt.1).1 ++ u.1).take 255 := by
  have hArg := nextArg_plain pkt.2
  have hDir := fillDirbuf_ok dirbuf.2 hArg.1
  rw [addDirectoryAt, addDirectory]
  cases hUser : (s.con con).user with
  | none => exact ⟨[], rfl, fun u hu => by cases hu⟩
  | some user =>
    cases hPrefix : directoryPrefix (nextArg pkt.1).1 with
    | none =>
      simp only [hPrefix] at hDir ⊢
      simp only [hDir, ok_bind]
      exact ⟨[], rfl, fun u hu => by cases hu⟩
    | some d =>
      simp only [hPrefix] at hDir ⊢
      obtain ⟨hEq, hd, hPlain, hFill⟩ := hDir
      have hStore : store path.1 (256 - 1) nul = .ok (path.1.set (256 - 1) nul) :=
        store_ok (by rw [path.2]; decide)
      have hLen : (path.1.set (256 - 1) nul).length = 256 := List.length_set.trans path.2
      obtain ⟨used, hRun, hUsed⟩ := s.addDirectoryLoopAt_ok con user hd hPlain hLen
        (drop_set_last path.2) (args_plain hArg.2)
      simp only [hFill, hStore, ok_bind, hRun]
      rw [← hEq]
      exact ⟨used, rfl, hUsed⟩

/-- No backslash stands before the base name when the directory is empty. -/
theorem addDirectoryAt_without_separator :
    ¬ ∀ (s : Server) (con : ConId) (pkt : CString) (dirbuf path : CharArray 256),
      ∃ r used, s.addDirectoryAt con pkt.1 dirbuf.1 path.1 = .ok (r, used) ∧
        ∀ u ∈ used, u.2 = ((if (nextArg pkt.1).1.getLast? = some '\\' then (nextArg pkt.1).1
          else (nextArg pkt.1).1 ++ ['\\']) ++ u.1).take 255 := by
  intro hAll
  have hPlain : nul ∉ str "\"\" \"a.mp3\" 0 100 128 44100 60" := by decide +kernel
  have hDir : (nextArg (str "\"\" \"a.mp3\" 0 100 128 44100 60")).1 = [] := by decide +kernel
  have hRun : (joeOnline.addDirectoryAt 0 (str "\"\" \"a.mp3\" 0 100 128 44100 60")
      (List.replicate 256 nul) (List.replicate 256 nul)).toOption.map Prod.snd =
        some [(str "a.mp3", str "a.mp3")] := by
    decide +kernel
  obtain ⟨r, used, hEq, hUsed⟩ := hAll joeOnline 0 ⟨_, hPlain⟩
    ⟨List.replicate 256 nul, List.length_replicate⟩ ⟨List.replicate 256 nul, List.length_replicate⟩
  rw [hEq] at hRun
  cases hRun
  have hSame := hUsed _ (List.mem_singleton_self _)
  simp only [hDir] at hSame
  exact absurd hSame (by decide)

end Server

end OpenNap
