import OpenNap.Reach
import OpenNap.Records

/-! The file of bans.  A ban whose line is cut into its fields again is read back as it was; the
bans that the server makes are of this kind when their requests are. -/

namespace OpenNap

open CText

/-! ### Fields that are written without quotes -/

/-- A field that `split_line` and `next_arg` take as a whole: there is no byte in it at which a field
ends, and it is opened neither by white space nor by a quote. -/
structure Token (w : Str) : Prop where
  plain : ∀ c ∈ w, isBlank c = false
  first : ∃ c cs, w = c :: cs ∧ isSpace c = false ∧ isQuote c = false

instance (w : Str) : Decidable (Token w) :=
  decidable_of_iff
    (w.all (fun c => !isBlank c) = true ∧ w.head?.any (fun c => !isSpace c && !isQuote c) = true) <| by
    constructor
    · rintro ⟨hPlain, hFirst⟩
      refine ⟨by simpa using hPlain, ?_⟩
      cases w with
      | nil => simp at hFirst
      | cons c cs => exact ⟨c, cs, rfl, by simpa using hFirst⟩
    · rintro ⟨hPlain, c, cs, rfl, hSpace, hQuote⟩
      exact ⟨by simpa using hPlain, by simp [hSpace, hQuote]⟩

theorem Word.token {w : Str} (h : Word w) : Token w := ⟨h.blank, h.cons⟩

namespace Token

variable {w rest : Str}

theorem skipSpace (h : Token w) (rest : Str) : CText.skipSpace (w ++ rest) = w ++ rest := by
  obtain ⟨c, cs, rfl, hSpace, -⟩ := h.first
  exact skipSpace_cons_of_not hSpace

theorem ne_nil (h : Token w) : w ≠ [] := by
  obtain ⟨c, cs, rfl, -⟩ := h.first
  simp

theorem newline (h : Token w) : ∀ c ∈ w, c ≠ '\n' := by
  rintro c hc rfl
  exact absurd (h.plain _ hc) (by decide)

theorem cut (h : Token w) {b : Char} (hBlank : isBlank b = true) :
    cutAt isBlank (w ++ b :: rest) = (w, some rest) := cutAt_append h.plain hBlank

theorem splitFields_last (h : Token w) {count : Nat} : splitFields (count + 1) w = some [w] := by
  have hCut := cutAt_of_none h.plain
  obtain ⟨c, cs, rfl, -, hQuote⟩ := h.first
  simp only [splitFields, hQuote, hCut, Bool.false_eq_true, if_false]

theorem splitFields (h : Token w) {count : Nat} {b : Char} (hBlank : isBlank b = true) :
    splitFields (count + 1) (w ++ b :: rest) =
      (OpenNap.splitFields count (CText.skipSpace rest)).map (w :: ·) := by
  have hCut : cutAt isBlank (w ++ b :: rest) = (w, some rest) := h.cut hBlank
  obtain ⟨c, cs, rfl, -, hQuote⟩ := h.first
  rw [List.cons_append] at hCut ⊢
  simp only [OpenNap.splitFields, hQuote, hCut, Bool.false_eq_true, if_false]

end Token

theorem Token.nextArg {w rest : Str} (h : Token w) {b : Char} (hBlank : isBlank b = true) :
    nextArg (w ++ b :: rest) = (w, restAfter (some rest)) := by
  have hSkip := h.skipSpace (b :: rest)
  have hCut : cutAt isBlank (w ++ b :: rest) = (w, some rest) := h.cut hBlank
  obtain ⟨c, cs, rfl, -, hQuote⟩ := h.first
  rw [List.cons_append] at hSkip hCut ⊢
  simp only [OpenNap.nextArg, hSkip, hQuote, hCut, Bool.false_eq_true, if_false]

theorem Token.nextArg_last {w : Str} (h : Token w) : OpenNap.nextArg w = (w, none) := by
  have hSkip := h.skipSpace []
  have hCut := cutAt_of_none h.plain
  obtain ⟨c, cs, rfl, -, hQuote⟩ := h.first
  rw [List.append_nil] at hSkip
  simp only [OpenNap.nextArg, hSkip, hQuote, hCut, Bool.false_eq_true, if_false, restAfter]

/-! ### Lines -/

/-- A line that fits into what is left of the room is read as a whole. -/
theorem fgetsLoop_line {room : Nat} {acc text rest : Str} (hPlain : ∀ c ∈ text, c ≠ '\n')
    (hFits : acc.length + text.length < room) :
    fgetsLoop room acc (text ++ '\n' :: rest) = (acc ++ text ++ ['\n']) :: fgetsLoop room [] rest := by
  induction text generalizing acc with
  | nil => simp [fgetsLoop]
  | cons c cs ih =>
    have hc : c ≠ '\n' := hPlain c (by simp)
    rw [List.length_cons] at hFits
    have hRoom : ¬ (c = '\n' ∨ room ≤ acc.length + 1) := by
      rintro (hEq | hLe)
      · exact hc hEq
      · omega
    rw [List.cons_append, fgetsLoop, if_neg hRoom, ih (fun d hd => hPlain d (by simp [hd])) (by simp; omega)]
    simp

/-- A line without its end that just fits is read, and its end by the next call. -/
theorem fgetsLoop_full {room : Nat} {acc text rest : Str} (hPlain : ∀ c ∈ text, c ≠ '\n')
    (hSome : text ≠ []) (hFits : acc.length + text.length = room) :
    fgetsLoop room acc (text ++ '\n' :: rest) =
      (acc ++ text) :: ['\n'] :: fgetsLoop room [] rest := by
  induction text generalizing acc with
  | nil => exact absurd rfl hSome
  | cons c cs ih =>
    have hc : c ≠ '\n' := hPlain c (by simp)
    rw [List.length_cons] at hFits
    rw [List.cons_append, fgetsLoop]
    cases cs with
    | nil =>
      rw [if_pos (.inr (by rw [List.length_nil] at hFits; omega))]
      simp [fgetsLoop]
    | cons d ds =>
      have hRoom : ¬ (c = '\n' ∨ room ≤ acc.length + 1) := by
        rintro (hEq | hLe)
        · exact hc hEq
        · rw [List.length_cons] at hFits
          omega
      rw [if_neg hRoom, ih (fun e he => hPlain e (List.mem_cons_of_mem _ he)) (by simp) (by simp at hFits ⊢; omega)]
      simp

/-- What the first line of a file becomes, with or without its end, when it fits into the buffer
without its end and an empty line becomes nothing. -/
theorem filterMap_fgetsLoop {α : Type} {room : Nat} (read : Str → Option α)
    (hEmpty : read ['\n'] = none) {text : Str} (hPlain : ∀ c ∈ text, c ≠ '\n') (hSome : text ≠ [])
    (hFits : text.length ≤ room) (rest : Str) : ∃ tail, (tail = [] ∨ tail = ['\n']) ∧
      (fgetsLoop room [] (text ++ '\n' :: rest)).filterMap read =
        (read (text ++ tail)).toList ++ (fgetsLoop room [] rest).filterMap read := by
  rcases Nat.lt_or_eq_of_le hFits with hLess | hFull
  · refine ⟨['\n'], .inr rfl, ?_⟩
    rw [fgetsLoop_line hPlain (by simpa using hLess), List.nil_append, List.filterMap_cons]
    cases read (text ++ ['\n']) <;> rfl
  · refine ⟨[], .inl rfl, ?_⟩
    rw [fgetsLoop_full hPlain hSome (by simpa using hFull), List.nil_append, List.append_nil,
      List.filterMap_cons, List.filterMap_cons, hEmpty]
    cases read text <;> rfl

/-! ### One ban -/

/-- The line of a ban without its end. -/
def banText (b : Ban) : Str :=
  b.target ++ ' ' :: (b.setby ++ ' ' :: (showInt (toInt32 b.time) ++ ' ' :: '"' ::
    (b.reason ++ '"' :: ' ' :: showInt b.timeout)))

theorem banLine_eq (b : Ban) : banLine b = banText b ++ ['\n'] := by
  simp [banLine, banText, str]

/-- A ban whose line is cut into its fields again. -/
structure Ban.Savable (b : Ban) : Prop where
  target : Token b.target
  setby : Token b.setby
  reason : ∀ c ∈ b.reason, c ≠ '"' ∧ c ≠ '\n'
  time : -(2 ^ 31) ≤ b.time ∧ b.time < 2 ^ 31
  fits : (banLine b).length ≤ 2047

instance (b : Ban) : Decidable b.Savable :=
  decidable_of_iff
    (Token b.target ∧ Token b.setby ∧ b.reason.all (fun c => c != '"' && c != '\n') = true ∧
      (-(2 ^ 31) ≤ b.time ∧ b.time < 2 ^ 31) ∧ (banLine b).length ≤ 2047)
    ⟨fun h => ⟨h.1, h.2.1, by simpa using h.2.2.1, h.2.2.2.1, h.2.2.2.2⟩,
      fun h => ⟨h.target, h.setby, by simpa using h.reason, h.time, h.fits⟩⟩

/-- A ban as it is in the list: what is read back is normalized and cut once more. -/
structure Ban.Kept (cfg : Config) (b : Ban) : Prop where
  savable : b.Savable
  normal : normalizeBan cfg b.target = b.target
  reason : truncateReason cfg b.reason = b.reason
  timeout : toInt32 b.timeout = b.timeout

namespace Ban

variable {b : Ban} {cfg : Config}

theorem Savable.plain (h : b.Savable) : ∀ c ∈ banText b, c ≠ '\n' := by
  have hNumber (i : Int) : ∀ c ∈ showInt i, c ≠ '\n' := (word_showInt i).token.newline
  intro c hc
  simp only [banText, List.mem_append, List.mem_cons] at hc
  rcases hc with hc | rfl | hc | rfl | hc | rfl | rfl | hc | rfl | rfl | hc
  · exact h.target.newline c hc
  · decide
  · exact h.setby.newline c hc
  · decide
  · exact hNumber _ c hc
  · decide
  · decide
  · exact (h.reason c hc).2
  · decide
  · decide
  · exact hNumber _ c hc

/-- The line is cut into the five fields, whether its end was read with it or not. -/
theorem Savable.splitLine (h : b.Savable) {tail : Str} (hTail : tail = [] ∨ tail = ['\n']) :
    splitLine 5 (banText b ++ tail) =
      some [b.target, b.setby, showInt (toInt32 b.time), b.reason, showInt b.timeout] := by
  have hTime := (word_showInt (toInt32 b.time)).token
  have hTimeout := (word_showInt b.timeout).token
  have hReason : ∀ c ∈ b.reason, isQuote c = false := fun c hc => by simp [isQuote, (h.reason c hc).1]
  have hBlank : isBlank ' ' = true := by decide
  have hLast : splitFields 1 (showInt b.timeout ++ tail) = some [showInt b.timeout] := by
    rcases hTail with rfl | rfl
    · rw [List.append_nil, hTimeout.splitFields_last]
    · rw [hTimeout.splitFields (by decide)]
      rfl
  simp only [OpenNap.splitLine, banText, List.append_assoc, List.cons_append]
  rw [h.target.skipSpace, h.target.splitFields hBlank, h.setby.skipSpace, h.setby.splitFields hBlank,
    hTime.skipSpace, hTime.splitFields hBlank, skipSpace_cons_of_not (by decide),
    splitFields_quoted hReason, hTimeout.skipSpace, hLast]
  rfl

theorem Kept.loadBan (h : b.Kept cfg) (now : Int) :
    loadBan cfg now [b.target, b.setby, showInt (toInt32 b.time), b.reason, showInt b.timeout] =
      some b := by
  have hTime : (strtol (showInt (toInt32 b.time))).1 = b.time := by
    rw [strtol_showInt32, toInt32_eq h.savable.time.1 h.savable.time.2]
  have hTimeout : atoi (showInt b.timeout) = b.timeout := by
    rw [← h.timeout, atoi_showInt32]
  simp only [OpenNap.loadBan, h.normal, h.reason, hTime, List.head?_cons, Option.map_some, hTimeout,
    Option.getD_some]

end Ban

/-- What is written of bans that are kept is read back, in the same order. -/
theorem loadBans_saveBans {cfg : Config} {bans : List Ban} (h : ∀ b ∈ bans, b.Kept cfg) (now : Int) :
    loadBans cfg now (saveBans bans) = bans := by
  induction bans with
  | nil => rfl
  | cons b bans ih =>
    have hKept := h b (by simp)
    have hRead {tail : Str} (hTail : tail = [] ∨ tail = ['\n']) :
        (splitLine 5 (banText b ++ tail)).bind (loadBan cfg now) = some b := by
      rw [hKept.savable.splitLine hTail, Option.bind_some, hKept.loadBan now]
    have hSome : banText b ≠ [] := by simp [banText]
    have hFits : (banText b).length ≤ 2046 := by
      have hLine := hKept.savable.fits
      rw [banLine_eq, List.length_append, List.length_singleton] at hLine
      omega
    have hRest := ih fun c hc => h c (by simp [hc])
    have hText : saveBans (b :: bans) = banText b ++ '\n' :: saveBans bans := by
      simp [saveBans, banLine_eq]
    obtain ⟨tail, hTail, hLine⟩ :=
      filterMap_fgetsLoop (fun l => (splitLine 5 l).bind (loadBan cfg now)) rfl
        hKept.savable.plain hSome hFits (saveBans bans)
    rw [loadBans, fgetsLines] at hRest ⊢
    rw [hText, hLine, hRead hTail, hRest]
    rfl

/-! ### The bans that the server makes -/

theorem truncateReason_truncateReason (cfg : Config) (reason : Str) :
    truncateReason cfg (truncateReason cfg reason) = truncateReason cfg reason := by
  simp only [truncateReason]
  split
  · rename_i hLong
    simp only [Bool.and_eq_true, decide_eq_true_eq] at hLong
    rw [if_neg]
    simp
  · rfl

/-- The first bytes of a nick are one, if they are as many as no special name has. -/
theorem invalidNick_take {cfg : Config} {nick : Str} {n : Nat} (hValid : invalidNick cfg nick = false)
    (hLong : 8 < n) (hMore : n ≤ nick.length) : invalidNick cfg (nick.take n) = false := by
  have hName (name : Str) (hShort : name.length ≤ 8) : sameText (nick.take n) name = false := by
    refine Bool.eq_false_iff.2 fun hSame => ?_
    have hLength := congrArg List.length (sameText_iff.1 hSame)
    rw [strlower_length, strlower_length, List.length_take] at hLength
    omega
  simp only [invalidNick, Bool.or_eq_false_iff] at hValid ⊢
  obtain ⟨⟨⟨⟨-, hFirst⟩, hBytes⟩, hEmpty⟩, hMax⟩ := hValid
  refine ⟨⟨⟨⟨⟨⟨hName _ (by decide), hName _ (by decide)⟩, hName _ (by decide)⟩, ?_⟩, ?_⟩, ?_⟩, ?_⟩
  · cases nick with
    | nil => simp at hEmpty
    | cons c cs =>
      obtain ⟨n, rfl⟩ : ∃ k, n = k + 1 := ⟨n - 1, by omega⟩
      exact hFirst
  · rw [List.any_eq_false] at hBytes ⊢
    exact fun c hc => hBytes c (List.mem_of_mem_take hc)
  · cases nick with
    | nil => simp at hEmpty
    | cons c cs =>
      obtain ⟨n, rfl⟩ : ∃ k, n = k + 1 := ⟨n - 1, by omega⟩
      rfl
  · rw [decide_eq_false_iff_not] at hMax ⊢
    rintro ⟨hPos, hLess⟩
    refine hMax ⟨hPos, ?_⟩
    rw [List.length_take] at hLess
    omega

/-- A normalized target stays as it is. -/
theorem normalizeBan_normalizeBan (cfg : Config) (src : Str) :
    normalizeBan cfg (normalizeBan cfg src) = normalizeBan cfg src := by
  have hHas {t : Str} (h : '!' ∈ t) : normalizeBan cfg t = t := by
    rw [normalizeBan, if_pos (by simpa using h)]
  by_cases hBang : '!' ∈ src
  · rw [hHas hBang, hHas hBang]
  · by_cases hInvalid : invalidNick cfg src = true
    · refine hHas ?_
      rw [normalizeBan, if_neg (by simpa using hBang), if_pos hInvalid]
      simp [str]
    · have hNick : normalizeBan cfg src = (src ++ str "!*").take 255 := by
        rw [normalizeBan, if_neg (by simpa using hBang), if_neg hInvalid]
      rcases Nat.lt_or_ge src.length 255 with hShort | hLong
      · refine hHas ?_
        rw [hNick, List.take_append, List.take_of_length_le (by omega), List.mem_append]
        obtain ⟨k, hk⟩ : ∃ k, 255 - src.length = k + 1 := ⟨254 - src.length, by omega⟩
        rw [hk]
        exact .inr (by simp [str])
      · have hCut : normalizeBan cfg src = src.take 255 := by
          rw [hNick, List.take_append_of_le_length hLong]
        have hValid := invalidNick_take (by simpa using hInvalid) (by decide) hLong
        have hNone : '!' ∉ src.take 255 := fun hIn => hBang (List.mem_of_mem_take hIn)
        rw [hCut, normalizeBan, if_neg (by simpa using hNone), if_neg (by simp [hValid]),
          List.take_append_of_le_length (by rw [List.length_take]; omega), List.take_take]
        simp

theorem Core.newBan_kept (s : Core) (sender : Str) (fields : List Str)
    (h : (s.newBan sender fields).Savable) : (s.newBan sender fields).Kept s.cfg where
  savable := h
  normal := normalizeBan_normalizeBan _ _
  reason := by
    simp only [newBan]
    cases fields[1]? with
    | none => simp [truncateReason]
    | some reason => simpa using truncateReason_truncateReason s.cfg reason
  timeout := by
    simp only [newBan]
    cases fields[2]? with
    | none => rfl
    | some text => exact toInt32_toInt32 _

namespace Server

/-! ### Runs -/

/-- Every ban that the event adds can be saved. -/
def SavesBan (s : Server) : Event → Prop
  | .packet con .ban pkt _ => ∀ b ∈ banOf s.toCore con pkt, b.Savable
  | _ => True

/-- Only bans that can be saved are added. -/
def savedBans : Label → Core → Prop
  | .ban b, s => b.Kept s.cfg
  | _, _ => True

/-- Which ban a request adds does not depend on what the sender shares. -/
theorem banOf_reportSharing (s : Server) (con other : ConId) (cmd : Command) (pkt : Str) :
    banOf (s.reportSharing con cmd).toCore other pkt = banOf s.toCore other pkt := by
  obtain ⟨user, f, hEq, hf⟩ := s.toCore_reportSharing con cmd
  have hNick (u : UserId) : ((s.toCore.modUser user f).user u).nick = (s.user u).nick := by
    by_cases hu : u = user
    · simpa [hu] using congrArg User.nick (hf (s.user user))
    · simp [hu]
  have hLevel (u : UserId) : ((s.toCore.modUser user f).user u).level = (s.user u).level := by
    by_cases hu : u = user
    · simpa [hu] using congrArg User.level (hf (s.user user))
    · simp [hu]
  have hPop : (s.toCore.modUser user f).popUserServer other pkt = s.popUserServer other pkt := by
    simp only [Core.popUserServer, hNick]
    rfl
  rw [hEq]
  simp only [banOf, hPop, hLevel]
  rfl

/-- A ban that is added and can be saved is one that is kept. -/
theorem banOf_kept {s : Core} {con : ConId} {pkt : Str} {b : Ban} (h : banOf s con pkt = some b)
    (hSave : b.Savable) : b.Kept s.cfg := by
  simp only [banOf] at h
  split at h
  · cases h
  · split at h
    · cases h
    · obtain ⟨hMap, -⟩ := Option.filter_eq_some_iff.1 h
      obtain ⟨fields, -, rfl⟩ := Option.map_eq_some_iff.1 hMap
      exact s.newBan_kept _ _ hSave

theorem allows_savedBans {s : Server} {e : Event} (h : SavesBan s e) : s.allows savedBans e := by
  refine s.allows_of_ban (fun l t hNot => ?_) ?_
  · cases l with
    | ban b => exact absurd rfl (hNot b)
    | _ => trivial
  · rintro con pkt env b rfl hBan
    refine banOf_kept hBan (h b ?_)
    rwa [banOf_reportSharing] at hBan

/-- In every run in which only bans that can be saved are added, the list of bans is at any time
what is read back from the file that is written of it. -/
theorem run_bans_saved (f : Startup) (events : List Event) (hStart : ∀ b ∈ f.bans, b.Kept f.cfg)
    (hMeets : Runs.Meets step SavesBan (Server.start f) events) (now : Int) :
    let s := Server.reach f events
    loadBans s.cfg now (saveBans s.bans) = s.bans := by
  obtain ⟨_, _, _, _, _, _, hLoaded⟩ := Core.loaded_start f
  refine loadBans_saveBans ?_ now
  refine (run_keeps (I := fun s => ∀ b ∈ s.bans, b.Kept s.cfg)
    (fun s e _ _ hCond => allows_savedBans hCond) ?_ hMeets (start_sound f) ?_).2
  · intro s t _ hOp hKept
    cases hOp.recordOp with
    | same hSame => rwa [hSame.cfg, hSame.bans]
    | add | set | drop => exact hKept
    | addBan hNew =>
      intro c hc
      rcases List.mem_cons.1 hc with rfl | hc
      · exact hNew
      · exact hKept c hc
    | dropBans hSub => exact fun b hb => hKept b (hSub.subset hb)
  · simpa [Server.start, hLoaded, Core.empty] using hStart

/-- A server is linked and asks for a ban. -/
def linkedBan (pkt : Str) : List Event :=
  [.accept 1 (str "peer") 0 0, .link 0, .packet 0 .ban pkt {}]

theorem run_bans_saved_linked :
    let s := Server.reach hub (linkedBan (str ":peer bob \"too many files\" 60"))
    s.bans.map (·.target) = [str "bob!*"] ∧ loadBans s.cfg 7 (saveBans s.bans) = s.bans :=
  ⟨by decide +kernel,
    run_bans_saved hub (linkedBan (str ":peer bob \"too many files\" 60")) (by simp [hub])
      ⟨trivial, trivial, by unfold SavesBan; decide +kernel, trivial⟩ 7⟩

/-- A reason in one word may have a quote inside: the ban is lost when the file is read.  A target in
quotes may have a blank inside: the ban that is read is on somebody else. -/
theorem bans_not_saved :
    let s := Server.reach hub (linkedBan (str ":peer bob a\"b 60"))
    let t := Server.reach hub (linkedBan (str ":peer \"mad max\" spam 60"))
    (s.bans.map (·.target) = [str "bob!*"] ∧ (loadBans s.cfg 7 (saveBans s.bans)).map (·.target) = []) ∧
    (t.bans.map (·.target) = [str "*!mad max"] ∧
      (loadBans t.cfg 7 (saveBans t.bans)).map (·.target) = [str "*!mad"]) := by
  decide +kernel

end Server

end OpenNap
