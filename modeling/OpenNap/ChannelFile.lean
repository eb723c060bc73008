import OpenNap.BanFile

/-! The file of channels, which keeps the channels that users did not create while the server is
down.  The topic is free text and stands between quotes in front of the operators, so that the line
is cut as it was written exactly when the topic has no quote. -/

namespace OpenNap

open CText

/-! ### The file -/

/-- The operators in a line of the file, each after a blank. -/
def opsText (ops : List Str) : Str := ops.flatMap fun op => ' ' :: op

/-- A line that `dump_channel_cb` writes, without its end. -/
def channelText (c : Channel) : Str :=
  c.name ++ ' ' :: (showNat c.limit.toNat ++ ' ' :: (c.level.text ++ ' ' :: '"' ::
    (c.topic ++ '"' :: opsText c.ops)))

/-- The channels that users did not create, in the order of the table. -/
def Core.registered (s : Core) : List ChanId := s.channels.values.filter fun c => !(s.chan c).onUser

/-- `dump_channels`. -/
def Core.dumpChannels (s : Core) : Str :=
  str ":version 1\n" ++ s.registered.flatMap fun c => channelText (s.chan c) ++ str "\n"

/-- The channel that `load_channels` makes of a line.  Without a version line in front of the file a
line may be a comment. -/
def readChannel (cfg : Config) (version : Bool) (text : Str) : Option LoadedChannel :=
  match skipSpace text with
  | [] => none
  | c :: cs =>
    if !version && c == '#' then none
    else
      match args (some (c :: cs)) with
      | name :: limit :: level :: topic :: ops =>
        let name := if name.head? = some '#' ∨ name.head? = some '&' then name else ('#' :: name).take 255
        if invalidChannel cfg name then none
        else
          match getLevel level with
          | none => none
          | some level =>
            if atoi limit < 0 ∨ 65535 < atoi limit then none
            else
              some
                { name := name
                  limit := toUshort (atoi limit)
                  level := level
                  topic := topic
                  ops := ops.reverse }
      | _ => none

/-- `load_channels`, up to the adding of the channels to the table; `Buf` has 2048 bytes. -/
def loadChannels (cfg : Config) (text : Str) : List LoadedChannel :=
  match fgetsLines 2048 text with
  | [] => []
  | first :: rest =>
    if (str ":version 1").isPrefixOf first then rest.filterMap (readChannel cfg true)
    else (first :: rest).filterMap (readChannel cfg false)

/-- What `load_channels` makes of the file that `dump_channels` writes, in an empty table. -/
def Core.reloadChannels (s : Core) : Core :=
  (loadChannels s.cfg s.dumpChannels).foldl Core.loadChannel (Core.empty s.cfg s.now)

/-! ### One line -/

/-- A channel whose line is cut into its arguments again, up to the topic. -/
structure Channel.Plain (cfg : Config) (c : Channel) : Prop where
  name : invalidChannel cfg c.name = false
  ops : ∀ op ∈ c.ops, invalidNick cfg op = false
  topic : ∀ d ∈ c.topic, d ≠ '\n'

/-- A printable character other than the quote. -/
theorem plain_of_printable {c : Char} (hLow : ¬ c.toNat < 33) (hHigh : ¬ 126 < c.toNat) :
    isSpace c = false := by
  have hNe : c ≠ ' ' := by
    rintro rfl
    exact hLow (by decide)
  simp only [isSpace, Bool.or_eq_false_iff, beq_eq_false_iff_ne, Bool.and_eq_false_iff,
    decide_eq_false_iff_not]
  exact ⟨hNe, .inr (by omega)⟩

theorem word_of_invalidChannel {cfg : Config} {name : Str} (h : invalidChannel cfg name = false) :
    Word name ∧ (name.head? = some '#' ∨ name.head? = some '&') := by
  cases name with
  | nil => simp [invalidChannel] at h
  | cons c cs =>
    simp only [invalidChannel] at h
    split at h
    · cases h
    · rename_i hFirst
      have hc : c = '#' ∨ c = '&' := by
        by_contra hNot
        rw [not_or] at hNot
        exact hFirst (by simp [hNot.1, hNot.2])
      simp only [Bool.or_eq_false_iff, List.any_eq_false] at h
      refine ⟨⟨by simp, fun d hd => ?_, ?_⟩, by simpa using hc⟩
      · rcases List.mem_cons.1 hd with rfl | hd
        · rcases hc with rfl | rfl <;> decide
        · have hByte := h.1.1 d hd
          simp only [Bool.or_eq_true, decide_eq_true_eq, not_or] at hByte
          exact plain_of_printable hByte.1.1 hByte.1.2
      · rcases hc with rfl | rfl <;> simp

theorem word_of_invalidNick {cfg : Config} {nick : Str} (h : invalidNick cfg nick = false) :
    Word nick := by
  simp only [invalidNick, Bool.or_eq_false_iff, List.any_eq_false] at h
  obtain ⟨⟨⟨-, hBytes⟩, hEmpty⟩, -⟩ := h
  refine ⟨by simpa using hEmpty, fun d hd => ?_, fun hHead => ?_⟩
  · have hByte := hBytes d hd
    simp only [Bool.or_eq_true, decide_eq_true_eq, not_or] at hByte
    exact plain_of_printable hByte.1.1 hByte.1.2
  · exact hBytes '"' (List.mem_of_mem_head? (Option.mem_def.2 hHead)) (by decide)

/-- Words after blanks are the arguments that they are read as. -/
theorem args_opsText {ops : List Str} (h : ∀ op ∈ ops, Word op) {tail : Str}
    (hTail : tail = [] ∨ tail = ['\n']) : args (restAfter (some (opsText ops ++ tail))) = ops := by
  induction ops with
  | nil => rcases hTail with rfl | rfl <;> rfl
  | cons op ops ih =>
    have hOp := (h op (by simp)).token
    have hRest := ih fun o ho => h o (by simp [ho])
    have hText : opsText (op :: ops) ++ tail = ' ' :: (op ++ (opsText ops ++ tail)) := by
      simp [opsText]
    have hSome : op ++ (opsText ops ++ tail) ≠ [] := by simp [hOp.ne_nil]
    rw [hText, restAfter, skipSpace_blank, hOp.skipSpace, if_neg hSome, args_some]
    cases hNext : opsText ops ++ tail with
    | nil =>
      have hNone : ops = [] := by
        cases ops with
        | nil => rfl
        | cons o os => simp [opsText] at hNext
      rw [List.append_nil, hOp.nextArg_last, hNone]
      rfl
    | cons b rest =>
      have hBlank : isBlank b = true := by
        cases ops with
        | nil =>
          rcases hTail with rfl | rfl
          · cases hNext
          · cases hNext
            decide
        | cons o os =>
          cases hNext
          decide
      have hSkip : restAfter (some rest) = restAfter (some (opsText ops ++ tail)) := by
        rw [hNext]
        simp [restAfter, skipSpace, isSpace_of_isBlank hBlank]
      rw [hOp.nextArg hBlank, hSkip, hRest]

/-- The arguments in front of the topic. -/
theorem args_channelText {cfg : Config} {c : Channel} (h : c.Plain cfg) (tail : Str) :
    args (some (channelText c ++ tail)) =
      c.name :: showNat c.limit.toNat :: c.level.text ::
        args (some ('"' :: (c.topic ++ '"' :: (opsText c.ops ++ tail)))) := by
  have hName := (word_of_invalidChannel h.name).1.token
  have hLimit := (word_showNat c.limit.toNat).token
  have hLevel := (word_level c.level).token
  have hBlank : isBlank ' ' = true := by decide
  have hQuote : isSpace '"' = false := by decide
  simp only [channelText, List.append_assoc, List.cons_append]
  rw [args_some, hName.nextArg hBlank, restAfter, hLimit.skipSpace, if_neg (by simp), args_some,
    hLimit.nextArg hBlank, restAfter, hLevel.skipSpace, if_neg (by simp), args_some,
    hLevel.nextArg hBlank, restAfter, skipSpace_cons_of_not hQuote, if_neg (by simp)]

/-- What is read of the line of a channel: all of it but the topic and the operators is as it was,
and so are these unless there is a quote in the topic, which the topic that is read never has. -/
structure ReadBack (c : Channel) (r : LoadedChannel) : Prop where
  name : r.name = c.name
  limit : r.limit = c.limit
  level : r.level = c.level
  unquoted : '"' ∉ r.topic
  same : '"' ∉ c.topic → r.topic = c.topic ∧ r.ops = c.ops.reverse

theorem readChannel_channelText {cfg : Config} {c : Channel} (h : c.Plain cfg) {tail : Str}
    (hTail : tail = [] ∨ tail = ['\n']) :
    ∃ r, readChannel cfg true (channelText c ++ tail) = some r ∧ ReadBack c r := by
  obtain ⟨hWord, hFirst⟩ := word_of_invalidChannel h.name
  have hBlank : isSpace '"' = false := by decide
  have hTopic : args (some ('"' :: (c.topic ++ '"' :: (opsText c.ops ++ tail)))) =
      (cutAt isQuote (c.topic ++ '"' :: (opsText c.ops ++ tail))).1 ::
        args (restAfter (cutAt isQuote (c.topic ++ '"' :: (opsText c.ops ++ tail))).2) := by
    rw [args_some, nextArg, skipSpace_cons_of_not hBlank]
    simp [isQuote]
  have hArgs := args_channelText h tail
  rw [hTopic] at hArgs
  have hLess := c.limit.toNat_lt
  have hLimit : atoi (showNat c.limit.toNat) = c.limit.toNat := atoi_showNat (by omega)
  have hShort : toUshort (c.limit.toNat : Int) = c.limit := by
    rw [toUshort, Int.emod_eq_of_lt (by omega) (by omega)]
    simp
  have hSkip : skipSpace (channelText c ++ tail) = channelText c ++ tail := by
    simp only [channelText, List.append_assoc, List.cons_append]
    exact hWord.token.skipSpace _
  have hText : channelText c ++ tail ≠ [] := by simp [channelText]
  obtain ⟨d, ds, hCons⟩ := List.exists_cons_of_ne_nil hText
  rw [hCons] at hSkip hArgs
  refine ⟨
    { name := c.name
      limit := c.limit
      level := c.level
      topic := (cutAt isQuote (c.topic ++ '"' :: (opsText c.ops ++ tail))).1
      ops := (args (restAfter (cutAt isQuote (c.topic ++ '"' :: (opsText c.ops ++ tail))).2)).reverse },
    ?_, rfl, rfl, rfl, fun hIn => ?_, fun hNone => ?_⟩
  · have hFits : ¬ ((c.limit.toNat : Int) < 0 ∨ 65535 < (c.limit.toNat : Int)) := by omega
    simp only [readChannel, hCons, hSkip, hArgs, Bool.not_true, Bool.false_and, Bool.false_eq_true,
      if_false, hFirst, if_true, h.name, getLevel_text, hLimit, hFits, hShort]
  · have hPlain := (cutAt_spec isQuote (c.topic ++ '"' :: (opsText c.ops ++ tail))).1 _ hIn
    cases hPlain
  · have hPlain : ∀ e ∈ c.topic, isQuote e = false := by
      intro e he
      simp only [isQuote, beq_eq_false_iff_ne]
      rintro rfl
      exact hNone he
    rw [cutAt_append hPlain (by decide)]
    refine ⟨rfl, ?_⟩
    rw [args_opsText (fun op hOp => word_of_invalidNick (h.ops op hOp)) hTail]

/-! ### The whole file -/

theorem channelText_plain {cfg : Config} {c : Channel} (h : c.Plain cfg) :
    ∀ d ∈ channelText c, d ≠ '\n' := by
  have hOps : ∀ d ∈ opsText c.ops, d ≠ '\n' := by
    intro d hd
    obtain ⟨op, hOp, hd⟩ := List.mem_flatMap.1 hd
    rcases List.mem_cons.1 hd with rfl | hd
    · decide
    · exact (word_of_invalidNick (h.ops op hOp)).token.newline d hd
  intro d hd
  simp only [channelText, List.mem_append, List.mem_cons] at hd
  rcases hd with hd | rfl | hd | rfl | hd | rfl | rfl | hd | rfl | hd
  · exact (word_of_invalidChannel h.name).1.token.newline d hd
  · decide
  · exact (word_showNat _).token.newline d hd
  · decide
  · exact (word_level c.level).token.newline d hd
  · decide
  · decide
  · exact h.topic d hd
  · decide
  · exact hOps d hd

/-- Every line is read back, in the order in which they were written. -/
theorem loadChannels_dumpChannels {s : Core} (h : ∀ c ∈ s.registered, (s.chan c).Plain s.cfg)
    (hFits : ∀ c ∈ s.registered, (channelText (s.chan c)).length ≤ 2047) :
    List.Forall₂ (fun c r => ReadBack (s.chan c) r) s.registered
      (loadChannels s.cfg s.dumpChannels) := by
  have hLines (l : List ChanId) (hIn : ∀ c ∈ l, c ∈ s.registered) :
      List.Forall₂ (fun c r => ReadBack (s.chan c) r) l
        ((fgetsLoop 2047 [] (l.flatMap fun c => channelText (s.chan c) ++ str "\n")).filterMap
          (readChannel s.cfg true)) := by
    induction l with
    | nil => exact .nil
    | cons c l ih =>
      have hPlain := h c (hIn c (by simp))
      have hText : ((c :: l).flatMap fun c => channelText (s.chan c) ++ str "\n") =
          channelText (s.chan c) ++ '\n' :: l.flatMap fun c => channelText (s.chan c) ++ str "\n" := by
        simp [str]
      have hSome : channelText (s.chan c) ≠ [] := by simp [channelText]
      obtain ⟨tail, hTail, hLine⟩ := filterMap_fgetsLoop (readChannel s.cfg true) rfl
        (channelText_plain hPlain) hSome (hFits c (hIn c (by simp)))
        (l.flatMap fun c => channelText (s.chan c) ++ str "\n")
      obtain ⟨r, hRead, hBack⟩ := readChannel_channelText hPlain hTail
      rw [hText, hLine, hRead]
      exact .cons hBack (ih fun d hd => hIn d (by simp [hd]))
  have hFile : fgetsLines 2048 s.dumpChannels = str ":version 1\n" ::
      fgetsLoop 2047 [] (s.registered.flatMap fun c => channelText (s.chan c) ++ str "\n") := by
    have hVersion (rest : Str) : fgetsLoop 2047 [] (str ":version 1" ++ '\n' :: rest) =
        str ":version 1\n" :: fgetsLoop 2047 [] rest :=
      fgetsLoop_line (by simp [str]) (by decide)
    exact hVersion _
  have hPrefix : (str ":version 1").isPrefixOf (str ":version 1\n") = true := by decide
  rw [loadChannels, hFile]
  simp only [hPrefix, if_true]
  exact hLines _ fun _ hc => hc

/-- A channel that was read is what a search for its name finds. -/
def Held (t : Core) (r : LoadedChannel) : Prop :=
  ∃ c < t.next, t.channels.lookup r.name = some c ∧
    t.chan c = { name := r.name, topic := r.topic, limit := r.limit, level := r.level, ops := r.ops }

theorem held_loadChannel (t : Core) (r : LoadedChannel) : Held (t.loadChannel r) r := by
  refine ⟨t.next, Nat.lt_succ_self _, ?_, ?_⟩
  · refine (t.channels.lookup_add _ _ _).trans ?_
    simp
  · simp [Core.loadChannel]

theorem Held.loadChannel {t : Core} {r other : LoadedChannel} (h : Held t r)
    (hName : strlower other.name ≠ strlower r.name) : Held (t.loadChannel other) r := by
  obtain ⟨c, hLess, hLookup, hChan⟩ := h
  refine ⟨c, hLess.trans (Nat.lt_succ_self _), ?_, ?_⟩
  · refine (t.channels.lookup_add _ _ _).trans ?_
    rw [if_neg (show ¬ byName.norm other.name = byName.norm r.name from hName), hLookup]
  · simp [Core.loadChannel, hLess.ne, hChan]

theorem Held.foldl {l : List LoadedChannel} {t : Core} {r : LoadedChannel} (h : Held t r)
    (hName : ∀ other ∈ l, strlower other.name ≠ strlower r.name) :
    Held (l.foldl Core.loadChannel t) r := by
  induction l generalizing t with
  | nil => exact h
  | cons other l ih =>
    exact ih (h.loadChannel (hName other (by simp))) fun o ho => hName o (by simp [ho])

/-- Of channels with different names every one is found. -/
theorem held_foldl {l : List LoadedChannel} (h : (l.map fun r => strlower r.name).Nodup) (t : Core) :
    ∀ r ∈ l, Held (l.foldl Core.loadChannel t) r := by
  induction l generalizing t with
  | nil => simp
  | cons first l ih =>
    obtain ⟨hNew, hRest⟩ := List.nodup_cons.1 h
    intro r hr
    rcases List.mem_cons.1 hr with rfl | hr
    · refine (held_loadChannel t r).foldl fun other hOther hEq => hNew ?_
      exact List.mem_map.2 ⟨other, hOther, hEq⟩
    · exact ih hRest _ r hr

/-! ### What is read back -/

/-- Every registered channel is in the table that is read, with its name, limit, level and topic, and
with operators that are the `same`. -/
def Core.Reloaded (s : Core) (same : List Str → List Str → Prop) : Prop :=
  ∀ chan ∈ s.registered, ∃ c, s.reloadChannels.channels.lookup (s.chan chan).name = some c ∧
    (s.reloadChannels.chan c).name = (s.chan chan).name ∧
    (s.reloadChannels.chan c).limit = (s.chan chan).limit ∧
    (s.reloadChannels.chan c).level = (s.chan chan).level ∧
    (s.reloadChannels.chan c).topic = (s.chan chan).topic ∧
    same (s.reloadChannels.chan c).ops (s.chan chan).ops

namespace ReadBack

variable {s : Core} {l : List ChanId} {m : List LoadedChannel}

theorem keys (h : List.Forall₂ (fun c r => ReadBack (s.chan c) r) l m) :
    m.map (fun r => strlower r.name) = l.map fun c => strlower (s.chan c).name := by
  induction h with
  | nil => rfl
  | cons hBack _ ih => rw [List.map_cons, List.map_cons, hBack.name, ih]

theorem exists_of_mem (h : List.Forall₂ (fun c r => ReadBack (s.chan c) r) l m) {chan : ChanId}
    (hChan : chan ∈ l) : ∃ r ∈ m, ReadBack (s.chan chan) r := by
  induction h with
  | nil => cases hChan
  | @cons c r _ _ hBack _ ih =>
    rcases List.mem_cons.1 hChan with rfl | hChan
    · exact ⟨r, by simp, hBack⟩
    · obtain ⟨r, hr, hBack⟩ := ih hChan
      exact ⟨r, List.mem_cons_of_mem _ hr, hBack⟩

end ReadBack

/-- What is found in the table that is read. -/
theorem reloaded_of_registered {s : Core} (h : ∀ c ∈ s.registered, (s.chan c).Plain s.cfg)
    (hNames : (s.registered.map fun c => strlower (s.chan c).name).Nodup)
    (hFits : ∀ c ∈ s.registered, (channelText (s.chan c)).length ≤ 2047) {chan : ChanId}
    (hChan : chan ∈ s.registered) :
    ∃ r c, ReadBack (s.chan chan) r ∧
      s.reloadChannels.channels.lookup (s.chan chan).name = some c ∧
      s.reloadChannels.chan c =
        { name := r.name, topic := r.topic, limit := r.limit, level := r.level, ops := r.ops } := by
  have hRead := loadChannels_dumpChannels h hFits
  obtain ⟨r, hr, hBack⟩ := ReadBack.exists_of_mem hRead hChan
  rw [← ReadBack.keys hRead] at hNames
  obtain ⟨c, -, hLookup, hEq⟩ := held_foldl hNames (Core.empty s.cfg s.now) r hr
  rw [hBack.name] at hLookup
  exact ⟨r, c, hBack, hLookup, hEq⟩

/-- The registered channels are read back exactly when no topic has a quote; the operators come in
reverse order. -/
theorem reloaded_iff {s : Core} (h : ∀ c ∈ s.registered, (s.chan c).Plain s.cfg)
    (hNames : (s.registered.map fun c => strlower (s.chan c).name).Nodup)
    (hFits : ∀ c ∈ s.registered, (channelText (s.chan c)).length ≤ 2047)
    {same : List Str → List Str → Prop} :
    s.Reloaded same ↔ ∀ c ∈ s.registered, '"' ∉ (s.chan c).topic ∧
      same (s.chan c).ops.reverse (s.chan c).ops := by
  constructor
  · intro hAll chan hChan
    obtain ⟨r, c, hBack, hLookup, hEq⟩ := reloaded_of_registered h hNames hFits hChan
    obtain ⟨d, hFound, -, -, -, hTopic, hOps⟩ := hAll chan hChan
    obtain rfl : c = d := Option.some.inj (hLookup.symm.trans hFound)
    rw [hEq] at hTopic hOps
    have hNone : '"' ∉ (s.chan chan).topic := hTopic ▸ hBack.unquoted
    exact ⟨hNone, (hBack.same hNone).2 ▸ hOps⟩
  · intro hAll chan hChan
    obtain ⟨hNone, hOps⟩ := hAll chan hChan
    obtain ⟨r, c, hBack, hLookup, hEq⟩ := reloaded_of_registered h hNames hFits hChan
    obtain ⟨hTopic, hReverse⟩ := hBack.same hNone
    refine ⟨c, hLookup, ?_⟩
    rw [hEq]
    exact ⟨hBack.name, hBack.limit, hBack.level, hTopic, hReverse ▸ hOps⟩

end OpenNap
