import OpenNap.Link

/-! Two linked servers that both know a channel tell each other its level and its limit.  Neither
answers, so that each ends with what it makes of the other's messages. -/

namespace OpenNap

open CText

/-- The settings of a channel that servers have to agree on, and their time. -/
structure ChanView where
  level : Level
  limit : UInt16
  timestamp : Int
deriving DecidableEq

def Channel.view (c : Channel) : ChanView := ⟨c.level, c.limit, c.timestamp⟩

/-- What a server holds for a channel. -/
def Core.channelOf (s : Core) (name : Str) : Option ChanView :=
  (s.channels.lookup name).map fun chan => (s.chan chan).view

/-- A message of a server about a setting of a channel, with the time of the settings. -/
def settingText (me name setting timestamp : Str) : Str :=
  str ":" ++ me ++ str " " ++ name ++ str " " ++ setting ++ str " " ++ timestamp

theorem settingText_line (me name setting timestamp : Str) :
    settingText me name setting timestamp = ':' :: line [me, name, setting, timestamp] := by
  simp [settingText, line, str]

/-- A message from a server that sets something in a channel. -/
def Sets (peer name setting : Str) (ts : Int) (body : Str) : Prop :=
  ∃ spelling stamp, body = settingText peer spelling setting stamp ∧ Word spelling ∧
    sameText spelling name = true ∧ Word setting ∧ Word stamp ∧ atoi stamp = ts

theorem Core.channelOf_modChan {s : Core} {name : Str} {chan : ChanId}
    (h : s.channels.lookup name = some chan) (f : Channel → Channel) :
    (s.modChan chan f).channelOf name = some (f (s.chan chan)).view := by
  simp [channelOf, h]

namespace Server

/-- A level that a peer gives is taken over unless its time is later. -/
theorem channelLevel_sets {s : Server} {link : ConId} {peer name : Str}
    (h : LinkedTo s.toCore link peer) (hPeer : Word peer) {v : ChanView}
    (hView : s.channelOf name = some v) {level : Level} {ts : Int} {body : Str}
    (hSets : Sets peer name level.text ts body) :
    (s.channelLevel link body).queued link = s.queued link ∧
      LinkedTo (s.channelLevel link body).toCore link peer ∧
      (s.channelLevel link body).channelOf name =
        some ⟨if ts ≤ v.timestamp then level else v.level, v.limit, v.timestamp⟩ := by
  obtain ⟨spelling, stamp, rfl, hWord, hName, hSetting, hStamp, rfl⟩ := hSets
  obtain ⟨chan, hChan, rfl⟩ := Option.map_eq_some_iff.1 hView
  have hSender : channelSender s.toCore link (settingText peer spelling level.text stamp) =
      some (peer, some (line [spelling, level.text, stamp])) := by
    rw [settingText_line]
    simp only [channelSender, h.isServer, if_true, nextArg_line hPeer hWord]
  have hSplit : splitLine 24 (line [spelling, level.text, stamp]) =
      some [spelling, level.text, stamp] :=
    splitLine_line (by simp [hWord, hSetting, hStamp])
  have hFound : s.channels.lookup spelling = some chan :=
    (Bucket.Table.lookup_congr (sameText_iff.1 hName)).trans hChan
  unfold channelLevel
  simp only [hSender, Option.bind_some, hSplit, hFound, getLevel_text, h.isUser, h.isServer,
    Bool.false_and, Option.any_false, Bool.false_eq_true, if_false, Bool.true_and, List.head?_cons,
    Option.any_some, decide_eq_true_eq]
  split
  · rename_i hEqual
    refine ⟨rfl, h, hView.trans ?_⟩
    rw [← hEqual]
    split <;> rfl
  · split
    · rename_i hLater
      exact ⟨rfl, h, hView.trans (by simp [Channel.view, not_le.2 hLater])⟩
    · rename_i hNotLater
      refine ⟨?_, ?_, ?_⟩
      · rw [queued_notifyOps, queued_onCore, queued_passMessageArgs_except]
        rw [toCore_onCore, toCore_passMessageArgs]
        exact h.isUser
      · rw [toCore_notifyOps, toCore_onCore, toCore_passMessageArgs]
        exact { h with }
      · rw [toCore_notifyOps, toCore_onCore, toCore_passMessageArgs, Core.channelOf_modChan hChan]
        simp [Channel.view, not_lt.1 hNotLater]

/-- A limit that a peer gives is taken over unless its time is later. -/
theorem channelLimit_sets {s : Server} {link : ConId} {peer name : Str}
    (h : LinkedTo s.toCore link peer) (hPeer : Word peer) {v : ChanView}
    (hView : s.channelOf name = some v) {limit : UInt16} {ts : Int} {body : Str}
    (hSets : Sets peer name (showNat limit.toNat) ts body) (tag : Nat) :
    (s.channelLimit link tag body).queued link = s.queued link ∧
      LinkedTo (s.channelLimit link tag body).toCore link peer ∧
      ∃ time, (s.channelLimit link tag body).channelOf name =
        some ⟨v.level, if ts ≤ v.timestamp then limit else v.limit, time⟩ := by
  obtain ⟨spelling, stamp, rfl, hWord, hName, hSetting, hStamp, rfl⟩ := hSets
  obtain ⟨chan, hChan, rfl⟩ := Option.map_eq_some_iff.1 hView
  have hSender : channelSender s.toCore link (settingText peer spelling (showNat limit.toNat) stamp) =
      some (peer, some (line [spelling, showNat limit.toNat, stamp])) := by
    rw [settingText_line]
    simp only [channelSender, h.isServer, if_true, nextArg_line hPeer hWord]
  have hFound : s.channels.lookup spelling = some chan :=
    (Bucket.Table.lookup_congr (sameText_iff.1 hName)).trans hChan
  have hBound := limit.toNat_lt
  have hLimit : atoi (showNat limit.toNat) = limit.toNat := atoi_showNat (by omega)
  have hRange : ¬ ((limit.toNat : Int) < 0 ∨ 65535 < (limit.toNat : Int)) := by omega
  have hShort : toUshort (limit.toNat : Int) = limit := by
    rw [toUshort, Int.emod_eq_of_lt (by omega) (by omega), Int.toNat_natCast, UInt16.ofNat_toNat]
  have hStampRest : nextArg (line [showNat limit.toNat, stamp]) =
      (showNat limit.toNat, some stamp) := nextArg_line hSetting hStamp
  unfold channelLimit
  simp only [hSender, nextArg_line hWord hSetting, hStampRest, hLimit, hRange,
    if_false, hFound, h.isUser, Bool.false_and, Option.any_false, Bool.false_eq_true, Bool.not_false,
    Bool.true_and, Option.any_some, decide_eq_true_eq, hShort, Int.natCast_inj,
    UInt16.toNat_inj]
  split
  · rename_i hEqual
    refine ⟨rfl, h, (s.chan chan).timestamp, hView.trans ?_⟩
    rw [← hEqual]
    split <;> rfl
  · split
    · rename_i hLater
      exact ⟨rfl, h, (s.chan chan).timestamp, hView.trans (by simp [Channel.view, not_le.2 hLater])⟩
    · rename_i hNotLater
      refine ⟨?_, ?_, s.now, ?_⟩
      · rw [queued_notifyOps, queued_passMessageArgs_except, queued_onCore]
        rw [toCore_passMessageArgs, toCore_onCore]
        exact h.isUser
      · rw [toCore_notifyOps, toCore_passMessageArgs, toCore_onCore]
        exact { h with }
      · rw [toCore_notifyOps, toCore_passMessageArgs, toCore_onCore, Core.channelOf_modChan hChan]
        simp [Channel.view, not_lt.1 hNotLater]

/-- Messages about the level or the limit of a channel. -/
def isSetting (m : Message) : Bool := m.tag == msgClientSetChanLevel || m.tag == msgClientChannelLimit

/-- What `sync_chan` sends about the level and the limit of a channel.  Its other messages are about
operators, modes and members. -/
def chanSettings (s : Server) (link : ConId) (chan : ChanId) : List Message :=
  (((s.reading 0).syncChan link chan).queued link).filter isSetting

/-- The level is among what `sync_chan` sends. -/
def sendsLevel (v : ChanView) : Prop := v.level ≠ .user

/-- The limit is among what `sync_chan` sends. -/
def sendsLimit (s : Core) (v : ChanView) : Prop := (v.limit.toNat : Int) ≠ s.cfg.channelLimit

instance (v : ChanView) : Decidable (sendsLevel v) := inferInstanceAs (Decidable (_ ≠ _))
instance (s : Core) (v : ChanView) : Decidable (sendsLimit s v) := inferInstanceAs (Decidable (_ ≠ _))

theorem settings_sendCmd {s : Server} {link : ConId} {tag : Nat}
    (h : tag ≠ msgClientSetChanLevel ∧ tag ≠ msgClientChannelLimit) (body : Str) :
    ((s.sendCmd link tag body).queued link).filter isSetting =
      (s.queued link).filter isSetting := by
  simp [isSetting, h.1, h.2]

/-- What `sync_chan` tells about members is not about settings. -/
theorem settings_members (link : ConId) (head : Str) (l : List ChanUser) (s : Server) :
    ((l.foldl (fun s member =>
      let nick := (s.user member.user).nick
      if member.voice then s.sendCmd link msgClientChannelVoice (head ++ str " " ++ nick)
      else if member.muzzled then s.sendCmd link msgClientChannelMuzzle (head ++ str " " ++ nick)
      else s) s).queued link).filter isSetting = (s.queued link).filter isSetting := by
  induction l generalizing s with
  | nil => rfl
  | cons member l ih =>
    rw [List.foldl_cons, ih]
    simp only
    split
    · exact settings_sendCmd (by decide) _
    · split
      · exact settings_sendCmd (by decide) _
      · rfl

theorem chanSettings_eq (s : Server) (link : ConId) (chan : ChanId) :
    s.chanSettings link chan =
      (if sendsLevel (s.chan chan).view then
        [⟨link, msgClientSetChanLevel, clip (settingText s.cfg.serverName (s.chan chan).name
          (s.chan chan).level.text (showInt (toInt32 (s.chan chan).timestamp)))⟩] else []) ++
      (if sendsLimit s.toCore (s.chan chan).view then
        [⟨link, msgClientChannelLimit, clip (settingText s.cfg.serverName (s.chan chan).name
          (showNat (s.chan chan).limit.toNat) (showInt (toInt32 (s.chan chan).timestamp)))⟩]
        else []) := by
  unfold chanSettings syncChan
  rw [settings_members]
  have hOther (c : Prop) [Decidable c] (t : Server) {tag : Nat} (body : Str)
      (h : tag ≠ msgClientSetChanLevel ∧ tag ≠ msgClientChannelLimit) :
      ((if c then t.sendCmd link tag body else t).queued link).filter isSetting =
        (t.queued link).filter isSetting := by
    split
    · exact settings_sendCmd h body
    · rfl
  have hSetting (c : Prop) [Decidable c] (t : Server) {tag : Nat} (body : Str)
      (h : isSetting ⟨link, tag, clip body⟩ = true) :
      ((if c then t else t.sendCmd link tag body).queued link).filter isSetting =
        (t.queued link).filter isSetting ++ if ¬ c then [⟨link, tag, clip body⟩] else [] := by
    split
    · simp
    · simp [h]
  rw [hOther _ _ _ (by decide), ← ite_not, hOther _ _ _ (by decide), hSetting _ _ _ rfl,
    hSetting _ _ _ rfl]
  simp only [toCore_ite, toCore_sendCmd, ite_self, settingText, List.append_assoc]
  rfl

/-- A server that knows a channel, on its link to a peer. -/
structure KnowsChannel (name : Str) (link : ConId) (peer : Str) (s : Server) : Prop where
  linked : LinkedTo s.toCore link peer
  view : ∃ v, s.channelOf name = some v

/-- A message that sets the level or the limit of a channel. -/
inductive SetsChannel (peer name : Str) (m : Message) : Prop
  | level (hTag : m.tag = msgClientSetChanLevel) {level : Level} {ts : Int}
      (hSets : Sets peer name level.text ts m.body)
  | limit (hTag : m.tag = msgClientChannelLimit) {limit : UInt16} {ts : Int}
      (hSets : Sets peer name (showNat limit.toNat) ts m.body)

theorem party_level_sets {s t : Server} {link : ConId} {peer name : Str}
    (h : LinkedTo s.toCore link peer) (hPeer : Word peer) {v : ChanView}
    (hView : s.channelOf name = some v) {m : Message} {out : List Message}
    (hParty : party link s m t out) (hTag : m.tag = msgClientSetChanLevel) {level : Level} {ts : Int}
    (hSets : Sets peer name level.text ts m.body) :
    LinkedTo t.toCore link peer ∧ out = [] ∧
      t.channelOf name = some ⟨if ts ≤ v.timestamp then level else v.level, v.limit, v.timestamp⟩ := by
  obtain ⟨seconds, env, rfl, rfl⟩ := party_linked h hParty .channelLevel hTag
  obtain ⟨hQueued, hLinked, hNext⟩ :=
    channelLevel_sets (linkedTo_reading h seconds) hPeer hView hSets
  exact ⟨hLinked, hQueued, hNext⟩

theorem party_limit_sets {s t : Server} {link : ConId} {peer name : Str}
    (h : LinkedTo s.toCore link peer) (hPeer : Word peer) {v : ChanView}
    (hView : s.channelOf name = some v) {m : Message} {out : List Message}
    (hParty : party link s m t out) (hTag : m.tag = msgClientChannelLimit) {limit : UInt16} {ts : Int}
    (hSets : Sets peer name (showNat limit.toNat) ts m.body) :
    LinkedTo t.toCore link peer ∧ out = [] ∧ ∃ time,
      t.channelOf name = some ⟨v.level, if ts ≤ v.timestamp then limit else v.limit, time⟩ := by
  obtain ⟨seconds, env, rfl, rfl⟩ := party_linked h hParty .channelLimit hTag
  obtain ⟨hQueued, hLinked, hNext⟩ :=
    channelLimit_sets (linkedTo_reading h seconds) hPeer hView hSets _
  exact ⟨hLinked, hQueued, hNext⟩

/-- A server answers none of these messages. -/
theorem channel_silent {peer : Str} (name : Str) (link : ConId) (hPeer : Word peer) :
    Duplex.Silent (party link) (KnowsChannel name link peer) (SetsChannel peer name) where
  silent := by
    rintro s m t out ⟨hLinked, v, hView⟩ hKind hParty
    cases hKind with
    | level hTag hSets =>
      obtain ⟨hNext, hOut, hView'⟩ := party_level_sets hLinked hPeer hView hParty hTag hSets
      exact ⟨⟨hNext, _, hView'⟩, hOut⟩
    | limit hTag hSets =>
      obtain ⟨hNext, hOut, time, hView'⟩ := party_limit_sets hLinked hPeer hView hParty hTag hSets
      exact ⟨⟨hNext, _, hView'⟩, hOut⟩
  total := by
    rintro s m - hKind
    cases hKind with
    | level hTag => exact party_total link s .channelLevel hTag
    | limit hTag => exact party_total link s .channelLimit hTag

/-- A server that tells a peer about a channel.  Names are single words, and the lines fit. -/
structure TellsChannel (s : Server) (link : ConId) (peer name : Str) (chan : ChanId) : Prop where
  linked : LinkedTo s.toCore link peer
  me : Word s.cfg.serverName
  known : s.channels.lookup name = some chan
  word : Word (s.chan chan).name
  spelled : sameText (s.chan chan).name name = true
  fits : ∀ setting ∈ [(s.chan chan).level.text, showNat (s.chan chan).limit.toNat],
    (settingText s.cfg.serverName (s.chan chan).name setting
      (showInt (toInt32 (s.chan chan).timestamp))).length ≤ 2043

instance (s : Server) (link : ConId) (peer name : Str) (chan : ChanId) :
    Decidable (TellsChannel s link peer name chan) :=
  decidable_of_iff
    (LinkedTo s.toCore link peer ∧ Word s.cfg.serverName ∧ s.channels.lookup name = some chan ∧
      Word (s.chan chan).name ∧ sameText (s.chan chan).name name = true ∧
      ∀ setting ∈ [(s.chan chan).level.text, showNat (s.chan chan).limit.toNat],
        (settingText s.cfg.serverName (s.chan chan).name setting
          (showInt (toInt32 (s.chan chan).timestamp))).length ≤ 2043)
    ⟨fun ⟨hLink, hMe, hKnown, hWord, hSpelled, hFits⟩ =>
        ⟨hLink, hMe, hKnown, hWord, hSpelled, hFits⟩,
      fun h => ⟨h.linked, h.me, h.known, h.word, h.spelled, h.fits⟩⟩

namespace TellsChannel

variable {s : Server} {link : ConId} {peer name : Str} {chan : ChanId}

theorem ready (h : TellsChannel s link peer name chan) :
    KnowsChannel name link peer (s.reading 0) ∧
      (s.reading 0).channelOf name = some (s.chan chan).view := by
  have hView : (s.reading 0).channelOf name = some (s.chan chan).view :=
    congrArg (Option.map fun chan => (s.chan chan).view) h.known
  exact ⟨⟨linkedTo_reading h.linked 0, _, hView⟩, hView⟩

theorem sets (h : TellsChannel s link peer name chan) {setting : Str} (hWord : Word setting)
    (hSetting : setting ∈ [(s.chan chan).level.text, showNat (s.chan chan).limit.toNat]) :
    Sets s.cfg.serverName name setting (toInt32 (s.chan chan).timestamp)
      (clip (settingText s.cfg.serverName (s.chan chan).name setting
        (showInt (toInt32 (s.chan chan).timestamp)))) :=
  ⟨_, _, clip_of_fits (h.fits _ hSetting), h.word, h.spelled, hWord, word_showInt _,
    atoi_showInt32 _⟩

theorem setsChannel (h : TellsChannel s link peer name chan) :
    ∀ m ∈ s.chanSettings link chan, SetsChannel s.cfg.serverName name m := by
  intro m hm
  rw [chanSettings_eq] at hm
  rcases List.mem_append.1 hm with hm | hm
  · split at hm
    · obtain rfl := List.mem_singleton.1 hm
      exact .level rfl (h.sets (word_level _) (by simp))
    · exact absurd hm (by simp)
  · split at hm
    · obtain rfl := List.mem_singleton.1 hm
      exact .limit rfl (h.sets (word_showNat _) (by simp))
    · exact absurd hm (by simp)

end TellsChannel

/-- The level that one server sends is taken over by the other. -/
def LevelReaches (v w : ChanView) : Prop := sendsLevel v ∧ toInt32 v.timestamp ≤ w.timestamp

/-- The limit that one server sends is taken over by the other. -/
def LimitReaches (s : Core) (v w : ChanView) : Prop :=
  sendsLimit s v ∧ toInt32 v.timestamp ≤ w.timestamp

instance (v w : ChanView) : Decidable (LevelReaches v w) := inferInstanceAs (Decidable (_ ∧ _))
instance (s : Core) (v w : ChanView) : Decidable (LimitReaches s v w) :=
  inferInstanceAs (Decidable (_ ∧ _))

/-- What a server makes of the messages of a peer about a channel. -/
theorem settings_processed {a b b' : Server} {la lb : ConId} {name : Str} {chanA chanB : ChanId}
    (hA : TellsChannel a la b.cfg.serverName name chanA)
    (hB : TellsChannel b lb a.cfg.serverName name chanB)
    (h : Duplex.Processed (party lb) (b.reading 0) (a.chanSettings la chanA) b') :
    ∃ time, b'.channelOf name = some
      ⟨if LevelReaches (a.chan chanA).view (b.chan chanB).view then (a.chan chanA).level
        else (b.chan chanB).level,
       if LimitReaches a.toCore (a.chan chanA).view (b.chan chanB).view then (a.chan chanA).limit
        else (b.chan chanB).limit, time⟩ := by
  obtain ⟨⟨hReady, -⟩, hView⟩ := hB.ready
  rw [chanSettings_eq] at h
  -- the level comes first, and leaves the time of the channel as it was
  obtain ⟨s, hLinked, hLevel, hRest⟩ : ∃ s : Server, LinkedTo s.toCore lb a.cfg.serverName ∧
      s.channelOf name = some
        ⟨if LevelReaches (a.chan chanA).view (b.chan chanB).view then (a.chan chanA).level
          else (b.chan chanB).level, (b.chan chanB).limit, (b.chan chanB).timestamp⟩ ∧
      Duplex.Processed (party lb) s
        (if sendsLimit a.toCore (a.chan chanA).view then
          [⟨la, msgClientChannelLimit, clip (settingText a.cfg.serverName (a.chan chanA).name
            (showNat (a.chan chanA).limit.toNat) (showInt (toInt32 (a.chan chanA).timestamp)))⟩]
          else []) b' := by
    by_cases hSends : sendsLevel (a.chan chanA).view
    · rw [if_pos hSends, List.singleton_append] at h
      cases h with
      | cons hParty hRest =>
        obtain ⟨hNext, -, hView'⟩ := party_level_sets hReady hA.me hView hParty rfl
          (hA.sets (word_level _) (by simp))
        have hReaches : LevelReaches (a.chan chanA).view (b.chan chanB).view ↔
            toInt32 (a.chan chanA).timestamp ≤ (b.chan chanB).view.timestamp := and_iff_right hSends
        simp only [hReaches]
        exact ⟨_, hNext, hView', hRest⟩
    · rw [if_neg hSends, List.nil_append] at h
      have hNot : ¬ LevelReaches (a.chan chanA).view (b.chan chanB).view :=
        fun hReaches => hSends hReaches.1
      simp only [hNot, if_false]
      exact ⟨_, hReady, hView, h⟩
  by_cases hSends : sendsLimit a.toCore (a.chan chanA).view
  · rw [if_pos hSends] at hRest
    cases hRest with
    | cons hParty hNil =>
      cases hNil
      obtain ⟨-, -, time, hView'⟩ := party_limit_sets hLinked hA.me hLevel hParty rfl
        (hA.sets (word_showNat _) (by simp))
      have hReaches : LimitReaches a.toCore (a.chan chanA).view (b.chan chanB).view ↔
          toInt32 (a.chan chanA).timestamp ≤ (b.chan chanB).timestamp := and_iff_right hSends
      simp only [hReaches]
      exact ⟨time, hView'⟩
  · have hNot : ¬ LimitReaches a.toCore (a.chan chanA).view (b.chan chanB).view :=
      fun hReaches => hSends hReaches.1
    rw [if_neg hSends] at hRest
    cases hRest
    simp only [hNot, if_false]
    exact ⟨_, hLevel⟩

/-- Where each of two parties may take over the value of the other, they end with one value when
exactly one of them does, or when there was one value from the start. -/
theorem crossed_iff {α : Type} {p q : Prop} [Decidable p] [Decidable q] {x y : α} :
    (if p then x else y) = (if q then y else x) ↔ x = y ∨ (p ↔ ¬ q) := by
  by_cases hp : p <;> by_cases hq : q <;> simp [hp, hq, eq_comm]

/-- Both servers hold the same level and the same limit for a channel. -/
def SameSettings (name : Str) (a b : Server) : Prop :=
  ∃ v w, a.channelOf name = some v ∧ b.channelOf name = some w ∧ v.level = w.level ∧
    v.limit = w.limit

/-- Exactly when one server takes the level of the other over and not the other way round, and the
same for the limit, or the two are equal from the start, do the servers settle on the same
settings. -/
theorem channel_settles_iff {a b : Server} {la lb : ConId} {name : Str} {chanA chanB : ChanId}
    (hA : TellsChannel a la b.cfg.serverName name chanA)
    (hB : TellsChannel b lb a.cfg.serverName name chanB) :
    Duplex.Settles (party la) (party lb) True (SameSettings name)
      { left := a.reading 0, right := b.reading 0
        toLeft := b.chanSettings lb chanB, toRight := a.chanSettings la chanA } ↔
      ((a.chan chanA).level = (b.chan chanB).level ∨
        (LevelReaches (a.chan chanA).view (b.chan chanB).view ↔
          ¬ LevelReaches (b.chan chanB).view (a.chan chanA).view)) ∧
      ((a.chan chanA).limit = (b.chan chanB).limit ∨
        (LimitReaches a.toCore (a.chan chanA).view (b.chan chanB).view ↔
          ¬ LimitReaches b.toCore (b.chan chanB).view (a.chan chanA).view)) := by
  have hSilentA := channel_silent name la hB.me
  have hSilentB := channel_silent name lb hA.me
  refine (hSilentA.settles_iff hSilentB hA.ready.1 hB.ready.1 hB.setsChannel hA.setsChannel).trans ?_
  have hGood {a' b' : Server}
      (hLeft : Duplex.Processed (party la) (a.reading 0) (b.chanSettings lb chanB) a')
      (hRight : Duplex.Processed (party lb) (b.reading 0) (a.chanSettings la chanA) b') :
      SameSettings name a' b' ↔
        ((a.chan chanA).level = (b.chan chanB).level ∨
          (LevelReaches (a.chan chanA).view (b.chan chanB).view ↔
            ¬ LevelReaches (b.chan chanB).view (a.chan chanA).view)) ∧
        ((a.chan chanA).limit = (b.chan chanB).limit ∨
          (LimitReaches a.toCore (a.chan chanA).view (b.chan chanB).view ↔
            ¬ LimitReaches b.toCore (b.chan chanB).view (a.chan chanA).view)) := by
    obtain ⟨_, hViewA⟩ := settings_processed hB hA hLeft
    obtain ⟨_, hViewB⟩ := settings_processed hA hB hRight
    rw [← crossed_iff, ← crossed_iff]
    simp [SameSettings, hViewA, hViewB, eq_comm]
  constructor
  · intro hAll
    obtain ⟨a', hLeft⟩ := hSilentA.exists_processed hA.ready.1 hB.setsChannel
    obtain ⟨b', hRight⟩ := hSilentB.exists_processed hB.ready.1 hA.setsChannel
    exact (hGood hLeft hRight).1 (hAll a' b' hLeft hRight)
  · exact fun hCond a' b' hLeft hRight => (hGood hLeft hRight).2 hCond

/-- A server that has loaded a channel from its file and is linked to a peer. -/
def chanKeeper (me peer : String) (level : Level) (limit : UInt16) : Server :=
  reach
    { cfg := { serverName := str me, md5 := id }
      channels := [{ name := str "#room", limit := limit, level := level, topic := [], ops := [] }] }
    [.accept 1 (str peer) 8888 8888, .link 1]

theorem chanKeeper_settles :
    Duplex.Settles (party 1) (party 1) True (SameSettings (str "#room"))
      { left := (chanKeeper "a" "b" .elite 200).reading 0
        right := (chanKeeper "b" "a" .user 90).reading 0
        toLeft := (chanKeeper "b" "a" .user 90).chanSettings 1 0
        toRight := (chanKeeper "a" "b" .elite 200).chanSettings 1 0 } := by
  have hA : TellsChannel (chanKeeper "a" "b" .elite 200) 1
      (chanKeeper "b" "a" .user 90).cfg.serverName (str "#room") 0 := by decide +kernel
  have hB : TellsChannel (chanKeeper "b" "a" .user 90) 1
      (chanKeeper "a" "b" .elite 200).cfg.serverName (str "#room") 0 := by decide +kernel
  exact (channel_settles_iff hA hB).2 (by decide +kernel)

/-- Channels that were loaded have no time, so that the servers swap their levels. -/
theorem chanKeeper_swaps :
    ¬ Duplex.Settles (party 1) (party 1) True (SameSettings (str "#room"))
      { left := (chanKeeper "a" "b" .elite 200).reading 0
        right := (chanKeeper "b" "a" .admin 200).reading 0
        toLeft := (chanKeeper "b" "a" .admin 200).chanSettings 1 0
        toRight := (chanKeeper "a" "b" .elite 200).chanSettings 1 0 } := by
  intro hSettles
  have hSentA : (chanKeeper "a" "b" .elite 200).chanSettings 1 0 =
      [⟨1, msgClientSetChanLevel, str ":a #room Elite 0"⟩] := by
    decide +kernel
  have hSentB : (chanKeeper "b" "a" .admin 200).chanSettings 1 0 =
      [⟨1, msgClientSetChanLevel, str ":b #room Admin 0"⟩] := by
    decide +kernel
  rw [hSentA, hSentB] at hSettles
  have hRight := hSettles.firstRight rfl ⟨0, .channelLevel, {}, rfl, rfl, rfl⟩
  have hLeft := hRight.firstLeft rfl ⟨0, .channelLevel, {}, rfl, rfl, rfl⟩
  obtain ⟨v, w, hA, hB, hLevel, -⟩ := hLeft.good ⟨by decide +kernel, by decide +kernel⟩
  have hLevelA := congrArg (Option.map ChanView.level) hA
  have hLevelB := congrArg (Option.map ChanView.level) hB
  rw [Option.map_some, hLevel] at hLevelA
  exact absurd (hLevelA.trans hLevelB.symm) (by decide +kernel)

end Server

end OpenNap
