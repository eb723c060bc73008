import OpenNap.ChannelFile
import OpenNap.Operators
import OpenNap.Link
import Mathlib.Data.List.Induction

/-! A change of channel modes and the message that tells a peer about it: what the arguments of
`channel_mode` come down to, and when the peer ends up with the modes of the server that passes the
change on. -/

namespace OpenNap

open CText

/-! ### The effect of a list of arguments -/

/-- What an argument asks for a mode, if anything. -/
def signOf (m : ChannelMode) (arg : Str) : Option Bool :=
  if readMode arg = some m then
    match arg.head? with
    | some '+' => some true
    | some '-' => some false
    | _ => none
  else none

/-- What a list of arguments asks for a mode, one after the other. -/
def signs (m : ChannelMode) (l : List Str) : List Bool := l.filterMap (signOf m)

/-- The mode after the arguments. -/
def lastSign (flag : Bool) (l : List Bool) : Bool := l.getLast?.getD flag

/-- The bits of the masks after the arguments: the last of them counts, if it changed the mode. -/
def lastOn (flag : Bool) (l : List Bool) : Bool :=
  l.getLast?.any fun v => v && !lastSign flag l.dropLast

def lastOff (flag : Bool) (l : List Bool) : Bool :=
  l.getLast?.any fun v => !v && lastSign flag l.dropLast

theorem signs_concat (m : ChannelMode) (l : List Str) (arg : Str) :
    signs m (l ++ [arg]) = signs m l ++ (signOf m arg).toList := by
  cases h : signOf m arg <;> simp [signs, h]

@[simp] theorem lastSign_concat (flag : Bool) (l : List Bool) (v : Bool) :
    lastSign flag (l ++ [v]) = v := by
  simp [lastSign]

@[simp] theorem lastOn_concat (flag : Bool) (l : List Bool) (v : Bool) :
    lastOn flag (l ++ [v]) = (v && !lastSign flag l) := by
  simp [lastOn]

@[simp] theorem lastOff_concat (flag : Bool) (l : List Bool) (v : Bool) :
    lastOff flag (l ++ [v]) = (!v && lastSign flag l) := by
  simp [lastOff]

/-- What the masks tell is the mode after the arguments, but for one that the last two arguments both
ask for and that was not there before. -/
theorem told_iff (flag : Bool) (l : List Bool) :
    (if lastOn flag l then true else if lastOff flag l then false else flag) = lastSign flag l ↔
      ∀ before v, l = before ++ [v, v] → v = flag := by
  rcases List.eq_nil_or_concat l with rfl | ⟨l, v, rfl⟩
  · simp [lastOn, lastOff, lastSign]
  · rw [List.concat_eq_append, lastOn_concat, lastOff_concat, lastSign_concat]
    have hEnd (before : List Bool) (u : Bool) :
        l ++ [v] = before ++ [u, u] ↔ l = before ++ [u] ∧ v = u := by
      have hTwo : before ++ [u, u] = (before ++ [u]) ++ [u] := by simp
      rw [hTwo, List.append_singleton_inj]
    simp only [hEnd]
    rcases List.eq_nil_or_concat l with rfl | ⟨l, w, rfl⟩
    · cases v <;> cases flag <;> simp [lastSign]
    · rw [List.concat_eq_append, lastSign_concat]
      simp only [List.append_singleton_inj]
      cases v <;> cases w <;> cases flag <;> simp

namespace Server

variable {s t : Server} {con : ConId} {chan : ChanId}

/-- What one argument does: to the modes and the masks, and to nothing else that a peer sees. -/
structure ModeStep (chan : ChanId) (arg : Str) (s : Server) (masks : Masks) (t : Server)
    (masks' : Masks) : Prop where
  core : ∃ f : Channel → Channel, t.toCore = s.toCore.modChan chan f
  mode : ∀ m, (t.chan chan).mode m = (signOf m arg).getD ((s.chan chan).mode m)
  on : ∀ m, masks'.on m =
    ((signOf m arg).map fun v => v && !(s.chan chan).mode m).getD (masks.on m)
  off : ∀ m, masks'.off m =
    ((signOf m arg).map fun v => !v && (s.chan chan).mode m).getD (masks.off m)
  queued : ∀ link, s.isUser link = false → t.queued link = s.queued link

theorem mode_setMode (c : Channel) (value : Bool) (m other : ChannelMode) :
    (c.setMode value m).mode other = if other = m then value else c.mode other := by
  cases m <;> cases other <;> rfl

theorem modeArg_step (s : Server) (con : ConId) (chan : ChanId) (masks : Masks) (arg : Str) :
    ModeStep chan arg s masks (s.modeArg con chan masks arg).1 (s.modeArg con chan masks arg).2 := by
  have hSame : s.toCore = s.toCore.modChan chan id := by
    simp [Core.modChan]
  have hRefused (text : Str) (hNone : ∀ m, signOf m arg = none) :
      ModeStep chan arg s masks (s.sendIfUser con msgServerNosuch text) masks := by
    refine ⟨⟨id, (toCore_sendIfUser ..).trans hSame⟩, fun m => ?_, fun m => ?_, fun m => ?_,
      fun link h => queued_sendIfUser h ..⟩
    · rw [toCore_sendIfUser, hNone m, Option.getD_none]
    · rw [hNone m, Option.map_none, Option.getD_none]
    · rw [hNone m, Option.map_none, Option.getD_none]
  -- an argument with a sign that is known
  have hSet (m : ChannelMode) (v on off : Bool) (hSign : ∀ other, signOf other arg =
      if other = m then some v else none) (hOn : on = (v && !(s.chan chan).mode m))
      (hOff : off = (!v && (s.chan chan).mode m)) :
      ModeStep chan arg s masks (s.onCore (·.modChan chan (·.setMode v m)))
        { on := setBit masks.on m on, off := setBit masks.off m off } := by
    refine ⟨⟨(·.setMode v m), rfl⟩, fun other => ?_, fun other => ?_, fun other => ?_, fun _ _ => rfl⟩
    · have hMode : ((s.onCore (·.modChan chan (·.setMode v m))).chan chan).mode other =
          ((s.chan chan).setMode v m).mode other := by simp
      rw [hMode, mode_setMode, hSign other]
      split <;> rfl
    · rw [hSign other]
      by_cases h : other = m <;> simp [setBit, h, hOn]
    · rw [hSign other]
      by_cases h : other = m <;> simp [setBit, h, hOff]
  unfold modeArg
  split
  · rename_i hMode
    exact hRefused _ fun m => by simp [signOf, hMode]
  · rename_i m hMode
    have hOther (other : ChannelMode) : some m = some other ↔ other = m := by
      rw [Option.some_inj]
      exact eq_comm
    split
    · rename_i hSign
      exact hSet m true _ _ (fun other => by simp only [signOf, hMode, hOther, hSign]) (by simp)
        (by simp)
    · rename_i hSign
      exact hSet m false _ _ (fun other => by simp only [signOf, hMode, hOther, hSign]) (by simp)
        (by simp)
    · rename_i hPlus hMinus
      refine hRefused _ fun other => ?_
      simp only [signOf]
      split <;> rfl

/-- What a list of arguments does. -/
theorem modeArgs_run (s : Server) (con : ConId) (chan : ChanId) (l : List Str) :
    let r := l.foldl (fun (s, masks) arg => s.modeArg con chan masks arg) (s, ({} : Masks))
    (∃ f : Channel → Channel, r.1.toCore = s.toCore.modChan chan f) ∧
      (∀ m, (r.1.chan chan).mode m = lastSign ((s.chan chan).mode m) (signs m l)) ∧
      (∀ m, r.2.on m = lastOn ((s.chan chan).mode m) (signs m l)) ∧
      (∀ m, r.2.off m = lastOff ((s.chan chan).mode m) (signs m l)) ∧
      ∀ link, s.isUser link = false → r.1.queued link = s.queued link := by
  induction l using List.reverseRecOn with
  | nil =>
    refine ⟨⟨id, by simp [Core.modChan]⟩, fun m => rfl, fun m => rfl, fun m => rfl, fun _ _ => rfl⟩
  | append_singleton l arg ih =>
    simp only [List.foldl_append, List.foldl_cons, List.foldl_nil]
    generalize l.foldl (fun (s, masks) arg => s.modeArg con chan masks arg) (s, ({} : Masks)) = r at ih
    obtain ⟨t, masks⟩ := r
    obtain ⟨⟨f, hCore⟩, hMode, hOn, hOff, hQueued⟩ := ih
    simp only at hCore hMode hOn hOff hQueued ⊢
    have hStep := modeArg_step t con chan masks arg
    obtain ⟨g, hNext⟩ := hStep.core
    have hUser (link : ConId) : t.isUser link = s.isUser link := by
      rw [hCore]
      rfl
    refine ⟨⟨g ∘ f, ?_⟩, fun m => ?_, fun m => ?_, fun m => ?_, fun link h => ?_⟩
    · rw [hNext, hCore]
      simp only [Core.modChan]
      congr 1
      funext c
      by_cases h : c = chan <;> simp [h]
    · rw [hStep.mode, hMode, signs_concat]
      cases signOf m arg <;> simp
    · rw [hStep.on, hOn, hMode, signs_concat]
      cases signOf m arg <;> simp
    · rw [hStep.off, hOff, hMode, signs_concat]
      cases signOf m arg <;> simp
    · rw [hStep.queued link (by rw [hUser, h]), hQueued link h]

end Server

/-! ### The message for the peers -/

/-- The arguments of the message about the modes that were changed. -/
def Masks.words (masks : Masks) : List Str :=
  ChannelMode.all.filterMap fun m =>
    if masks.on m || masks.off m then some ((if masks.on m then '+' else '-') :: m.text) else none

theorem Masks.text_eq (masks : Masks) : masks.text = opsText masks.words := by
  unfold Masks.text Masks.words
  induction ChannelMode.all with
  | nil => rfl
  | cons m l ih =>
    rw [List.flatMap_cons, ih, List.filterMap_cons]
    by_cases hOn : masks.on m = true
    · simp [hOn, opsText, str]
    · by_cases hOff : masks.off m = true <;> simp [hOn, hOff, opsText, str]

theorem Masks.word_of_mem {masks : Masks} {w : Str} (h : w ∈ masks.words) : Word w := by
  obtain ⟨m, -, hm⟩ := List.mem_filterMap.1 h
  split at hm
  · cases hm
    split <;> cases m <;> decide
  · cases hm

theorem Masks.length_text (masks : Masks) : masks.text.length ≤ 35 := by
  have hSum (l : List ChannelMode) : (l.flatMap fun m =>
      if masks.on m || masks.off m then
        str " " ++ (if masks.on m then str "+" else str "-") ++ m.text
      else []).length ≤ (l.map fun m => m.text.length + 2).sum := by
    induction l with
    | nil => simp
    | cons m l ih =>
      rw [List.flatMap_cons, List.length_append, List.map_cons, List.sum_cons]
      refine Nat.add_le_add ?_ ih
      split
      · split <;> simp [str]
      · exact Nat.zero_le _
  exact hSum ChannelMode.all

theorem signOf_word (m other : ChannelMode) (v : Bool) :
    signOf m ((if v then '+' else '-') :: other.text) = if other = m then some v else none := by
  cases v <;> cases m <;> cases other <;> decide

/-- The message asks for what was changed. -/
theorem Masks.signs_words (masks : Masks) (m : ChannelMode) :
    signs m masks.words =
      if masks.on m then [true] else if masks.off m then [false] else [] := by
  have hWord (other : ChannelMode) :
      (if masks.on other || masks.off other then
        some ((if masks.on other then '+' else '-') :: other.text) else none).bind (signOf m) =
      if other = m ∧ (masks.on other || masks.off other) = true then some (masks.on other)
      else none := by
    by_cases hChanged : (masks.on other || masks.off other) = true
    · rw [if_pos hChanged, Option.bind_some, signOf_word]
      simp [hChanged]
    · rw [if_neg hChanged, if_neg fun h => hChanged h.2]
      rfl
  rw [signs, Masks.words, List.filterMap_filterMap]
  simp only [hWord]
  cases hOn : masks.on m <;> cases hOff : masks.off m <;> cases m <;>
    simp [ChannelMode.all, hOn, hOff]

namespace Server

/-! ### A request and its replay -/

variable {s t : Server} {con : ConId} {chan : ChanId}

/-- Whether `channel_mode` denies a sender the change. -/
def modeDenied (s : Core) (chan : ChanId) (senderUser : Option UserId) : Bool :=
  senderUser.any fun user =>
    decide ((s.user user).level < (s.chan chan).level) ||
      decide ((s.user user).level < .moderator) && !s.isChanop chan user

/-- A request for a change of modes that `channel_mode` accepts. -/
def ModeRequest (s : Core) (con : ConId) (pkt sender : Str) (chan : ChanId) (modes : Str) : Prop :=
  ∃ senderUser rest name, s.popUserServer con pkt = some (sender, senderUser, some rest) ∧
    nextArg rest = (name, some modes) ∧ s.channels.lookup name = some chan ∧
    modeDenied s chan senderUser = false

/-- What the peers are told. -/
def modeLine (sender name : Str) (masks : Masks) : Str :=
  str ":" ++ sender ++ str " " ++ name ++ str " " ++ masks.text

/-- What the handler does with a request that it accepts. -/
theorem channelMode_request {pkt sender modes : Str} (h : ModeRequest s.toCore con pkt sender chan modes)
    (tag : Nat) : ∃ masks : Masks,
      (∀ m, masks.on m = lastOn ((s.chan chan).mode m) (signs m (args (some modes)))) ∧
      (∀ m, masks.off m = lastOff ((s.chan chan).mode m) (signs m (args (some modes)))) ∧
      (∀ m, ((s.channelMode con tag pkt).chan chan).mode m =
        lastSign ((s.chan chan).mode m) (signs m (args (some modes)))) ∧
      ∀ link, s.isUser link = false → link ≠ con → s.servers.count link = 1 →
        (s.channelMode con tag pkt).queued link = s.queued link ++
          if ChannelMode.all.any fun m => masks.on m || masks.off m then
            [⟨link, tag, clip (modeLine sender (s.chan chan).name masks)⟩] else [] := by
  obtain ⟨senderUser, rest, name, hPop, hArg, hFound, hAllowed⟩ := h
  have hRun := modeArgs_run s con chan (args (some modes))
  have hHandler : s.channelMode con tag pkt =
      let r := (args (some modes)).foldl (fun (s, masks) arg => s.modeArg con chan masks arg)
        (s, ({} : Masks))
      if ChannelMode.all.any fun m => r.2.on m || r.2.off m then
        let t := r.1.onCore fun s => s.modChan chan fun c => { c with timestamp := s.now }
        let t := t.notifyOps chan
          (sender ++ str " changed mode on channel " ++ (s.chan chan).name ++ str ":" ++ r.2.text)
        t.passMessageArgs (some con) tag (modeLine sender (s.chan chan).name r.2)
      else r.1 := by
    have hDenied : (senderUser.any fun user =>
        decide ((s.user user).level < (s.chan chan).level) ||
          decide ((s.user user).level < .moderator) && !s.isChanop chan user) = false := hAllowed
    unfold channelMode
    simp only [hPop, Option.map_some, hArg, hFound, hDenied]
    rfl
  rw [hHandler]
  generalize (args (some modes)).foldl (fun (s, masks) arg => s.modeArg con chan masks arg)
    (s, ({} : Masks)) = r at hRun
  obtain ⟨t, masks⟩ := r
  obtain ⟨⟨f, hCore⟩, hMode, hOn, hOff, hQueued⟩ := hRun
  simp only at hCore hMode hOn hOff hQueued ⊢
  refine ⟨masks, hOn, hOff, fun m => ?_, fun link hUser hOther hOnce => ?_⟩
  · rw [← hMode m]
    split
    · rw [toCore_passMessageArgs, toCore_notifyOps, toCore_onCore]
      cases m <;> simp [Core.modChan, Channel.mode]
    · rfl
  · rw [← hQueued link hUser]
    have hStays : t.isUser link = false ∧ t.servers.count link = 1 := by
      rw [hCore]
      exact ⟨hUser, hOnce⟩
    split
    · have hUser' : (t.onCore fun s => s.modChan chan fun c =>
          { c with timestamp := s.now }).isUser link = false := hStays.1
      rw [queued_passMessageArgs_of_ne (by simpa using Ne.symm hOther), queued_notifyOps hUser',
        queued_onCore, toCore_notifyOps, toCore_onCore]
      have hCount : (t.toCore.modChan chan fun c => { c with timestamp := t.now }).servers.count
          link = 1 := hStays.2
      rw [hCount]
      rfl
    · rw [List.append_nil]

/-- The peer knows the channel and lets the sender change its modes. -/
def PeerAllows (t : Core) (sender name : Str) (chan : ChanId) : Prop :=
  t.channels.lookup name = some chan ∧
    (t.isServerName sender = true ∨
      ∃ user, t.users.lookup sender = some user ∧ modeDenied t chan (some user) = false)

/-- The message is a request that the peer accepts, with the words of the masks as arguments. -/
theorem modeRequest_line {back : ConId} {me sender name : Str} {masks : Masks}
    (h : LinkedTo t.toCore back me) (hAllows : PeerAllows t.toCore sender name chan)
    (hSender : Word sender) (hName : Word name) (hSome : masks.words ≠ []) :
    ∃ modes, ModeRequest t.toCore back (modeLine sender name masks) sender chan modes ∧
      args (some modes) = masks.words := by
  obtain ⟨hFound, hMay⟩ := hAllows
  have hText : modeLine sender name masks = ':' :: (sender ++ ' ' :: (name ++ ' ' :: masks.text)) := by
    simp [modeLine, str]
  have hArgs : args (restAfter (some (opsText masks.words ++ []))) = masks.words :=
    args_opsText (fun w hw => Masks.word_of_mem hw) (.inl rfl)
  rw [List.append_nil, ← Masks.text_eq] at hArgs
  cases hModes : restAfter (some masks.text) with
  | none =>
    rw [hModes] at hArgs
    exact absurd hArgs.symm hSome
  | some modes =>
    rw [hModes] at hArgs
    have hSkip : skipSpace masks.text ≠ [] ∧ skipSpace masks.text = modes := by
      simp only [restAfter] at hModes
      split at hModes
      · cases hModes
      · rename_i hText
        exact ⟨hText, Option.some_inj.1 hModes⟩
    have hNext : nextArg (name ++ ' ' :: masks.text) = (name, some modes) := by
      rw [nextArg_word hName hSkip.1, hSkip.2]
    have hFirst : nextArg (sender ++ ' ' :: (name ++ ' ' :: masks.text)) =
        (sender, some (name ++ ' ' :: masks.text)) := by
      have hStart := hName.skipSpace (' ' :: masks.text)
      rw [nextArg_word hSender (by rw [hStart]; simp), hStart]
    refine ⟨modes, ?_, hArgs⟩
    rw [hText]
    rcases hMay with hServer | ⟨user, hUser, hAllowed⟩
    · refine ⟨none, _, name, ?_, hNext, hFound, rfl⟩
      simp only [Core.popUserServer, h.isServer, if_true, hFirst, hServer]
    · by_cases hServer : t.isServerName sender = true
      · refine ⟨none, _, name, ?_, hNext, hFound, rfl⟩
        simp only [Core.popUserServer, h.isServer, if_true, hFirst, hServer]
      · refine ⟨some user, _, name, ?_, hNext, hFound, hAllowed⟩
        simp only [Core.popUserServer, h.isServer, if_true, hFirst, hServer, hUser]
        rfl

/-- What is queued for a link between two states. -/
def newFor (s t : Server) (link : ConId) : List Message :=
  (t.queued link).drop (s.queued link).length

/-- The peer after it has processed messages about the modes of a channel. -/
def replay (t : Server) (back : ConId) (l : List Message) : Server :=
  l.foldl (fun t message => t.channelMode back message.tag message.body) t

/-- The peer ends up with the modes of the server exactly where no mode is asked for twice in a row at
the end of the arguments, with a sign that changes it. -/
theorem replay_iff {link back : ConId} {peer me pkt sender modes : Str} {chan' : ChanId}
    (hLink : LinkedTo s.toCore link peer) (hOther : link ≠ con) (hBack : LinkedTo t.toCore back me)
    (hRequest : ModeRequest s.toCore con pkt sender chan modes)
    (hAllows : PeerAllows t.toCore sender (s.chan chan).name chan')
    (hSender : Word sender) (hName : Word (s.chan chan).name)
    (hFits : sender.length + (s.chan chan).name.length + 38 ≤ 2043)
    (hSame : ∀ m, (t.chan chan').mode m = (s.chan chan).mode m) (tag : Nat) :
    (∀ m, ((t.replay back (newFor s (s.channelMode con tag pkt) link)).chan chan').mode m =
      ((s.channelMode con tag pkt).chan chan).mode m) ↔
    ∀ m before v, signs m (args (some modes)) = before ++ [v, v] → v = (s.chan chan).mode m := by
  obtain ⟨masks, hOn, hOff, hModes, hQueued⟩ := channelMode_request hRequest tag
  have hNew : newFor s (s.channelMode con tag pkt) link =
      if ChannelMode.all.any fun m => masks.on m || masks.off m then
        [⟨link, tag, modeLine sender (s.chan chan).name masks⟩] else [] := by
    have hClip : clip (modeLine sender (s.chan chan).name masks) =
        modeLine sender (s.chan chan).name masks := by
      refine clip_of_fits ?_
      have := masks.length_text
      simp [modeLine, str]
      omega
    rw [newFor, hQueued link hLink.isUser hOther hLink.listed, List.drop_left, hClip]
  -- what the peer makes of it
  have hPeer (m : ChannelMode) :
      ((t.replay back (newFor s (s.channelMode con tag pkt) link)).chan chan').mode m =
        if masks.on m then true else if masks.off m then false else (s.chan chan).mode m := by
    rw [hNew]
    by_cases hAny : (ChannelMode.all.any fun m => masks.on m || masks.off m) = true
    · have hSome : masks.words ≠ [] := by
        obtain ⟨other, hIn, hChanged⟩ := List.any_eq_true.1 hAny
        exact List.ne_nil_of_mem (List.mem_filterMap.2 ⟨other, hIn, if_pos hChanged⟩)
      obtain ⟨modes', hAgain, hArgs⟩ := modeRequest_line hBack hAllows hSender hName hSome
      obtain ⟨-, -, -, hAfter, -⟩ := channelMode_request hAgain tag
      rw [if_pos hAny, replay, List.foldl_cons, List.foldl_nil, hAfter, hArgs, Masks.signs_words,
        hSame]
      cases masks.on m <;> cases masks.off m <;> rfl
    · have hNone : masks.on m = false ∧ masks.off m = false := by
        rw [Bool.not_eq_true, List.any_eq_false] at hAny
        have hm := hAny m (by cases m <;> decide)
        simpa using hm
      rw [if_neg hAny, hNone.1, hNone.2]
      exact hSame m
  refine forall_congr' fun m => ?_
  rw [hPeer, hModes, hOn, hOff]
  exact told_iff _ _

/-- The peer's side of the link: joe is logged in at the hub and an operator of `#lobby`. -/
def oppedPeer : List Event :=
  [.accept 1 (str "hub") 0 0, .link 0,
    .packet 0 .login (str "joe x 6699 \"c\" 3 unknown 0 1 hub 0") {},
    .packet 0 .join (str ":joe #lobby") {}, .packet 0 .op (str ":hub #lobby joe") {}]

/-- The server at the other end. -/
def spoke : Startup := { hub with cfg := { hub.cfg with serverName := str "peer" } }

theorem replay_iff_private :
    let s := reach hub opped
    let t := reach spoke oppedPeer
    let s' := s.channelMode 1 msgClientChannelMode (str "#lobby +PRIVATE")
    ((t.replay 0 (newFor s s' 0)).chan 2).mode .onPrivate = (s'.chan 3).mode .onPrivate := by
  have hOne (m : ChannelMode) : (signs m (args (some (str "+PRIVATE")))).length ≤ 1 := by
    cases m <;> decide
  have hLink : LinkedTo (reach hub opped).toCore 0 (str "peer") := by decide +kernel
  have hBack : LinkedTo (reach spoke oppedPeer).toCore 0 (str "hub") := by decide +kernel
  have hRequest : ModeRequest (reach hub opped).toCore 1 (str "#lobby +PRIVATE") (str "joe") 3
      (str "+PRIVATE") :=
    ⟨some 2, str "#lobby +PRIVATE", str "#lobby", by decide +kernel, by decide +kernel,
      by decide +kernel, by decide +kernel⟩
  refine (replay_iff hLink (by decide) hBack hRequest
    ⟨by decide +kernel, .inr ⟨1, by decide +kernel, by decide +kernel⟩⟩
    (by decide) (by decide +kernel) (by decide +kernel) ?_ msgClientChannelMode).2 ?_ .onPrivate
  · intro m
    cases m <;> decide +kernel
  · intro m before v hTwo
    have hLength := hOne m
    rw [hTwo, List.length_append] at hLength
    simp at hLength

/-- Two requests in one for the same mode: the server sets it and tells nobody. -/
theorem repeated_mode_untold :
    let s := reach hub opped
    let t := reach spoke oppedPeer
    let s' := s.channelMode 1 msgClientChannelMode (str "#lobby +PRIVATE +PRIVATE")
    ChannelMode.all.map (t.chan 2).mode = ChannelMode.all.map (s.chan 3).mode ∧
      newFor s s' 0 = [] ∧
      ChannelMode.all.map ((t.replay 0 (newFor s s' 0)).chan 2).mode ≠
        ChannelMode.all.map (s'.chan 3).mode :=
  ⟨by decide +kernel, by decide +kernel, by decide +kernel⟩

end Server

end OpenNap
