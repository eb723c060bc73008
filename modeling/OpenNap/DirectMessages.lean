import OpenNap.UploadRelay

/-! Messages from one user to another: private messages, pings and pongs.  Each server on the way hands
such a message to the next one, and the server of the recipient delivers it, or tells the sender that
the recipient is ignoring them. -/

namespace OpenNap

open CText Memory

def msgClientServerReconfig : Nat := 800
def msgClientServerConfig : Nat := 810
def msgClientChannelBanList : Nat := 420
def msgClientChannelClearBans : Nat := 424
def msgClientPing : Nat := 751
def msgClientPong : Nat := 752
def msgClientConnect : Nat := 10100
def msgClientKillServer : Nat := 10110
def msgClientLinks : Nat := 10112
def msgClientUsageStats : Nat := 10115
def msgClientRehash : Nat := 10117
def msgClientChannelLevel : Nat := 10201
def msgClientUserMode : Nat := 10203
def msgClientOpList : Nat := 10206
def msgClientChannelWallop : Nat := 10208

/-! ### The handlers -/

/-- The words that `operserv` knows, and the messages that they stand for. -/
def operservWords : List (Str × Nat) :=
  [(str "chanlevel", msgClientChannelLevel), (str "links", msgClientLinks),
    (str "stats", msgClientUsageStats), (str "connect", msgClientConnect),
    (str "disconnect", msgClientDisconnect), (str "killserver", msgClientKillServer),
    (str "register", msgClientRegisterUser), (str "chanlimit", msgClientChannelLimit),
    (str "kick", msgClientKickUser), (str "usermode", msgClientUserMode),
    (str "config", msgClientServerConfig), (str "reconfig", msgClientServerReconfig),
    (str "cban", msgClientChannelBan), (str "cunban", msgClientChannelUnban),
    (str "cbanlist", msgClientChannelBanList), (str "cbanclear", msgClientChannelClearBans),
    (str "clearchan", msgClientClearChannel), (str "cloak", msgClientCloak), (str "op", msgClientOp),
    (str "oplist", msgClientOpList), (str "deop", msgClientDeop), (str "rehash", msgClientRehash)]

/-- The lines of help of `operserv`. -/
def operservHelp : List Str :=
  [str "OperServ Help for OperServ:", str "OperServ cloak", str "OperServ config",
    str "OperServ connect", str "OperServ disconnect", str "OperServ help", str "OperServ killserver",
    str "OperServ links", str "OperServ reconfig", str "OperServ register",
    str "OperServ rehash [server]", str "OperServ stats", str "OperServ usermode",
    str "OperServ END of help for OperServ"]

/-- The words that `chanserv` knows, and the messages that they stand for. -/
def chanservWords : List (Str × Nat) :=
  [(str "ban", msgClientChannelBan), (str "unban", msgClientChannelUnban),
    (str "banclear", msgClientChannelClearBans), (str "banlist", msgClientChannelBanList),
    (str "clear", msgClientClearChannel), (str "kick", msgClientKick), (str "oplist", msgClientOpList),
    (str "topic", msgServerTopic), (str "limit", msgClientChannelLimit),
    (str "drop", msgClientDropChannel), (str "op", msgClientOp), (str "deop", msgClientDeop),
    (str "wallop", msgClientChannelWallop), (str "invite", msgClientChannelInvite),
    (str "mode", msgClientChannelMode), (str "muzzle", msgClientChannelMuzzle),
    (str "unmuzzle", msgClientChannelUnmuzzle), (str "unvoice", msgClientChannelUnvoice),
    (str "voice", msgClientChannelVoice)]

/-- The lines of help of `chanserv`. -/
def chanservHelp : List Str :=
  [str "ChanServ HELP for ChanServ commands:", str "ChanServ ban <channel> <user> [reason]",
    str "ChanServ banclear <channel>", str "ChanServ banlist <channel>",
    str "ChanServ clear <channel>", str "ChanServ deop <channel> <user> [user ...]",
    str "ChanServ drop <channel>", str "ChanServ help", str "ChanServ invite <channel> <user>",
    str "ChanServ kick <channel> <user> [reason]", str "ChanServ limit <channel> <number>",
    str "ChanServ mode <channel> [mode]", str "ChanServ muzzle <channel> <user>",
    str "ChanServ op <channel> <user> [user ...]", str "ChanServ oplist <channel>",
    str "ChanServ topic <channel> [topic]", str "ChanServ unban <channel>",
    str "ChanServ unmuzzle <channel> <user>", str "ChanServ unvoice <channel> [user [user ...]]",
    str "ChanServ voice <channel> [user [user ...]]", str "ChanServ wallop <channel> <text>",
    str "ChanServ END of ChanServ HELP"]

/-- What `dispatch_command` does with a message number and a text from a connection. -/
abbrev Dispatcher := Server → ConId → Nat → Str → Server

/-- What follows a nick in a message: a blank and a text, or nothing. -/
def textBehind : Option Str → Str
  | none => []
  | some text => ' ' :: text

/-- The message of a user for a user behind a link. -/
def handedOn (name nick : Str) (args : Option Str) : Str :=
  ':' :: (name ++ ' ' :: (nick ++ textBehind args))

namespace Server

/-- A service takes a command out of a private message: `operserv` and `chanserv`. -/
def service (call : Dispatcher) (words : List (Str × Nat)) (help : List Str) (unknown : Str → Str)
    (s : Server) (con : ConId) (pkt : Str) : Server :=
  let (cmd, rest) := nextArg pkt
  match words.find? fun entry => sameText entry.1 cmd with
  | some entry => call s con entry.2 (rest.getD [])
  | none =>
    if sameText (str "help") cmd then
      help.foldl (fun s line => s.sendCmd con msgClientPrivmsg line) s
    else s.sendCmd con msgServerNosuch (unknown cmd)

/-- `operserv`. -/
def operserv (call : Dispatcher) : Server → ConId → Str → Server :=
  service call operservWords operservHelp fun cmd => str "Unknown OperServ command: " ++ cmd

/-- `chanserv`. -/
def chanserv (call : Dispatcher) : Server → ConId → Str → Server :=
  service call chanservWords chanservHelp fun _ => str "unknown ChanServ command"

/-- A message for a user is delivered, refused or handed on. -/
def handOver (s : Server) (tag : Nat) (sender user : UserId) (rest : Str) : Server :=
  let me := s.user sender
  let u := s.user user
  if s.isUser u.con then
    if (s.con u.con).uopt.any fun o => isIgnoring o.ignore me.nick then
      s.sendUser sender msgServerNosuch (u.nick ++ str " is ignoring you")
    else s.sendCmd u.con tag (me.nick ++ rest)
  else s.sendCmd u.con tag (str ":" ++ me.nick ++ str " " ++ u.nick ++ rest)

/-- `privmsg`: `[ :<nick> ] <user> <text>`.  A packet of a peer with nothing behind the sender makes the
source read through a null pointer, and is dropped here. -/
def privmsg (call : Dispatcher) (s : Server) (con : ConId) (pkt : Str) : Server :=
  match s.popUser con pkt with
  | some (sender, some rest) =>
    match nextArgNoskip (if 180 < rest.length then rest.take 180 else rest) with
    | (_, none) => s.unparsable con
    | (nick, some text) =>
      if s.isUser con ∧ (s.user sender).level > .user ∧ sameText nick (str "operserv") then
        s.operserv call con text
      else if s.isUser con ∧ sameText (str "chanserv") nick then s.chanserv call con text
      else
        match s.users.lookup nick with
        | none => s.nosuchuser con
        | some user => s.handOver msgClientPrivmsg sender user (textBehind (some text))
  | _ => s

/-- `ping`: `[ :<user> ] <user> [ <optional args> ]`.  A packet of a peer with nothing behind the sender
makes the source read through a null pointer, and is dropped here. -/
def ping (s : Server) (con : ConId) (tag : Nat) (pkt : Str) : Server :=
  match s.popUser con pkt with
  | some (sender, some rest) =>
    let (nick, args) := nextArgNoskip rest
    match s.users.lookup nick with
    | none =>
      s.sendIfUser con msgServerNosuch (str "ping failed, " ++ nick ++ str " is not online")
    | some user => s.handOver tag sender user (textBehind args)
  | _ => s

end Server

/-- The messages from one user to another. -/
inductive DirectCommand
  | privmsg
  | ping
  | pong
deriving DecidableEq, Repr

namespace DirectCommand

/-- The number of the message. -/
def tag : DirectCommand → Nat
  | privmsg => msgClientPrivmsg
  | ping => msgClientPing
  | pong => msgClientPong

/-- The handler of the message. -/
def handler (call : Dispatcher) : DirectCommand → Server → ConId → Str → Server
  | privmsg => Server.privmsg call
  | ping => fun s con => s.ping con msgClientPing
  | pong => fun s con => s.ping con msgClientPong

/-- The part of the text that the handler looks at. -/
def crop : DirectCommand → Str → Str
  | privmsg, rest => if 180 < rest.length then rest.take 180 else rest
  | _, rest => rest

/-- The entries of the protocol table. -/
def all : List DirectCommand := [privmsg, ping, pong]

theorem mem_all (cmd : DirectCommand) : cmd ∈ all := by cases cmd <;> decide

/-- The entry of a number. -/
def ofTag (tag : Nat) : Option DirectCommand := all.find? (·.tag = tag)

theorem ofTag_tag (cmd : DirectCommand) : ofTag cmd.tag = some cmd := by cases cmd <;> rfl

end DirectCommand

/-- A nick that no service has. -/
def OfUser (nick : Str) : Prop :=
  sameText nick (str "operserv") = false ∧ sameText (str "chanserv") nick = false

/-- The text of a message, its recipient and what follows the recipient's name. -/
structure DirectCommand.Cut (cmd : DirectCommand) (rest nick : Str) (args : Option Str) : Prop where
  cut : nextArgNoskip (cmd.crop rest) = (nick, args)
  text : cmd = .privmsg → args.isSome = true

namespace DirectCommand.Cut

variable {cmd : DirectCommand} {rest nick name : Str} {args : Option Str}

theorem crop_eq (h : cmd.Cut rest nick args) : cmd.crop rest = nick ++ textBehind args := by
  have hCut := h.cut
  have hSpec := (cutAt_spec (· == ' ') (cmd.crop rest)).2
  rw [show cutAt (· == ' ') (cmd.crop rest) = (nick, args) from hCut] at hSpec
  obtain ⟨hNone, hAll⟩ | ⟨c, text, hBlank, hSome, hAll⟩ := hSpec
  · obtain rfl : args = none := hNone
    rw [← hAll]
    exact (List.append_nil _).symm
  · obtain rfl : args = some text := hSome
    have hc : c = ' ' := by simpa using hBlank
    rw [hAll, hc]
    rfl

/-- The next server cuts the text the same way, as long as the name is as long. -/
theorem again (h : cmd.Cut rest nick args) (hName : Word name) (hLength : name.length = nick.length) :
    cmd.Cut (name ++ textBehind args) name args where
  cut := by
    have hShort : cmd.crop (name ++ textBehind args) = name ++ textBehind args := by
      have hOld := congrArg List.length h.crop_eq
      cases cmd with
      | privmsg =>
        simp only [crop, List.length_append] at hOld ⊢
        rw [if_neg]
        split at hOld
        · rw [List.length_take] at hOld
          omega
        · omega
      | ping => rfl
      | pong => rfl
    have hPlain : ∀ c ∈ name, (c == ' ') = false := fun c hc => by
      have hSpace := hName.plain c hc
      simp only [isSpace, Bool.or_eq_false_iff] at hSpace
      exact hSpace.1
    rw [hShort]
    cases args with
    | none => exact (congrArg (cutAt _) (List.append_nil name)).trans (cutAt_of_none hPlain)
    | some text => exact cutAt_append hPlain rfl
  text := h.text

end DirectCommand.Cut

/-! ### What a server queues -/

namespace Server

section

variable {s : Server} {con : ConId} {cmd : DirectCommand} {call : Dispatcher}
  {pkt rest typed name nick : Str} {args : Option Str} {sender user : UserId}

/-- A message for a known user who is not a service is handed over. -/
theorem handler_eq (hPop : s.popUser con pkt = some (sender, some rest)) (hCut : cmd.Cut rest typed args)
    (hPlain : cmd = .privmsg → s.isUser con = true → OfUser typed)
    (hUser : s.users.lookup typed = some user) :
    cmd.handler call s con pkt = s.handOver cmd.tag sender user (textBehind args) := by
  have hArgs := hCut.cut
  cases cmd with
  | privmsg =>
    obtain ⟨text, rfl⟩ := Option.isSome_iff_exists.1 (hCut.text rfl)
    have hNotOper : ¬ (s.isUser con = true ∧ (s.user sender).level > .user ∧
        sameText typed (str "operserv") = true) := by
      rintro ⟨hOn, -, hName⟩
      rw [(hPlain rfl hOn).1] at hName
      cases hName
    have hNotChan : ¬ (s.isUser con = true ∧ sameText (str "chanserv") typed = true) := by
      rintro ⟨hOn, hName⟩
      rw [(hPlain rfl hOn).2] at hName
      cases hName
    simp only [DirectCommand.crop] at hArgs
    simp only [DirectCommand.handler, privmsg, hPop, hArgs, hNotOper, hNotChan, if_false, hUser,
      DirectCommand.tag]
  | ping =>
    simp only [DirectCommand.crop] at hArgs
    simp only [DirectCommand.handler, ping, hPop, hArgs, hUser, DirectCommand.tag]
  | pong =>
    simp only [DirectCommand.crop] at hArgs
    simp only [DirectCommand.handler, ping, hPop, hArgs, hUser, DirectCommand.tag]

/-- The message is delivered to the recipient. -/
theorem posts_delivered {tag : Nat} (hOn : s.isUser (s.user user).con = true)
    (hHears : ((s.con (s.user user).con).uopt.any fun o =>
      isIgnoring o.ignore (s.user sender).nick) = false)
    (hFits : ((s.user sender).nick ++ textBehind args).length ≤ 2043) :
    s.posts (·.handOver tag sender user (textBehind args)) =
      [((s.user user).con, Message.bytes ⟨(s.user user).con, tag,
        (s.user sender).nick ++ textBehind args⟩)] := by
  have hOn' : ({ s with sent := [] } : Server).isUser (s.user user).con = true := hOn
  simp only [posts, handOver, hOn', hHears, if_true, if_false, Bool.false_eq_true]
  simp [sendCmd, queueData, clip_of_fits hFits]

/-- The sender is told of being ignored. -/
theorem posts_ignored {tag : Nat} (hOn : s.isUser (s.user user).con = true)
    (hIgnores : ((s.con (s.user user).con).uopt.any fun o =>
      isIgnoring o.ignore (s.user sender).nick) = true) :
    s.posts (·.handOver tag sender user rest) =
      s.posts (·.sendUser sender msgServerNosuch ((s.user user).nick ++ str " is ignoring you")) := by
  have hOn' : ({ s with sent := [] } : Server).isUser (s.user user).con = true := hOn
  simp only [posts, handOver, hOn', hIgnores, if_true]

theorem posts_handed_on {tag : Nat} (hAway : s.isUser (s.user user).con = false)
    (hFits : (handedOn (s.user sender).nick (s.user user).nick args).length ≤ 2043) :
    s.posts (·.handOver tag sender user (textBehind args)) =
      [((s.user user).con, Message.bytes ⟨(s.user user).con, tag,
        handedOn (s.user sender).nick (s.user user).nick args⟩)] := by
  have hAway' : ({ s with sent := [] } : Server).isUser (s.user user).con = false := hAway
  have hText : str ":" ++ (s.user sender).nick ++ str " " ++ (s.user user).nick ++ textBehind args =
      handedOn (s.user sender).nick (s.user user).nick args := by simp [handedOn, str]
  simp only [posts, handOver, hAway', if_false, Bool.false_eq_true, hText]
  simp [sendCmd, queueData, clip_of_fits hFits]

end

end Server

/-! ### Servers that read such messages -/

/-- The number and the text of a packet: what `handle_connection` reads of it. -/
def packetOf : Str → Option (Nat × Str)
  | low :: high :: tagLow :: tagHigh :: body =>
    some (twoBytes tagLow tagHigh, body.take (twoBytes low high))
  | _ => none

theorem packetOf_bytes {origin : ConId} {tag : Nat} {body : Str} (hTag : tag < 65536)
    (hFits : body.length < 65536) : packetOf (Message.bytes ⟨origin, tag, body⟩) = some (tag, body) := by
  simp only [Message.bytes, Server.packetHeader, List.cons_append, List.nil_append, packetOf,
    twoBytes_eq hTag, twoBytes_eq hFits, List.take_length]

/-- What a server queues for a message that it reads on a connection: a message between users, or one
that carries another. -/
def Site.hears (call : Dispatcher) (p : Site) (con : ConId) (raw : Str) : List (ConId × Str) :=
  match packetOf raw with
  | none => []
  | some (tag, body) =>
    match DirectCommand.ofTag tag with
    | some cmd => p.server.posts fun s => cmd.handler call s con body
    | none => p.reads con raw

/-- The servers and the links between them. -/
def talking {P : Type} (call : Dispatcher) (site : P → Site)
    (wire : P → ConId → Option (P × ConId)) : Network.Net P ConId Str where
  react p con raw := (site p).hears call con raw
  wire := wire

theorem Site.hears_direct {p : Site} {call : Dispatcher} {con origin : ConId} (cmd : DirectCommand)
    {body : Str} (hFits : body.length < 65536) :
    p.hears call con (Message.bytes ⟨origin, cmd.tag, body⟩) =
      p.server.posts fun s => cmd.handler call s con body := by
  have hTag : cmd.tag < 65536 := by cases cmd <;> decide
  simp only [hears, packetOf_bytes hTag hFits, cmd.ofTag_tag]

theorem Site.hears_carrier {p : Site} {call : Dispatcher} {con origin : ConId} {name nick inner : Str}
    (hFits : (wrapped name nick inner).length < 65536) :
    p.hears call con (carrier origin name nick inner).bytes =
      p.reads con (carrier origin name nick inner).bytes := by
  have hTag : msgServerEncapsulated < 65536 := by decide
  have hNone : DirectCommand.ofTag msgServerEncapsulated = none := rfl
  simp only [hears, carrier, packetOf_bytes hTag hFits, hNone]

/-! ### The way of a message -/

/-- Two users that all servers of a tree know, with the names that every server has. -/
structure Couple {P : Type} (site : P → Site) (wire : P → ConId → Option (P × ConId)) (a b : P)
    (upA upB : P → ConId) (sender user : P → UserId) (name nick : Str) : Prop where
  sender : Owned (fun p => (site p).server) wire a upA sender name
  recipient : Owned (fun p => (site p).server) wire b upB user nick
  senderWord : Word name
  recipientWord : Word nick
  senderText : Unbroken name

section

variable {P : Type} {call : Dispatcher} {site : P → Site} {wire : P → ConId → Option (P × ConId)}
  {a b : P} {upA upB : P → ConId} {depthA depthB : P → Nat} {sender user : P → UserId} {name nick : Str}
  {cmd : DirectCommand} {args : Option Str}

/-- What is to leave the network: the message at the recipient's server, or, if the recipient ignores
the sender, the refusal at the sender's server. -/
def outcome (site : P → Site) (a b : P) (sender user : P → UserId) (name nick : Str)
    (cmd : DirectCommand) (args : Option Str) : List (Network.Flight P ConId Str) :=
  let s := (site b).server
  let recipient := (s.user (user b)).con
  let author := ((site a).server.user (sender a)).con
  if (s.con recipient).uopt.any fun o => Server.isIgnoring o.ignore name then
    [⟨a, author, Message.bytes ⟨author, msgServerNosuch, nick ++ str " is ignoring you"⟩⟩]
  else [⟨b, recipient, Message.bytes ⟨recipient, cmd.tag, name ++ textBehind args⟩⟩]

namespace Couple

/-- The recipient's server delivers the message, or has the refusal delivered. -/
theorem answered [Finite P] (h : Couple site wire a b upA upB sender user name nick)
    (hA : Network.Tree wire a upA depthA) (hServer : Unbroken (site b).server.cfg.serverName)
    (hFits : (handedOn name nick args).length ≤ 2043)
    (hReply : nick.length + 16 + (address (site b).server.cfg.serverName name).length ≤ 2039) :
    Network.Delivers (talking call site wire)
      ((talking call site wire).sends b
        ((site b).server.posts (·.handOver cmd.tag (sender b) (user b) (textBehind args))))
      (outcome site a b sender user name nick cmd args) := by
  have hName : ((site b).server.user (sender b)).nick = name := h.sender.name b
  have hNick : ((site b).server.user (user b)).nick = nick := h.recipient.name b
  have hOn := h.recipient.online
  have hRefusal : (nick ++ str " is ignoring you").length = nick.length + 16 := List.length_append
  simp only [outcome]
  split
  · rename_i hIgnores
    rw [Server.posts_ignored hOn (by rw [hName]; exact hIgnores), hNick]
    by_cases hSame : b = a
    · subst hSame
      have hLocal : ((site b).server.user (sender b)).isLocal = true := (h.sender.isLocal b).2 rfl
      rw [posts_sendUser_local hLocal _ (by rw [hRefusal]; omega)]
      exact Network.delivers_unwired h.sender.client
    · have hRemote : ((site b).server.user (sender b)).isLocal = false := h.sender.toLocated.away hSame
      have hBehind : ((site b).server.user (sender b)).con = upA b := h.sender.behind b hSame
      have hRoom : (nick ++ str " is ignoring you").length +
          (address (site b).server.cfg.serverName ((site b).server.user (sender b)).nick).length ≤
            2039 := by
        rw [hName, hRefusal]
        exact hReply
      have hPosts := posts_sendUser_remote hRemote msgServerNosuch hRoom
      rw [hName, hBehind] at hPosts
      generalize hInner : Message.bytes ⟨upA b, msgServerNosuch, nick ++ str " is ignoring you"⟩ = inner
        at hPosts
      have hLength : (wrapped (site b).server.cfg.serverName name inner).length < 65536 := by
        have hInnerLength : inner.length = nick.length + 16 + 4 := by
          rw [← hInner, Message.bytes, List.length_append, Server.packetHeader, hRefusal]
          simp only [List.length_cons, List.length_nil]
          omega
        simp only [address, wrapped, List.length_cons, List.length_append, List.length_nil] at hReply ⊢
        omega
      obtain ⟨q, port, hWire, -⟩ := hA.above hSame
      have hCarries : Network.Carries (talking call site wire)
          (· = (carrier (upA b) (site b).server.cfg.serverName name inner).bytes) a upA
          (((site a).server.user (sender a)).con, inner) :=
        (h.sender.toLocated.carries hA hServer h.senderText hLength).congr rfl
          fun p port text hText => by rw [hText]; exact Site.hears_carrier hLength
      rw [hPosts, Network.sends_wired hWire, ← show inner = Message.bytes
        ⟨((site a).server.user (sender a)).con, msgServerNosuch, nick ++ str " is ignoring you"⟩ from
          hInner.symm]
      refine hCarries.delivers hA (fun p => (site p).server.servers.length + 1) (fun f hKnown => ?_)
        ⟨rfl, _, hA.back hWire⟩ (hA.rises hSame hWire)
      have hText : (site f.party).hears call f.port f.text = (site f.party).reads f.port f.text := by
        rw [hKnown.1]
        exact Site.hears_carrier hLength
      refine (congrArg List.length hText).trans_le ?_
      exact h.sender.toLocated.width hServer h.senderText hLength hKnown
  · rename_i hHears
    have hShort : (((site b).server.user (sender b)).nick ++ textBehind args).length ≤ 2043 := by
      rw [hName]
      simp only [handedOn, List.length_cons, List.length_append] at hFits ⊢
      omega
    rw [Server.posts_delivered hOn (by rw [hName]; simpa using hHears) hShort, hName]
    exact Network.delivers_unwired h.recipient.client

/-- The sender of a message that comes over a link. -/
theorem popUser_link (h : Couple site wire a b upA upB sender user name nick) {p : P} {con : ConId}
    {e : P × ConId} (hWire : wire p con = some e) (hNe : p ≠ a) (args : Option Str) :
    (site p).server.popUser con (handedOn name nick args) =
      some (sender p, some (nick ++ textBehind args)) := by
  have hServer : (site p).server.isServer con = true := h.sender.toLocated.isServer hWire
  have hRemote : ((site p).server.user (sender p)).isLocal = false := h.sender.toLocated.away hNe
  have hRest := h.recipientWord.skipSpace (textBehind args)
  have hSome : skipSpace (nick ++ textBehind args) ≠ [] := by
    rw [hRest]
    exact List.append_ne_nil_of_left_ne_nil h.recipientWord.nonempty _
  have hArg := nextArg_word h.senderWord hSome
  have hListed : (site p).server.users.lookup name = some (sender p) := h.sender.listed p
  simp only [Core.popUser, hServer, if_true, handedOn, hArg, hListed, hRemote, Bool.false_eq_true,
    if_false, hRest]

/-- A server on the way hands the message on. -/
theorem posts_way (h : Couple site wire a b upA upB sender user name nick)
    (hB : Network.Tree wire b upB depthB) (hFits : (handedOn name nick args).length ≤ 2043) {p : P}
    (hNe : p ≠ b) : (site p).server.posts (·.handOver cmd.tag (sender p) (user p) (textBehind args)) =
      [(upB p, Message.bytes ⟨upB p, cmd.tag, handedOn name nick args⟩)] := by
  have hName : ((site p).server.user (sender p)).nick = name := h.sender.name p
  have hNick : ((site p).server.user (user p)).nick = nick := h.recipient.name p
  have hBehind : ((site p).server.user (user p)).con = upB p := h.recipient.behind p hNe
  rw [Server.posts_handed_on (h.recipient.notUser hB hNe) (by rw [hName, hNick]; exact hFits), hName,
    hNick, hBehind]

/-- A message that comes over a link, on its way to the recipient. -/
def Way (wire : P → ConId → Option (P × ConId)) (a : P) (depthB : P → Nat) (name nick : Str)
    (cmd : DirectCommand) (args : Option Str) (f : Network.Flight P ConId Str) : Prop :=
  f.text = Message.bytes ⟨f.port, cmd.tag, handedOn name nick args⟩ ∧
    (∃ e, wire f.party f.port = some e) ∧ depthB f.party < depthB a

/-- The message comes nearer to the recipient's server with every server that reads it. -/
theorem delivers_way [Finite P] (h : Couple site wire a b upA upB sender user name nick)
    (hA : Network.Tree wire a upA depthA) (hB : Network.Tree wire b upB depthB)
    (hCut : cmd.Cut (nick ++ textBehind args) nick args)
    (hServer : Unbroken (site b).server.cfg.serverName)
    (hFits : (handedOn name nick args).length ≤ 2043)
    (hReply : nick.length + 16 + (address (site b).server.cfg.serverName name).length ≤ 2039)
    {f : Network.Flight P ConId Str} (hWay : Way wire a depthB name nick cmd args f) :
    Network.Delivers (talking call site wire) (.start f)
      (outcome site a b sender user name nick cmd args) := by
  refine Network.Delivers.handed_on (fun f => depthB f.party) (fun f hf => ?_) hWay
  obtain ⟨hText, ⟨e, hWire⟩, hNear⟩ := hf
  have hNe : f.party ≠ a := by
    intro hSame
    rw [hSame] at hNear
    exact Nat.lt_irrefl _ hNear
  have hPeer : (site f.party).server.isUser f.port = false := by
    have hCls : (site f.party).server.isServer f.port = true := h.sender.toLocated.isServer hWire
    simp only [Core.isServer, beq_iff_eq] at hCls
    simp [Core.isUser, hCls]
  have hListed : (site f.party).server.users.lookup nick = some (user f.party) :=
    h.recipient.listed f.party
  have hReact : (talking call site wire).react f.party f.port f.text = (site f.party).server.posts
      (·.handOver cmd.tag (sender f.party) (user f.party) (textBehind args)) := by
    have hRead : (talking call site wire).react f.party f.port f.text = (site f.party).server.posts
        fun s => cmd.handler call s f.port (handedOn name nick args) := by
      rw [hText]
      exact Site.hears_direct cmd (by omega)
    have hSame : cmd.handler call { (site f.party).server with sent := [] } f.port
        (handedOn name nick args) = Server.handOver { (site f.party).server with sent := [] } cmd.tag
          (sender f.party) (user f.party) (textBehind args) :=
      Server.handler_eq (h.popUser_link hWire hNe args) hCut
        (fun _ hUser => absurd (hPeer.symm.trans hUser) (by decide)) hListed
    rw [hRead, Server.posts, Server.posts, hSame]
  rw [hReact]
  by_cases hHome : f.party = b
  · rw [hHome]
    exact .inr (h.answered hA hServer hFits hReply)
  · obtain ⟨q, port, hUp, hLess⟩ := hB.above hHome
    rw [h.posts_way hB hFits hHome, Network.sends_wired hUp]
    exact .inl ⟨_, rfl, ⟨rfl, ⟨_, hB.back hUp⟩, hLess.trans hNear⟩, hLess⟩

end Couple

/-- On every tree of servers, a private message, a ping or a pong of a user for another user, of
whatever servers, is delivered to the recipient once, or, if the recipient is ignoring the sender, the
refusal is delivered to the sender once.  This is so in whatever order the servers read, and at no time
has anything else been queued for a client. -/
theorem direct_message_delivered [Finite P] (h : Couple site wire a b upA upB sender user name nick)
    (hA : Network.Tree wire a upA depthA) (hB : Network.Tree wire b upB depthB) {con : ConId}
    (hOn : (site a).server.isUser con = true)
    (hSeat : ((site a).server.con con).user = some (sender a)) {pkt typed : Str}
    (hCut : cmd.Cut pkt typed args) (hPlain : cmd = .privmsg → OfUser typed)
    (hSame : sameText typed nick = true)
    (hServer : Unbroken (site b).server.cfg.serverName)
    (hFits : (handedOn name nick args).length ≤ 2043)
    (hReply : nick.length + 16 + (address (site b).server.cfg.serverName name).length ≤ 2039) :
    Network.Delivers (talking call site wire)
        ((talking call site wire).sends a ((site a).server.posts fun s => cmd.handler call s con pkt))
        (outcome site a b sender user name nick cmd args) ∧
      ∀ t, (talking call site wire).Run ((talking call site wire).sends a
          ((site a).server.posts fun s => cmd.handler call s con pkt)) t →
        t.left <+: outcome site a b sender user name nick cmd args := by
  have hPop : (site a).server.popUser con pkt = some (sender a, some pkt) := by
    have hNot : (site a).server.isServer con = false := by
      simp only [Core.isUser, beq_iff_eq] at hOn
      simp [Core.isServer, hOn]
    simp [Core.popUser, hNot, hSeat]
  have hListed : (site a).server.users.lookup typed = some (user a) :=
    (Bucket.Table.lookup_congr (sameText_iff.1 hSame)).trans (h.recipient.listed a)
  have hPosts : ((site a).server.posts fun s => cmd.handler call s con pkt) = (site a).server.posts
      (·.handOver cmd.tag (sender a) (user a) (textBehind args)) := by
    have hEq : cmd.handler call { (site a).server with sent := [] } con pkt =
        Server.handOver { (site a).server with sent := [] } cmd.tag (sender a) (user a)
          (textBehind args) :=
      Server.handler_eq hPop hCut (fun hPrivate _ => hPlain hPrivate) hListed
    rw [Server.posts, Server.posts, hEq]
  have hLength : nick.length = typed.length := by
    have hLower := congrArg List.length (sameText_iff.1 hSame)
    rwa [strlower_length, strlower_length, eq_comm] at hLower
  have hAll : Network.Delivers (talking call site wire)
      ((talking call site wire).sends a ((site a).server.posts fun s => cmd.handler call s con pkt))
      (outcome site a b sender user name nick cmd args) := by
    rw [hPosts]
    by_cases hHome : a = b
    · subst hHome
      exact h.answered hA hServer hFits hReply
    · obtain ⟨q, port, hUp, hLess⟩ := hB.above hHome
      rw [h.posts_way hB hFits hHome, Network.sends_wired hUp]
      exact h.delivers_way hA hB (hCut.again h.recipientWord hLength) hServer hFits hReply
        ⟨rfl, ⟨_, hB.back hUp⟩, hLess⟩
  exact ⟨hAll, fun t hRun => hAll.part hRun⟩

end

namespace Server

/-- A server at one end of a line of three, with a client. -/
def joesServer : Server :=
  reach hub [.accept 1 (str "middle") 8888 8888, .link 0, .accept 2 (str "pc") 6700 8888,
    .packet 1 .login (str "joe pw 6700 \"client\" 3") {},
    .packet 0 .login (str "nick pw 0 \"client\" 3 unknown 4 5 other 0") {}]

/-- The server in the middle. -/
def betweenServer : Server :=
  reach hub [.accept 1 (str "one") 8888 8888, .link 0, .accept 2 (str "two") 8888 8888, .link 1,
    .packet 0 .login (str "joe pw 0 \"client\" 3 unknown 4 5 one 0") {},
    .packet 1 .login (str "nick pw 0 \"client\" 3 unknown 4 5 two 0") {}]

/-- The server at the other end, with the other user. -/
def nicksServer : Server :=
  reach hub [.accept 1 (str "middle") 8888 8888, .link 0, .accept 2 (str "pc") 6699 8888,
    .packet 1 .login (str "nick pw 6699 \"client\" 3") {},
    .packet 0 .login (str "joe pw 0 \"client\" 3 unknown 4 5 other 0") {}]

/-- The three servers, each with nothing else in its receive buffers. -/
def talkSite (p : Fin 3) : Site :=
  ⟨if p.val = 0 then joesServer else if p.val = 1 then betweenServer else nicksServer, fun _ => [],
    fun _ => nul, fun _ => []⟩

/-- The records of the two users. -/
def joeRecord (p : Fin 3) : UserId := if p.val = 2 then 3 else 2
def nickRecord (p : Fin 3) : UserId := if p.val = 2 then 2 else 3

theorem tree_from_joe : Network.Tree lineWire 0 (fun _ => 0) fun p => p.val where
  back hWire := tree_line.back hWire
  above {p} h := by
    obtain rfl | rfl : p = 1 ∨ p = 2 := by omega
    · exact ⟨0, 0, rfl, by decide⟩
    · exact ⟨1, 1, rfl, by decide⟩
  below {p a q b} h hDown := by
    unfold lineWire at h
    split at h <;> cases h <;> revert hDown <;> decide

theorem wired_talkSite (p : Fin 3) :
    Wired (talkSite p).server.toCore fun con => (lineWire p con).isSome := by
  have hServers : (talkSite p).server.servers = if p.val = 1 then [0, 1] else [0] := by
    revert p; decide +kernel
  have hCls : ∀ con ∈ (talkSite p).server.servers, (talkSite p).server.isServer con = true := by
    revert p; decide +kernel
  refine ⟨by rw [hServers]; split <;> decide, fun con => ?_, hCls⟩
  rw [hServers]
  obtain rfl | rfl | rfl : p = 0 ∨ p = 1 ∨ p = 2 := by omega
  all_goals rcases con with _ | _ | con <;> simp [lineWire]

theorem couple_line : Couple talkSite lineWire 0 2 (fun _ => 0) lineUp joeRecord nickRecord
    (str "joe") (str "nick") where
  sender :=
    { wired := wired_talkSite
      listed := by decide +kernel
      isLocal := by decide +kernel
      behind := by decide +kernel
      client := by decide +kernel
      name := by decide +kernel
      online := by decide +kernel }
  recipient :=
    { wired := wired_talkSite
      listed := by decide +kernel
      isLocal := by decide +kernel
      behind := by decide +kernel
      client := by decide +kernel
      name := by decide +kernel
      online := by decide +kernel }
  senderWord := by decide +kernel
  recipientWord := by decide +kernel
  senderText := by simp [Unbroken, str, nul]

/-- A dispatcher that does nothing. -/
def noCalls : Dispatcher := fun s _ _ _ => s

/-- What a server queues for joe's message to nick, if he is its user. -/
def joeWrites (p : Fin 3) : Network.State (Fin 3) ConId Str :=
  (talking noCalls talkSite lineWire).sends p ((talkSite p).server.posts fun s =>
    DirectCommand.privmsg.handler noCalls s 1 (str "NICK hello you"))

/-- Joe writes to nick, at the other end of the line. -/
theorem direct_message_delivered_joe : ∃ t,
    (talking noCalls talkSite lineWire).Run (joeWrites 0) t ∧ t.flying = [] ∧
      t.left = [⟨2, 1, Message.bytes ⟨1, 205, str "joe hello you"⟩⟩] := by
  have hCut : DirectCommand.privmsg.Cut (str "NICK hello you") (str "NICK") (some (str "hello you")) :=
    ⟨by decide +kernel, fun _ => rfl⟩
  have hPlain : OfUser (str "NICK") := by constructor <;> decide +kernel
  have hName : (talkSite 2).server.cfg.serverName = str "hub" := by decide +kernel
  have hOn : (talkSite 0).server.isUser 1 = true := by decide +kernel
  have hSeat : ((talkSite 0).server.con 1).user = some (joeRecord 0) := by decide +kernel
  have hServer : Unbroken (talkSite 2).server.cfg.serverName := by
    rw [hName]
    simp [Unbroken, str, nul]
  have hReply : (str "nick").length + 16 +
      (address (talkSite 2).server.cfg.serverName (str "joe")).length ≤ 2039 := by
    rw [hName]
    decide +kernel
  have hAll : Network.Delivers (talking noCalls talkSite lineWire) (joeWrites 0)
      (outcome talkSite 0 2 joeRecord nickRecord (str "joe") (str "nick") .privmsg
        (some (str "hello you"))) :=
    (direct_message_delivered couple_line tree_from_joe tree_line hOn hSeat hCut (fun _ => hPlain)
      (by decide +kernel) hServer (by decide +kernel) hReply).1
  obtain ⟨t, hRun, hDone⟩ := hAll.ends _ .refl
  refine ⟨t, hRun, hDone, (hAll.whole t hRun hDone).trans ?_⟩
  decide +kernel

end Server

end OpenNap
