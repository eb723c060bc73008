import OpenNap.Sayings

/-! What is said on the way over the servers.  What a server tells its peers is read by each of them as
the same text of the same user. -/

namespace OpenNap

open CText

/-! ### What peers are told -/

/-- What is said, by whom: the text as a peer reads it. -/
structure Speech (U : Type) where
  user : U
  cmd : SpeechCommand
  text : Str
deriving DecidableEq

namespace SpeechCommand

/-- What stands before the text in a message between servers. -/
def lead (nick : Str) : SpeechCommand → Str
  | publicMessage | serverPublic => ':' :: (nick ++ [' '])
  | announce | wallop => nick ++ [' ']

/-- The entries of the protocol table. -/
def all : List SpeechCommand := [publicMessage, serverPublic, announce, wallop]

/-- The entry of a number. -/
def ofTag (tag : Nat) : Option SpeechCommand := all.find? (·.tag = tag)

theorem ofTag_tag (cmd : SpeechCommand) : ofTag cmd.tag = some cmd := by
  cases cmd <;> decide

end SpeechCommand

section

variable {s : Core} {user : UserId} {text name : Str} {x : Saying}

/-- A text that a peer finds behind the name of the sender. -/
def SpeechCommand.Found (text : Str) : SpeechCommand → Prop
  | publicMessage | serverPublic => skipSpace text = text ∧ text ≠ []
  | announce | wallop => True

end

/-! ### What a server reads -/

section

variable {P U : Type} {wire : P → ConId → Option (P × ConId)} {d : Roll P U} {p : P} {n : Station}
  {con : ConId} {u : U} {text : Str} {x : Saying}

/-- The handler of a message that is said. -/
def SpeechCommand.handler (con : ConId) (pkt : Str) (s : Server) : SpeechCommand → Server
  | publicMessage => s.publicMessage con msgClientPublic pkt
  | serverPublic => s.publicMessage con msgServerPublic pkt
  | announce => s.announce con msgClientAnnounce pkt
  | wallop => s.wallop con msgClientWallop pkt

end

/-! ### Servers that agree -/

/-- The servers have the same rank for each user, have the same users cloaked, and let each talk in the
same channels, whose names they have accepted. -/
structure Concord {P U : Type} (core : P → Core) (d : Roll P U) : Prop where
  level : ∀ p u, ((core p).user (d.who p u)).level =
    ((core (d.home u)).user (d.who (d.home u) u)).level
  cloaked : ∀ p u, ((core p).user (d.who p u)).cloaked =
    ((core (d.home u)).user (d.who (d.home u) u)).cloaked
  floor : ∀ p u name, ((core p).floor (d.who p u) name).map (fun c => ((core p).chan c).name) =
    ((core (d.home u)).floor (d.who (d.home u) u) name).map fun c => ((core (d.home u)).chan c).name
  names : ∀ p u name chan, (core p).floor (d.who p u) name = some chan →
    Word ((core p).chan chan).name

section

variable {P U : Type} {wire : P → ConId → Option (P × ConId)} {d : Roll P U} {core : P → Core}

/-- What one server lets a user say, all do, and they pass on the same text. -/
theorem Concord.told (h : Concord core d) (hAttends : ∀ p, Attends wire d p (core p)) (p : P) (u : U)
    (cmd : SpeechCommand) (text : Str) :
    (cmd.saying (core p) (d.who p u) text).map (·.told) =
      (cmd.saying (core (d.home u)) (d.who (d.home u) u) text).map (·.told) := by
  have hName : ((core p).user (d.who p u)).nick = ((core (d.home u)).user (d.who (d.home u) u)).nick :=
    ((hAttends p).name u).trans ((hAttends (d.home u)).name u).symm
  have hPublic : ((core p).publicSaying (d.who p u) text).map (·.told) =
      ((core (d.home u)).publicSaying (d.who (d.home u) u) text).map (·.told) := by
    simp only [Core.publicSaying]
    split
    · rfl
    · rename_i name words hCut
      have hFloor := congrArg (Option.map fun chan => clip (str ":" ++
        ((core (d.home u)).user (d.who (d.home u) u)).nick ++ str " " ++ chan ++ str " " ++ words))
        (h.floor p u name)
      simp only [Option.map_map] at hFloor ⊢
      rw [hName]
      exact hFloor
  cases cmd with
  | publicMessage => exact hPublic
  | serverPublic => exact hPublic
  | announce =>
    simp only [SpeechCommand.saying, Core.announceSaying, h.level p u, h.cloaked p u, hName]
    split <;> rfl
  | wallop =>
    simp only [SpeechCommand.saying, Core.wallopSaying, h.level p u, hName]
    split <;> rfl

end

/-! ### What is said is heard everywhere -/

section

variable {P U : Type} (core : P → Core) (d : Roll P U)

/-- The server of the user. -/
def Speech.home (c : Speech U) : P := d.home c.user

/-- The message between servers. -/
def Speech.message (c : Speech U) : Nat × Str := (c.cmd.tag, c.cmd.lead (d.nick c.user) ++ c.text)

/-- What a server queues for its own users of what is said. -/
def Speech.heard (p : P) (c : Speech U) : Mail :=
  ((c.cmd.saying (core p) (d.who p c.user) c.text).map (·.heard)).getD []

/-- The server of a user lets it say this. -/
def Speech.Valid (c : Speech U) : Prop :=
  c.cmd.Found c.text ∧ ∃ x, c.cmd.saying (core (d.home c.user)) (d.who (d.home c.user) c.user) c.text =
    some x ∧ x.told = (c.message d).2

end

section

variable {P U : Type} [DecidableEq P] {wire : P → ConId → Option (P × ConId)} {up : P → P → ConId}
  {depth : P → P → Nat} {d : Roll P U} {station : P → Station}

end

namespace Server

end Server

end OpenNap
