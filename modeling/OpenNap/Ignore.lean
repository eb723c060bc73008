import OpenNap.Reach

/-! The list of users whom a client ignores, which the client keeps with four commands of its own.
A turn of the server is one of its events or one of these commands. -/

namespace OpenNap

open CText

def msgClientIgnoreList : Nat := 320
def msgServerIgnoreEntry : Nat := 321
def msgClientIgnoreUser : Nat := 322
def msgClientUnignoreUser : Nat := 323
def msgServerNotIgnored : Nat := 324
def msgServerAlreadyIgnored : Nat := 325
def msgClientClearIgnore : Nat := 326

namespace Core

/-- The users whom a client ignores. -/
def ignoresOf (s : Core) (con : ConId) : List Str := (s.con con).uopt.elim [] (·.ignore)

/-- Replace that list. -/
def setIgnores (s : Core) (con : ConId) (ignore : List Str) : Core :=
  s.modCon con fun c => { c with uopt := c.uopt.map fun o => { o with ignore := ignore } }

end Core

namespace Server

/-- `ignore_list`. -/
def ignoreList (s : Server) (con : ConId) : Server :=
  ((s.ignoresOf con).foldl (fun s nick => s.sendCmd con msgServerIgnoreEntry nick) s).sendCmd con
    msgClientIgnoreList (showNat (s.ignoresOf con).length)

/-- `ignore`: `<user>`. -/
def ignore (s : Server) (maxIgnore : Int) (con : ConId) (pkt : Str) : Server :=
  if invalidNick s.cfg pkt then s.invalidNickMsg con
  else if (s.ignoresOf con).any (sameText pkt) then s.sendCmd con msgServerAlreadyIgnored pkt
  else if 0 < maxIgnore ∧ maxIgnore < ((s.ignoresOf con).length : Int) then
    s.sendCmd con msgServerNosuch
      (str "ignore list is limited to " ++ showInt maxIgnore ++ str " users")
  else
    (s.onCore fun s => s.setIgnores con (pkt :: s.ignoresOf con)).sendCmd con msgClientIgnoreUser pkt

/-- `unignore`: `<user>`. -/
def unignore (s : Server) (con : ConId) (pkt : Str) : Server :=
  if invalidNick s.cfg pkt then s.invalidNickMsg con
  else if (s.ignoresOf con).any (sameText pkt) then
    (s.sendCmd con msgClientUnignoreUser pkt).onCore fun s =>
      s.setIgnores con ((s.ignoresOf con).eraseP (sameText pkt))
  else s.sendCmd con msgServerNotIgnored pkt

/-- `clear_ignore`. -/
def clearIgnore (s : Server) (con : ConId) : Server :=
  (s.onCore (·.setIgnores con [])).sendCmd con msgClientClearIgnore
    (showNat (s.ignoresOf con).length)

end Server

/-- The commands about this list. -/
inductive IgnoreCommand
  | list
  | add
  | remove
  | clear
deriving DecidableEq, Repr

/-- One turn of the server: one of its events, or a command about whom a client ignores. -/
inductive Turn
  | event (e : Event)
  | ignore (con : ConId) (cmd : IgnoreCommand) (pkt : Str)

namespace Server

/-- The handler of such a command, behind its `CHECK_USER_CLASS`. -/
def dispatchIgnore (s : Server) (maxIgnore : Int) (con : ConId) (cmd : IgnoreCommand) (pkt : Str) :
    Server :=
  if s.isUser con then
    match cmd with
    | .list => s.ignoreList con
    | .add => s.ignore maxIgnore con pkt
    | .remove => s.unignore con pkt
    | .clear => s.clearIgnore con
  else s

/-- `handle_connection` for such a command.  What the user shares is reported as before any command
that is about no files, such as a request for names. -/
def handleIgnore (s : Server) (maxIgnore : Int) (con : ConId) (cmd : IgnoreCommand) (pkt : Str) :
    Server :=
  if s.isUnknown con then s.refuse con msgServerError (str "invalid command")
  else (s.reportSharing con .namesList).dispatchIgnore maxIgnore con cmd pkt

/-- One turn, where `maxIgnore` is the setting `Max_Ignore`. -/
def turn (maxIgnore : Int) (s : Server) : Turn → Server
  | .event e => s.step e
  | .ignore con cmd pkt =>
    if reads s.toCore con then s.handleIgnore maxIgnore con cmd pkt else s

/-- Whether an `ignore` adds a nick. -/
def addsIgnore (s : Core) (maxIgnore : Int) (con : ConId) (pkt : Str) : Bool :=
  !invalidNick s.cfg pkt && !(s.ignoresOf con).any (sameText pkt) &&
    decide (¬ (0 < maxIgnore ∧ maxIgnore < ((s.ignoresOf con).length : Int)))

/-- What such a command changes is the list of its sender. -/
theorem toCore_dispatchIgnore (s : Server) (maxIgnore : Int) (con : ConId) (cmd : IgnoreCommand)
    (pkt : Str) :
    (s.dispatchIgnore maxIgnore con cmd pkt).toCore = s.toCore ∨
      ∃ l : List Str, (s.dispatchIgnore maxIgnore con cmd pkt).toCore = s.toCore.setIgnores con l ∧
        (l.length ≤ (s.ignoresOf con).length ∨
          cmd = .add ∧ s.isUser con = true ∧ addsIgnore s.toCore maxIgnore con pkt = true ∧
            l = pkt :: s.ignoresOf con) := by
  have hList : (s.ignoreList con).toCore = s.toCore := by
    simp only [ignoreList, toCore_sendCmd]
    exact toCore_foldl (fun s nick => toCore_sendCmd s con _ _) _ _
  simp only [dispatchIgnore]
  split
  · rename_i hUser
    cases cmd with
    | list => exact .inl hList
    | add =>
      simp only [ignore]
      split
      · exact .inl (toCore_invalidNickMsg ..)
      · rename_i hNick
        split
        · exact .inl rfl
        · rename_i hNew
          split
          · exact .inl rfl
          · rename_i hRoom
            refine .inr ⟨_, rfl, .inr ⟨trivial, hUser, ?_, rfl⟩⟩
            simp only [addsIgnore, Bool.eq_false_iff.2 hNick, Bool.eq_false_iff.2 hNew, Bool.not_false,
              Bool.true_and]
            exact decide_eq_true hRoom
    | remove =>
      simp only [unignore]
      split
      · exact .inl (toCore_invalidNickMsg ..)
      · split
        · exact .inr ⟨_, rfl, .inl (List.length_eraseP_le)⟩
        · exact .inl rfl
    | clear => exact .inr ⟨[], rfl, .inl (Nat.zero_le _)⟩
  · exact .inl rfl

end Server

end OpenNap
