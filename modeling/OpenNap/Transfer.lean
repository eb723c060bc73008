import OpenNap.Files

/-! Requests for files of other users. -/

namespace OpenNap

open CText

namespace Server

/-- `is_ignoring`. -/
def isIgnoring (ignore : List Str) (nick : Str) : Bool := ignore.any (sameText nick)

/-- `download`: `[ :<sender> ] <nick> "<filename>"`, as message 203, or as 500 when the file's owner
is behind a firewall. -/
def download (s : Server) (con : ConId) (tag : Nat) (pkt : Str) : Server :=
  match s.popUser con pkt with
  | none => s
  | some (sender, rest) =>
    match rest.bind (splitLine 2) with
    | some [nick, filename] =>
      match s.users.lookup nick with
      | none =>
        s.sendUser sender msgServerSendError (nick ++ str " \"" ++ filename ++ str "\"")
      | some user =>
        let u := s.user user
        let me := s.user sender
        let ignored := (s.con u.con).uopt.any fun o => isIgnoring o.ignore me.nick
        let request := me.nick ++ str " \"" ++ filename ++ str "\""
        let relayed := str ":" ++ me.nick ++ str " " ++ u.nick ++ str " \"" ++ filename ++ str "\""
        if s.isUser u.con ∧ ignored then
          s.sendUser sender msgServerNosuch (u.nick ++ str " is ignoring you")
        else if s.isUser u.con ∧ (s.lookupFile u.con filename).isNone then
          s.sendUser sender msgServerSendError (u.nick ++ str " \"" ++ filename ++ str "\"")
        else if tag = msgClientDownload ∧ u.port = 0 then
          if s.isUser u.con then
            s.sendUser sender msgServerFileReady
              (u.nick ++ str " " ++ showNat u.ip.toNat ++ str " " ++ showNat u.port.toNat ++
                str " \"" ++ filename ++ str "\" 00000000000000000000000000000000 " ++
                showNat u.speed)
          else s.sendCmd u.con tag relayed
        else if tag ≠ msgClientDownload ∧ u.port ≠ 0 then
          s.sendCmd con msgServerNosuch (u.nick ++ str " is not firewalled")
        else if tag ≠ msgClientDownload ∧ me.port = 0 then
          s.sendCmd con msgServerFileReady
            (u.nick ++ str " " ++ showNat u.ip.toNat ++ str " " ++ showNat u.port.toNat ++
              str " \"" ++ filename ++ str "\" firewallerror " ++ showNat u.speed)
        else if s.isUser u.con then s.sendCmd u.con msgServerUploadRequest request
        else s.sendCmd u.con msgServerUploadRequest relayed
    | _ => s.unparsable con

/-- `upload_request`: `:<sender> <recip> "<filename>"`. -/
def uploadRequest (s : Server) (con : ConId) (pkt : Str) : Server :=
  match splitLine 3 pkt with
  | some [':' :: sender, nick, filename] =>
    match s.users.lookup nick with
    | none => s.nosuchuser con
    | some recip =>
      let u := s.user recip
      if s.isUser u.con then
        match s.lookupFile u.con filename with
        | none => s
        | some _ =>
          s.sendCmd u.con msgServerUploadRequest (sender ++ str " \"" ++ filename ++ str "\"")
      else
        s.passMessageArgs (some u.con) msgServerUploadRequest
          (str ":" ++ sender ++ str " " ++ u.nick ++ str " \"" ++ filename ++ str "\"")
  | _ => s

end Server

end OpenNap
