import Mathlib.Data.List.Basic
import OpenNap.Files

/-! Searching: the look-up in the index of files, the reading and the rendering of a search request,
and the requests that were passed on to peers and are not finished. -/

namespace OpenNap

open CText

/-! ### The index -/

/-- Whether the comparison of `match` succeeds at the front of `b`: the first byte in either case,
then the rest of the token. -/
def tokenAt (token b : Str) : Bool :=
  match token, b with
  | a :: as, c :: cs => (c == a.toLower || c == a.toUpper) && samePrefix as.length cs as
  | _, _ => false

/-- The loop of `match` for one token. -/
def tokenIn (token : Str) : Str → Bool
  | [] => false
  | c :: cs => tokenAt token (c :: cs) || tokenIn token cs

/-- `match`: every token occurs in the file name. -/
def matchTokens (tokens : List Str) (file : Str) : Bool := tokens.all fun token => tokenIn token file

namespace Core

/-- The bin that `fdb_search` walks, given the best one so far: the first of those with the fewest
files.  There is no result when a token has no bin. -/
def smallestBin (s : Core) : List Str → Option FlistId → Option FlistId
  | [], best => best
  | token :: tokens, best =>
    match s.fileTable.lookup token with
    | none => none
    | some bin =>
      match best with
      | none => s.smallestBin tokens (some bin)
      | some b =>
        s.smallestBin tokens (some (if (s.flist bin).count < (s.flist b).count then bin else b))

/-- The records that `fdb_search` offers to its callback when nothing stops it. -/
def offered (s : Core) (tokens : List Str) : List DatumId :=
  match s.smallestBin tokens none with
  | none => []
  | some bin => (s.flist bin).list.filter fun d =>
      (s.datum d).size != invalidSize && matchTokens tokens (s.datum d).filename

end Core

/-- The loop of `fdb_search` over the records that it offers: it stops when the callback has
accepted `maxhits` of them. -/
def offerLoop {α : Type} (cb : α → DatumId → α × Bool) (maxhits : Int) :
    α → Int → List DatumId → α × Int
  | a, hits, [] => (a, hits)
  | a, hits, d :: ds =>
    let (b, accepted) := cb a d
    if accepted then
      if hits + 1 = maxhits then (b, hits + 1) else offerLoop cb maxhits b (hits + 1) ds
    else offerLoop cb maxhits b hits ds

/-- `fdb_search (File_Table, tokens, maxhits, cb, ...)`, where the callback works on `a`. -/
def Core.fdbSearch {α : Type} (s : Core) (tokens : List Str) (maxhits : Int)
    (cb : α → DatumId → α × Bool) (a : α) : α × Int :=
  offerLoop cb maxhits a 0 (s.offered tokens)

/-! ### The text of a request -/

/-- `MAX_SPEED`, `MAX_BITRATE` and `MAX_FREQUENCY`. -/
def maxSpeed : Int := 10
def maxBitrate : Int := 65535
def maxFrequency : Int := 65535

/-- What `search_internal` reads from a request. -/
structure Query where
  tokens : List Str := []
  maxResults : Int
  minbitrate : Int := 0
  maxbitrate : Int := maxBitrate
  minfreq : Int := 0
  maxfreq : Int := maxFrequency
  minspeed : Int := 0
  maxspeed : Int := maxSpeed
  type : Nat := ctMp3
  isLocal : Bool := false
deriving DecidableEq, Repr

/-- How the reading of a request ends. -/
inductive Parsed
  | query (q : Query)
  /-- the request is malformed -/
  | invalid
  /-- a type or a comparison is not known, with the text for the user -/
  | refused (text : Str)
deriving DecidableEq, Repr

/-- `set_compare`: the bounds after a comparison, or `none` for one that is refused. -/
def setCompare (byUser : Bool) (op : Str) (val : Int) (bounds : Int × Int) : Option (Int × Int) :=
  if sameText op (str "equal to") then some (val, val)
  else if sameText op (str "at least") then some (val, bounds.2)
  else if sameText op (str "at best") then some (bounds.1, val)
  else if byUser then none
  else some bounds

/-- The number that a whole argument stands for. -/
def wholeNumber (arg : Str) : Option Int :=
  if (strtol arg).2 = [] then some (toInt32 (strtol arg).1) else none

/-- The bounds that an attribute names, and their replacement. -/
def boundsOf (name : Str) : Option ((Query → Int × Int) × (Query → Int × Int → Query)) :=
  if sameText (str "linespeed") name then
    some (fun q => (q.minspeed, q.maxspeed), fun q b => { q with minspeed := b.1, maxspeed := b.2 })
  else if sameText (str "bitrate") name then
    some (fun q => (q.minbitrate, q.maxbitrate),
      fun q b => { q with minbitrate := b.1, maxbitrate := b.2 })
  else if sameText (str "freq") name then
    some (fun q => (q.minfreq, q.maxfreq), fun q b => { q with minfreq := b.1, maxfreq := b.2 })
  else none

/-- The cap of `Max_Search_Results` on the number of results asked for. -/
def capResults (cfg : Config) (n : Int) : Int :=
  if 0 < cfg.maxSearchResults ∧ cfg.maxSearchResults < n then cfg.maxSearchResults else n

/-- The loop of `search_internal` over the arguments of the request. -/
def parseQuery (cfg : Config) (filtered : Str → Bool) (byUser : Bool) : Query → List Str → Parsed
  | q, [] => .query q
  | q, arg :: rest =>
    if sameText (str "filename") arg then
      match rest with
      | op :: text :: rest =>
        if sameText (str "contains") op then
          parseQuery cfg filtered byUser { q with tokens := q.tokens ++ tokenizeWith filtered text }
            rest
        else .invalid
      | _ => .invalid
    else if sameText (str "max_results") arg then
      match rest with
      | value :: rest =>
        match wholeNumber value with
        | some n => parseQuery cfg filtered byUser { q with maxResults := capResults cfg n } rest
        | none => .invalid
      | [] => .invalid
    else if sameText (str "type") arg then
      match rest with
      | kind :: rest =>
        match contentTypes.findIdx? (sameText kind) with
        | some n => parseQuery cfg filtered byUser { q with type := n } rest
        | none => .refused (kind ++ str ": invalid type for search")
      | [] => .invalid
    else
      match boundsOf arg with
      | some (get, put) =>
        match rest with
        | op :: value :: rest =>
          match wholeNumber value with
          | some n =>
            match setCompare byUser op n (get q) with
            | some bounds => parseQuery cfg filtered byUser (put q bounds) rest
            | none => .refused (op ++ str ": invalid comparison for search")
          | none => .invalid
        | _ => .invalid
      | none =>
        if sameText (str "local") arg then
          parseQuery cfg filtered byUser { q with isLocal := true } rest
        else .invalid

/-- The reading of a whole request. -/
def readQuery (cfg : Config) (filtered : Str → Bool) (byUser : Bool) (pkt : Str) : Parsed :=
  parseQuery cfg filtered byUser { maxResults := cfg.maxSearchResults } (args (some pkt))

/-- `generate_qualifier`. -/
def generateQualifier (attr : Str) (min max hardmax : Int) : Str :=
  if 0 < min then
    str " " ++ attr ++ str " \"" ++ (if min = max then str "EQUAL TO" else str "AT LEAST") ++
      str "\" " ++ showInt min
  else if max < hardmax then str " " ++ attr ++ str " \"AT BEST\" " ++ showInt max
  else []

/-- The text that `generate_request` writes when its buffer is large enough. -/
def requestText (results : Int) (q : Query) : Str :=
  str "FILENAME CONTAINS \"" ++ q.tokens.flatMap (· ++ str " ") ++ str "\" MAX_RESULTS " ++
    showInt results ++
    (if q.type ≠ ctMp3 then str " TYPE " ++ contentTypes.getD q.type [] else []) ++
    generateQualifier (str "BITRATE") q.minbitrate q.maxbitrate maxBitrate ++
    generateQualifier (str "FREQ") q.minfreq q.maxfreq maxFrequency ++
    generateQualifier (str "LINESPEED") q.minspeed q.maxspeed maxSpeed

/-- `generate_request`, in `Buf`. -/
def generateRequest (results : Int) (q : Query) : Str := (requestText results q).take 2047

/-! ### Searching for a user -/

/-- `short`. -/
def toShort (i : Int) : Int := i.bmod 65536

namespace Server

/-- The end of a request, sent to the connection it came from. -/
def endSearch (s : Server) (con : ConId) (id : Str) (reason : EndReason) : Server :=
  let s :=
    if s.isUser con then s.sendCmd con msgServerSearchEnd []
    else s.sendCmd con msgServerRemoteSearchEnd id
  s.onCore (·.note (.ended id con reason))

/-- The digest reported for every file. -/
def noDigest : Str := str "00000000000000000000000000000000"

/-- The tests of `search_callback`. -/
def accepts (s : Core) (user : UserId) (q : Query) (d : DatumId) : Bool :=
  let info := s.datum d
  let bitrate : Int := bitRates.getD info.bitrate 0
  let freq : Int := sampleRates.getD info.frequency 0
  match info.user with
  | none => false
  | some owner =>
    let speed : Int := (s.user owner).speed
    owner != user && !((s.user user).port == 0 && (s.user owner).port == 0) &&
      decide (q.minbitrate ≤ bitrate) && decide (bitrate ≤ q.maxbitrate) &&
      decide (q.minspeed ≤ speed) && decide (speed ≤ q.maxspeed) &&
      decide (q.minfreq ≤ freq) && decide (freq ≤ q.maxfreq) && q.type == info.type

/-- The message of `search_callback` for a file that is accepted. -/
def sendResult (s : Server) (con : ConId) (remote : Bool) (id : Str) (d : DatumId) : Server :=
  let info := s.datum d
  let owner := s.user (info.user.getD 0)
  let size := showInt (toInt32 info.size.toNat)
  let rates := showNat (bitRates.getD info.bitrate 0) ++ str " " ++
    showNat (sampleRates.getD info.frequency 0) ++ str " " ++ showNat info.duration.toNat
  let s :=
    if remote then
      s.sendCmd con msgServerRemoteSearchResult
        (id ++ str " " ++ owner.nick ++ str " \"" ++ info.filename ++ str "\" " ++ noDigest ++
          str " " ++ size ++ str " " ++ rates)
    else
      s.sendCmd con msgServerSearchResult
        (str "\"" ++ info.filename ++ str "\" " ++ noDigest ++ str " " ++ size ++ str " " ++ rates ++
          str " " ++ owner.nick ++ str " " ++ showNat owner.ip.toNat ++ str " " ++
          showNat owner.speed)
  s.onCore (·.note (.result id con))

/-- `search_callback`. -/
def searchCallback (con : ConId) (user : UserId) (remote : Bool) (id : Str) (q : Query)
    (s : Server) (d : DatumId) : Server × Bool :=
  if accepts s.toCore user q d then (s.sendResult con remote id d, true) else (s, false)

/-- The part of `search_internal` that passes a request on and notes that it is pending. -/
def forwardSearch (s : Server) (con : ConId) (user : UserId) (id : Str) (q : Query)
    (results : Int) : Server :=
  let nick := (s.user user).nick
  let peers := s.servers.filter (· != con)
  let d : DSearch :=
    { con := con
      nick := nick
      id := id
      count := 0
      numServers := toShort (s.servers.length - if s.isServer con then 1 else 0)
      timestamp := s.now }
  let s := s.onCore fun s => { s with remoteSearch := s.remoteSearch ++ [d] }
  let s := s.passMessageArgs (some con) msgServerRemoteSearch
    (nick ++ str " " ++ id ++ str " " ++ generateRequest results q)
  s.onCore fun s => peers.foldl (fun s peer => s.note (.asked id peer)) s

/-- Whether `search_internal` has peers to ask for a connection. -/
def hasPeers (s : Core) (con : ConId) : Bool :=
  s.isServer con && decide (1 < s.servers.length) || s.isUser con && !s.servers.isEmpty

/-- The end of `search_internal`, after `n` results: the peers are asked for the rest, or the request
is finished. -/
def askPeers (s : Server) (con : ConId) (user : UserId) (id : Str) (q : Query) (n : Int) : Server :=
  if n < q.maxResults ∧ q.isLocal = false ∧ hasPeers s.toCore con = true then
    s.forwardSearch con user id q (q.maxResults - n)
  else s.endSearch con id .immediate

/-- `search_internal`.  `remote` says whether the request came with an id of its own; `id` is that
one, or the one that `generate_search_id` would make up. -/
def searchInternal (s : Server) (con : ConId) (user : UserId) (remote : Bool) (id pkt : Str) :
    Server :=
  let s := s.onCore (·.note (.begun id con))
  match readQuery s.cfg s.isFiltered (s.isUser con) pkt with
  | .invalid =>
    (s.sendIfUser con msgServerNosuch (str "invalid search request")).endSearch con id .immediate
  | .refused text => (s.sendIfUser con msgServerNosuch text).endSearch con id .immediate
  | .query q =>
    let (s, n) := s.fdbSearch q.tokens q.maxResults (searchCallback con user remote id q) s
    s.askPeers con user id q n

/-- `search`. -/
def search (s : Server) (con : ConId) (searchId pkt : Str) : Server :=
  match (s.con con).user with
  | none => s
  | some user => s.searchInternal con user false searchId pkt

/-- `remote_search`: `<sender> <id> ...`. -/
def remoteSearchRequest (s : Server) (con : ConId) (pkt : Str) : Server :=
  match nextArg pkt with
  | (_, none) => s
  | (nick, some rest) =>
    match nextArg rest with
    | (id, none) =>
      (s.onCore (·.note (.begun id con))).endSearch con id .immediate
    | (id, some rest) =>
      match s.users.lookup nick with
      | none => (s.onCore (·.note (.begun id con))).endSearch con id .immediate
      | some user => s.searchInternal con user true id rest

/-! ### Pending requests -/

/-- The loop of `find_search`: the requests that stay, and the one that was looked for.  Requests
met on the way are ended when they have been pending for too long. -/
def findLoop (id : Str) : Server → List DSearch → Server × List DSearch × Option DSearch
  | s, [] => (s, [], none)
  | s, d :: ds =>
    if d.id = id then (s, d :: ds, some d)
    else if d.timestamp + s.cfg.searchTimeout < s.now then
      findLoop id (s.endSearch d.con d.id (.expired (s.now - d.timestamp))) ds
    else
      let (s, rest, found) := findLoop id s ds
      (s, d :: rest, found)

/-- `find_search`. -/
def findSearch (s : Server) (id : Str) : Server × Option DSearch :=
  let (s, rest, found) := findLoop id s s.remoteSearch
  (s.onCore fun s => { s with remoteSearch := rest }, found)

/-- `remote_search_result`: `<id> <user> "<filename>" <md5> <size> <bitrate> <frequency>
<duration>`. -/
def remoteSearchResult (s : Server) (tag : Nat) (pkt : Str) : Server :=
  match splitLine 8 pkt with
  | some [id, nick, filename, md5, size, bitrate, freq, duration] =>
    match s.findSearch id with
    | (s, none) => s
    | (s, some d) =>
      let fields := md5 ++ str " " ++ size ++ str " " ++ bitrate ++ str " " ++ freq ++ str " " ++
        duration
      if s.isUser d.con then
        match s.users.lookup nick with
        | none => s
        | some user =>
          let u := s.user user
          (s.sendCmd d.con msgServerSearchResult
            (str "\"" ++ filename ++ str "\" " ++ fields ++ str " " ++ u.nick ++ str " " ++
              showNat u.ip.toNat ++ str " " ++ showNat u.speed)).onCore
            (·.note (.result id d.con))
      else
        (s.sendCmd d.con tag
          (id ++ str " " ++ nick ++ str " \"" ++ filename ++ str "\" " ++ fields)).onCore
          (·.note (.result id d.con))
  | _ => s

/-- `remote_search_end`: `<id>`. -/
def remoteSearchEnd (s : Server) (con : ConId) (pkt : Str) : Server :=
  let (s, found) := s.findSearch pkt
  match found with
  | none => s
  | some d =>
    let s := s.onCore (·.note (.answered pkt con))
    let count := toShort (d.count + 1)
    if count = d.numServers then
      (s.endSearch d.con d.id .counted).onCore fun s =>
        { s with remoteSearch := s.remoteSearch.eraseP fun e => e.id == pkt }
    else
      s.onCore fun s =>
        { s with
          remoteSearch := s.remoteSearch.replaceF fun e =>
            if e.id = pkt then some { e with count := count } else none }

/-- The loop of `cancel_search`: the requests that stay. -/
def cancelLoop (con : ConId) (byServer : Bool) : Server → List DSearch → Server × List DSearch
  | s, [] => (s, [])
  | s, d :: ds =>
    let d := if byServer then { d with numServers := toShort (d.numServers - 1) } else d
    if d.con = con then cancelLoop con byServer s ds
    -- the id is the format of the message here; the text is the id as long as it has no `%`
    else if d.numServers ≤ d.count then
      cancelLoop con byServer (s.endSearch d.con d.id .counted) ds
    else
      let (s, rest) := cancelLoop con byServer s ds
      (s, d :: rest)

/-- `cancel_search`. -/
def cancelSearch (s : Server) (con : ConId) : Server :=
  let (s, rest) := cancelLoop con (s.isServer con) s s.remoteSearch
  s.onCore fun s => { s with remoteSearch := rest }

end Server

end OpenNap
