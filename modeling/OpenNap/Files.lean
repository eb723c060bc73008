import OpenNap.Serverlib

/-! Shared files: the words of a file name, the index of files by word, each local user's own table
of files, and the counters of shared files. -/

namespace OpenNap

open CText

/-- `BitRate`. -/
def bitRates : List Nat :=
  [8, 16, 24, 32, 40, 48, 56, 64, 80, 96, 112, 128, 144, 160, 192, 224, 256, 320]

/-- `SampleRate`. -/
def sampleRates : List Nat := [16000, 24000, 22050, 32000, 44100, 48000]

/-- `bitrateToMask` and `freqToMask`: the first entry that is not below the value, or the first of
all. -/
def rateToMask (rates : List Nat) (value : Int) : Nat :=
  (rates.findIdx? fun rate => decide (value ≤ rate)).getD 0

/-- `Content_Types`. -/
def contentTypes : List Str :=
  [str "mp3", str "audio", str "video", str "application", str "image", str "text"]

/-- `CT_MP3`. -/
def ctMp3 : Nat := 0

/-- The size that marks a record as invalid. -/
def invalidSize : UInt32 := 4294967295

/-! ### Words -/

/-- `WORD_CHAR`. -/
def wordChar (c : Char) : Bool := c.isAlphanum || c == '\''

/-- The words that the loop of `tokenize` cuts off one after the other, in lower case, in at most
`fuel` passes.  What follows the last word, when it is more than one byte, counts as an empty
word. -/
def rawWords : Nat → Str → List Str
  | 0, _ => []
  | _ + 1, [] => []
  | fuel + 1, c :: cs =>
    let s := (c :: cs).dropWhile fun d => !wordChar d
    strlower (s.takeWhile wordChar) :: rawWords fuel ((s.dropWhile wordChar).drop 1)

/-- The words that `tokenize` looks at; each pass takes a byte at least. -/
def wordsOf (s : Str) : List Str := rawWords s.length s

/-- `is_filtered`. -/
def Core.isFiltered (s : Core) (word : Str) : Bool := (s.filter.lookup word).isSome

/-- `tokenize`, given what is filtered: neither filtered words nor words listed already. -/
def tokenizeWith (filtered : Str → Bool) (s : Str) : List Str :=
  (wordsOf s).foldl
    (fun tokens word => if filtered word || tokens.contains word then tokens else tokens ++ [word])
    []

/-- `tokenize`. -/
def Core.tokenize (s : Core) (text : Str) : List Str := tokenizeWith s.isFiltered text

/-! ### The index and the owners' tables -/

namespace Core

/-- The table of files of a local connection. -/
def files (s : Core) (con : ConId) : Option (NameTable DatumId) :=
  (s.con con).uopt.bind (·.files)

/-- A look-up in the table of files of a connection, which finds nothing when there is none. -/
def lookupFile (s : Core) (con : ConId) (name : Str) : Option DatumId :=
  (s.files con).bind (·.lookup name)

/-- Replace the table of files of a connection. -/
def setFiles (s : Core) (con : ConId) (files : Option (NameTable DatumId)) : Core :=
  s.modCon con fun c => { c with uopt := c.uopt.map fun o => { o with files := files } }

/-- `d->refcount++`. -/
def addRef (s : Core) (d : DatumId) : Core :=
  s.modDatum d fun r => { r with refcount := r.refcount + 1 }

/-- `fdb_add` with the index of files. -/
def fdbAdd (s : Core) (d : DatumId) (key : Str) : Core :=
  match s.fileTable.lookup key with
  | some bin =>
    (s.modFlist bin fun b => { b with list := b.list ++ [d], count := b.count + 1 }).addRef d
  | none =>
    let bin := s.next
    let s := s.alloc.modFlist bin fun _ => { key := key, list := [d], count := 1 }
    ({ s with fileTable := s.fileTable.add key bin }).addRef d

/-- The tokens under which `insert_datum` enters a file: the last thirty. -/
def indexTokens (tokens : List Str) : List Str := tokens.drop (tokens.length - 30)

/-- The counters after a local user's file of `kb` kB is added. -/
def countShared (s : Core) (user : UserId) (kb : UInt32) : Core :=
  let s := s.modUser user fun u =>
    { u with shared := u.shared + 1, libsize := u.libsize + kb, sharing := true }
  { s with
    numGigs := s.numGigs + kb.toNat
    numFiles := toInt32 (s.numFiles + 1)
    localFiles := toInt32 (s.localFiles + 1) }

/-- The counters after a local user's file of `kb` kB is removed. -/
def countUnshared (s : Core) (user : UserId) (kb : UInt32) : Core :=
  let s := { s with
    numGigs := s.numGigs - kb.toNat
    numFiles := toInt32 (s.numFiles - 1)
    localFiles := toInt32 (s.localFiles - 1) }
  s.modUser user fun u =>
    { u with shared := u.shared - 1, libsize := u.libsize - kb, unsharing := true }

/-- `insert_datum` for a new record of a local user. -/
def insertDatum (s : Core) (con : ConId) (user : UserId) (info : Datum) : Core :=
  let d := s.next
  let s := s.alloc.modDatum d fun _ => { info with user := some user }
  let table := (s.files con).getD (Bucket.Table.empty byName DatumId 257 pos_257)
  let s := (s.setFiles con (some (table.add info.filename d))).addRef d
  let s := (indexTokens (s.tokenize info.filename)).foldl (fun s key => s.fdbAdd d key) s
  s.countShared user (info.size / 1024)

/-- `free_datum`. -/
def freeDatum (s : Core) (d : DatumId) : Core :=
  s.modDatum d fun r => { r with size := invalidSize, user := none, refcount := r.refcount - 1 }

/-- `hash_remove (con->uopt->files, name)`. -/
def hashRemoveFile (s : Core) (con : ConId) (name : Str) : Core :=
  match s.lookupFile con name with
  | none => s
  | some d => (s.freeDatum d).setFiles con ((s.files con).map (·.remove name))

/-- What `remove_file` does with the file it found. -/
def dropFile (s : Core) (con : ConId) (user : UserId) (d : DatumId) : Core :=
  (s.countUnshared user ((s.datum d).size / 1024)).hashRemoveFile con (s.datum d).filename

/-- `free_hash (con->uopt->files)`. -/
def freeFiles (s : Core) (con : ConId) : Core :=
  match s.files con with
  | none => s
  | some table => (table.values.foldl freeDatum s).setFiles con none

/-- `hash_remove (File_Table, key)`: the bin and its references go. -/
def hashRemoveBin (s : Core) (key : Str) : Core :=
  match s.fileTable.lookup key with
  | none => s
  | some bin =>
    let s := (s.flist bin).list.foldl freeDatum s
    { s with fileTable := s.fileTable.remove key }

/-- `collect_garbage`: drop the invalid records from a bin, and the bin when it is empty. -/
def collectGarbage (s : Core) (bin : FlistId) : Core :=
  let b := s.flist bin
  let dead := b.list.filter fun d => (s.datum d).size == invalidSize
  let live := b.list.filter fun d => (s.datum d).size != invalidSize
  let s := dead.foldl freeDatum s
  let s := s.modFlist bin fun b => { b with list := live, count := b.count - dead.length }
  if (s.flist bin).count = 0 then s.hashRemoveBin b.key else s

/-- `fdb_garbage_collect (File_Table)`. -/
def fdbGarbageCollect (s : Core) : Core := s.fileTable.values.foldl collectGarbage s

end Core

/-! ### The commands -/

/-- The distance from the first field of a packet to the second: `av[1] - av[0]`. -/
def fieldGap (pkt : Str) : Nat :=
  let toNext (used : Nat) (rest : Str) : Nat :=
    used + (rest.length - (skipSpace rest).length) +
      if (skipSpace rest).head? = some '"' then 1 else 0
  match skipSpace pkt with
  | [] => 0
  | c :: cs =>
    if isQuote c then
      match cutAt isQuote cs with
      | (field, some (_ :: rest)) => toNext (field.length + 2) rest
      | (field, _) => field.length
    else
      match cutAt isBlank (c :: cs) with
      | (word, some rest) => toNext (word.length + 1) rest
      | (word, none) => word.length

/-- `_POSIX_PATH_MAX`. -/
def posixPathMax : Nat := 256

namespace Server

/-- Whether a local user has used up what `Max_Shared` allows. -/
def overShared (s : Core) (user : UserId) : Bool :=
  s.cfg.maxShared != 0 && decide (s.cfg.maxShared < ((s.user user).shared.toNat : Int))

/-- The refusal of a user who shares too many files. -/
def sendOverShared (s : Server) (con : ConId) : Server :=
  s.sendCmd con msgServerNosuch
    (str "You may only share " ++ showInt s.cfg.maxShared ++ str " files")

/-- `add_file`: `"<filename>" <md5sum> <size> <bitrate> <frequency> <time>`. -/
def addFile (s : Server) (con : ConId) (pkt : Str) : Server :=
  match (s.con con).user with
  | none => s
  | some user =>
    if overShared s.toCore user then s.sendOverShared con
    else
      match splitLine 6 pkt with
      | some [name, _, size, bitrate, freq, duration] =>
        if fieldGap pkt > posixPathMax + 2 then
          s.sendCmd con msgServerNosuch (str "filename too long")
        else
          let fsize := UInt32.ofNat (strtoul size).1
          if (s.user user).libsize + fsize < (s.user user).libsize then s
          else if (s.lookupFile con name).isSome then
            s.sendCmd con msgServerNosuch (str "duplicate file")
          else
            s.onCore (·.insertDatum con user
              { filename := name
                size := fsize
                bitrate := rateToMask bitRates (atoi bitrate)
                frequency := rateToMask sampleRates (atoi freq)
                duration := toUshort (atoi duration)
                type := ctMp3 })
      | _ => s.unparsable con

/-- `share_file`: `"<filename>" <size> <hash> <content-type>`. -/
def shareFile (s : Server) (con : ConId) (pkt : Str) : Server :=
  match (s.con con).user with
  | none => s
  | some user =>
    if overShared s.toCore user then s.sendOverShared con
    else
      match splitLine 4 pkt with
      | some [name, size, _, kind] =>
        -- the search starts after the first of the types
        match (contentTypes.drop 1).findIdx? (sameText · kind) with
        -- the class is compared with the result of a comparison, and the text is sent to users
        -- only if the two constants agree, which they do
        | none => s.sendIfUser con msgServerNosuch (kind ++ str " is not a valid type")
        | some i =>
          if fieldGap pkt > posixPathMax + 2 then
            s.sendCmd con msgServerNosuch (str "filename too long")
          else if (s.lookupFile con name).isSome then
            s.sendCmd con msgServerNosuch (str "duplicate file")
          else
            let fsize := UInt32.ofNat (strtoul size).1
            if fsize + (s.user user).libsize < (s.user user).libsize then s
            else
              s.onCore (·.insertDatum con user { filename := name, size := fsize, type := i + 1 })
      | _ => s.unparsable con

/-- The part of the loop of `add_directory` that takes one file. -/
def addDirectoryFile (s : Server) (con : ConId) (user : UserId) (dir basename size bitrate freq
    duration : Str) : Server :=
  let path := dir ++ basename.take (posixPathMax - 1 - dir.length)
  if (s.lookupFile con path).isSome then s.sendCmd con msgServerNosuch (str "Duplicate file")
  else
    let fsize := atoi size
    if fsize < 1 then s.sendCmd con msgServerNosuch (str "invalid size")
    else
      s.onCore (·.insertDatum con user
        { filename := path
          size := toUint fsize
          bitrate := rateToMask bitRates (atoi bitrate)
          frequency := rateToMask sampleRates (atoi freq)
          duration := toUshort (atoi duration)
          type := ctMp3 })

/-- The loop of `add_directory` over the arguments after the directory, six for each file. -/
def addDirectoryLoop (s : Server) (con : ConId) (user : UserId) (dir : Str) : List Str → Server
  | [] => s
  | basename :: _ :: size :: bitrate :: freq :: duration :: rest =>
    if overShared s.toCore user then s.sendOverShared con
    else
      (s.addDirectoryFile con user dir basename size bitrate freq duration).addDirectoryLoop
        con user dir rest
  | _ => if overShared s.toCore user then s.sendOverShared con else s.unparsable con

/-- The directory with its final backslash; `none` when it does not fit its buffer. -/
def directoryPrefix (dir : Str) : Option Str :=
  if posixPathMax - 1 ≤ dir.length then none
  else if dir ≠ [] ∧ dir.getLast? ≠ some '\\' then
    if posixPathMax - 1 ≤ dir.length + 1 then none else some (dir ++ ['\\'])
  else some dir

/-- `add_directory`: `"<directory>" "<basename>" <md5> <size> <bitrate> <freq> <duration> [ ... ]`. -/
def addDirectory (s : Server) (con : ConId) (pkt : Str) : Server :=
  match (s.con con).user with
  | none => s
  | some user =>
    let (dir, rest) := nextArg pkt
    match directoryPrefix dir with
    | none => s
    | some dir => s.addDirectoryLoop con user dir (args rest)

/-- `remove_file`: `<filename>`. -/
def removeFile (s : Server) (con : ConId) (pkt : Str) : Server :=
  match (s.con con).user with
  | none => s
  | some user =>
    if (s.user user).shared = 0 then
      s.sendCmd con msgServerNosuch (str "Not sharing any files")
    else
      match s.lookupFile con pkt with
      | none => s.sendCmd con msgServerNosuch (str "Not sharing that file")
      | some d => s.onCore (·.dropFile con user d)

/-- `user_sharing`: `<nick> <shared> <size>`. -/
def userSharing (s : Server) (con : ConId) (tag : Nat) (pkt : Str) : Server :=
  match splitLine 3 pkt with
  | some [nick, count, size] =>
    match s.users.lookup nick with
    | none => s
    | some user =>
      let u := s.user user
      let shared := atoi count
      let s :=
        if shared < 0 then
          s.onCore fun s =>
            let s := { s with
              numFiles := toInt32 (s.numFiles - u.shared.toNat)
              numGigs := s.numGigs - u.libsize.toNat }
            s.modUser user fun u => { u with shared := 0, libsize := 0 }
        else
          let libsize := UInt32.ofNat (strtoul size).1
          s.onCore fun s =>
            let s := { s with
              numFiles := toInt32 (s.numFiles + (shared - u.shared.toNat))
              numGigs := s.numGigs + ((libsize.toNat : Int) - u.libsize.toNat) }
            s.modUser user fun u => { u with shared := toUshort shared, libsize := libsize }
      s.passMessageArgs (some con) tag
        ((s.user user).nick ++ str " " ++ showNat (s.user user).shared.toNat ++ str " " ++
          showNat (s.user user).libsize.toNat)
  | _ => s

end Server

end OpenNap
