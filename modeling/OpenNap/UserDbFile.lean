import OpenNap.ChannelFile
import OpenNap.Lib.Sweep

/-! The file of registered users.  A dump drops who was not seen for long and writes the others, and
what is written is read back; the dump in memory is that of the handlers' records. -/

namespace OpenNap

open CText

/-! ### Writing and reading -/

/-- `USERDB`, with its flags as they are stored. -/
structure Account where
  nick : Str
  password : Str
  level : Level
  timestamp : Int
  lastSeen : Int
  flags : UInt16
deriving DecidableEq

/-- What the handlers use of an account: of the flags, `ON_MUZZLED` and `ON_CLOAKED`. -/
def Account.record (a : Account) : UserDb where
  nick := a.nick
  password := a.password
  level := a.level
  muzzled := a.flags &&& 1 != 0
  cloaked := a.flags &&& 2 != 0
  timestamp := a.timestamp
  lastSeen := a.lastSeen

/-- Whether `dump_userdb` drops an account.  Those of privileged users stay. -/
def Account.expired (cfg : Config) (now : Int) (a : Account) : Bool :=
  decide (cfg.nickExpire ≤ now - a.lastSeen) && decide (a.level < .moderator)

/-- The line of an account without its end.  The times are printed as `int`. -/
def Account.text (a : Account) : Str :=
  line [a.nick, a.password, str "unknown", a.level.text, showInt (toInt32 a.timestamp),
    showInt (toInt32 a.lastSeen), showNat a.flags.toNat]

/-- `dump_userdb`, called for one account of the table, with what was written so far. -/
def dumpUserdb (cfg : Config) (now : Int) : NameTable Account × Str → Account → NameTable Account × Str
  | (table, text), a =>
    if a.expired cfg now then (table.remove a.nick, text)
    else (table, text ++ (a.text ++ str "\n"))

/-- `userdb_dump`: the table that is left in memory, and the file. -/
def userdbDump (cfg : Config) (now : Int) (table : NameTable Account) : NameTable Account × Str :=
  table.values.foldl (dumpUserdb cfg now) (table, str ":version 1\n")

/-- The account that `userdb_init` makes of a line.  `password` is what becomes of the second
field. -/
def readAccount (cfg : Config) (password : Str → Str) (text : Str) : Option Account :=
  match splitLine 7 text with
  | some (nick :: pass :: _ :: level :: timestamp :: lastSeen :: more) =>
    if invalidNick cfg nick then none
    else
      some
        { nick := nick
          password := password pass
          level := (getLevel level).getD .user
          timestamp := (strtol timestamp).1
          lastSeen := (strtol lastSeen).1
          flags := (more.head?.map fun w => toUshort (atoi w)).getD 0 }
  | _ => none

/-- The table of accounts, in the order in which they are added. -/
def loadAccounts (accounts : List Account) : NameTable Account :=
  accounts.foldl (fun table a => table.add a.nick a) (.empty _ _ 257 pos_257)

/-- `userdb_init`: the table, and the file when it is written again.  Without a version line in front
the passwords of the file are not encrypted yet; that of line `i` is salted with `salt i`. -/
def userdbInit (cfg : Config) (now : Int) (salt : Nat → Str) (file : Str) :
    NameTable Account × Option Str :=
  match fgetsLines 2048 file with
  | [] => (loadAccounts [], none)
  | first :: rest =>
    if (str ":version 1").isPrefixOf first then
      (loadAccounts (rest.filterMap (readAccount cfg id)), none)
    else
      let accounts := (first :: rest).zipIdx.filterMap fun (text, i) =>
        readAccount cfg (generatePass cfg.md5 (salt i)) text
      let (table, file) := userdbDump cfg now (loadAccounts accounts)
      (table, some file)

/-! ### One line -/

theorem newline_line {l : List Str} (h : ∀ w ∈ l, Word w) : ∀ c ∈ line l, c ≠ '\n' := by
  induction l with
  | nil => simp [line]
  | cons w l ih =>
    have hw : ∀ c ∈ w, c ≠ '\n' := (h w (by simp)).token.newline
    cases l with
    | nil => exact hw
    | cons v l =>
      intro c hc
      rw [line_cons, List.mem_append, List.mem_cons] at hc
      rcases hc with hc | rfl | hc
      · exact hw c hc
      · decide
      · exact ih (fun u hu => h u (by simp [hu])) c hc

/-- A line of words is split into its words, whether its end was read with it or not. -/
theorem splitFields_line (count : Nat) {w : Str} {l : List Str} (h : ∀ v ∈ w :: l, Word v)
    {tail : Str} (hTail : tail = [] ∨ tail = ['\n']) :
    splitFields count (line (w :: l) ++ tail) = some ((w :: l).take count) := by
  induction l generalizing w count with
  | nil =>
    have hw := (h w (by simp)).token
    cases count with
    | zero => rfl
    | succ count =>
      rcases hTail with rfl | rfl
      · rw [List.append_nil, line, hw.splitFields_last]
        cases count <;> rfl
      · have hSplit := @Token.splitFields w [] hw count '\n' (by decide)
        rw [line, hSplit]
        cases count <;> rfl
  | cons v l ih =>
    have hw := h w (by simp)
    have hRest := ih (count - 1) fun u hu => h u (List.mem_cons_of_mem w hu)
    have hSkip : skipSpace (line (v :: l) ++ tail) = line (v :: l) ++ tail := by
      have hv := h v (by simp)
      cases l with
      | nil => exact hv.skipSpace tail
      | cons u l =>
        rw [line_cons, List.append_assoc]
        exact hv.skipSpace _
    cases count with
    | zero => rfl
    | succ count =>
      rw [line_cons, List.append_assoc, List.cons_append, splitFields_word_blank hw, hSkip]
      exact congrArg (Option.map (w :: ·)) hRest

/-- An account whose line is cut into its fields again. -/
structure Account.Savable (cfg : Config) (a : Account) : Prop where
  nick : invalidNick cfg a.nick = false
  password : Word a.password
  timestamp : -(2 ^ 31) ≤ a.timestamp ∧ a.timestamp < 2 ^ 31
  lastSeen : -(2 ^ 31) ≤ a.lastSeen ∧ a.lastSeen < 2 ^ 31
  fits : a.text.length ≤ 2047

instance (cfg : Config) (a : Account) : Decidable (a.Savable cfg) :=
  decidable_of_iff
    (invalidNick cfg a.nick = false ∧ Word a.password ∧
      (-(2 ^ 31) ≤ a.timestamp ∧ a.timestamp < 2 ^ 31) ∧
      (-(2 ^ 31) ≤ a.lastSeen ∧ a.lastSeen < 2 ^ 31) ∧ a.text.length ≤ 2047)
    ⟨fun h => ⟨h.1, h.2.1, h.2.2.1, h.2.2.2.1, h.2.2.2.2⟩,
      fun h => ⟨h.nick, h.password, h.timestamp, h.lastSeen, h.fits⟩⟩

namespace Account

variable {cfg : Config} {a : Account}

theorem Savable.words (h : a.Savable cfg) : ∀ w ∈ [a.nick, a.password, str "unknown", a.level.text,
    showInt (toInt32 a.timestamp), showInt (toInt32 a.lastSeen), showNat a.flags.toNat], Word w := by
  intro w hw
  simp only [List.mem_cons, List.not_mem_nil, or_false] at hw
  rcases hw with rfl | rfl | rfl | rfl | rfl | rfl | rfl
  · exact word_of_invalidNick h.nick
  · exact h.password
  · decide
  · exact word_level _
  · exact word_showInt _
  · exact word_showInt _
  · exact word_showNat _

theorem Savable.plain (h : a.Savable cfg) : ∀ c ∈ a.text, c ≠ '\n' := newline_line h.words

/-- The line is read back, whether its end was read with it or not. -/
theorem Savable.readAccount (h : a.Savable cfg) {tail : Str} (hTail : tail = [] ∨ tail = ['\n']) :
    readAccount cfg id (a.text ++ tail) = some a := by
  have hWord := word_of_invalidNick h.nick
  have hSkip : skipSpace (a.text ++ tail) = a.text ++ tail := by
    rw [text, line_cons, List.append_assoc]
    exact hWord.skipSpace _
  have hSplit : splitLine 7 (a.text ++ tail) = some [a.nick, a.password, str "unknown", a.level.text,
      showInt (toInt32 a.timestamp), showInt (toInt32 a.lastSeen), showNat a.flags.toNat] := by
    rw [splitLine, hSkip]
    exact splitFields_line 7 h.words hTail
  have hTimestamp : (strtol (showInt (toInt32 a.timestamp))).1 = a.timestamp := by
    rw [strtol_showInt32, toInt32_eq h.timestamp.1 h.timestamp.2]
  have hLastSeen : (strtol (showInt (toInt32 a.lastSeen))).1 = a.lastSeen := by
    rw [strtol_showInt32, toInt32_eq h.lastSeen.1 h.lastSeen.2]
  have hFlags : toUshort (atoi (showNat a.flags.toNat)) = a.flags := by
    have hLess := a.flags.toNat_lt
    rw [atoi_showNat (by omega), toUshort, Int.emod_eq_of_lt (by omega) (by omega), Int.toNat_natCast,
      UInt16.ofNat_toNat]
  simp only [OpenNap.readAccount, hSplit, h.nick, Bool.false_eq_true, if_false, getLevel_text,
    Option.getD_some, hTimestamp, hLastSeen, List.head?_cons, Option.map_some, hFlags, id]

end Account

/-! ### The whole file -/

/-- A table as the server keeps it: each account under its own nick, and no nick twice. -/
structure AccountTable (table : NameTable Account) : Prop where
  keyed : table.Keyed Account.nick
  distinct : table.Distinct

theorem foldl_dumpUserdb (cfg : Config) (now : Int) (table : NameTable Account) (text : Str)
    (l : List Account) : l.foldl (dumpUserdb cfg now) (table, text) =
      (table.sweep Account.nick (Account.expired cfg now) l,
        text ++ (l.filter fun a => !a.expired cfg now).flatMap fun a => a.text ++ str "\n") := by
  induction l generalizing table text with
  | nil => simp [Bucket.Table.sweep]
  | cons a l ih =>
    rw [List.foldl_cons, dumpUserdb]
    by_cases hGone : a.expired cfg now = true
    · rw [if_pos hGone, ih]
      simp [Bucket.Table.sweep, hGone]
    · rw [if_neg hGone, ih]
      simp [Bucket.Table.sweep, hGone]

theorem userdbDump_eq (cfg : Config) (now : Int) (table : NameTable Account) :
    userdbDump cfg now table =
      (table.sweep Account.nick (Account.expired cfg now) table.values,
        str ":version 1" ++ '\n' ::
          (table.values.filter fun a => !a.expired cfg now).flatMap fun a => a.text ++ str "\n") := by
  rw [userdbDump, foldl_dumpUserdb]
  simp [str]

/-- Every line is read back, in the order in which they were written. -/
theorem filterMap_readAccount {cfg : Config} {l : List Account} (h : ∀ a ∈ l, a.Savable cfg) :
    (fgetsLoop 2047 [] (l.flatMap fun a => a.text ++ str "\n")).filterMap (readAccount cfg id) = l := by
  induction l with
  | nil => rfl
  | cons a l ih =>
    have ha := h a (by simp)
    have hText : ((a :: l).flatMap fun a => a.text ++ str "\n") =
        a.text ++ '\n' :: l.flatMap fun a => a.text ++ str "\n" := by
      simp [str]
    have hSome : a.text ≠ [] := by simp [Account.text, line]
    obtain ⟨tail, hTail, hLine⟩ := filterMap_fgetsLoop (readAccount cfg id) rfl ha.plain hSome ha.fits
      (l.flatMap fun a => a.text ++ str "\n")
    rw [hText, hLine, ha.readAccount hTail, ih fun b hb => h b (by simp [hb])]
    rfl

/-- What is left in memory are the accounts that have not expired. -/
theorem values_userdbDump (cfg : Config) (now : Int) {table : NameTable Account}
    (h : AccountTable table) : (userdbDump cfg now table).1.values.Perm
      (table.values.filter fun a => !a.expired cfg now) := by
  have hEntries := (Bucket.Table.entries_sweep (Account.expired cfg now) h.distinct h.keyed).map Prod.snd
  rw [userdbDump_eq]
  refine hEntries.trans (.of_eq ?_)
  rw [Bucket.Table.values, List.filter_map]
  rfl

theorem AccountTable.userdbDump {table : NameTable Account} (h : AccountTable table) (cfg : Config)
    (now : Int) : AccountTable (userdbDump cfg now table).1 := by
  rw [userdbDump_eq]
  refine ⟨fun e he => h.keyed e ?_, h.distinct.sweep _ _ _⟩
  exact ((Bucket.Table.mem_sweep h.distinct h.keyed fun _ hv => hv).1 he).1

theorem values_loadAccounts (l : List Account) : (loadAccounts l).values.Perm l := by
  have hEntries := (Bucket.Table.entries_foldl_add Account.nick
    (.empty byName Account 257 pos_257) l).map Prod.snd
  refine hEntries.trans (.of_eq ?_)
  simp [Function.comp_def]

theorem keyed_loadAccounts (l : List Account) : (loadAccounts l).Keyed Account.nick := by
  intro e he
  have hIn := (Bucket.Table.entries_foldl_add Account.nick
    (.empty byName Account 257 pos_257) l).mem_iff.1 he
  rw [Bucket.Table.entries_empty, List.append_nil] at hIn
  obtain ⟨a, -, rfl⟩ := List.mem_map.1 hIn
  rfl

/-- The file is read as the accounts that are left, in the order of the dump. -/
theorem userdbInit_eq {cfg : Config} {now : Int} {table : NameTable Account}
    (h : ∀ a ∈ table.values, a.Savable cfg) (later : Int) (salt : Nat → Str) :
    userdbInit cfg later salt (userdbDump cfg now table).2 =
      (loadAccounts (table.values.filter fun a => !a.expired cfg now), none) := by
  have hLines (rest : Str) : fgetsLines 2048 (str ":version 1" ++ '\n' :: rest) =
      str ":version 1\n" :: fgetsLoop 2047 [] rest :=
    fgetsLoop_line (by simp [str]) (by decide)
  have hPrefix : (str ":version 1").isPrefixOf (str ":version 1\n") = true := by decide
  have hLeft : ∀ a ∈ table.values.filter fun a => !a.expired cfg now, a.Savable cfg :=
    fun a ha => h a (List.mem_filter.1 ha).1
  rw [userdbDump_eq, userdbInit, hLines]
  simp only [hPrefix, if_true, filterMap_readAccount hLeft]

/-- After a dump exactly those accounts are left in memory that have not expired, and the table that
is read back has the same accounts, each found under its nick. -/
theorem userdbInit_userdbDump (cfg : Config) (now later : Int) (salt : Nat → Str)
    (table : NameTable Account) (hTable : AccountTable table)
    (hSavable : ∀ a ∈ table.values, a.Savable cfg) :
    let left := (userdbDump cfg now table).1
    let read := (userdbInit cfg later salt (userdbDump cfg now table).2).1
    left.values.Perm (table.values.filter fun a => !a.expired cfg now) ∧
      read.values.Perm left.values ∧ ∀ nick, read.lookup nick = left.lookup nick := by
  have hLeft := values_userdbDump cfg now hTable
  have hSame := hLeft.trans (values_loadAccounts (table.values.filter fun a => !a.expired cfg now)).symm
  intro left read
  have hRead : read = loadAccounts (table.values.filter fun a => !a.expired cfg now) :=
    congrArg Prod.fst (userdbInit_eq hSavable later salt)
  have hKept := hTable.userdbDump cfg now
  rw [hRead]
  refine ⟨hLeft, hSame.symm, fun nick => ?_⟩
  exact (hKept.distinct.lookup_eq_of_perm hKept.keyed (keyed_loadAccounts _) hSame nick).symm

/-- Two accounts that were last seen at the time 0. -/
def twoAccounts : List Account :=
  [{ nick := str "joe", password := str "1,AAAAAAAA,pw", level := .user, timestamp := 5, lastSeen := 0
     flags := 0 },
    { nick := str "Ann", password := str "1,BBBBBBBB,pw", level := .elite, timestamp := -5, lastSeen := 0
      flags := 3 }]

theorem accountTable_two : AccountTable (loadAccounts twoAccounts) :=
  ⟨keyed_loadAccounts _, by unfold Bucket.Table.Distinct; decide +kernel⟩

/-- An account expires, and one of a privileged user does not. -/
theorem userdbInit_userdbDump_two :
    let table := loadAccounts twoAccounts
    let left := (userdbDump hub.cfg 2678400 table).1
    let read := (userdbInit hub.cfg 0 (fun _ => []) (userdbDump hub.cfg 2678400 table).2).1
    left.lookup (str "joe") = none ∧ left.lookup (str "ann") = twoAccounts[1]? ∧
      read.values.Perm left.values ∧ read.lookup (str "ann") = left.lookup (str "ann") :=
  have h := userdbInit_userdbDump hub.cfg 2678400 0 (fun _ => []) (loadAccounts twoAccounts)
    accountTable_two (by decide +kernel)
  ⟨by decide +kernel, by decide +kernel, h.2.1, h.2.2 _⟩

/-! ### Accounts that are not read back -/

/-- A line that is longer than the room is cut there. -/
theorem fgetsLoop_cut {room : Nat} {acc text rest : Str} (hPlain : ∀ c ∈ text, c ≠ '\n')
    (hSome : text ≠ []) (hFull : acc.length + text.length = room) :
    fgetsLoop room acc (text ++ rest) = (acc ++ text) :: fgetsLoop room [] rest := by
  induction text generalizing acc with
  | nil => exact absurd rfl hSome
  | cons c cs ih =>
    have hc : c ≠ '\n' := hPlain c (by simp)
    rw [List.length_cons] at hFull
    rw [List.cons_append, fgetsLoop]
    cases cs with
    | nil => rw [if_pos (.inr (by rw [List.length_nil] at hFull; omega)), List.nil_append]
    | cons d ds =>
      have hRoom : ¬ (c = '\n' ∨ room ≤ acc.length + 1) := by
        rintro (hEq | hLe)
        · exact hc hEq
        · rw [List.length_cons] at hFull
          omega
      rw [if_neg hRoom, ih (fun e he => hPlain e (List.mem_cons_of_mem _ he)) (by simp)
        (by simp at hFull ⊢; omega)]
      simp

theorem lookup_loadAccounts_single (a : Account) (nick : Str) :
    (loadAccounts [a]).lookup nick = if strlower a.nick = strlower nick then some a else none :=
  Bucket.Table.lookup_add _ _ _ _

/-- When the nick of an account begins with a word that fills the buffer, the rest of the line is
read as that of another account. -/
theorem userdbInit_long {cfg : Config} {now : Int} {a : Account} (ha : a.Savable cfg)
    (hKept : a.expired cfg now = false) {w : Str} (hw : Word w) (hFull : w.length = 2047)
    (later : Int) (salt : Nat → Str) :
    userdbInit cfg later salt (userdbDump cfg now (loadAccounts [{ a with nick := w ++ a.nick }])).2 =
      (loadAccounts [a], none) := by
  have hPrefix : (str ":version 1").isPrefixOf (str ":version 1\n") = true := by decide
  have hFirst (rest : Str) : fgetsLines 2048 (str ":version 1" ++ '\n' :: rest) =
      str ":version 1\n" :: fgetsLoop 2047 [] rest :=
    fgetsLoop_line (by simp [str]) (by decide)
  have hNone : readAccount cfg id w = none := by
    have hSkip : skipSpace w = w := by simpa using hw.skipSpace []
    rw [readAccount, splitLine, hSkip, splitFields_word hw]
  have hText : ({ a with nick := w ++ a.nick } : Account).text = w ++ a.text := by
    rw [Account.text, line_cons, List.append_assoc]
    rfl
  have hValues : (loadAccounts [{ a with nick := w ++ a.nick }]).values =
      [{ a with nick := w ++ a.nick }] := List.perm_singleton.1 (values_loadAccounts _)
  have hExpired : ({ a with nick := w ++ a.nick } : Account).expired cfg now = false := hKept
  have hRead := @filterMap_readAccount cfg [a] (by simpa using ha)
  rw [List.flatMap_singleton] at hRead
  rw [userdbDump_eq, hValues, userdbInit, hFirst]
  simp only [hPrefix, if_true, List.filter_cons, hExpired, Bool.not_false, List.filter_nil,
    List.flatMap_singleton, hText, List.append_assoc]
  rw [fgetsLoop_cut hw.token.newline hw.nonempty (by simpa using hFull), List.nil_append,
    List.filterMap_cons, hNone, hRead]

theorem invalidNick_replicate {cfg : Config} (h : cfg.maxNickLength ≤ 0) {n : Nat} (hn : 8 < n) :
    invalidNick cfg (List.replicate n 'a') = false := by
  have hSame {w : Str} (hw : w.length ≤ 8) : sameText (List.replicate n 'a') w = false := by
    have hNe : strlower (List.replicate n 'a') ≠ strlower w := by
      intro hEq
      have hLength := congrArg List.length hEq
      rw [strlower_length, strlower_length, List.length_replicate] at hLength
      omega
    rw [sameText, beq_eq_false_iff_ne]
    exact hNe
  obtain ⟨k, rfl⟩ : ∃ k, n = k + 1 := ⟨n - 1, by omega⟩
  have hMax : ¬ (cfg.maxNickLength > 0 ∧ ((List.replicate (k + 1) 'a').length : Int) > cfg.maxNickLength) := by
    rintro ⟨hPos, -⟩
    omega
  have hAny : (List.replicate (k + 1) 'a').any (fun d => decide (d.toNat < 33) || decide (126 < d.toNat) ||
      (str "%$*?.!\",").contains d) = false := by
    rw [List.any_eq_false]
    intro d hd
    rw [List.eq_of_mem_replicate hd]
    decide
  simp only [invalidNick, hSame (w := str "operserv") (by decide), hSame (w := str "chanserv") (by decide),
    hSame (w := str "operator") (by decide), hAny, decide_eq_false hMax]
  simp [List.replicate_succ]

theorem word_replicate {n : Nat} (hn : 0 < n) : Word (List.replicate n 'a') := by
  obtain ⟨k, rfl⟩ : ∃ k, n = k + 1 := ⟨n - 1, by omega⟩
  refine ⟨by simp, fun c hc => ?_, by simp [List.replicate_succ]⟩
  rw [List.eq_of_mem_replicate hc]
  decide

/-- An account of which every field but the nick and the password is the same. -/
def memberAccount (nick password : Str) : Account :=
  { nick := nick, password := password, level := .moderator, timestamp := 1, lastSeen := 2, flags := 0 }

/-- An account without a password has fewer fields in the file, and of a line that does not fit into
the buffer the rest is taken for another. -/
theorem not_read_back :
    let cfg := { hub.cfg with maxNickLength := 0 }
    let read := fun a : Account =>
      (userdbInit cfg 0 (fun _ => []) (userdbDump cfg 0 (loadAccounts [a])).2).1
    let empty := memberAccount (str "joe") []
    let long := memberAccount (List.replicate 2048 'a') (str "1,AAAAAAAA,pw")
    (invalidNick cfg empty.nick = false ∧
      (read empty).lookup empty.nick ≠ (loadAccounts [empty]).lookup empty.nick) ∧
    (invalidNick cfg long.nick = false ∧ Word long.password ∧
      (read long).lookup long.nick ≠ (loadAccounts [long]).lookup long.nick) := by
  intro cfg read empty long
  have hRead : read long = loadAccounts [memberAccount (str "a") (str "1,AAAAAAAA,pw")] := by
    have hWord := word_replicate (n := 2047) (by omega)
    have hLong := @userdbInit_long cfg 0 (memberAccount (str "a") (str "1,AAAAAAAA,pw"))
      (by decide +kernel) (by decide) _ hWord List.length_replicate 0 (fun _ => [])
    have hNick : List.replicate 2047 'a' ++ str "a" = List.replicate 2048 'a' :=
      List.replicate_succ'.symm
    exact congrArg Prod.fst (hNick ▸ hLong)
  have hShort : ¬ strlower (str "a") = strlower (List.replicate 2048 'a') := by
    intro hEq
    have hLength := congrArg List.length hEq
    rw [strlower_length, strlower_length, List.length_replicate] at hLength
    exact absurd hLength (by decide)
  refine ⟨by decide +kernel, invalidNick_replicate (le_refl _) (by omega), by decide, ?_⟩
  rw [hRead, lookup_loadAccounts_single, lookup_loadAccounts_single, if_pos rfl]
  exact fun hEq => Option.some_ne_none _ ((if_neg hShort).symm.trans hEq).symm

/-! ### The records of the handlers -/

namespace Core

/-- The table with the records themselves. -/
def records (s : Core) : NameTable UserDb := s.userDb.map s.db

theorem userdbDump_eq (s : Core) : s.userdbDump =
    { s with
      userDb := s.userDb.sweep (fun d => (s.db d).nick) (fun d => s.stale (s.db d)) s.userDb.values } := by
  have hWalk (l : List UserDbId) (t : NameTable UserDbId) :
      l.foldl (fun s db => if s.stale (s.db db) then s.removeDb db else s) { s with userDb := t } =
        { s with userDb := t.sweep (fun d => (s.db d).nick) (fun d => s.stale (s.db d)) l } := by
    induction l generalizing t with
    | nil => rfl
    | cons d l ih =>
      rw [List.foldl_cons, Bucket.Table.sweep, List.foldl_cons]
      by_cases hGone : s.stale (s.db d) = true
      · rw [if_pos hGone]
        refine Eq.trans ?_ (ih _)
        exact congrArg (l.foldl _) (if_pos hGone)
      · rw [if_neg hGone]
        refine Eq.trans ?_ (ih _)
        exact congrArg (l.foldl _) (if_neg hGone)
  exact hWalk _ s.userDb

/-- The dump of the accounts is the dump of the records that the handlers use of them. -/
theorem records_userdbDump {s : Core} {table : NameTable Account}
    (h : table.map Account.record = s.records) :
    (OpenNap.userdbDump s.cfg s.now table).1.map Account.record = s.userdbDump.records := by
  have hValues : table.values.map Account.record = s.userDb.values.map s.db := by
    rw [← Bucket.Table.values_map, ← Bucket.Table.values_map, h]
    rfl
  rw [OpenNap.userdbDump_eq, userdbDump_eq]
  calc (table.sweep Account.nick (Account.expired s.cfg s.now) table.values).map Account.record
      _ = (table.map Account.record).sweep UserDb.nick s.stale (table.values.map Account.record) :=
        Bucket.Table.sweep_map Account.record UserDb.nick s.stale table table.values
      _ = s.records.sweep UserDb.nick s.stale (s.userDb.values.map s.db) := by rw [h, hValues]
      _ = (s.userDb.sweep (fun d => (s.db d).nick) (fun d => s.stale (s.db d)) s.userDb.values).map
          s.db := (Bucket.Table.sweep_map s.db UserDb.nick s.stale s.userDb s.userDb.values).symm

theorem records_foldl_loadAccount (l : List UserDb) {s : Core} (h : ∀ d ∈ s.userDb.values, d < s.next) :
    (l.foldl loadAccount s).records = l.foldl (fun table r => table.add r.nick r) s.records := by
  induction l generalizing s with
  | nil => rfl
  | cons r l ih =>
    have hAdd : (s.loadAccount r).records = s.records.add r.nick r := by
      have hOld : s.userDb.map (s.loadAccount r).db = s.records := by
        refine Bucket.Table.map_congr _ fun d hd => ?_
        simp [loadAccount, (h d hd).ne]
      have hNew : (s.loadAccount r).db s.next = r := by simp [loadAccount]
      calc (s.userDb.add r.nick s.next).map (s.loadAccount r).db
          _ = (s.userDb.map (s.loadAccount r).db).add r.nick ((s.loadAccount r).db s.next) :=
            Bucket.Table.add_map _ _ _ _
          _ = s.records.add r.nick r := by rw [hOld, hNew]
    have hNext : ∀ d ∈ (s.loadAccount r).userDb.values, d < (s.loadAccount r).next := by
      intro d hd
      rcases List.mem_cons.1 ((s.userDb.values_add r.nick s.next).mem_iff.1 hd) with rfl | hd
      · exact Nat.lt_succ_self _
      · exact (h d hd).trans (Nat.lt_succ_self _)
    rw [List.foldl_cons, ih hNext, hAdd, List.foldl_cons]

/-- A start with accounts that were read makes their records. -/
theorem records_start (f : Startup) (l : List Account) (h : f.accounts = l.map Account.record) :
    (start f).records = (loadAccounts l).map Account.record := by
  have hTables (s : Core) :
      (f.filter.foldl loadFilter (f.channels.foldl loadChannel s)).records = s.records := by
    have hChannels : (f.channels.foldl loadChannel s).records = s.records :=
      @Runs.run_invariant _ _ loadChannel (fun t => t.records = s.records) (fun _ _ h => h) s rfl _
    exact @Runs.run_invariant _ _ loadFilter (fun t => t.records = s.records) (fun _ _ h => h) _
      hChannels _
  rw [start, hTables, records_foldl_loadAccount _ (by simp [empty]), h]
  exact (Bucket.Table.foldl_add_map Account.record UserDb.nick
    (.empty byName Account 257 pos_257) l).symm

/-- A server that is started with what another has written has the records that the other has left,
each under its nick. -/
theorem records_restart {s : Core} {table : NameTable Account}
    (hRecords : table.map Account.record = s.records) (hTable : AccountTable table)
    (hSavable : ∀ a ∈ table.values, a.Savable s.cfg) (later : Int) (salt : Nat → Str) :
    ∃ l, userdbInit s.cfg later salt (OpenNap.userdbDump s.cfg s.now table).2 = (loadAccounts l, none) ∧
      ∀ f : Startup, f.accounts = l.map Account.record →
        ∀ nick, (start f).records.lookup nick = s.userdbDump.records.lookup nick := by
  have hInit := @userdbInit_eq s.cfg s.now table hSavable later salt
  refine ⟨_, hInit, fun f hAccounts nick => ?_⟩
  have hRead := (userdbInit_userdbDump s.cfg s.now later salt table hTable hSavable).2.2 nick
  rw [hInit] at hRead
  rw [records_start f _ hAccounts, ← records_userdbDump hRecords, Bucket.Table.lookup_map,
    Bucket.Table.lookup_map, hRead]

end Core

end OpenNap
