import OpenNap.Queries
import OpenNap.Timers

/-! The configuration variables: a table of names with the places that they are kept in, which the
configuration file, the elite and the defaults assign to.  Switches share one word of flags. -/

namespace OpenNap

open CText

/-! ### The table -/

/-- The variables of type `int`. -/
inductive IntVar
  | clientQueueLength | maxSearchResults | maxUserChannels | serverQueueLength | statClick | maxShared
  | maxConnections | nickExpire | maxBrowseResult | collectInterval | compressionLevel | uid | gid
  | connectionHardLimit | maxDataSize | maxRssSize | maxNickLength | userDbInterval | channelLimit
  | loginTimeout | maxCommandLength | maxChannelLength | maxIgnore | maxHotlist | maxTopic
  | maxClientString | maxReason | maxClones | searchTimeout | statsPort | floodCommands | floodTime
deriving DecidableEq, Repr

/-- The variables of type `char *`. -/
inductive StrVar
  | serverName | serverPass | listenAddr | configDir
deriving DecidableEq, Repr

/-- The variables of type `LIST *`. -/
inductive ListVar
  | serverPorts
deriving DecidableEq, Repr

/-- Where a variable is kept: `type` and `val`.  A switch is some bits of `Server_Flags`. -/
inductive Place
  | int (val : IntVar)
  | str (val : StrVar)
  | bool (val : BitVec 32)
  | list (val : ListVar)
deriving DecidableEq, Repr

/-- `def`; a 0 stands for none. -/
inductive Default
  | none
  | number (n : Int)
  | text (s : Str)
deriving DecidableEq, Repr

/-- An entry of the table. -/
structure ConfigVar where
  name : Str
  val : Place
  dflt : Default
deriving DecidableEq, Repr

/-- `ON_STRICT_CHANNELS`, `ON_REGISTERED_ONLY`, `ON_AUTO_REGISTER`, `ON_LOCK_MEMORY` and
`ON_EJECT_WHEN_FULL`. -/
def onStrictChannels : BitVec 32 := 1
def onRegisteredOnly : BitVec 32 := 1 <<< 1
def onAutoRegister : BitVec 32 := 1 <<< 2
def onLockMemory : BitVec 32 := 1 <<< 3
def onEjectWhenFull : BitVec 32 := 1 <<< 6

/-- `Vars`, with `FD_SETSIZE` 1024 and the directory `SHAREDIR`. -/
def configVars (shareDir : Str) : List ConfigVar :=
  [⟨str "client_queue_length", .int .clientQueueLength, .number 102400⟩,
    ⟨str "max_results", .int .maxSearchResults, .number 100⟩,
    ⟨str "max_user_channels", .int .maxUserChannels, .number 5⟩,
    ⟨str "server_name", .str .serverName, .none⟩,
    ⟨str "server_password", .str .serverPass, .text (str "opensource")⟩,
    ⟨str "server_ports", .list .serverPorts, .text (str "8888")⟩,
    ⟨str "server_queue_length", .int .serverQueueLength, .number 1048576⟩,
    ⟨str "stat_click", .int .statClick, .number 60⟩,
    ⟨str "strict_channels", .bool onStrictChannels, .none⟩,
    ⟨str "max_shared", .int .maxShared, .number 5000⟩,
    ⟨str "max_connections", .int .maxConnections, .number 1024⟩,
    ⟨str "nick_expire", .int .nickExpire, .number 2678400⟩,
    ⟨str "listen_addr", .str .listenAddr, .text (str "0.0.0.0")⟩,
    ⟨str "max_browse_result", .int .maxBrowseResult, .number 500⟩,
    ⟨str "collect_interval", .int .collectInterval, .number 300⟩,
    ⟨str "compression_level", .int .compressionLevel, .number 1⟩,
    ⟨str "uid", .int .uid, .number (-1)⟩,
    ⟨str "gid", .int .gid, .number (-1)⟩,
    ⟨str "connection_hard_limit", .int .connectionHardLimit, .number 1024⟩,
    ⟨str "max_data_size", .int .maxDataSize, .number (-1)⟩,
    ⟨str "max_rss_size", .int .maxRssSize, .number (-1)⟩,
    ⟨str "lock_memory", .bool onLockMemory, .none⟩,
    ⟨str "max_nick_length", .int .maxNickLength, .number 19⟩,
    ⟨str "user_db_interval", .int .userDbInterval, .number 1800⟩,
    ⟨str "channel_limit", .int .channelLimit, .number 200⟩,
    ⟨str "login_timeout", .int .loginTimeout, .number 60⟩,
    ⟨str "max_command_length", .int .maxCommandLength, .number 2048⟩,
    ⟨str "config_dir", .str .configDir, .text shareDir⟩,
    ⟨str "registered_only", .bool onRegisteredOnly, .none⟩,
    ⟨str "auto_register", .bool onAutoRegister, .none⟩,
    ⟨str "max_channel_length", .int .maxChannelLength, .number 32⟩,
    ⟨str "max_ignore", .int .maxIgnore, .number 32⟩,
    ⟨str "max_hotlist", .int .maxHotlist, .number 32⟩,
    ⟨str "max_topic", .int .maxTopic, .number 64⟩,
    ⟨str "max_client_string", .int .maxClientString, .number 32⟩,
    ⟨str "max_reason", .int .maxReason, .number 64⟩,
    ⟨str "max_clones", .int .maxClones, .none⟩,
    ⟨str "search_timeout", .int .searchTimeout, .number 180⟩,
    ⟨str "stats_port", .int .statsPort, .number 8889⟩,
    ⟨str "eject_when_full", .bool onEjectWhenFull, .none⟩,
    ⟨str "flood_commands", .int .floodCommands, .none⟩,
    ⟨str "flood_time", .int .floodTime, .none⟩]

/-- The variables. -/
structure Variables where
  ints : IntVar → Int
  strs : StrVar → Option Str
  lists : ListVar → List Str
  flags : BitVec 32

namespace Variables

/-- `set_int_var`. -/
def setIntVar (m : Variables) (v : IntVar) (val : Int) : Variables :=
  { m with ints := Function.update m.ints v val }

/-- `set_str_var`. -/
def setStrVar (m : Variables) (v : StrVar) (s : Str) : Variables :=
  { m with strs := Function.update m.strs v (some s) }

/-- `set_list_var`: each word is put in front.  A text that is not split leaves no words. -/
def setListVar (m : Variables) (v : ListVar) (s : Str) : Variables :=
  { m with lists := Function.update m.lists v ((splitLine 32 (s.take 2047)).getD []).reverse }

/-- `set_bool_var`. -/
def setBoolVar (m : Variables) (v : BitVec 32) (on : Int) : Variables :=
  { m with flags := if on ≠ 0 then m.flags ||| v else m.flags &&& ~~~v }

/-- What `set_var` takes a text for, as the value of a switch. -/
def boolText (val : Str) : Option Int :=
  if sameText (str "yes") val || sameText (str "on") val then some 1
  else if sameText (str "no") val || sameText (str "off") val then some 0
  else Timers.intVar val

/-- `set_var`.  A value that is not there is a null pointer or was never set, and `none` is what the
source makes of it when the variable exists. -/
def setVar (shareDir : Str) (m : Variables) (var : Str) (val : Option Str) : Option (Variables × Int) :=
  match (configVars shareDir).find? (·.name = var), val with
  | none, _ => some (m, -1)
  | some _, none => none
  | some v, some val =>
    match v.val with
    | .int i => some ((Timers.intVar val).elim (m, -1) fun n => (m.setIntVar i n, 0))
    | .str i => some (m.setStrVar i val, 0)
    | .bool mask => some ((boolText val).elim (m, -1) fun n => (m.setBoolVar mask n, 0))
    | .list i => some (m.setListVar i val, 0)

/-- What `config` makes of a line of the file, if it is no comment: a name, and a value. -/
def configLine (buf : Str) : Option (Str × Option Str) :=
  match skipSpace ((buf.reverse.dropWhile isSpace).reverse) with
  | [] => none
  | c :: cs =>
    if c = '#' then none
    else
      let (var, val) := cutAt (· == ' ') (c :: cs)
      some (var, val.map skipSpace)

/-- `query_var`. -/
def queryVar (m : Variables) (v : ConfigVar) : Str :=
  v.name ++ str " = " ++
    match v.val with
    | .int i => showInt (m.ints i)
    | .bool mask => if m.flags &&& mask ≠ 0#32 then str "on" else str "off"
    | .list i => ((m.lists i).flatMap fun w => w ++ str " ").take 1023
    | .str i => (m.strs i).getD (str "(null)")

/-- The fields that `split_line` has stored when it finds that a quoted one is not closed: it is the
second one, or the first one, and then there is no second. -/
def openFields (pkt : Str) : Str × Option Str :=
  match skipSpace pkt with
  | [] => ([], none)
  | c :: cs =>
    if isQuote c then
      match cutAt isQuote cs with
      | (field, some rest) => (field, some ((skipSpace rest.tail).tail))
      | (field, none) => (field, none)
    else
      match cutAt isBlank (c :: cs) with
      | (word, some rest) => (word, some ((skipSpace rest).tail))
      | (word, none) => (word, none)

/-- What is left to print of a packet with one field. -/
def restOfPacket (pkt field : Str) : Str :=
  pkt.takeWhile isSpace ++ (if (skipSpace pkt).head?.any isQuote then ['"'] else []) ++ field

/-- `server_config`, from a user of that level.  What is sent back are messages 404. -/
def serverConfig (shareDir : Str) (m : Variables) (level : Level) (pkt : Str) :
    Option (Variables × List Str) :=
  if level < .moderator then some (m, [str "permission denied"])
  else
    let assign (var : Str) (val : Option Str) : Option (Variables × List Str) :=
      if level < .elite then some (m, [str "permission denied"])
      else (m.setVar shareDir var val).map fun r =>
        (r.1, if r.2 ≠ 0 then [str "error setting variable " ++ var] else [])
    match splitLine 2 pkt with
    | some [] => some (m, (configVars shareDir).map m.queryVar)
    | some [name] =>
      match (configVars shareDir).find? fun v => sameText name v.name with
      | some v => some (m, [m.queryVar v])
      | none => some (m, [str "no such variable " ++ restOfPacket pkt name])
    | some (var :: val :: _) => assign var (some val)
    | none => assign (openFields pkt).1 (openFields pkt).2

/-- `server_reconfig`, from a user of that level. -/
def serverReconfig (shareDir : Str) (m : Variables) (level : Level) (pkt : Str) : Variables × List Str :=
  if level < .elite then (m, [str "permission denied"])
  else
    match (configVars shareDir).find? (·.name = pkt) with
    | none => (m, [str "no such variable " ++ pkt])
    | some v =>
      match v.dflt, v.val with
      | .none, _ => (m, [str "no default value for " ++ pkt])
      | .text s, .str i => (m.setStrVar i s, [])
      | .number n, .int i => (m.setIntVar i n, [])
      | .number n, .bool mask => (m.setBoolVar mask n, [])
      -- a list is not reset: the source tests for a switch twice
      | _, _ => (m, [])

/-- `config_defaults`. -/
def configDefaults (shareDir : Str) (m : Variables) : Variables :=
  (configVars shareDir).foldl (fun m v =>
    match v.dflt, v.val with
    | .text s, .str i => m.setStrVar i s
    | .number n, .int i => m.setIntVar i n
    | .text s, .list i => m.setListVar i s
    | .number n, .bool mask => m.setBoolVar mask n
    | _, _ => m) m

end Variables

/-- What happens to the variables: a line of the file is read, or a user sends one of the messages. -/
inductive ConfigEvent
  | line (buf : Str)
  | serverConfig (level : Level) (pkt : Str)
  | serverReconfig (level : Level) (pkt : Str)
deriving DecidableEq, Repr

namespace Variables

/-- One event, and what is sent back. -/
def step (shareDir : Str) (m : Variables) : ConfigEvent → Option (Variables × List Str)
  | .line buf =>
    match configLine buf with
    | none => some (m, [])
    | some (var, val) => (m.setVar shareDir var val).map fun r => (r.1, [])
  | .serverConfig level pkt => m.serverConfig shareDir level pkt
  | .serverReconfig level pkt => some (m.serverReconfig shareDir level pkt)

/-- Events one after the other. -/
def run (shareDir : Str) : Variables → List ConfigEvent → Option (Variables × List (List Str))
  | m, [] => some (m, [])
  | m, e :: events => do
    let (m, shown) ← m.step shareDir e
    let (m, rest) ← run shareDir m events
    return (m, shown :: rest)

end Variables

/-! ### Values and assignments -/

/-- The value of a variable. -/
inductive Value
  | number (n : Int)
  | text (s : Option Str)
  | switch (on : Bool)
  | words (l : List Str)
deriving DecidableEq, Repr

/-- The value at a place. -/
def Variables.get (m : Variables) : Place → Value
  | .int i => .number (m.ints i)
  | .str i => .text (m.strs i)
  | .bool mask => .switch (decide (m.flags &&& mask ≠ 0#32))
  | .list i => .words (m.lists i)

/-- The words that a text stands for, as they are kept. -/
def keptWords (val : Str) : List Str := ((splitLine 32 (val.take 2047)).getD []).reverse

/-- The value that a text stands for at a place. -/
def Place.read : Place → Str → Option Value
  | .int _, val => (Timers.intVar val).map .number
  | .str _, val => some (.text (some val))
  | .bool _, val => (Variables.boolText val).map fun n => .switch (decide (n ≠ 0))
  | .list _, val => some (.words (keptWords val))

/-- The value that the elite can reset a variable to. -/
def ConfigVar.reset (v : ConfigVar) : Option Value :=
  match v.dflt, v.val with
  | .text s, .str _ => some (.text (some s))
  | .number n, .int _ => some (.number n)
  | .number n, .bool _ => some (.switch (decide (n ≠ 0)))
  | _, _ => none

/-- The variable with a name. -/
def configVar (shareDir : Str) (name : Str) : Option ConfigVar :=
  (configVars shareDir).find? (·.name = name)

/-- The assignment of a value to a name. -/
def asked (shareDir : Str) (ask : Str × Option Str) : Option (ConfigVar × Value) := do
  let v ← configVar shareDir ask.1
  let x ← v.val.read (← ask.2)
  return (v, x)

/-- The name and the value in a packet, if there is more than one field. -/
def twoFields (pkt : Str) : Option (Str × Option Str) :=
  match splitLine 2 pkt with
  | some (var :: val :: _) => some (var, some val)
  | some _ => none
  | none => some (Variables.openFields pkt)

namespace ConfigEvent

/-- The name and the value of an assignment that an event asks for. -/
def asks : ConfigEvent → Option (Str × Option Str)
  | line buf => Variables.configLine buf
  | serverConfig level pkt => if level < .elite then none else twoFields pkt
  | serverReconfig _ _ => none

/-- A variable is to be set to a value that is not there. -/
def Faulty (shareDir : Str) (e : ConfigEvent) : Prop :=
  ∃ var, e.asks = some (var, none) ∧ (configVar shareDir var).isSome

/-- The assignment that an event makes. -/
def assigns (shareDir : Str) (e : ConfigEvent) : Option (ConfigVar × Value) :=
  match e with
  | line buf => (line buf).asks.bind (asked shareDir)
  | serverConfig level pkt => (serverConfig level pkt).asks.bind (asked shareDir)
  | serverReconfig level pkt =>
    if level < .elite then none
    else (configVar shareDir pkt).bind fun v => v.reset.map fun x => (v, x)

end ConfigEvent

/-- Whether two places have nothing in common. -/
def Place.apart : Place → Place → Bool
  | .int i, .int j => i != j
  | .str i, .str j => i != j
  | .bool a, .bool b => a &&& b == 0#32
  | .list i, .list j => i != j
  | _, _ => true

/-- The bits of `Server_Flags` that are switches. -/
def switchBits : BitVec 32 :=
  onStrictChannels ||| onRegisteredOnly ||| onAutoRegister ||| onLockMemory ||| onEjectWhenFull

/-- Whether a place can hold a value: a switch has some of the bits. -/
def Place.proper : Place → Bool
  | .bool mask => mask != 0#32 && mask &&& ~~~switchBits == 0#32
  | _ => true

/-- Two places of the table are the same or apart. -/
theorem places_apart {p q : Place} (shareDir : Str) (hp : p ∈ (configVars shareDir).map (·.val))
    (hq : q ∈ (configVars shareDir).map (·.val)) : p = q ∨ p.apart q = true := by
  have hList : (configVars shareDir).map (·.val) = (configVars []).map (·.val) := rfl
  have hAll : ∀ p ∈ (configVars []).map (·.val), ∀ q ∈ (configVars []).map (·.val),
      p = q ∨ p.apart q = true := by decide +kernel
  exact hAll p (hList ▸ hp) q (hList ▸ hq)

theorem places_nodup (shareDir : Str) : ((configVars shareDir).map (·.val)).Nodup := by
  have hList : (configVars shareDir).map (·.val) = (configVars []).map (·.val) := rfl
  rw [hList]
  decide +kernel

theorem places_proper (shareDir : Str) {v : ConfigVar} (hv : v ∈ configVars shareDir) :
    v.val.proper = true := by
  have hList : (configVars shareDir).map (·.val) = (configVars []).map (·.val) := rfl
  have hAll : ∀ p ∈ (configVars []).map (·.val), Place.proper p = true := by decide +kernel
  exact hAll v.val (hList ▸ List.mem_map.2 ⟨v, hv, rfl⟩)

/-- Two variables are the same or have places apart. -/
theorem eq_or_apart {shareDir : Str} {v w : ConfigVar} (hv : v ∈ configVars shareDir)
    (hw : w ∈ configVars shareDir) : v = w ∨ v.val.apart w.val = true :=
  (places_apart shareDir (List.mem_map.2 ⟨v, hv, rfl⟩) (List.mem_map.2 ⟨w, hw, rfl⟩)).imp_left
    (List.inj_on_of_nodup_map (places_nodup shareDir) hv hw)

/-! ### One assignment -/

/-- One place holds a value, and the places apart from it hold what they did. -/
structure Assigns (m m' : Variables) (p : Place) (x : Value) : Prop where
  here : m'.get p = x
  others : ∀ q : Place, p.apart q = true → m'.get q = m.get q
  flags : m'.flags &&& ~~~switchBits = m.flags &&& ~~~switchBits

namespace Variables

variable (m : Variables)

theorem assigns_setIntVar (i : IntVar) (n : Int) : Assigns m (m.setIntVar i n) (.int i) (.number n) where
  here := by simp [get, setIntVar]
  others q hq := by
    cases q with
    | int j =>
      rw [Place.apart, bne_iff_ne] at hq
      have hNe := hq.symm
      simp [get, setIntVar, hNe]
    | _ => rfl
  flags := rfl

theorem assigns_setStrVar (i : StrVar) (s : Str) :
    Assigns m (m.setStrVar i s) (.str i) (.text (some s)) where
  here := by simp [get, setStrVar]
  others q hq := by
    cases q with
    | str j =>
      rw [Place.apart, bne_iff_ne] at hq
      have hNe := hq.symm
      simp [get, setStrVar, hNe]
    | _ => rfl
  flags := rfl

theorem assigns_setListVar (i : ListVar) (s : Str) :
    Assigns m (m.setListVar i s) (.list i) (.words (keptWords s)) where
  here := by simp [get, setListVar, keptWords]
  others q hq := by
    cases q with
    | list j =>
      rw [Place.apart, bne_iff_ne] at hq
      exact absurd (by cases i; cases j; rfl) hq
    | _ => rfl
  flags := rfl

/-- Setting or clearing some bits leaves all others as they were. -/
theorem setBoolVar_and {mask b : BitVec 32} (h : mask &&& b = 0#32) (n : Int) :
    (m.setBoolVar mask n).flags &&& b = m.flags &&& b := by
  have hBit (i : Nat) : (mask.getLsbD i && b.getLsbD i) = false := by
    rw [← BitVec.getLsbD_and, h, BitVec.getLsbD_zero]
  refine BitVec.eq_of_getLsbD_eq fun i hi => ?_
  have hi' := hBit i
  simp only [setBoolVar]
  split
  · simp only [BitVec.getLsbD_and, BitVec.getLsbD_or]
    revert hi'
    cases m.flags.getLsbD i <;> cases mask.getLsbD i <;> cases b.getLsbD i <;> simp
  · simp only [BitVec.getLsbD_and, BitVec.getLsbD_not, hi, decide_true, Bool.true_and]
    revert hi'
    cases m.flags.getLsbD i <;> cases mask.getLsbD i <;> cases b.getLsbD i <;> simp

theorem assigns_setBoolVar {mask : BitVec 32} (h : (Place.bool mask).proper = true) (n : Int) :
    Assigns m (m.setBoolVar mask n) (.bool mask) (.switch (decide (n ≠ 0))) where
  here := by
    have hMask : mask ≠ 0#32 := by
      simp only [Place.proper, Bool.and_eq_true, bne_iff_ne] at h
      exact h.1
    have hOn : (m.flags ||| mask) &&& mask = mask := by
      refine BitVec.eq_of_getLsbD_eq fun i hi => ?_
      simp only [BitVec.getLsbD_and, BitVec.getLsbD_or]
      cases m.flags.getLsbD i <;> cases mask.getLsbD i <;> rfl
    have hOff : m.flags &&& ~~~mask &&& mask = 0#32 := by
      refine BitVec.eq_of_getLsbD_eq fun i hi => ?_
      simp only [BitVec.getLsbD_and, BitVec.getLsbD_not, hi, decide_true, Bool.true_and,
        BitVec.getLsbD_zero]
      cases m.flags.getLsbD i <;> cases mask.getLsbD i <;> rfl
    by_cases hn : n = 0
    · simp [get, setBoolVar, hn, hOff]
    · simp [get, setBoolVar, hn, hOn, hMask]
  others q hq := by
    cases q with
    | bool b =>
      have hApart : mask &&& b = 0#32 := by
        rwa [Place.apart, beq_iff_eq] at hq
      simp only [get, m.setBoolVar_and hApart]
    | _ => rfl
  flags := by
    have hOutside : mask &&& ~~~switchBits = 0#32 := by
      simp only [Place.proper, Bool.and_eq_true, beq_iff_eq] at h
      exact h.2
    exact m.setBoolVar_and hOutside n

/-- A text that stands for a value is assigned, and another one is refused. -/
theorem setVar_spec {shareDir var : Str} (val : Str) {v : ConfigVar} (hv : configVar shareDir var = some v) :
    v.val.read val = none ∧ m.setVar shareDir var (some val) = some (m, -1) ∨
      ∃ x m', v.val.read val = some x ∧ m.setVar shareDir var (some val) = some (m', 0) ∧
        Assigns m m' v.val x := by
  have hProper := places_proper shareDir (List.mem_of_find?_eq_some hv)
  rw [configVar] at hv
  simp only [setVar, hv]
  cases hPlace : v.val with
  | int i =>
    cases hRead : Timers.intVar val with
    | none => exact .inl ⟨by rw [Place.read, hRead]; rfl, rfl⟩
    | some n => exact .inr ⟨_, _, by rw [Place.read, hRead]; rfl, rfl, m.assigns_setIntVar i n⟩
  | str i => exact .inr ⟨_, _, rfl, rfl, m.assigns_setStrVar i val⟩
  | bool mask =>
    cases hRead : boolText val with
    | none => exact .inl ⟨by rw [Place.read, hRead]; rfl, rfl⟩
    | some n =>
      exact .inr ⟨_, _, by rw [Place.read, hRead]; rfl, rfl,
        m.assigns_setBoolVar (hPlace ▸ hProper) n⟩
  | list i => exact .inr ⟨_, _, rfl, rfl, m.assigns_setListVar i val⟩

/-- What an assignment that was asked for leaves. -/
def Made (shareDir : Str) (m m' : Variables) : Option (ConfigVar × Value) → Prop
  | none => m' = m
  | some (v, x) => v ∈ configVars shareDir ∧ Assigns m m' v.val x

theorem setVar_asked (shareDir : Str) (ask : Str × Option Str) :
    (ask.2 = none ∧ (configVar shareDir ask.1).isSome = true ∧
        m.setVar shareDir ask.1 ask.2 = none) ∨
      (¬ (ask.2 = none ∧ (configVar shareDir ask.1).isSome = true) ∧
        ∃ m' r, m.setVar shareDir ask.1 ask.2 = some (m', r) ∧ Made shareDir m m' (asked shareDir ask)) := by
  obtain ⟨var, val⟩ := ask
  cases hVar : configVar shareDir var with
  | none =>
    refine .inr ⟨by simp, m, -1, ?_, ?_⟩
    · rw [configVar] at hVar
      simp only [setVar, hVar]
    · simp [asked, hVar, Made]
  | some v =>
    cases val with
    | none =>
      refine .inl ⟨rfl, rfl, ?_⟩
      rw [configVar] at hVar
      simp only [setVar, hVar]
    | some val =>
      refine .inr ⟨by simp, ?_⟩
      obtain ⟨hRead, hSet⟩ | ⟨x, m', hRead, hSet, hAssigns⟩ := m.setVar_spec val hVar
      · exact ⟨m, -1, hSet, by simp [asked, hVar, hRead, Made]⟩
      · refine ⟨m', 0, hSet, ?_⟩
        simp only [asked, hVar, hRead, Option.bind_eq_bind, Option.bind_some]
        exact ⟨List.mem_of_find?_eq_some hVar, hAssigns⟩

theorem serverReconfig_spec (shareDir : Str) (level : Level) (pkt : Str) :
    Made shareDir m (m.serverReconfig shareDir level pkt).1
      ((ConfigEvent.serverReconfig level pkt).assigns shareDir) := by
  simp only [serverReconfig, ConfigEvent.assigns]
  by_cases hLevel : level < .elite
  · rw [if_pos hLevel, if_pos hLevel]
    rfl
  rw [if_neg hLevel, if_neg hLevel]
  cases hVar : configVar shareDir pkt with
  | none =>
    rw [configVar] at hVar
    rw [hVar]
    rfl
  | some v =>
    have hMem := List.mem_of_find?_eq_some hVar
    have hProper := places_proper shareDir hMem
    rw [configVar] at hVar
    obtain ⟨name, val, dflt⟩ := v
    simp only [hVar, Option.bind_some, ConfigVar.reset]
    cases dflt with
    | none => rfl
    | number n =>
      cases val with
      | int i => exact ⟨hMem, m.assigns_setIntVar i n⟩
      | bool mask => exact ⟨hMem, m.assigns_setBoolVar hProper n⟩
      | str i => rfl
      | list i => rfl
    | text s =>
      cases val with
      | str i => exact ⟨hMem, m.assigns_setStrVar i s⟩
      | int i => rfl
      | bool mask => rfl
      | list i => rfl

/-- What an event leaves, if it does not need a value that is not there. -/
def Goes (shareDir : Str) (m : Variables) (e : ConfigEvent) : Prop :=
  (e.Faulty shareDir ∧ m.step shareDir e = none) ∨
    (¬ e.Faulty shareDir ∧ ∃ m' shown, m.step shareDir e = some (m', shown) ∧
      Made shareDir m m' (e.assigns shareDir))

variable {m} {shareDir pkt : Str} {level : Level} {e : ConfigEvent}

/-- A name and a value that are asked for decide what happens. -/
theorem goes_asked {ask : Str × Option Str} (hAsks : e.asks = some ask)
    (hAssigns : e.assigns shareDir = asked shareDir ask) {shown : Variables × Int → List Str}
    (hStep : m.step shareDir e = (m.setVar shareDir ask.1 ask.2).map fun r => (r.1, shown r)) :
    Goes shareDir m e := by
  obtain ⟨hNone, hKnown, hSet⟩ | ⟨hFine, m', r, hSet, hMade⟩ := m.setVar_asked shareDir ask
  · refine .inl ⟨⟨ask.1, ?_, hKnown⟩, by rw [hStep, hSet]; rfl⟩
    rw [hAsks, ← hNone]
  · refine .inr ⟨fun hFaulty => hFine ?_, m', shown (m', r), by rw [hStep, hSet]; rfl, hAssigns ▸ hMade⟩
    obtain ⟨var, hVar, hKnown⟩ := hFaulty
    rw [hAsks, Option.some.injEq] at hVar
    rw [hVar]
    exact ⟨rfl, hKnown⟩

/-- Where nothing is asked for, nothing needs a value. -/
theorem not_faulty (hAsks : e.asks = none) : ¬ e.Faulty shareDir := by
  rintro ⟨var, hVar, -⟩
  rw [hAsks] at hVar
  cases hVar

/-- A query changes nothing. -/
theorem goes_query (hAsks : (ConfigEvent.serverConfig level pkt).asks = none)
    (hSame : ∃ shown, m.serverConfig shareDir level pkt = some (m, shown)) :
    Goes shareDir m (.serverConfig level pkt) := by
  obtain ⟨shown, hShown⟩ := hSame
  refine .inr ⟨not_faulty hAsks, m, shown, hShown, ?_⟩
  rw [ConfigEvent.assigns, hAsks]
  rfl

/-- A user below elite cannot change a variable. -/
theorem goes_denied (hLevel : level < .elite) : Goes shareDir m (.serverConfig level pkt) := by
  refine goes_query (if_pos hLevel) ?_
  simp only [serverConfig, hLevel, if_true]
  split
  · exact ⟨_, rfl⟩
  · split
    · exact ⟨_, rfl⟩
    · split <;> exact ⟨_, rfl⟩
    · exact ⟨_, rfl⟩
    · exact ⟨_, rfl⟩

/-- What an elite sends. -/
theorem goes_elite (hLevel : ¬ level < .elite) : Goes shareDir m (.serverConfig level pkt) := by
  have hHigh : ¬ level < .moderator := by
    cases level <;> first | exact absurd (by decide) hLevel | decide
  have hAsks : (ConfigEvent.serverConfig level pkt).asks = twoFields pkt := if_neg hLevel
  have hAssigns {ask : Str × Option Str} (hFields : twoFields pkt = some ask) :
      (ConfigEvent.serverConfig level pkt).assigns shareDir = asked shareDir ask := by
    rw [ConfigEvent.assigns, hAsks, hFields]
    rfl
  have hStep : m.step shareDir (.serverConfig level pkt) = m.serverConfig shareDir level pkt := rfl
  simp only [serverConfig, hHigh, hLevel, if_false] at hStep
  rcases hSplit : splitLine 2 pkt with _ | _ | ⟨var, _ | ⟨val, rest⟩⟩
  · have hFields : twoFields pkt = some (openFields pkt) := by simp only [twoFields, hSplit]
    exact goes_asked (hAsks.trans hFields) (hAssigns hFields) (by rw [hStep, hSplit])
  · have hFields : twoFields pkt = none := by simp only [twoFields, hSplit]
    exact goes_query (hAsks.trans hFields) ⟨_, hStep.trans (by rw [hSplit])⟩
  · have hFields : twoFields pkt = none := by simp only [twoFields, hSplit]
    refine goes_query (hAsks.trans hFields) ?_
    cases hFind : (configVars shareDir).find? fun v => sameText var v.name with
    | none => exact ⟨_, hStep.trans (by simp only [hSplit, hFind]; rfl)⟩
    | some v => exact ⟨_, hStep.trans (by simp only [hSplit, hFind]; rfl)⟩
  · have hFields : twoFields pkt = some (var, some val) := by simp only [twoFields, hSplit]
    exact goes_asked (hAsks.trans hFields) (hAssigns hFields) (by rw [hStep, hSplit])

/-- One event. -/
theorem goes (shareDir : Str) (m : Variables) (e : ConfigEvent) : Goes shareDir m e := by
  cases e with
  | line buf =>
    cases hLine : configLine buf with
    | none =>
      have hAsks : (ConfigEvent.line buf).asks = none := hLine
      refine .inr ⟨not_faulty hAsks, m, [], by rw [step, hLine], ?_⟩
      rw [ConfigEvent.assigns, hAsks]
      rfl
    | some ask =>
      have hAsks : (ConfigEvent.line buf).asks = some ask := hLine
      exact goes_asked hAsks (by rw [ConfigEvent.assigns, hAsks]; rfl) (by rw [step, hLine])
  | serverReconfig level pkt =>
    exact .inr ⟨not_faulty rfl, _, _, rfl, m.serverReconfig_spec shareDir level pkt⟩
  | serverConfig level pkt =>
    by_cases hLevel : level < .elite
    · exact goes_denied hLevel
    · exact goes_elite hLevel

end Variables

/-! ### The defaults -/

/-- The value that `config_defaults` gives a variable, if the table has one. -/
def ConfigVar.initial (v : ConfigVar) : Option Value :=
  match v.dflt, v.val with
  | .text s, .list _ => some (.words (keptWords s))
  | _, _ => v.reset

/-- Going once over some variables, each one gets its value, if there is one for it. -/
theorem foldl_made {shareDir : Str} {set : Variables → ConfigVar → Variables}
    (value : ConfigVar → Option Value)
    (hSet : ∀ m, ∀ v ∈ configVars shareDir,
      Variables.Made shareDir m (set m v) ((value v).map fun x => (v, x)))
    (l : List ConfigVar) (hNodup : l.Nodup) (hTable : ∀ v ∈ l, v ∈ configVars shareDir)
    (m : Variables) {v : ConfigVar} (hv : v ∈ configVars shareDir) :
    (l.foldl set m).get v.val =
      if v ∈ l then (value v).getD (m.get v.val) else m.get v.val := by
  induction l generalizing m with
  | nil => rfl
  | cons w l ih =>
    obtain ⟨hNew, hNodup⟩ := List.nodup_cons.1 hNodup
    have hw := hTable w (List.mem_cons_self ..)
    have hMade := hSet m w hw
    rw [List.foldl_cons, ih hNodup (fun u hu => hTable u (List.mem_cons_of_mem _ hu))]
    cases hValue : value w with
    | none =>
      rw [hValue] at hMade
      have hSame : set m w = m := hMade
      rw [hSame]
      by_cases hEq : v = w
      · subst hEq
        simp [hValue]
      · simp [hEq]
    | some x =>
      rw [hValue] at hMade
      obtain ⟨-, hAssigns⟩ : w ∈ configVars shareDir ∧ Assigns m (set m w) w.val x := hMade
      by_cases hEq : v = w
      · subst hEq
        simp [hNew, hAssigns.here, hValue]
      · have hApart := (eq_or_apart hw hv).resolve_left (Ne.symm hEq)
        simp [hEq, hAssigns.others v.val hApart]

/-- After `config_defaults` each variable with a default has it, and the others are as they were. -/
theorem configDefaults_get (shareDir : Str) (m : Variables) {v : ConfigVar}
    (hv : v ∈ configVars shareDir) :
    (m.configDefaults shareDir).get v.val = v.initial.getD (m.get v.val) := by
  have hNodup : (configVars shareDir).Nodup := (places_nodup shareDir).of_map _
  refine (foldl_made ConfigVar.initial (fun m v hv => ?_) _ hNodup (fun _ h => h) m hv).trans
    (if_pos hv)
  have hProper := places_proper shareDir hv
  obtain ⟨name, val, dflt⟩ := v
  cases dflt with
  | none => cases val <;> rfl
  | number n =>
    cases val with
    | int i => exact ⟨hv, m.assigns_setIntVar i n⟩
    | bool mask => exact ⟨hv, m.assigns_setBoolVar hProper n⟩
    | str i => rfl
    | list i => rfl
  | text s =>
    cases val with
    | str i => exact ⟨hv, m.assigns_setStrVar i s⟩
    | list i => exact ⟨hv, m.assigns_setListVar i s⟩
    | int i => rfl
    | bool mask => rfl

/-! ### Runs -/

/-- What a query shows as the value of a variable. -/
def Variables.shown (m : Variables) (v : ConfigVar) : Str := (m.queryVar v).drop (v.name.length + 3)

end OpenNap
