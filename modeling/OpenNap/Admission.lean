import OpenNap.Lib.Least
import OpenNap.Reach

/-! Who is let in.  A client is counted with the clones of its own address, and a full server ejects
a user whose flag says that nothing is shared. -/

namespace OpenNap

open CText Server

/-! ### Clones -/

/-- The refusal of a client with too many connections from its address. -/
def clonesText : Str := str "Exceeded max connections to this server"

namespace Core

/-- Whether a slot of `Clients` holds a clone: a client or an unknown connection from the address. -/
def isClone (s : Core) (ip : UInt32) (slot : Option ConId) : Bool :=
  slot.any fun con => (s.isUser con || s.isUnknown con) && (s.con con).ip == ip

/-- The other connections of class user or unknown from the address of `con`. -/
def otherClones (s : Core) (con : ConId) : Nat :=
  s.clients.countP fun slot => slot != some con && s.isClone (s.con con).ip slot

/-- The loop of `count_clones`, which stops when it has counted `limit`. -/
def countUpTo (s : Core) (ip : UInt32) (limit : Int) : List (Option ConId) → Nat → Nat
  | [], clones => clones
  | slot :: rest, clones =>
    if s.isClone ip slot then
      if limit ≤ clones + 1 then clones + 1 else s.countUpTo ip limit rest (clones + 1)
    else s.countUpTo ip limit rest clones

theorem countClones_eq (s : Core) (ip : UInt32) :
    s.countClones ip = s.clients.countP (s.isClone ip) := by
  simp only [countClones]
  congr 1
  funext slot
  cases slot <;> rfl

/-- The cut does not change whether the limit is reached. -/
theorem le_countUpTo (s : Core) (ip : UInt32) {limit : Int} (slots : List (Option ConId)) {n : Nat}
    (h : (n : Int) < limit) :
    limit ≤ s.countUpTo ip limit slots n ↔ limit ≤ (n + slots.countP (s.isClone ip) : Nat) := by
  induction slots generalizing n with
  | nil => simp [countUpTo]
  | cons slot rest ih =>
    simp only [countUpTo, List.countP_cons]
    split
    · split
      · rename_i hCut
        simp only [Nat.cast_add, Nat.cast_one]
        omega
      · rw [ih (by push_cast; omega)]
        push_cast
        omega
    · simp only [Nat.add_zero]
      exact ih h

/-- `count_clones` with its cut decides as the whole count does. -/
theorem le_countClones_iff (s : Core) (ip : UInt32) {limit : Int} (h : 0 < limit) :
    limit ≤ s.countUpTo ip limit s.clients 0 ↔ limit ≤ s.countClones ip := by
  rw [le_countUpTo s ip _ (by simpa using h), countClones_eq, Nat.zero_add]

/-- A connection that logs in is one of the clones. -/
theorem countClones_self {s : Core} {con : ConId} (hSlot : s.clients.count (some con) = 1)
    (hUnknown : s.isUnknown con = true) :
    s.countClones (s.con con).ip = s.otherClones con + 1 := by
  have hSelf : s.isClone (s.con con).ip (some con) = true := by simp [isClone, hUnknown]
  rw [countClones_eq, otherClones, List.countP_eq_countP_filter_add s.clients _ (· != some con),
    List.countP_filter]
  congr 1
  · refine List.countP_congr fun slot _ => ?_
    rw [Bool.and_comm]
  · rw [List.countP_filter, ← hSlot, List.count]
    refine List.countP_congr fun slot _ => ?_
    by_cases h : slot = some con <;> simp [h, hSelf]

end Core

namespace Server

/-- The login of `r` on `con` is refused for clones. -/
def RefusedForClones (s : Server) (con : ConId) (r : LoginRequest) : Prop :=
  s.checkRestrictions con r = .error (s.refuse con msgServerError clonesText)

/-- Such a refusal ends the login. -/
theorem RefusedForClones.login {s : Server} {con : ConId} {r : LoginRequest} {tag : Nat}
    {pkt random : Str} (h : s.RefusedForClones con r) (hUnknown : s.isUser con = false)
    (hRead : s.readLogin con pkt = .ok r) (hNick : invalidNick s.cfg r.nick = false)
    (hLevel : (s.userDb.lookup r.nick).any (fun d => decide (Level.moderator ≤ (s.db d).level)) = false) :
    s.login con tag pkt random = s.refuse con msgServerError clonesText := by
  unfold RefusedForClones at h
  simp [Server.login, hUnknown, hRead, loginRequest, checkNick, hNick, hLevel, h]

theorem clip_ne {text other : Str} {c d : Char} (hText : text.head? = some c)
    (hOther : other.head? = some d) (h : c ≠ d) : clip text ≠ clip other := by
  cases text <;> cases other <;> simp_all [clip]

theorem refuse_ne {s : Server} {con : ConId} {tag : Nat} {text other : Str} {c d : Char}
    (hText : text.head? = some c) (hOther : other.head? = some d) (h : c ≠ d) :
    s.refuse con tag text ≠ s.refuse con tag other := by
  intro hEq
  have hSent := congrArg Server.sent hEq
  simp [refuse, markDestroy, sendCmd, queueData, onCore, clip_ne hText hOther h] at hSent

/-- The check refuses for clones when all of them, the new one too, reach the limit. -/
theorem refusedForClones_iff {s : Server} {con : ConId} {r : LoginRequest}
    (hUnknown : s.isUnknown con = true) (hBan : s.banFor r.nick r.host = none)
    (hLimit : 0 < s.cfg.maxClones) :
    s.RefusedForClones con r ↔ s.cfg.maxClones ≤ s.countClones (s.con con).ip := by
  simp only [RefusedForClones, checkRestrictions, hBan, hUnknown, if_true, hLimit, true_and]
  constructor
  · intro h
    by_contra hFew
    rw [if_neg hFew] at h
    split at h
    · split at h
      · cases h
      · exact refuse_ne rfl rfl (by decide) (Except.error.inj h)
    · cases h
  · intro h
    rw [if_pos h]
    rfl

/-- A client that is not banned is refused for clones exactly when the limit's number of other
connections come from its address, but when just one less do. -/
theorem clone_limit_iff {s : Server} {con : ConId} {r : LoginRequest}
    (hSlot : s.clients.count (some con) = 1) (hUnknown : s.isUnknown con = true)
    (hBan : s.banFor r.nick r.host = none) (hLimit : 0 < s.cfg.maxClones) :
    (s.RefusedForClones con r ↔ s.cfg.maxClones ≤ s.otherClones con) ↔
      (s.otherClones con : Int) ≠ s.cfg.maxClones - 1 := by
  rw [refusedForClones_iff hUnknown hBan hLimit, Core.countClones_self hSlot hUnknown]
  push_cast
  constructor
  · intro hIff hOne
    have := hIff.1 (by omega)
    omega
  · intro hOne
    omega

/-- A server that lets so many connections in from one address. -/
def cloned (maxClones : Int) : Startup :=
  { hub with cfg := { hub.cfg with maxClones := maxClones } }

/-- A first login. -/
def firstLogin : LoginRequest where
  nick := str "joe"
  pass := str "pw"
  port := str "6699"
  client := str "c"
  speed := str "3"
  ip := 2
  host := str "pc"
  connected := 0
  server := str "hub"
  conport := 6699

theorem clone_limit_iff_two :
    let s := reach (cloned 2) [.accept 2 (str "pc") 6699 8888]
    s.RefusedForClones 0 firstLogin ↔ s.cfg.maxClones ≤ s.otherClones 0 := by
  have hSlot : (reach (cloned 2) [.accept 2 (str "pc") 6699 8888]).clients.count (some 0) = 1 := by
    decide +kernel
  have hUnknown : (reach (cloned 2) [.accept 2 (str "pc") 6699 8888]).isUnknown 0 = true := by
    decide +kernel
  have hBan : (reach (cloned 2) [.accept 2 (str "pc") 6699 8888]).banFor firstLogin.nick
      firstLogin.host = none := by decide +kernel
  have hLimit : 0 < (reach (cloned 2) [.accept 2 (str "pc") 6699 8888]).cfg.maxClones := by
    decide +kernel
  exact (clone_limit_iff hSlot hUnknown hBan hLimit).2 (by decide +kernel)

/-- With a limit of one nobody is let in. -/
theorem only_clone_refused :
    let s := reach (cloned 1) [.accept 2 (str "pc") 6699 8888]
    s.RefusedForClones 0 firstLogin ∧ s.otherClones 0 = 0 ∧ s.cfg.maxClones = 1 ∧
      ¬ (s.RefusedForClones 0 firstLogin ↔ s.cfg.maxClones ≤ s.otherClones 0) := by
  have hUnknown : (reach (cloned 1) [.accept 2 (str "pc") 6699 8888]).isUnknown 0 = true := by
    decide +kernel
  have hBan : (reach (cloned 1) [.accept 2 (str "pc") 6699 8888]).banFor firstLogin.nick
      firstLogin.host = none := by decide +kernel
  have hOne : (reach (cloned 1) [.accept 2 (str "pc") 6699 8888]).cfg.maxClones = 1 := by
    decide +kernel
  have hNone : (reach (cloned 1) [.accept 2 (str "pc") 6699 8888]).otherClones 0 = 0 := by
    decide +kernel
  have hRefused : (reach (cloned 1) [.accept 2 (str "pc") 6699 8888]).RefusedForClones 0
      firstLogin := by
    refine (refusedForClones_iff hUnknown hBan (by rw [hOne]; decide)).2 ?_
    decide +kernel
  refine ⟨hRefused, hNone, hOne, fun hIff => ?_⟩
  have hMany := hIff.1 hRefused
  rw [hOne, hNone] at hMany
  exact absurd hMany (by decide)

end Server

/-! ### Ejection -/

namespace Core

/-- What `eject_client` looks at in a slot: a local user other than the one on `con`. -/
def rival (s : Core) (con : ConId) (slot : Option ConId) : Option (ConId × UserId) :=
  slot.bind fun other =>
    (s.con other).user.bind fun user =>
      if s.isUser other && other != con then some (other, user) else none

/-- The other local users, with their connections. -/
def rivals (s : Core) (con : ConId) : List (ConId × UserId) := s.clients.filterMap (s.rival con)

/-- When the user of a connection logged in. -/
def loginTime (s : Core) (r : ConId × UserId) : Int := (s.user r.2).connected

/-- Whether the flag of the user says that nothing is shared. -/
def flaggedIdle (s : Core) (r : ConId × UserId) : Bool := !(s.user r.2).sharing

/-- Whether the table of files of the connection is empty. -/
def idle (s : Core) (r : ConId × UserId) : Bool := (s.files r.1).all (·.values.isEmpty)

/-- `eject_client` is a search for the first login among those flagged idle. -/
theorem ejectLoser_eq (s : Core) (con : ConId) : s.ejectLoser con =
    ((s.rivals con).foldl (Least.choose s.flaggedIdle s.loginTime) (none, s.now)).1.map
      Prod.fst := by
  simp only [ejectLoser, rivals, List.foldl_filterMap]
  -- the two loops go through the slots in step
  refine congrArg Prod.fst (@List.foldl_hom _ _ _
    (fun best : Option (ConId × UserId) × Int => (best.1.map Prod.fst, best.2)) _ _ s.clients
    (none, s.now) fun best slot => ?_)
  cases slot with
  | none => rfl
  | some other =>
    cases hUser : (s.con other).user with
    | none => simp [rival, hUser]
    | some user =>
      by_cases hOther : (s.isUser other && other != con) = true
      · by_cases hBest : s.flaggedIdle (other, user) = true ∧ s.loginTime (other, user) < best.2
        · have hTake : (!(s.user user).sharing && decide ((s.user user).connected < best.2)) =
              true := by
            simpa [flaggedIdle, loginTime] using hBest
          simp only [rival, Option.bind_some, hUser, hOther, if_true, Bool.true_and, hTake,
            Least.choose_take hBest.1 hBest.2, Option.map_some]
          rfl
        · have hKeep : (!(s.user user).sharing && decide ((s.user user).connected < best.2)) =
              false := by
            simpa [flaggedIdle, loginTime] using hBest
          simp only [rival, Option.bind_some, hUser, hOther, if_true, Bool.true_and, hKeep,
            Least.choose_keep hBest, Bool.false_eq_true, if_false]
      · simp only [rival, Option.bind_some, hUser, Bool.eq_false_iff.2 hOther, Bool.false_and,
          Bool.false_eq_true, if_false]

/-- A connection has one user. -/
theorem rivals_inj {s : Core} {con : ConId} {q r : ConId × UserId} (hq : q ∈ s.rivals con)
    (hr : r ∈ s.rivals con) (h : q.1 = r.1) : q = r := by
  have hUser {r : ConId × UserId} (hr : r ∈ s.rivals con) : (s.con r.1).user = some r.2 := by
    obtain ⟨slot, -, hRival⟩ := List.mem_filterMap.1 hr
    simp only [rival, Option.bind_eq_some_iff, Option.ite_none_right_eq_some,
      Option.some.injEq] at hRival
    obtain ⟨other, rfl, user, hUser, -, rfl⟩ := hRival
    exact hUser
  have hEq := hUser hq
  rw [h, hUser hr] at hEq
  exact Prod.ext h (Option.some.inj hEq).symm

end Core

namespace Server

/-- The ejection that makes room for the login on `con` is right: it marks the connection of a user
who shares nothing and of these logged in first, before now, and there is one if there is such a
user. -/
structure EjectsLeech (s : Server) (con : ConId) : Prop where
  leech : ∀ t, s.ejectClient con = some t → ∃ r ∈ s.rivals con,
    s.ejectLoser con = some r.1 ∧
    t.toCore = s.toCore.modCon r.1 (fun c => { c with destroy := true, killed := true }) ∧
    s.idle r = true ∧ s.loginTime r < s.now ∧
    ∀ q ∈ s.rivals con, s.idle q = true → s.loginTime r ≤ s.loginTime q
  ejects : (∃ r ∈ s.rivals con, s.idle r = true ∧ s.loginTime r < s.now) →
    (s.ejectClient con).isSome = true

/-- The ejection is right exactly when the flags settle who shares nothing: a user flagged idle who
shares files gives way to one flagged idle who shares none, and a user without files who is not
flagged has one flagged idle without files who logged in no later. -/
theorem ejects_leech_iff (s : Server) (con : ConId) : s.EjectsLeech con ↔
    Least.MarkSettles s.flaggedIdle s.idle s.loginTime (s.rivals con) s.now := by
  rw [← Least.finds_wanted_iff]
  have hLoser := s.toCore.ejectLoser_eq con
  have hSome : (s.ejectClient con).isSome = true ↔ ((s.rivals con).foldl
      (Least.choose s.flaggedIdle s.loginTime) (none, s.now)).1.isSome = true := by
    simp only [ejectClient, Option.isSome_map, hLoser]
  constructor
  · rintro ⟨hLeech, hEjects⟩
    refine ⟨fun a ha => ?_, fun h => hSome.1 (hEjects h)⟩
    obtain ⟨hFirst, -⟩ := Least.foldl_choose_some ha
    obtain ⟨t, ht⟩ := Option.isSome_iff_exists.1 (hSome.2 (by rw [ha]; rfl))
    obtain ⟨r, hr, hPick, -, hIdle, -, hLe⟩ := hLeech t ht
    rw [hLoser, ha] at hPick
    obtain rfl := Core.rivals_inj hFirst.mem hr (Option.some.inj hPick)
    exact ⟨hIdle, hLe⟩
  · rintro ⟨hRight, hFinds⟩
    refine ⟨fun t ht => ?_, fun h => hSome.2 (hFinds h)⟩
    obtain ⟨a, ha⟩ := Option.isSome_iff_exists.1 (hSome.1 (by rw [ht]; rfl))
    obtain ⟨hFirst, hBound⟩ := Least.foldl_choose_some ha
    have hPick : s.ejectLoser con = some a.1 := by rw [hLoser, ha]; rfl
    refine ⟨a, hFirst.mem, hPick, ?_, (hRight a ha).1, hBound, (hRight a ha).2⟩
    simp only [ejectClient, hPick, Option.map_some, Option.some.injEq] at ht
    rw [← ht]
    simp only [toCore_markKilled, toCore_sendCmd, toCore_killClient]

/-- A full server that ejects. -/
def fullHouse : Startup :=
  { hub with cfg := { hub.cfg with maxConnections := 3, ejectWhenFull := true } }

/-- Joe shares a song and then sends another command.  Another client asks to be let in later. -/
def sharedOnce : List Event :=
  [.accept 1 (str "peer") 0 0, .link 0, .accept 2 (str "client") 6699 8888,
    .packet 1 .login (str "joe pw 6699 \"client\" 3") {},
    .packet 1 .addFile (str "\"song one.mp3\" 0 1000 128 44100 60") {},
    .packet 1 .join (str "#lobby") {}, .tick 9, .accept 3 (str "other") 6700 8889]

/-- Joe is ejected with his song. -/
theorem sharer_ejected :
    let s := reach fullHouse sharedOnce
    (s.checkRestrictions 8 { firstLogin with nick := str "ann" }).toOption.isSome = true ∧
      s.ejectLoser 8 = some 1 ∧ (s.files 1).any (·.values.length == 1) = true ∧
      ¬ s.EjectsLeech 8 := by
  have hEjects : ((reach fullHouse sharedOnce).ejectClient 8).isSome = true := by decide +kernel
  have hRivals : (reach fullHouse sharedOnce).rivals 8 = [(1, 2)] := by decide +kernel
  have hShares : (reach fullHouse sharedOnce).idle (1, 2) = false := by decide +kernel
  refine ⟨by decide +kernel, by decide +kernel, by decide +kernel, fun h => ?_⟩
  obtain ⟨t, ht⟩ := Option.isSome_iff_exists.1 hEjects
  obtain ⟨r, hr, -, -, hIdle, -⟩ := h.leech t ht
  rw [hRivals] at hr
  obtain rfl := List.mem_singleton.1 hr
  rw [hShares] at hIdle
  cases hIdle

end Server

end OpenNap
