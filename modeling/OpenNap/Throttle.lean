import OpenNap.Lib.Leaky
import OpenNap.Lib.Run
import OpenNap.Receive

/-! Flood protection: a client's socket is only watched while its flood counter is not too far ahead
of the time, and `handle_connection` raises the counter with each command. -/

namespace OpenNap

/-! ### One command at a time -/

/-- The length that the header of a packet announces. -/
def announced (l : List UInt8) : Nat := (word (l.getD 0 0) (l.getD 1 0)).toNat

/-- Where no more than one packet fits there is no more than one. -/
theorem items_le_one {l : List UInt8} (h : l.length ≤ 4 + announced l) :
    (Packet.splitter.items l).1.length ≤ 1 := by
  cases hNext : Packet.next l with
  | none =>
    rw [Packet.splitter.items_of_none hNext]
    exact Nat.zero_le _
  | some found =>
    obtain ⟨p, rest⟩ := found
    have hLong : 4 ≤ l.length := by
      by_contra hShort
      rw [Packet.next_short (by omega)] at hNext
      cases hNext
    have hRest : rest = [] := by
      rw [Packet.next_eq hLong] at hNext
      split at hNext
      · cases hNext
        exact List.drop_eq_nil_of_le h
      · cases hNext
    rw [Packet.splitter.items_of_some hNext, hRest, Packet.splitter.items_of_none rfl]
    exact le_refl _

theorem announced_append {l more : List UInt8} (h : 4 ≤ l.length) :
    announced (l ++ more) = announced l := by
  simp only [announced, List.getD_eq_getElem?_getD]
  rw [List.getElem?_append_left (by omega), List.getElem?_append_left (by omega)]

theorem RecvBuf.announced_live (b : RecvBuf) (h : 4 ≤ b.datasize - b.consumed) :
    announced b.live = b.len.toNat := by
  rw [announced, b.getD_live (by omega), b.getD_live (by omega)]
  rfl

theorem read_some {want : Nat} (hWant : 0 < want) {fd rest : List Arrival} {got : List UInt8}
    {h : got.length ≤ want} (hRead : read want fd = (.bytes got h, rest)) : got ≠ [] := by
  match fd, hRead with
  | [], hRead => cases hRead
  | .nothing :: fd, hRead => cases hRead
  | .failure :: fd, hRead => cases hRead
  | .bytes [] :: fd, hRead => cases hRead
  | .bytes (b :: bs) :: fd, hRead =>
    cases hRead
    simp only [ne_eq, List.take_eq_nil_iff, reduceCtorEq, or_false]
    omega

namespace Input

variable {σ ζ : Type} {env : Reader σ ζ}

/-- Nothing was dispatched, and what was dispatched before is still in its place. -/
structure Untouched (c t : Input σ ζ) : Prop where
  isServer : t.isServer = c.isServer
  dispatched : t.dispatched = c.dispatched
  consumed : t.recvbuf.consumed = c.recvbuf.consumed

theorem Untouched.trans {c t u : Input σ ζ} (h : Untouched c t) (h' : Untouched t u) :
    Untouched c u :=
  ⟨h'.isServer.trans h.isServer, h'.dispatched.trans h.dispatched, h'.consumed.trans h.consumed⟩

/-- The header of a packet is read whatever comes over the socket. -/
theorem readHeader_any (passes : Nat) (c : Input σ ζ) (hPasses : 4 - c.recvbuf.datasize ≤ passes) :
    Untouched c (readHeader passes c).1 ∧
      ((readHeader passes c).2 = true ∧
          ((readHeader passes c).1.recvbuf.datasize = 4 ∨
            (readHeader passes c).1 = c ∧ 4 ≤ c.recvbuf.datasize) ∨
        (readHeader passes c).2 = false ∧ (readHeader passes c).1.recvbuf.datasize < 4) := by
  induction passes generalizing c with
  | zero => exact ⟨⟨rfl, rfl, rfl⟩, .inl ⟨rfl, .inr ⟨rfl, by omega⟩⟩⟩
  | succ passes ih =>
    by_cases hShort : c.recvbuf.datasize < 4
    · simp only [readHeader, hShort, dite_true]
      cases hRead : read (4 - c.recvbuf.datasize) c.fd with
      | mk got fd =>
        cases got with
        | bytes bs hGot =>
          have hSome := List.length_pos_iff.2 (read_some (by omega) hRead)
          have hRoom : c.recvbuf.datasize + bs.length ≤ c.recvbuf.datamax := by
            have hHeader := c.recvbuf.header
            omega
          have hSize : (c.recvbuf.put bs hRoom).datasize = c.recvbuf.datasize + bs.length := rfl
          obtain ⟨hSame, hEnds⟩ := ih { c with fd := fd, recvbuf := c.recvbuf.put bs hRoom }
            (by show 4 - (c.recvbuf.put bs hRoom).datasize ≤ passes; omega)
          refine ⟨⟨hSame.isServer, hSame.dispatched, hSame.consumed⟩,
            hEnds.imp_left fun hOk => ⟨hOk.1, .inl ?_⟩⟩
          rcases hOk.2 with hFour | ⟨hSame, hLong⟩
          · exact hFour
          · rw [hSame]
            have hLong' : 4 ≤ (c.recvbuf.put bs hRoom).datasize := hLong
            show (c.recvbuf.put bs hRoom).datasize = 4
            omega
        | wouldBlock => exact ⟨⟨rfl, rfl, rfl⟩, .inr ⟨rfl, hShort⟩⟩
        | failed => exact ⟨⟨rfl, rfl, rfl⟩, .inr ⟨rfl, hShort⟩⟩
    · have hStep : readHeader (passes + 1) c = (c, true) := by
        simp only [readHeader, hShort, dite_false]
      rw [hStep]
      exact ⟨⟨rfl, rfl, rfl⟩, .inl ⟨rfl, .inr ⟨rfl, by omega⟩⟩⟩

/-- The body of a packet is read, and no more. -/
theorem readBody_any (c : Input σ ζ) (hConsumed : c.recvbuf.consumed = 0)
    (hLong : 4 ≤ c.recvbuf.datasize)
    (hPart : c.recvbuf.datasize = 4 ∨ c.recvbuf.datasize < 4 + c.recvbuf.len.toNat) :
    Untouched c (readBody env c).1 ∧
      ((readBody env c).2 = false → Packet.next (readBody env c).1.recvbuf.live = none) ∧
      ((readBody env c).2 = true → (readBody env c).1.recvbuf.live.length ≤
        4 + announced (readBody env c).1.recvbuf.live) := by
  have hLen : readBody env c = readLength env c c.recvbuf.len.toNat := by
    simp only [readBody, RecvBuf.len, RecvBuf.byteAt, hConsumed, Nat.zero_add]
  have hAnnounced := c.recvbuf.announced_live (by omega)
  have hLive := c.recvbuf.length_live
  rw [hLen]
  unfold readLength
  split
  · rename_i hPos
    have hNone : Packet.next c.recvbuf.live = none := by
      apply c.recvbuf.next_live_none
      have hEnd : c.recvbuf.packetEnd = c.recvbuf.consumed + 4 + c.recvbuf.len.toNat := rfl
      omega
    have hMade := live_makeRoom c.recvbuf (4 + c.recvbuf.len.toNat)
    have hSize := datasize_makeRoom c.recvbuf (4 + c.recvbuf.len.toNat)
    split
    · exact ⟨⟨rfl, rfl, rfl⟩, fun _ => hNone, fun h => by cases h⟩
    · simp only
      split
      · rename_i bs hGot fd hRead
        refine ⟨⟨rfl, rfl, consumed_makeRoom _ _⟩, fun h => (by cases h), fun _ => ?_⟩
        rw [RecvBuf.live_put, hMade, announced_append (by omega), hAnnounced, List.length_append, hLive]
        rw [hSize] at hGot
        omega
      · exact ⟨⟨rfl, rfl, consumed_makeRoom _ _⟩, fun _ => by rw [hMade]; exact hNone,
          fun h => (by cases h)⟩
      · exact ⟨⟨rfl, rfl, consumed_makeRoom _ _⟩, fun _ => by rw [hMade]; exact hNone,
          fun h => (by cases h)⟩
  · refine ⟨⟨rfl, rfl, rfl⟩, fun h => (by cases h), fun _ => ?_⟩
    rw [hAnnounced, hLive]
    omega

/-- What a client sends is dispatched one command at a time. -/
theorem handleConnection_one {c : Input σ ζ} (hClient : c.isServer = false) (h : Waits c) :
    (handleConnection env c).isServer = false ∧ Waits (handleConnection env c) ∧
      ∃ calls, (handleConnection env c).dispatched = c.dispatched ++ calls ∧ calls.length ≤ 1 := by
  obtain ⟨hHeader, hEnds⟩ := readHeader_any 4 c (by omega)
  have hCompacted := hHeader.consumed.trans h.compacted
  rcases hEnds with ⟨hGoes, hFour⟩ | ⟨hStops, hShort⟩
  · have hPart : 4 ≤ (readHeader 4 c).1.recvbuf.datasize ∧
        ((readHeader 4 c).1.recvbuf.datasize = 4 ∨ (readHeader 4 c).1.recvbuf.datasize <
          4 + (readHeader 4 c).1.recvbuf.len.toNat) := by
      rcases hFour with hFour | ⟨hSame, hFour⟩
      · exact ⟨by omega, .inl hFour⟩
      · rw [hSame]
        exact ⟨hFour, .inr (h.part hFour).2⟩
    obtain ⟨hBody, hNone, hOne⟩ :=
      @readBody_any _ _ env (readHeader 4 c).1 hCompacted hPart.1 hPart.2
    have hRead : readClient env c = readBody env (readHeader 4 c).1 := by
      simp only [readClient, hGoes, if_true]
    have hAll := hHeader.trans hBody
    cases hDone : (readBody env (readHeader 4 c).1).2 with
    | true =>
      obtain ⟨hLive, hHands⟩ := @process_spec _ _ env
        (readBody env (readHeader 4 c).1).1.recvbuf.datasize (readBody env (readHeader 4 c).1).1
        (Nat.sub_le _ _)
      simp only [handleConnection, hClient, Bool.false_eq_true, if_false, hRead, hDone, if_true]
      refine ⟨(hHands.isServer.trans hAll.isServer).trans hClient, ⟨?_, rfl⟩, _,
        hHands.dispatched.trans (by rw [hAll.dispatched]), ?_⟩
      · rw [RecvBuf.live_compact, hLive]
        exact Packet.splitter.next_rest _
      · rw [List.length_map]
        exact items_le_one (hOne hDone)
    | false =>
      simp only [handleConnection, hClient, Bool.false_eq_true, if_false, hRead, hDone]
      exact ⟨hAll.isServer.trans hClient, ⟨hNone hDone, hAll.consumed.trans h.compacted⟩, [],
        by rw [hAll.dispatched, List.append_nil], Nat.zero_le _⟩
  · simp only [handleConnection, hClient, Bool.false_eq_true, if_false, readClient, hStops]
    exact ⟨hHeader.isServer.trans hClient,
      ⟨(readHeader 4 c).1.recvbuf.next_live_none (.inl (by omega)), hCompacted⟩, [],
      by rw [hHeader.dispatched, List.append_nil], Nat.zero_le _⟩

/-- A turn of the main loop dispatches one command of a client at most. -/
theorem turn_one {c : Input σ ζ} (hClient : c.isServer = false) (h : Waits c) :
    (turn env c).isServer = false ∧ Waits (turn env c) ∧
      ∃ calls, (turn env c).dispatched = c.dispatched ++ calls ∧ calls.length ≤ 1 := by
  have hSame : c.dispatched = c.dispatched ++ [] := (List.append_nil _).symm
  unfold turn
  split
  · exact ⟨hClient, h, [], hSame, Nat.zero_le _⟩
  · split
    · exact ⟨hClient, h, [], hSame, Nat.zero_le _⟩
    · exact ⟨hClient, ⟨h.partly, h.compacted⟩, [], hSame, Nat.zero_le _⟩
    · exact handleConnection_one hClient h

end Input

/-! ### The flood counter -/

/-- `Flood_Commands` and `Flood_Time`. -/
structure FloodControl where
  commands : Int
  time : Int

/-- The commands that do not count: `MSG_CLIENT_ADD_FILE`, `MSG_CLIENT_SHARE_FILE` and
`MSG_CLIENT_REMOVE_FILE`. -/
def exempt (tag : UInt16) : Bool := tag == 100 || tag == 10300 || tag == 102

/-- The connection of a user who is logged in. -/
structure Client (σ ζ : Type) where
  input : Input σ ζ
  /-- `con->flood` -/
  flood : Int := 0
  /-- the commands that were dispatched, each with `Current_Time` -/
  log : List (Int × Call) := []

/-- A turn of the main loop: `Current_Time`, what has arrived over the socket since the last one, and
what the other connections have done meanwhile. -/
structure Tick (σ : Type) where
  now : Int
  arrived : List Arrival
  others : σ → σ

namespace Client

variable {σ ζ : Type} (env : Reader σ ζ) (cfg : FloodControl)

/-- What `handle_connection` does about floods before it dispatches a command. -/
def charge (now flood : Int) (call : Call) : Int :=
  if 0 < cfg.commands ∧ exempt call.tag = false then
    (if flood < now then now else flood) + cfg.time.tdiv cfg.commands
  else flood

/-- The socket is only watched, and handled, when the client is not flooding. -/
def turn (c : Client σ ζ) (t : Tick σ) : Client σ ζ :=
  let input := { c.input with fd := c.input.fd ++ t.arrived, state := t.others c.input.state }
  if cfg.commands = 0 ∨ c.flood < t.now + cfg.time then
    let next := Input.turn env input
    let calls := next.dispatched.drop input.dispatched.length
    { input := next
      flood := calls.foldl (charge cfg t.now) c.flood
      log := c.log ++ calls.map (t.now, ·) }
  else { c with input := input }

/-- The times at which commands that count were dispatched. -/
def counted (log : List (Int × Call)) : List Int :=
  (log.filter fun e => !exempt e.2.tag).map Prod.fst

variable {env cfg}

/-- One turn serves one request of a leaky bucket at most. -/
theorem turn_serves (hCommands : 0 < cfg.commands) {c : Client σ ζ}
    (hClient : c.input.isServer = false) (h : Input.Waits c.input) (t : Tick σ) :
    (turn env cfg c t).input.isServer = false ∧ Input.Waits (turn env cfg c t).input ∧
      ∃ more, (turn env cfg c t).log = c.log ++ more ∧
        LeakyBucket.Serves cfg.time (cfg.time.tdiv cfg.commands) c.flood (counted more)
          (turn env cfg c t).flood := by
  have hWaits : Input.Waits
      { c.input with fd := c.input.fd ++ t.arrived, state := t.others c.input.state } :=
    ⟨h.partly, h.compacted⟩
  simp only [turn]
  split
  · rename_i hGate
    have hAdmitted : c.flood < t.now + cfg.time := by
      rcases hGate with hOff | hOn
      · omega
      · exact hOn
    obtain ⟨hClient', hWaits', calls, hCalls, hOne⟩ := @Input.turn_one _ _ env
      { c.input with fd := c.input.fd ++ t.arrived, state := t.others c.input.state } hClient hWaits
    refine ⟨hClient', hWaits', _, rfl, ?_⟩
    rw [hCalls, List.drop_left]
    match calls, hOne with
    | [], _ => exact .done _
    | [call], _ =>
      simp only [List.map_cons, List.map_nil, List.foldl_cons, List.foldl_nil, charge, hCommands,
        true_and]
      cases hExempt : exempt call.tag with
      | true =>
        simp only [counted, List.filter_cons, hExempt]
        exact .done _
      | false =>
        have hRaised : (if c.flood < t.now then t.now else c.flood) = max c.flood t.now := by
          split <;> omega
        simp only [counted, List.filter_cons, hExempt, hRaised]
        exact .single hAdmitted
  · exact ⟨hClient, hWaits, [], (List.append_nil _).symm, .done _⟩

theorem run_serves (hCommands : 0 < cfg.commands) (ticks : List (Tick σ)) {c : Client σ ζ}
    (hClient : c.input.isServer = false) (h : Input.Waits c.input) :
    ∃ more, (Runs.run (turn env cfg) c ticks).log = c.log ++ more ∧
      LeakyBucket.Serves cfg.time (cfg.time.tdiv cfg.commands) c.flood (counted more)
        (Runs.run (turn env cfg) c ticks).flood := by
  induction ticks generalizing c with
  | nil => exact ⟨[], (List.append_nil _).symm, .done _⟩
  | cons t ticks ih =>
    obtain ⟨hClient', hWaits, first, hFirst, hServes⟩ :=
      @turn_serves _ _ env cfg hCommands c hClient h t
    obtain ⟨rest, hRest, hMore⟩ := ih hClient' hWaits
    refine ⟨first ++ rest, ?_, ?_⟩
    · rw [Runs.run_cons, hRest, hFirst, List.append_assoc]
    · rw [counted, List.filter_append, List.map_append]
      exact hServes.append hMore

/-- The number of commands that count among those dispatched in so many seconds from the first on. -/
def dispatchedIn (first length : Int) (log : List (Int × Call)) : Nat :=
  log.countP fun e => !exempt e.2.tag && LeakyBucket.inWindow first length e.1

theorem countP_counted (first length : Int) (log : List (Int × Call)) :
    (counted log).countP (LeakyBucket.inWindow first length) = dispatchedIn first length log := by
  rw [counted, List.countP_map, List.countP_filter, dispatchedIn]
  congr 1
  funext e
  exact Bool.and_comm _ _

/-- However the commands of a client arrive and the times of the main loop go, no more than so many
that count are dispatched in any window. -/
theorem flood_bound (hCommands : 0 < cfg.commands) (hTime : 0 < cfg.time)
    (hDvd : cfg.commands ∣ cfg.time) {c : Client σ ζ} (hClient : c.input.isServer = false)
    (hWaits : Input.Waits c.input) (hLog : c.log = []) (ticks : List (Tick σ)) {first length : Int}
    (hLength : 1 ≤ length) :
    (dispatchedIn first length (Runs.run (turn env cfg) c ticks).log : Int) ≤
        ⌈(((length - 1 + cfg.time) * cfg.commands : Int) : ℚ) / cfg.time⌉ ∧
      (length = 1 →
        (dispatchedIn first length (Runs.run (turn env cfg) c ticks).log : Int) ≤ cfg.commands) := by
  obtain ⟨more, hMore, hServes⟩ := @run_serves _ _ env cfg hCommands ticks c hClient hWaits
  obtain ⟨cost, hCost⟩ := hDvd
  have hDiv : cfg.time.tdiv cfg.commands = cost := by
    rw [hCost, Int.mul_tdiv_cancel_left _ (by omega)]
  have hPos : 0 < cost := by
    rw [hCost] at hTime
    exact (mul_pos_iff_of_pos_left hCommands).1 hTime
  rw [hDiv] at hServes
  have hBound := @LeakyBucket.Serves.countP_le _ _ _ _ _ hServes hTime hPos first length hLength
  rw [hLog, List.nil_append] at hMore
  rw [countP_counted, ← hMore] at hBound
  have hCommands' : (cfg.commands : ℚ) ≠ 0 := by exact_mod_cast ne_of_gt hCommands
  have hCost' : (cost : ℚ) ≠ 0 := by exact_mod_cast ne_of_gt hPos
  have hRatio : (((length - 1 + cfg.time) * cfg.commands : Int) : ℚ) / cfg.time =
      ((length - 1 + cfg.time : Int) : ℚ) / cost := by
    have hTime' : (cfg.time : ℚ) = cfg.commands * cost := by exact_mod_cast hCost
    rw [Int.cast_mul, hTime']
    field_simp
  rw [hRatio]
  refine ⟨hBound, fun hOne => ?_⟩
  subst hOne
  rw [← hRatio, sub_self, zero_add, Int.cast_mul] at hBound
  have hTime' : (cfg.time : ℚ) ≠ 0 := by exact_mod_cast ne_of_gt hTime
  rw [mul_div_cancel_left₀ _ hTime', Int.ceil_intCast] at hBound
  exact hBound

/-- A client that sends three commands at once, where two are allowed in four seconds. -/
def hasty : Client Unit Zlib.Stored where
  input :=
    { isServer := false
      zin := .method
      fd := [.bytes ((List.replicate 3 [0, 0, 200, 0]).flatten)]
      state := () }

theorem flood_bound_hasty :
    (dispatchedIn 10 1 (Runs.run (turn Input.storedReader ⟨2, 4⟩) hasty
      (List.replicate 3 ⟨10, [], id⟩)).log : Int) ≤ 2 := by
  have hWaits : Input.Waits hasty.input := ⟨rfl, rfl⟩
  have hBound := @flood_bound _ _ Input.storedReader ⟨2, 4⟩ (by decide) (by decide) (by decide) hasty
    rfl hWaits rfl (List.replicate 3 ⟨10, [], id⟩) 10 1 (le_refl 1)
  exact hBound.2 rfl

end Client

end OpenNap
