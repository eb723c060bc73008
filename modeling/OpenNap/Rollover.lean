import OpenNap.Invitations
import Mathlib.Tactic.MkIffOfInductiveProp

/-! The channels that `join` rolls over to when a registered channel is full: which name is tried
next, and when the loop over the names comes to an end. -/

namespace OpenNap

open CText

/-! ### The name that is tried next -/

/-- What `join` keeps of a name: the part before the bytes at the end that it takes for digits. -/
def nameBase (name : Str) : Str := (name.reverse.dropWhile joinDigit).reverse

/-- The number that `join` reads at the end of a name. -/
def nameNumber (name : Str) : Int := atoi (name.drop (nameBase name).length)

/-- The room for the number in the next name; a text of more than 256 bytes in `Buf` leaves more
than any number needs. -/
def room (bufLen : Nat) : Nat := if bufLen ≤ 256 then 255 - bufLen else 11

theorem joinDigit_of_isDigit {c : Char} (h : c.isDigit = true) : joinDigit c = true := by
  simp only [Char.isDigit, Bool.and_eq_true, decide_eq_true_eq] at h
  have hHigh : c.toNat ≤ 57 := h.2
  simpa [joinDigit] using hHigh

theorem joinDigit_of_mem_showInt {i : Int} {c : Char} (h : c ∈ showInt i) : joinDigit c = true := by
  cases i with
  | ofNat n => exact joinDigit_of_isDigit (isDigit_of_mem_showNat h)
  | negSucc n =>
    rcases List.mem_cons.1 h with rfl | h
    · decide
    · exact joinDigit_of_isDigit (isDigit_of_mem_showNat h)

theorem showInt32_length_le {i : Int} (hLow : -(2 ^ 31) ≤ i) (hHigh : i < 2 ^ 31) :
    (showInt i).length ≤ 11 := by
  refine showInt_length_le (by decide) ?_ ?_ <;> omega

theorem showInt_ten_pow (n : Nat) : showInt (10 ^ n) = showNat (10 ^ n) := by
  have hNat : (10 : Int) ^ n = ((10 ^ n : Nat) : Int) := by push_cast; rfl
  rw [hNat]
  rfl

theorem showInt_length_pos (i : Int) : 0 < (showInt i).length := by
  cases i with
  | ofNat n => exact List.length_pos_iff.2 (showNat_ne_nil n)
  | negSucc n => exact Nat.succ_pos _

/-- The value of digits that are cut is no greater than theirs. -/
theorem digitsValue_take_lt {s : Str} (h : ∀ c ∈ s, c.isDigit = true) (m : Nat) :
    digitsValue (s.take m) < 10 ^ m := by
  refine Nat.lt_of_lt_of_le (digitsValue_lt fun c hc => h c (List.mem_of_mem_take hc)) ?_
  exact Nat.pow_le_pow_right (by decide) (List.length_take_le ..)

/-- A number cut to `m` characters is one whose text has at most that many. -/
theorem atoi_take_showInt {m : Nat} (hm : 0 < m) {i : Int} (hLow : -(2 ^ 31) ≤ i)
    (hHigh : i < 2 ^ 31) :
    -10 ^ (m - 1) < atoi ((showInt i).take m) ∧ atoi ((showInt i).take m) < 10 ^ m := by
  have hCut {n k : Nat} (hn : n ≤ 2 ^ 31) :
      digitsValue ((showNat n).take k) ≤ 2 ^ 31 ∧
        (n < 2 ^ 31 → digitsValue ((showNat n).take k) < 2 ^ 31) := by
    have hValue := digitsValue_take_lt (fun c hc => isDigit_of_mem_showNat (n := n) hc) k
    rcases Nat.lt_or_ge k 10 with hShort | hLong
    · have hSmall : 10 ^ k ≤ 10 ^ 9 := Nat.pow_le_pow_right (by decide) (by omega)
      omega
    · have hLength := showNat_length_le (n := n) (k := 10) (by omega) (by decide)
      rw [List.take_of_length_le (by omega), digitsValue_showNat]
      omega
  have hNonneg : (0 : Int) < 10 ^ (m - 1) := by
    exact_mod_cast Nat.pow_pos (n := m - 1) (show 0 < 10 by decide)
  cases i with
  | ofNat n =>
    have hn : (n : Int) < 2 ^ 31 := hHigh
    have hDigits : ∀ c ∈ (showNat n).take m, c.isDigit = true :=
      fun c hc => isDigit_of_mem_showNat (List.mem_of_mem_take hc)
    have hSome : (showNat n).take m ≠ [] := by
      simp [showNat_ne_nil]
      omega
    have hValue : (digitsValue ((showNat n).take m) : Int) < 10 ^ m := by
      exact_mod_cast digitsValue_take_lt (fun c hc => isDigit_of_mem_showNat (n := n) hc) m
    rw [showInt, atoi_digits hSome hDigits ((hCut (by omega)).2 (by omega))]
    exact ⟨by omega, hValue⟩
  | negSucc n =>
    obtain ⟨k, rfl⟩ : ∃ k, m = k + 1 := ⟨m - 1, by omega⟩
    have hPos : (0 : Int) < 10 ^ (k + 1) := by
      exact_mod_cast Nat.pow_pos (n := k + 1) (show 0 < 10 by decide)
    rw [showInt, List.take_succ_cons, Nat.add_sub_cancel] at *
    rcases Nat.eq_zero_or_pos k with rfl | hSome
    · have hZero : atoi ('-' :: (showNat (n + 1)).take 0) = 0 := rfl
      rw [hZero]
      exact ⟨by decide, by decide⟩
    · have hDigits : ∀ c ∈ (showNat (n + 1)).take k, c.isDigit = true :=
        fun c hc => isDigit_of_mem_showNat (List.mem_of_mem_take hc)
      have hText : (showNat (n + 1)).take k ≠ [] := by
        simp [showNat_ne_nil]
        omega
      have hValue : (digitsValue ((showNat (n + 1)).take k) : Int) < 10 ^ k := by
        exact_mod_cast digitsValue_take_lt (fun c hc => isDigit_of_mem_showNat (n := n + 1) hc) k
      rw [atoi_minus_digits hText hDigits (hCut (by omega)).1]
      exact ⟨by omega, by omega⟩

/-- The next name: what is kept of this one, and the next number as far as there is room. -/
theorem rollover_eq (bufLen : Nat) (name : Str) :
    rollover bufLen name = nameBase (name.take 255) ++
      (showInt (toInt32 (nameNumber (name.take 255) + 1))).take (room bufLen) := by
  have hBounds := toInt32_bounds (nameNumber (name.take 255) + 1)
  have hLength := showInt32_length_le hBounds.1 hBounds.2
  unfold rollover room
  by_cases hShort : bufLen ≤ 256
  · have hRoom : 256 - bufLen - 1 = 255 - bufLen := by omega
    simp only [if_pos hShort, hRoom]
    rfl
  · simp only [if_neg hShort]
    rw [List.take_of_length_le hLength]
    rfl

/-- A name splits in one way into a part that does not end in a byte up to `'9'` and such bytes. -/
theorem nameBase_append {base t : Str} (hBase : ∀ c ∈ base.getLast?, joinDigit c = false)
    (ht : ∀ c ∈ t, joinDigit c = true) : nameBase (base ++ t) = base := by
  have hRev : ∀ c ∈ t.reverse, joinDigit c = true := fun c hc => ht c (List.mem_reverse.1 hc)
  rw [nameBase, List.reverse_append, List.dropWhile_append_of_pos hRev]
  cases hShape : base.reverse with
  | nil => simpa using hShape
  | cons c cs =>
    have hLast : joinDigit c = false := hBase c (by simp [List.getLast?_eq_head?_reverse, hShape])
    rw [List.dropWhile_cons_of_neg (by simp [hLast]), ← hShape, List.reverse_reverse]

theorem nameNumber_append {base t : Str} (hBase : ∀ c ∈ base.getLast?, joinDigit c = false)
    (ht : ∀ c ∈ t, joinDigit c = true) : nameNumber (base ++ t) = atoi t := by
  rw [nameNumber, nameBase_append hBase ht, List.drop_left]

/-- Any name is such a part and such bytes. -/
theorem exists_name_split (name : Str) : ∃ t, name = nameBase name ++ t ∧
    (∀ c ∈ t, joinDigit c = true) ∧ ∀ c ∈ (nameBase name).getLast?, joinDigit c = false := by
  refine ⟨(name.reverse.takeWhile joinDigit).reverse, ?_, fun c hc => ?_, fun c hc => ?_⟩
  · rw [nameBase, ← List.reverse_append, List.takeWhile_append_dropWhile, List.reverse_reverse]
  · exact List.mem_takeWhile_imp (List.mem_reverse.1 hc)
  · rw [nameBase, List.getLast?_reverse] at hc
    have hHead := List.head?_dropWhile_not joinDigit name.reverse
    rw [Option.mem_def.1 hc] at hHead
    simpa using hHead

/-! ### The channels that are passed over -/

/-- A registered channel that is full, and that the user could join if it were not. -/
@[mk_iff] structure Core.FullFor (s : Core) (user : UserId) (chan : ChanId) : Prop where
  outside : chan ∉ (s.user user).channels
  entitled : ¬ (s.user user).level < (s.chan chan).level
  noOperator : (s.chan chan).ops.any (sameText (s.user user).nick) = false
  noModerator : (s.user user).level < .moderator
  unbanned : isBanned (s.chan chan).bans (s.user user).nick (myNtoa (s.user user).ip) = none
  invited : (s.chan chan).onInvite = true → chan ∈ (s.user user).invited
  limited : 0 < (s.chan chan).limit
  full : (s.chan chan).limit.toNat ≤ (s.chan chan).users.length
  registered : (s.chan chan).onUser = false

instance (s : Core) (user : UserId) (chan : ChanId) : Decidable (s.FullFor user chan) :=
  decidable_of_iff' _ (s.fullFor_iff user chan)

/-- The name is that of such a channel. -/
def Core.PassedOver (s : Core) (user : UserId) (name : Str) : Prop :=
  ∃ chan, s.channels.lookup name = some chan ∧ s.FullFor user chan

namespace Server

variable {s : Server} {con : ConId} {user : UserId} {bufLen : Nat} {name next : Str}

/-- The loop goes on exactly for these names. -/
theorem joinTry_again_iff :
    s.joinTry con user bufLen name = .again next ↔
      s.PassedOver user name ∧ next = rollover bufLen name := by
  constructor
  · intro h
    unfold joinTry at h
    simp only at h
    split at h
    · split at h
      · cases h
      · split at h <;> cases h
    · rename_i chan hFound
      split at h
      · cases h
      · rename_i hOutside
        split at h
        · cases h
        · rename_i hLevel
          split at h
          · rename_i hPlain
            split at h
            · cases h
            · rename_i hBan
              split at h
              · cases h
              · rename_i hInvite
                split at h
                · rename_i hFull
                  split at h
                  · cases h
                  · rename_i hUser
                    cases h
                    simp only [Bool.and_eq_true, Bool.not_eq_true', decide_eq_true_eq] at hPlain hFull
                    refine ⟨⟨chan, hFound, ?_, hLevel, hPlain.1, hPlain.2, hBan, ?_, hFull.1,
                      hFull.2, by simpa using hUser⟩, rfl⟩
                    · simpa using hOutside
                    · simpa using hInvite
                · cases h
          · cases h
  · rintro ⟨⟨chan, hFound, hFull⟩, rfl⟩
    unfold joinTry
    simp only [hFound]
    rw [if_neg (by simpa using hFull.outside), if_neg hFull.entitled,
      if_pos (by simp [hFull.noOperator, hFull.noModerator])]
    simp only [hFull.unbanned]
    rw [if_neg (by simpa using hFull.invited), if_pos (by simp [hFull.limited, hFull.full]),
      if_neg (by simp [hFull.registered])]

/-- The loop of `join` comes to an end.  The number in a name that is tried next is one that an
`int` holds, and the name is one that `chanbuf` holds: beyond that the behaviour of the code is
undefined. -/
inductive JoinEnds (s : Server) (con : ConId) (user : UserId) (bufLen : Nat) : Str → Prop
  | here {name : Str} :
      (∀ next, s.joinTry con user bufLen name ≠ .again next) → JoinEnds s con user bufLen name
  | next {name next : Str} :
      s.joinTry con user bufLen name = .again next →
      nameNumber (name.take 255) + 1 < 2 ^ 31 → next.length ≤ 255 →
      JoinEnds s con user bufLen next → JoinEnds s con user bufLen name

/-- Then some number of passes is enough. -/
theorem JoinEnds.exists_joinLoop (h : s.JoinEnds con user bufLen name) :
    ∃ fuel, ∀ next, s.joinLoop con user bufLen fuel name ≠ .again next := by
  induction h with
  | @here name hStop =>
    refine ⟨1, fun next hAgain => ?_⟩
    cases hTry : s.joinTry con user bufLen name with
    | again next' => exact hStop next' hTry
    | stop t => simp [joinLoop, hTry] at hAgain
    | found t chan chanop => simp [joinLoop, hTry] at hAgain
  | @next name next hTry _ _ _ ih =>
    obtain ⟨fuel, hFuel⟩ := ih
    refine ⟨fuel + 1, fun next' => ?_⟩
    rw [joinLoop, hTry]
    exact hFuel next'

/-- One pass through the loop. -/
theorem joinEnds_iff_step :
    s.JoinEnds con user bufLen name ↔ ¬ s.PassedOver user name ∨
      nameNumber (name.take 255) + 1 < 2 ^ 31 ∧ (rollover bufLen name).length ≤ 255 ∧
        s.JoinEnds con user bufLen (rollover bufLen name) := by
  constructor
  · intro h
    cases h with
    | here hStop => exact .inl fun hPassed => hStop _ (joinTry_again_iff.2 ⟨hPassed, rfl⟩)
    | next hTry hNumber hLength hRest =>
      obtain ⟨-, rfl⟩ := joinTry_again_iff.1 hTry
      exact .inr ⟨hNumber, hLength, hRest⟩
  · rintro (hFree | ⟨hNumber, hLength, hRest⟩)
    · exact .here fun next hTry => hFree (joinTry_again_iff.1 hTry).1
    · by_cases hPassed : s.PassedOver user name
      · exact .next (joinTry_again_iff.2 ⟨hPassed, rfl⟩) hNumber hLength hRest
      · exact .here fun next hTry => hPassed (joinTry_again_iff.1 hTry).1

/-! ### The numbers that the loop goes through -/

section Numbers

variable {base t : Str} (hBase : ∀ c ∈ base.getLast?, joinDigit c = false)
include hBase

/-- One pass for a name that ends in a number. -/
theorem joinEnds_append (ht : ∀ c ∈ t, joinDigit c = true) (hFit : base.length + t.length ≤ 255) :
    s.JoinEnds con user bufLen (base ++ t) ↔ ¬ s.PassedOver user (base ++ t) ∨
      atoi t + 1 < 2 ^ 31 ∧
        base.length + ((showInt (atoi t + 1)).take (room bufLen)).length ≤ 255 ∧
        s.JoinEnds con user bufLen (base ++ (showInt (atoi t + 1)).take (room bufLen)) := by
  have hTake : (base ++ t).take 255 = base ++ t :=
    List.take_of_length_le (by rw [List.length_append]; exact hFit)
  have hLow : -(2 ^ 31) ≤ atoi t := (toInt32_bounds _).1
  rw [joinEnds_iff_step, rollover_eq, hTake, nameBase_append hBase ht, nameNumber_append hBase ht,
    List.length_append]
  constructor
  · rintro (hFree | ⟨hNumber, hRest⟩)
    · exact .inl hFree
    · rw [toInt32_eq (by omega) hNumber] at hRest
      exact .inr ⟨hNumber, hRest⟩
  · rintro (hFree | ⟨hNumber, hRest⟩)
    · exact .inl hFree
    · rw [toInt32_eq (by omega) hNumber]
      exact .inr ⟨hNumber, hRest⟩

/-- The next number is tried as it stands when its text fits. -/
theorem JoinEnds.of_succ (ht : ∀ c ∈ t, joinDigit c = true) (hFit : base.length + t.length ≤ 255)
    (hNumber : atoi t + 1 < 2 ^ 31) (hRoom : (showInt (atoi t + 1)).length ≤ room bufLen)
    (hSpace : base.length + (showInt (atoi t + 1)).length ≤ 255)
    (h : s.JoinEnds con user bufLen (base ++ showInt (atoi t + 1))) :
    s.JoinEnds con user bufLen (base ++ t) := by
  rw [joinEnds_append hBase ht hFit, List.take_of_length_le hRoom]
  exact .inr ⟨hNumber, hSpace, h⟩

/-- The loop counts up to any number whose text fits. -/
theorem JoinEnds.climb {m : Nat} (hm : 0 < m) (hRoom : m ≤ room bufLen)
    (hSpace : base.length + m ≤ 255) {j : Int} (hj : j < 10 ^ m) (hInt : j < 2 ^ 31)
    (h : s.JoinEnds con user bufLen (base ++ showInt j)) (n : Nat)
    (ht : ∀ c ∈ t, joinDigit c = true) (hFit : base.length + t.length ≤ 255)
    (hLow : -10 ^ (m - 1) < atoi t) (hGap : atoi t + n + 1 = j) :
    s.JoinEnds con user bufLen (base ++ t) := by
  induction n generalizing t with
  | zero =>
    have hNext : atoi t + 1 = j := by omega
    have hLength : (showInt j).length ≤ m := showInt_length_le hm (by omega) hj
    exact of_succ hBase ht hFit (by omega) (by rw [hNext]; omega) (by rw [hNext]; omega)
      (hNext ▸ h)
  | succ n ih =>
    have hLength : (showInt (atoi t + 1)).length ≤ m := showInt_length_le hm (by omega) (by omega)
    have hRead : atoi (showInt (atoi t + 1)) = atoi t + 1 := by
      have hBound : -(2 ^ 31) ≤ atoi t := (toInt32_bounds _).1
      have hSame : toInt32 (atoi t + 1) = atoi t + 1 := toInt32_eq (by omega) (by omega)
      rw [← hSame, atoi_showInt32]
    refine of_succ hBase ht hFit (by omega) (by omega) (by omega) ?_
    exact ih (fun c hc => joinDigit_of_mem_showInt hc) (by omega) (by omega) (by omega)

/-- Past the last number that fits the room the count starts again one digit shorter. -/
theorem JoinEnds.wrap {r : Nat} (hr : r + 1 = room bufLen) (hNine : r + 1 ≤ 9)
    (hSpace : base.length + (r + 1) ≤ 255)
    (h : s.JoinEnds con user bufLen (base ++ showInt (10 ^ r)))
    (ht : ∀ c ∈ t, joinDigit c = true) (hFit : base.length + t.length ≤ 255)
    (hTop : atoi t + 1 = 10 ^ (r + 1)) : s.JoinEnds con user bufLen (base ++ t) := by
  have hSmall : (10 : Int) ^ (r + 1) ≤ 10 ^ 9 := by
    exact_mod_cast Nat.pow_le_pow_right (n := 10) (by decide) hNine
  have hNext : (showInt (atoi t + 1)).take (room bufLen) = showInt (10 ^ r) := by
    rw [hTop, ← hr, showInt_ten_pow, showInt_ten_pow, take_showNat_ten_pow]
  have hLength : ((showInt (atoi t + 1)).take (room bufLen)).length ≤ r + 1 := by
    rw [← hr]
    exact List.length_take_le ..
  rw [joinEnds_append hBase ht hFit, hNext]
  rw [hNext] at hLength
  exact .inr ⟨by omega, by omega, h⟩

end Numbers

/-- A number that the loop comes to after the number `first`, when there is room for `r` characters
and the buffer holds `cap` more than the part of the name that is kept: a greater one whose text
fits, or, where the room is what limits it, one of the round that follows. -/
def Comes (r cap : Nat) (first i : Int) : Prop :=
  i < 10 ^ min r cap ∧ i < 2 ^ 31 ∧ (first < i ∨ r ≤ cap ∧ r ≤ 9 ∧ 10 ^ (r - 1) ≤ i)

instance (r cap : Nat) (first i : Int) : Decidable (Comes r cap first i) :=
  inferInstanceAs (Decidable (_ ∧ _ ∧ _))

section Numbers

variable {base t : Str} (hBase : ∀ c ∈ base.getLast?, joinDigit c = false)
include hBase

/-- One free name among those that the loop comes to ends it. -/
theorem JoinEnds.of_comes {cap : Nat} (hCap : base.length + cap = 255)
    (hm : 0 < min (room bufLen) cap) {j : Int} (hj : Comes (room bufLen) cap (atoi t) j)
    (hFree : ¬ s.PassedOver user (base ++ showInt j)) (ht : ∀ c ∈ t, joinDigit c = true)
    (hFit : base.length + t.length ≤ 255) (hLow : -10 ^ (min (room bufLen) cap - 1) < atoi t)
    (hHigh : atoi t < 10 ^ min (room bufLen) cap) : s.JoinEnds con user bufLen (base ++ t) := by
  obtain ⟨hTen, hInt, hWhere⟩ := hj
  have hEnd : s.JoinEnds con user bufLen (base ++ showInt j) := joinEnds_iff_step.2 (.inl hFree)
  have hRoom : min (room bufLen) cap ≤ room bufLen := Nat.min_le_left ..
  have hSpace : base.length + min (room bufLen) cap ≤ 255 := by omega
  by_cases hLess : atoi t < j
  · exact hEnd.climb hBase hm hRoom hSpace hTen hInt (j - atoi t - 1).toNat ht hFit hLow (by omega)
  · obtain ⟨hShort, hNine, hLeast⟩ := hWhere.resolve_left hLess
    obtain ⟨r, hr⟩ : ∃ r, room bufLen = r + 1 := ⟨room bufLen - 1, by omega⟩
    have hMin : min (room bufLen) cap = r + 1 := by omega
    rw [hMin] at hTen hLow hHigh hSpace hRoom hm
    rw [hr] at hLeast
    simp only [Nat.add_sub_cancel] at hLeast hLow
    have hSmall : (10 : Int) ^ (r + 1) ≤ 10 ^ 9 := by
      exact_mod_cast Nat.pow_le_pow_right (n := 10) (by decide) (show r + 1 ≤ 9 by omega)
    have hOne : (1 : Int) ≤ 10 ^ r := by
      exact_mod_cast Nat.one_le_pow r 10 (by decide)
    have hTextFits {i : Int} (hi : -10 ^ r < i) (hi' : i < 10 ^ (r + 1)) :
        base.length + (showInt i).length ≤ 255 := by
      have := showInt_length_le (Nat.succ_pos r) hi hi'
      omega
    have hRead {i : Int} (hi : 0 ≤ i) (hi' : i < 10 ^ (r + 1)) : atoi (showInt i) = i := by
      have hSame : toInt32 i = i := toInt32_eq (by omega) (by omega)
      rw [← hSame, atoi_showInt32, hSame]
    have hDigits (i : Int) : ∀ c ∈ showInt i, joinDigit c = true :=
      fun c hc => joinDigit_of_mem_showInt hc
    -- from the least number of the round up to the free one
    have hRound : s.JoinEnds con user bufLen (base ++ showInt (10 ^ r)) := by
      rcases Int.lt_or_eq_of_le hLeast with hBelow | hSame
      · have hi := hRead (Int.le_of_lt hOne) (Int.lt_trans hBelow hTen)
        refine hEnd.climb hBase hm hRoom hSpace hTen hInt (j - 10 ^ r - 1).toNat (hDigits _)
          (hTextFits (by omega) (by omega)) ?_ (by omega)
        rw [hi]
        simp only [Nat.add_sub_cancel]
        omega
      · rwa [hSame]
    have hWrap {u : Str} (hu : ∀ c ∈ u, joinDigit c = true) (hFits : base.length + u.length ≤ 255)
        (hTop : atoi u + 1 = 10 ^ (r + 1)) : s.JoinEnds con user bufLen (base ++ u) :=
      hRound.wrap hBase hr.symm (by omega) (by omega) hu hFits hTop
    rcases Int.lt_or_eq_of_le (Int.add_one_le_of_lt hHigh) with hBelow | hTop
    · -- and before that up to the last number that fits
      have hTopEnd : s.JoinEnds con user bufLen (base ++ showInt (10 ^ (r + 1) - 1)) :=
        hWrap (hDigits _) (hTextFits (by omega) (by omega)) (by rw [hRead (by omega) (by omega)]; omega)
      exact hTopEnd.climb hBase hm hRoom hSpace (by omega) (by omega)
        (10 ^ (r + 1) - 1 - atoi t - 1 : Int).toNat ht hFit (by simpa using hLow) (by omega)
    · exact hWrap ht hFit hTop

/-- A loop that ends comes to a free name. -/
theorem JoinEnds.comes {cap : Nat} (hCap : base.length + cap = 255)
    (hm : 0 < min (room bufLen) cap) (h : s.JoinEnds con user bufLen name) (hName : name = base ++ t)
    (ht : ∀ c ∈ t, joinDigit c = true) (hFit : base.length + t.length ≤ 255)
    (hLow : -10 ^ (min (room bufLen) cap - 1) < atoi t)
    (hHigh : atoi t < 10 ^ min (room bufLen) cap) :
    ¬ s.PassedOver user (base ++ t) ∨
      ∃ j, Comes (room bufLen) cap (atoi t) j ∧ ¬ s.PassedOver user (base ++ showInt j) := by
  induction h generalizing t with
  | here hStop =>
    subst hName
    exact .inl fun hPassed => hStop _ (joinTry_again_iff.2 ⟨hPassed, rfl⟩)
  | @next name next hTry hNumber hLength _ ih =>
    subst hName
    right
    have hTake : (base ++ t).take 255 = base ++ t :=
      List.take_of_length_le (by rw [List.length_append]; exact hFit)
    rw [hTake, nameNumber_append hBase ht] at hNumber
    have hBound : -(2 ^ 31) ≤ atoi t := (toInt32_bounds _).1
    have hNext : next = base ++ (showInt (atoi t + 1)).take (room bufLen) := by
      rw [(joinTry_again_iff.1 hTry).2, rollover_eq, hTake, nameBase_append hBase ht,
        nameNumber_append hBase ht, toInt32_eq (by omega) hNumber]
    have hRead {i : Int} (hi : -(2 ^ 31) ≤ i) (hi' : i < 2 ^ 31) : atoi (showInt i) = i := by
      have hSame : toInt32 i = i := toInt32_eq hi hi'
      rw [← hSame, atoi_showInt32, hSame]
    have hDigits (i : Int) : ∀ c ∈ showInt i, joinDigit c = true :=
      fun c hc => joinDigit_of_mem_showInt hc
    rcases Int.lt_or_eq_of_le (Int.add_one_le_of_lt hHigh) with hBelow | hTop
    · have hShow := showInt_length_le hm (by omega : -10 ^ (min (room bufLen) cap - 1) < atoi t + 1)
        hBelow
      have hi := hRead (by omega : -(2 ^ 31) ≤ atoi t + 1) hNumber
      rw [List.take_of_length_le (by omega)] at hNext
      rcases ih hNext (hDigits _) (by omega) (by omega) (by omega) with hFree | ⟨j, hj, hFree⟩
      · exact ⟨atoi t + 1, ⟨hBelow, hNumber, .inl (by omega)⟩, hFree⟩
      · refine ⟨j, ⟨hj.1, hj.2.1, ?_⟩, hFree⟩
        rcases hj.2.2 with hGreater | hRound
        · exact .inl (by omega)
        · exact .inr hRound
    · rcases Nat.lt_or_ge cap (room bufLen) with hCut | hRoom
      · -- the buffer would overflow
        have hMin : min (room bufLen) cap = cap := by omega
        rw [hTop, hMin, showInt_ten_pow] at hNext
        have hLong : ((showNat (10 ^ cap)).take (room bufLen)).length = cap + 1 := by
          rw [List.length_take, showNat_ten_pow, List.length_cons, List.length_replicate]
          omega
        rw [hNext, List.length_append, hLong] at hLength
        omega
      · obtain ⟨r, hr⟩ : ∃ r, room bufLen = r + 1 := ⟨room bufLen - 1, by omega⟩
        have hMin : min (room bufLen) cap = r + 1 := by omega
        simp only [hMin, Nat.add_sub_cancel] at hLow hHigh hTop ih
        rw [hTop, hr, showInt_ten_pow, take_showNat_ten_pow, ← showInt_ten_pow] at hNext
        have hNine : r + 1 ≤ 9 := by
          by_contra hTen
          have : (10 : Int) ^ 10 ≤ 10 ^ (r + 1) := by
            exact_mod_cast Nat.pow_le_pow_right (n := 10) (by decide) (show 10 ≤ r + 1 by omega)
          omega
        have hOne : (1 : Int) ≤ 10 ^ r := by
          exact_mod_cast Nat.one_le_pow r 10 (by decide)
        have hi : atoi (showInt (10 ^ r)) = 10 ^ r := hRead (by omega) (by omega)
        have hShow : (showInt (10 ^ r)).length ≤ r + 1 := by
          rw [showInt_ten_pow, showNat_ten_pow, List.length_cons, List.length_replicate]
        have hLeast {j : Int} (hj : 10 ^ r ≤ j) (hTen : j < 10 ^ (r + 1)) :
            Comes (room bufLen) cap (atoi t) j := by
          have hSmall : (10 : Int) ^ (r + 1) ≤ 10 ^ 9 := by
            exact_mod_cast Nat.pow_le_pow_right (n := 10) (by decide) hNine
          rw [Comes, hMin, hr]
          exact ⟨hTen, by omega, .inr ⟨by omega, hNine, hj⟩⟩
        rcases ih hNext (hDigits _) (by omega) (by omega) (by omega) with hFree | ⟨j, hj, hFree⟩
        · exact ⟨10 ^ r, hLeast (by omega) (by omega), hFree⟩
        · have hTen : j < 10 ^ (r + 1) := by
            rw [← hMin]
            exact hj.1
          refine ⟨j, hLeast ?_ hTen, hFree⟩
          rcases hj.2.2 with hGreater | ⟨-, -, hRound⟩
          · omega
          · simpa [hr] using hRound

end Numbers

theorem joinEnds_base_iff {base : Str} (hBase : ∀ c ∈ base.getLast?, joinDigit c = false)
    {first : Int} (hLow : -(2 ^ 31) ≤ first) (hHigh : first < 2 ^ 31)
    (hFit : base.length + ((showInt first).take (room bufLen)).length ≤ 255) :
    s.JoinEnds con user bufLen (base ++ (showInt first).take (room bufLen)) ↔
      ¬ s.PassedOver user (base ++ (showInt first).take (room bufLen)) ∨
        ∃ i, Comes (room bufLen) (255 - base.length) (atoi ((showInt first).take (room bufLen))) i ∧
          ¬ s.PassedOver user (base ++ showInt i) := by
  have hCap : base.length + (255 - base.length) = 255 := by omega
  have hDigits : ∀ c ∈ (showInt first).take (room bufLen), joinDigit c = true :=
    fun c hc => joinDigit_of_mem_showInt (List.mem_of_mem_take hc)
  rcases Nat.eq_zero_or_pos (room bufLen) with hNone | hSome
  · -- without room for a number the same name is tried again and again
    have hNever : ¬ ∃ i, Comes (room bufLen) (255 - base.length)
        (atoi ((showInt first).take (room bufLen))) i ∧ ¬ s.PassedOver user (base ++ showInt i) := by
      rintro ⟨i, ⟨hHigh, -, hWhere⟩, -⟩
      rw [hNone, Nat.zero_min, Int.pow_zero] at hHigh
      rw [hNone] at hWhere
      rcases hWhere with hGreater | ⟨-, -, hOne⟩
      · have hZero : atoi ((showInt first).take 0) = 0 := rfl
        omega
      · rw [Nat.zero_sub, Int.pow_zero] at hOne
        omega
    rw [or_iff_left hNever]
    constructor
    · intro h
      generalize hName : base ++ (showInt first).take (room bufLen) = name at h
      induction h with
      | here hStop => exact fun hPassed => hStop _ (joinTry_again_iff.2 ⟨hPassed, rfl⟩)
      | @next name next hTry _ _ _ ih =>
        have hTake : name.take 255 = name := by
          rw [← hName]
          exact List.take_of_length_le (by rw [List.length_append]; exact hFit)
        have hSame : name = next := by
          rw [(joinTry_again_iff.1 hTry).2, rollover_eq, hTake, ← hName,
            nameBase_append hBase hDigits, hNone, List.take_zero, List.take_zero]
        rw [hSame] at hName ⊢
        exact ih hName
    · exact fun hFree => joinEnds_iff_step.2 (.inl hFree)
  · have hPos : 0 < ((showInt first).take (room bufLen)).length := by
      rw [List.length_take]
      have := showInt_length_pos first
      omega
    have hm : 0 < min (room bufLen) (255 - base.length) := by omega
    have hCut : (showInt first).take (room bufLen) =
        (showInt first).take (min (room bufLen) (255 - base.length)) := by
      have hAll : ((showInt first).take (room bufLen)).take (255 - base.length) =
          (showInt first).take (room bufLen) := List.take_of_length_le (by omega)
      rw [List.take_take, Nat.min_comm] at hAll
      exact hAll.symm
    have hRange := atoi_take_showInt hm hLow hHigh
    rw [← hCut] at hRange
    constructor
    · exact fun h => h.comes hBase hCap hm rfl hDigits hFit hRange.1 hRange.2
    · rintro (hFree | ⟨i, hi, hFree⟩)
      · exact joinEnds_iff_step.2 (.inl hFree)
      · exact JoinEnds.of_comes hBase hCap hm hi hFree hDigits hFit hRange.1 hRange.2

/-- The names that the loop of `join` comes to when it is asked for `name` and every channel is
full: that name; with what is kept of it, the next number, cut to the room that there is; and the
numbers that come later. -/
def Tried (bufLen : Nat) (name next : Str) : Prop :=
  let base := nameBase (name.take 255)
  let first := nameNumber (name.take 255) + 1
  let t := (showInt first).take (room bufLen)
  next = name ∨ first < 2 ^ 31 ∧ base.length + t.length ≤ 255 ∧
    (next = base ++ t ∨
      ∃ i, Comes (room bufLen) (255 - base.length) (atoi t) i ∧ next = base ++ showInt i)

/-- The loop of `join` comes to an end exactly where one of the names that it comes to is not that
of a full channel. -/
theorem joinEnds_iff :
    s.JoinEnds con user bufLen name ↔ ∃ next, Tried bufLen name next ∧ ¬ s.PassedOver user next := by
  obtain ⟨u, hSplit, -, hBase⟩ := exists_name_split (name.take 255)
  have hBound : -(2 ^ 31) ≤ nameNumber (name.take 255) := (toInt32_bounds _).1
  have hFirst (hNumber : nameNumber (name.take 255) + 1 < 2 ^ 31) : rollover bufLen name =
      nameBase (name.take 255) ++ (showInt (nameNumber (name.take 255) + 1)).take (room bufLen) := by
    rw [rollover_eq, toInt32_eq (by omega) hNumber]
  rw [joinEnds_iff_step]
  constructor
  · rintro (hFree | ⟨hNumber, hLength, hEnds⟩)
    · exact ⟨name, .inl rfl, hFree⟩
    · rw [hFirst hNumber] at hLength hEnds
      rw [List.length_append] at hLength
      rcases (joinEnds_base_iff hBase (by omega) hNumber hLength).1 hEnds with hFree | ⟨i, hi, hFree⟩
      · exact ⟨_, .inr ⟨hNumber, hLength, .inl rfl⟩, hFree⟩
      · exact ⟨_, .inr ⟨hNumber, hLength, .inr ⟨i, hi, rfl⟩⟩, hFree⟩
  · rintro ⟨next, rfl | ⟨hNumber, hLength, hNext⟩, hFree⟩
    · exact .inl hFree
    · refine .inr ⟨hNumber, by rwa [hFirst hNumber, List.length_append], ?_⟩
      rw [hFirst hNumber]
      rcases hNext with rfl | ⟨i, hi, rfl⟩
      · exact (joinEnds_base_iff hBase (by omega) hNumber hLength).2 (.inl hFree)
      · exact (joinEnds_base_iff hBase (by omega) hNumber hLength).2 (.inr ⟨i, hi, hFree⟩)

/-- The channel that joe has joined is registered, as a server made joe an operator of it, and full;
ann is logged in. -/
def fullChannel (name : Str) : List Event :=
  [.accept 1 (str "peer") 0 0, .link 0, .accept 2 (str "client") 6699 8888,
    .packet 1 .login (str "joe pw 6699 \"client\" 3") {}, .packet 1 .join name {},
    .packet 0 .op (str ":peer " ++ name ++ str " joe") {}, .accept 3 (str "client") 6700 8889,
    .packet 4 .login (str "ann pw 6699 \"client\" 3") {}]

/-- Channels are for one. -/
def single : Startup := { hub with cfg := { hub.cfg with channelLimit := 1 } }

/-- With 255 bytes in `Buf` there is no room for a number, and ann's join never ends. -/
theorem rolls_forever :
    ¬ ∃ fuel, ∀ next,
      (reach single (fullChannel (str "#a"))).joinLoop 4 5 255 fuel (str "#a") ≠ .again next := by
  rintro ⟨fuel, hEnd⟩
  have hPassed : (reach single (fullChannel (str "#a"))).PassedOver 5 (str "#a") :=
    ⟨3, by decide +kernel, by decide +kernel⟩
  have hTry : (reach single (fullChannel (str "#a"))).joinTry 4 5 255 (str "#a") =
      .again (str "#a") := joinTry_again_iff.2 ⟨hPassed, by decide⟩
  refine hEnd (str "#a") ?_
  clear hEnd
  induction fuel with
  | zero => rfl
  | succ fuel ih =>
    rw [joinLoop, hTry]
    exact ih

/-! ### Names that end in a number -/

/-- A channel name that ends in a decimal number, with nothing of it in the part before. -/
structure Numbered (base digits : Str) : Prop where
  start : base.head? = some '#' ∨ base.head? = some '&'
  last : ∀ c ∈ base.getLast?, c.isDigit = false
  some : digits ≠ []
  digits : ∀ c ∈ digits, c.isDigit = true

/-- What is kept of a name that ends in a number, when the part before ends in a byte up to `'9'`:
less than that part.  The next name is not that part and the next number. -/
theorem rollover_ne {base digits : Str} (h : Numbered base digits)
    (hSmall : digitsValue digits + 1 < 2 ^ 31) (hFit : (base ++ digits).length ≤ 255)
    {c : Char} (hc : c ∈ base.getLast?) (hLow : joinDigit c = true) :
    rollover bufLen (base ++ digits) ≠ base ++ showNat (digitsValue digits + 1) := by
  intro hSame
  obtain ⟨x, hSplit, hx, hKept⟩ := exists_name_split base
  generalize nameBase base = b at hSplit hKept
  subst hSplit
  have hLow' : ∀ d ∈ x ++ digits, joinDigit d = true := by
    intro d hd
    rcases List.mem_append.1 hd with hd | hd
    · exact hx d hd
    · exact joinDigit_of_isDigit (h.digits d hd)
  rw [rollover_eq, List.take_of_length_le hFit, List.append_assoc, nameBase_append hKept hLow',
    nameNumber_append hKept hLow', List.append_assoc] at hSame
  have hText := List.append_cancel_left hSame
  -- the last byte of what was taken for the number is no digit, so that it is a sign by itself
  obtain ⟨y, d, rfl⟩ : ∃ y d, x = y ++ [d] := by
    rcases List.eq_nil_or_concat x with rfl | ⟨y, d, rfl⟩
    · rw [List.append_nil] at hc
      exact absurd (hKept c hc) (by simp [hLow])
    · exact ⟨y, d, List.concat_eq_append⟩
  have hd : d.isDigit = false := h.last d (by simp)
  cases hNumber : toInt32 (atoi (y ++ [d] ++ digits) + 1) with
  | ofNat n =>
    rw [hNumber] at hText
    have hCut : d ∈ (showInt (.ofNat n)).take (room bufLen) := by
      rw [hText]
      simp
    have hIn : d ∈ showNat n := List.mem_of_mem_take hCut
    exact absurd (isDigit_of_mem_showNat hIn) (by simp [hd])
  | negSucc n =>
    rw [hNumber, showInt] at hText
    cases hRoom : room bufLen with
    | zero => simp [hRoom] at hText
    | succ r =>
      rw [hRoom, List.take_succ_cons] at hText
      cases y with
      | cons e y =>
        have hCut : d ∈ (showNat (n + 1)).take r := by
          rw [(List.cons.inj hText).2]
          simp
        have hIn : d ∈ showNat (n + 1) := List.mem_of_mem_take hCut
        exact absurd (isDigit_of_mem_showNat hIn) (by simp [hd])
      | nil =>
        obtain ⟨rfl, hRest⟩ := List.cons.inj hText
        have hRead : atoi ('-' :: digits) = -(digitsValue digits : Int) :=
          atoi_minus_digits h.some h.digits (by omega)
        have hLess : n + 1 + 1 = digitsValue digits := by
          have hNumber' : toInt32 (atoi ('-' :: digits) + 1) = .negSucc n := hNumber
          rw [hRead, toInt32_eq (by omega) (by omega)] at hNumber'
          omega
        have hMono := showNat_length_mono (show n + 1 ≤ digitsValue digits + 1 by omega)
        have hCut : (showNat (n + 1)).take r = showNat (n + 1) := by
          refine List.take_of_length_le ?_
          have hLength : ((showNat (n + 1)).take r).length =
              (showNat (digitsValue digits + 1)).length := congrArg List.length hRest
          rw [List.length_take] at hLength
          omega
        have hBoth : showNat (n + 1) = showNat (digitsValue digits + 1) := hCut.symm.trans hRest
        have hValues := congrArg digitsValue hBoth
        rw [digitsValue_showNat, digitsValue_showNat] at hValues
        omega

/-- The next name after a name that ends in a number is that with the next number exactly where the
part before the number ends in a byte above `'9'`. -/
theorem joinTry_numbered {base digits : Str} (hPassed : s.PassedOver user (base ++ digits))
    (h : Numbered base digits) (hSmall : digitsValue digits < 2 ^ 31 - 1)
    (hFit : (base ++ digits).length ≤ 255)
    (hRoom : bufLen + (showNat (digitsValue digits + 1)).length ≤ 255) :
    (s.joinTry con user bufLen (base ++ digits) =
        .again (base ++ showNat (digitsValue digits + 1)) ∧
      Numbered base (showNat (digitsValue digits + 1))) ↔
    ∀ c ∈ base.getLast?, '9'.toNat < c.toNat := by
  have hNumbered : Numbered base (showNat (digitsValue digits + 1)) :=
    ⟨h.start, h.last, showNat_ne_nil _, fun c hc => isDigit_of_mem_showNat hc⟩
  constructor
  · rintro ⟨hTry, -⟩ c hc
    by_contra hLow
    refine rollover_ne h (by omega) hFit hc ?_ (joinTry_again_iff.1 hTry).2.symm
    have hLe : c.toNat ≤ 57 := Nat.le_of_not_lt hLow
    simpa [joinDigit] using hLe
  · intro hHigh
    refine ⟨joinTry_again_iff.2 ⟨hPassed, ?_⟩, hNumbered⟩
    have hBase : ∀ c ∈ base.getLast?, joinDigit c = false := by
      intro c hc
      have hLt : 57 < c.toNat := hHigh c hc
      simpa [joinDigit] using hLt
    have hDigits : ∀ c ∈ digits, joinDigit c = true := fun c hc => joinDigit_of_isDigit (h.digits c hc)
    have hRead : atoi digits = digitsValue digits := atoi_digits h.some h.digits (by omega)
    have hNext : toInt32 ((digitsValue digits : Int) + 1) = ((digitsValue digits + 1 : Nat) : Int) :=
      toInt32_eq (by omega) (by omega)
    have hEnough : (showNat (digitsValue digits + 1)).length ≤ room bufLen := by
      rw [room, if_pos (by omega)]
      omega
    rw [rollover_eq, List.take_of_length_le hFit, nameBase_append hBase hDigits,
      nameNumber_append hBase hDigits, hRead, hNext]
    exact congrArg _ (List.take_of_length_le hEnough).symm

/-- From `#lobby9` on to `#lobby10`. -/
theorem joinTry_numbered_lobby :
    let s := reach single (fullChannel (str "#lobby9"))
    s.joinTry 4 5 100 (str "#lobby9") = .again (str "#lobby" ++ showNat 10) ∧
      Numbered (str "#lobby") (showNat 10) := by
  have hPassed : (reach single (fullChannel (str "#lobby9"))).PassedOver 5
      (str "#lobby" ++ str "9") := ⟨3, by decide +kernel, by decide +kernel⟩
  exact (joinTry_numbered hPassed ⟨by decide, by simp [str], by decide, by simp [str]⟩ (by decide)
    (by decide) (by decide)).2 (by simp [str, joinDigit])

/-- The hyphen of `#chan-1` is taken for a digit: the name after it is `#chan0`. -/
theorem next_after_hyphen :
    let s := reach single (fullChannel (str "#chan-1"))
    s.PassedOver 5 (str "#chan-" ++ str "1") ∧ Numbered (str "#chan-") (str "1") ∧
      s.joinTry 4 5 0 (str "#chan-" ++ str "1") = .again (str "#chan0") ∧
      str "#chan0" ≠ str "#chan-" ++ showNat (digitsValue (str "1") + 1) := by
  have hPassed : (reach single (fullChannel (str "#chan-1"))).PassedOver 5
      (str "#chan-" ++ str "1") := ⟨3, by decide +kernel, by decide +kernel⟩
  exact ⟨hPassed, ⟨by decide, by simp [str], by decide, by simp [str]⟩,
    joinTry_again_iff.2 ⟨hPassed, by decide⟩, by decide⟩

end Server

end OpenNap
