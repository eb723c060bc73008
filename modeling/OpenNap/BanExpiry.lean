import OpenNap.Link
import OpenNap.Masks
import OpenNap.Privileges

/-! The age of a ban.  The login goes by `Ban.active` and the timer by `expired`; the command that
adds a ban asks for neither, so that it says of a ban that it is there already when that one no longer
keeps anybody out. -/

namespace OpenNap

open CText

/-! ### Masks that differ in case -/

theorem sameChar_congr {p q : Char} (h : p.toLower = q.toLower) (c : Char) :
    sameChar p c = sameChar q c := by
  rw [sameChar, sameChar, h]

theorem textsAfter_congr {p q : Char} (h : p.toLower = q.toLower) (s : Str) :
    textsAfter p s = textsAfter q s := by
  induction s with
  | nil => rfl
  | cons c s ih => simp only [textsAfter, sameChar_comm c, sameChar_congr h, ih]

theorem globLoop_congr {a b : Str} (h : strlower a = strlower b) (star : Bool) (s : Str) :
    globLoop star a s = globLoop star b s := by
  induction a generalizing b star s with
  | nil =>
    obtain rfl : b = [] := by simpa [strlower] using h.symm
    rfl
  | cons p ps ih =>
    obtain ⟨q, qs, rfl⟩ : ∃ q qs, b = q :: qs := by
      cases b with
      | nil => simp [strlower] at h
      | cons q qs => exact ⟨q, qs, rfl⟩
    obtain ⟨hHead, hTail⟩ : p.toLower = q.toLower ∧ strlower ps = strlower qs := by
      simpa [strlower] using h
    -- the wildcards are no letters
    have hWild {w : Char} (hw : w.toNat < 97) (hSame : w.toLower = w) : (p == w) = (q == w) := by
      rw [Bool.eq_iff_iff, beq_iff_eq, beq_iff_eq, ← toLower_eq_iff hw hSame, hHead,
        toLower_eq_iff hw hSame]
    have hStar : (p == '*') = (q == '*') := hWild (by decide) (by decide)
    have hOne : (p == '?') = (q == '?') := hWild (by decide) (by decide)
    have hRest (star : Bool) : globLoop star ps = globLoop star qs :=
      funext fun s => ih hTail star s
    cases star with
    | true => simp only [globLoop, hStar, hOne, textsAfter_congr hHead, hRest]
    | false =>
      cases s with
      | nil => rfl
      | cons c cs => simp only [globLoop, hStar, hOne, sameChar_congr hHead, hRest]

/-- Masks that differ only in case cover the same texts. -/
theorem globMatch_congr {a b : Str} (h : sameText a b = true) (s : Str) :
    globMatch a s = globMatch b s := globLoop_congr (sameText_iff.1 h) false s

/-! ### The three tests -/

/-- Between the two tests there is a moment: a ban whose time is up in this second is no longer in
force, and not yet expired. -/
theorem not_active_iff {s : Core} {b : Ban} (h : 0 ≤ b.timeout) :
    b.active s.now = false ↔ s.expired b = true ∨ 0 < b.timeout ∧ s.now = b.time + b.timeout := by
  simp only [Ban.active, Core.expired, Bool.or_eq_false_iff, beq_eq_false_iff_ne,
    decide_eq_false_iff_not, Bool.and_eq_true, decide_eq_true_eq]
  omega

namespace Core

/-- There is a ban on the target in the list. -/
def Listed (s : Core) (target : Str) : Prop := ∃ b ∈ s.bans, sameText target b.target = true

/-- One of the bans on the target is in force. -/
def Enforced (s : Core) (target : Str) : Prop :=
  ∃ b ∈ s.bans, sameText target b.target = true ∧ b.active s.now = true

/-- A ban that is in force keeps out whoever its mask covers. -/
theorem Enforced.banFor {s : Core} {target : Str} (h : s.Enforced target) {nick host : Str}
    (hCovers : globMatch target (userMask nick host) = true) :
    ∃ ban, s.banFor nick host = some ban := by
  obtain ⟨b, hIn, hSame, hActive⟩ := h
  refine Option.isSome_iff_exists.1 (List.find?_isSome.2 ⟨b, hIn, ?_⟩)
  rw [hActive, Bool.true_and, ← globMatch_congr hSame]
  exact hCovers

end Core

namespace Server

end Server

end OpenNap
