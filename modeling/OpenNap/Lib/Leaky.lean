import Mathlib.Algebra.Order.Floor.Ring
import Mathlib.Data.List.Basic
import Mathlib.Data.Rat.Floor
import Mathlib.Tactic.Linarith
import Mathlib.Tactic.Ring

/-! A leaky bucket.  Each request that is served raises the level by its cost, from the time of the
request at least, and a request is served only while the level is less than so far ahead of the time.
This bounds the number of requests served in any window, however the times go. -/

namespace LeakyBucket

/-- Requests are served at these times, one after the other, from one level to another. -/
inductive Serves (room cost : Int) : Int → List Int → Int → Prop
  | done (level : Int) : Serves room cost level [] level
  | serve {level now last : Int} {times : List Int} (admitted : level < now + room)
      (rest : Serves room cost (max level now + cost) times last) :
      Serves room cost level (now :: times) last

variable {room cost level last : Int} {times : List Int}

theorem Serves.append {final : Int} {more : List Int} (h : Serves room cost level times last)
    (hMore : Serves room cost last more final) : Serves room cost level (times ++ more) final := by
  induction h with
  | done level => exact hMore
  | serve hAdmitted hRest ih => exact .serve hAdmitted (ih hMore)

theorem Serves.single {now : Int} (h : level < now + room) :
    Serves room cost level [now] (max level now + cost) := .serve h (.done _)

/-- The time is one of so many from the first on. -/
def inWindow (first length now : Int) : Bool := first ≤ now && now < first + length

/-- The level is at least so high when the last request of the window comes, and that is admitted. -/
theorem Serves.level_lt (h : Serves room cost level times last) (hRoom : 0 < room) (hCost : 0 ≤ cost)
    {first length : Int} (hSome : 0 < times.countP (inWindow first length)) :
    max level first + ((times.countP (inWindow first length) : Int) - 1) * cost <
      first + length - 1 + room := by
  induction h with
  | done level => simp at hSome
  | @serve level now last times hAdmitted hRest ih =>
    by_cases hIn : inWindow first length now = true
    · have hBounds : first ≤ now ∧ now < first + length := by
        simpa only [inWindow, Bool.and_eq_true, decide_eq_true_eq] using hIn
      rw [List.countP_cons_of_pos hIn]
      by_cases hMore : 0 < times.countP (inWindow first length)
      · have hLater := ih hMore
        have hSplit : ((times.countP (inWindow first length) + 1 : Nat) - 1 : Int) * cost =
            ((times.countP (inWindow first length) : Int) - 1) * cost + cost := by
          push_cast
          ring
        rw [hSplit]
        omega
      · have hNone : times.countP (inWindow first length) = 0 := by omega
        rw [hNone]
        simp only [Nat.zero_add, Nat.cast_one, sub_self, zero_mul, add_zero]
        omega
    · rw [List.countP_cons_of_neg hIn] at hSome ⊢
      have hLater := ih hSome
      omega

/-- No more than so many requests are served in a window. -/
theorem Serves.countP_le (h : Serves room cost level times last) (hRoom : 0 < room) (hCost : 0 < cost)
    {first length : Int} (hLength : 1 ≤ length) :
    (times.countP (inWindow first length) : Int) ≤ ⌈((length - 1 + room : Int) : ℚ) / cost⌉ := by
  have hCost' : (0 : ℚ) < cost := by exact_mod_cast hCost
  by_cases hSome : 0 < times.countP (inWindow first length)
  · have hLevel := h.level_lt hRoom (le_of_lt hCost) hSome
    have hBefore : ((times.countP (inWindow first length) : Int) - 1) * cost < length - 1 + room := by
      omega
    have hRatio : (((times.countP (inWindow first length) : Int) - 1 : Int) : ℚ) <
        ((length - 1 + room : Int) : ℚ) / cost := by
      rw [lt_div_iff₀ hCost']
      exact_mod_cast hBefore
    have hCeil := Int.lt_ceil.2 hRatio
    omega
  · have hNone : times.countP (inWindow first length) = 0 := by omega
    rw [hNone]
    have hPos : (0 : ℚ) ≤ ((length - 1 + room : Int) : ℚ) / cost := by
      apply div_nonneg _ (le_of_lt hCost')
      have hSum : 0 ≤ length - 1 + room := by omega
      exact_mod_cast hSum
    exact Int.ceil_nonneg hPos

end LeakyBucket
