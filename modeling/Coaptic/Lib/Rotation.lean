import Mathlib.Tactic

/-!
# Positions on a ring

How far one position of a ring lies ahead of another, and how that changes when the start of a
scan moves past a position: in front of the target it comes closer, behind it goes once around.
-/
namespace Coaptic.Rotation

variable {n c x o : Nat}

/-- Steps from `c` forward to `x` on a ring of `n` positions. -/
def ahead (n c x : Nat) : Nat := (x + n - c) % n

theorem mod_of_lt_twice {a : Nat} (h : a < 2 * n) : a % n = if a < n then a else a - n := by
  split
  next below => exact Nat.mod_eq_of_lt below
  next above =>
    rw [Nat.mod_eq_sub_mod (by omega), Nat.mod_eq_of_lt (by omega)]

section

variable (hc : c < n) (hx : x < n)
include hc hx

theorem ahead_eq : ahead n c x = if c ≤ x then x - c else x + n - c := by
  rw [ahead, mod_of_lt_twice (by omega)]
  split <;> split <;> omega

theorem ahead_lt : ahead n c x < n := by
  rw [ahead_eq hc hx]
  split <;> omega

theorem add_ahead : (c + ahead n c x) % n = x := by
  rw [ahead_eq hc hx, mod_of_lt_twice (by split <;> omega)]
  split <;> split <;> omega

omit hc hx in
theorem ahead_add (hc : c < n) (ho : o < n) : ahead n c ((c + o) % n) = o := by
  rw [mod_of_lt_twice (by omega)]
  split
  · rw [ahead_eq hc (by omega)]
    split <;> omega
  · rw [ahead_eq hc (by omega)]
    split <;> omega

/-- The start moves just past a position in front of the target. -/
theorem ahead_past (before : o < ahead n c x) :
    ahead n ((c + o + 1) % n) x = ahead n c x - (o + 1) := by
  have := ahead_lt hc hx
  rw [ahead_eq hc hx] at *
  rw [mod_of_lt_twice (by omega)]
  split at before <;> split <;> rw [ahead_eq (by omega) hx] <;> split <;> omega

/-- The start moves just past a position behind the target. -/
theorem ahead_around (ho : o < n) (behind : ahead n c x < o) :
    ahead n ((c + o + 1) % n) x = n - 1 - (o - ahead n c x) := by
  have := ahead_lt hc hx
  rw [ahead_eq hc hx] at *
  rw [mod_of_lt_twice (by omega)]
  split at behind <;> split <;> rw [ahead_eq (by omega) hx] <;> split <;> omega

end

end Coaptic.Rotation
