import Mathlib.Data.Nat.Basic
import Mathlib.Tactic.Ring

/-!
# Capacity doubling

Growable buffers double a capacity until it covers what is needed.  The loop is
written with fuel; the needed size is always enough fuel, because a positive
capacity at least gains one per doubling.
-/

namespace SvgdCollect
namespace Lib

/-- `while (capacity < need) capacity *= 2;` cut off after `fuel` iterations. -/
def doubleUntil (need : Nat) : Nat → Nat → Nat
  | 0, capacity => capacity
  | fuel + 1, capacity =>
      if capacity < need then doubleUntil need fuel (capacity * 2) else capacity

/-- The capacity a buffer of size `capacity` is regrown to: an empty buffer
starts from `initial`. -/
def grownCapacity (initial capacity need : Nat) : Nat :=
  doubleUntil need need (if capacity = 0 then initial else capacity)

theorem le_doubleUntil_of_fuel {need : Nat} (fuel capacity : Nat)
    (hPos : 0 < capacity) (hFuel : need ≤ capacity + fuel) :
    need ≤ doubleUntil need fuel capacity := by
  induction fuel generalizing capacity with
  | zero => simpa [doubleUntil] using hFuel
  | succ fuel ih =>
      by_cases hlt : capacity < need
      · simp only [doubleUntil, if_pos hlt]
        exact ih (capacity * 2) (by omega) (by omega)
      · simp only [doubleUntil, if_neg hlt]
        omega

theorem le_doubleUntil_self (need fuel capacity : Nat) :
    capacity ≤ doubleUntil need fuel capacity := by
  induction fuel generalizing capacity with
  | zero => simp [doubleUntil]
  | succ fuel ih =>
      by_cases hlt : capacity < need
      · simp only [doubleUntil, if_pos hlt]
        exact le_trans (by omega) (ih (capacity * 2))
      · simp [doubleUntil, hlt]

/-- The regrown capacity covers the need. -/
theorem le_grownCapacity {initial : Nat} (hInitial : 0 < initial) (capacity need : Nat) :
    need ≤ grownCapacity initial capacity need := by
  unfold grownCapacity
  apply le_doubleUntil_of_fuel
  · split <;> omega
  · omega

/-- The regrown capacity is never smaller than the old one. -/
theorem self_le_grownCapacity (initial capacity need : Nat) :
    capacity ≤ grownCapacity initial capacity need := by
  unfold grownCapacity
  refine le_trans ?_ (le_doubleUntil_self need need _)
  split <;> omega

theorem doubleUntil_le (need fuel capacity : Nat) :
    doubleUntil need fuel capacity ≤ max capacity (2 * need) := by
  induction fuel generalizing capacity with
  | zero => exact le_max_left _ _
  | succ fuel ih =>
      by_cases hlt : capacity < need
      · simp only [doubleUntil, if_pos hlt]
        have hNext := ih (capacity * 2)
        omega
      · simp [doubleUntil, hlt]

/-- A buffer is regrown to less than twice its need, if it does not start larger. -/
theorem grownCapacity_le (initial capacity need : Nat) :
    grownCapacity initial capacity need ≤ max (max initial capacity) (2 * need) := by
  unfold grownCapacity
  refine le_trans (doubleUntil_le need need _) ?_
  split <;> omega

end Lib
end SvgdCollect
