import Mathlib.Algebra.Order.Ring.Rat
import SourceSurvey.Memory.Ledger

/-!
# Ledgers of exact amounts

The ledger over rational megabytes. No rounding takes place, so a sum of reservations is what the
reservations add up to, and a release gives back what was reserved.
-/

namespace SourceSurvey

instance : Amount ℚ where
  zero := 0
  add a b := a + b
  sub a b := a - b
  larger a b := max a b
  exceeds a b := b < a
  within a b := a ≤ b

/-- The megabytes to reserve for a file, exactly: three times its size, at least one. -/
def exactMegabytes (size : Nat) : ℚ := max (size * 3 / 1048576) 1

theorem one_le_exactMegabytes (size : Nat) : 1 ≤ exactMegabytes size := le_max_right ..

namespace Ledger

variable (l : Ledger ℚ) (amount : ℚ)

@[simp] theorem reserve_limit : (l.reserve amount).limit = l.limit := rfl

@[simp] theorem reserve_allocated : (l.reserve amount).allocated = l.allocated + amount := rfl

@[simp] theorem reserve_peak :
    (l.reserve amount).peak = max l.peak (l.allocated + amount) := rfl

@[simp] theorem release_limit : (l.release amount).limit = l.limit := rfl

@[simp] theorem release_allocated :
    (l.release amount).allocated = max (l.allocated - amount) 0 := rfl

@[simp] theorem release_peak : (l.release amount).peak = l.peak := rfl

@[simp] theorem resetPeak_limit : l.resetPeak.limit = l.limit := rfl

@[simp] theorem resetPeak_allocated : l.resetPeak.allocated = l.allocated := rfl

@[simp] theorem resetPeak_peak : l.resetPeak.peak = l.allocated := rfl

/-- An amount is reserved iff it fits. -/
theorem tryReserve_eq : l.tryReserve amount =
    if l.allocated + amount ≤ l.limit then some (l.reserve amount) else none := by
  by_cases h : l.allocated + amount ≤ l.limit
  · rw [if_pos h]
    exact if_neg (by simpa [Amount.exceeds, Amount.add] using h)
  · rw [if_neg h]
    exact if_pos (by simpa [Amount.exceeds, Amount.add] using h)

/-- What is reserved is released in full. -/
theorem release_of_le (h : amount ≤ l.allocated) :
    (l.release amount).allocated = l.allocated - amount := by
  simpa using h

end Ledger
end SourceSurvey
