/-!
# Binary floating-point numbers as exact values

A finite number is `mantissa · 2 ^ exponent` with a sign. Everything that is written or rounded in
decimal starts from this exact value.
-/

namespace SourceSurvey
namespace Decimal

/-- The exact value of a finite number. -/
structure Binary where
  negative : Bool
  mantissa : Nat
  exponent : Int
  deriving DecidableEq, Repr

namespace Binary

/-- The value of a bit pattern of 64 bits, unless it is an infinity or no number. -/
def ofBits? (bits : UInt64) : Option Binary :=
  let n := bits.toNat
  let fraction : Nat := n % Nat.pow 2 52
  let biased : Nat := n / Nat.pow 2 52 % Nat.pow 2 11
  let negative := n / Nat.pow 2 63 == 1
  if biased = 2047 then none
  else if biased = 0 then some ⟨negative, fraction, -1074⟩
  else some ⟨negative, Nat.pow 2 52 + fraction, (biased : Int) - 1075⟩

/-- The magnitude as a fraction. -/
def ratio (b : Binary) : Nat × Nat :=
  if 0 ≤ b.exponent then (b.mantissa * Nat.pow 2 b.exponent.toNat, 1)
  else (b.mantissa, Nat.pow 2 (-b.exponent).toNat)

end Binary
end Decimal
end SourceSurvey
