import SourceSurvey.Decimal.Binary

/-!
# Fixed decimal places

`fixed places x` writes a number with a given count of decimals, rounded from its exact value; a
tie goes to the even neighbour.
-/

namespace SourceSurvey
namespace Decimal

/-- The quotient rounded to the nearest natural number, a half to the even one. -/
def roundDiv (num den : Nat) : Nat :=
  let q := num / den
  let r := num % den
  if den < 2 * r || (2 * r = den && q % 2 = 1) then q + 1 else q

/-- The digits of a natural number, filled up with zeros on the left. -/
def padded (width n : Nat) : List Char :=
  let digits := Nat.toDigits 10 n
  List.replicate (width - digits.length) '0' ++ digits

/-- A number of units of the last decimal place, written with a point. -/
def withPoint (places units : Nat) : List Char :=
  let digits := padded (places + 1) units
  if places = 0 then digits
  else digits.take (digits.length - places) ++ '.' :: digits.drop (digits.length - places)

/-- A number with a count of decimals. -/
def fixed (places : Nat) (x : Float) : String :=
  match Binary.ofBits? x.toBits with
  | some b =>
    let (num, den) := b.ratio
    let digits := withPoint places (roundDiv (num * Nat.pow 10 places) den)
    String.ofList (if b.negative then '-' :: digits else digits)
  | none => if x.isNaN then "NaN" else if x < 0 then "-inf" else "inf"

end Decimal
end SourceSurvey
