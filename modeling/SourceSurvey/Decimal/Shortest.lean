import SourceSurvey.Decimal.Fixed

/-!
# The shortest decimal that reads back

Of all decimals that round to a given binary number the one with the fewest digits is written, and
of those the nearest. The decimals that round to `m · 2 ^ q` form an interval around it, whose ends
belong to it iff `m` is even.
-/

namespace SourceSurvey
namespace Decimal

/-- The interval of a number: its lower end, the number and its upper end, all multiplied by one
denominator. The gap below a power of two is half as wide. -/
structure Interval where
  low : Nat
  middle : Nat
  high : Nat
  den : Nat
  closed : Bool

/-- The interval of decimals that round to a positive number. -/
def Interval.of (b : Binary) : Interval :=
  let edge := b.mantissa = Nat.pow 2 52 && b.exponent ≠ -1074
  let up := if 0 ≤ b.exponent then Nat.pow 2 b.exponent.toNat else 1
  let down := if 0 ≤ b.exponent then 1 else Nat.pow 2 (-b.exponent).toNat
  { low := (4 * b.mantissa - if edge then 1 else 2) * up
    middle := 4 * b.mantissa * up
    high := (4 * b.mantissa + 2) * up
    den := 4 * down
    closed := b.mantissa % 2 = 0 }

/-- Whether `units` steps of `num / den` lie in the interval. -/
def Interval.contains (i : Interval) (units num den : Nat) : Bool :=
  let x := units * num * i.den
  if i.closed then i.low * den ≤ x && x ≤ i.high * den else i.low * den < x && x < i.high * den

/-- A step of the grid of decimals with an exponent, as a fraction. -/
def step (exponent : Int) : Nat × Nat :=
  if 0 ≤ exponent then (Nat.pow 10 exponent.toNat, 1) else (1, Nat.pow 10 (-exponent).toNat)

/-- The decimal of some exponent in the interval that is nearest to its number. -/
def onGrid? (i : Interval) (exponent : Int) : Option Nat :=
  let (num, den) := step exponent
  let lower := i.middle * den / (i.den * num)
  let nearest := roundDiv (i.middle * den) (i.den * num)
  let other := if nearest = lower then lower + 1 else lower
  if i.contains nearest num den then some nearest
  else if i.contains other num den then some other
  else none

/-- The digits and the exponent of the shortest decimal; the search goes from coarse grids to fine
ones. -/
def search (i : Interval) (exponent : Int) : Nat → Nat × Int
  | 0 => (0, exponent)
  | tries + 1 =>
    match onGrid? i exponent with
    | some units => (units, exponent)
    | none => search i (exponent - 1) tries

/-- The shortest digits of a positive number and their exponent. -/
def digitsOf (b : Binary) : Nat × Int :=
  search (Interval.of b) 310 640

/-- Where a written number changes from positional notation to an exponent. A number is written
positionally when the exponent of its first digit is in this range. -/
structure Style where
  lowest : Int
  highest : Int

/-- The text of digits with an exponent: positional with at least one decimal, or one digit before
the point and an exponent after an `e`. -/
def render (n : Style) (digits : List Char) (exponent : Int) : List Char :=
  let first := exponent + digits.length - 1
  if n.lowest ≤ first && first ≤ n.highest then
    if 0 ≤ exponent then digits ++ List.replicate exponent.toNat '0' ++ ['.', '0']
    else if 0 ≤ first then
      let whole := (first + 1).toNat
      digits.take whole ++ '.' :: digits.drop whole
    else '0' :: '.' :: (List.replicate (-first - 1).toNat '0' ++ digits)
  else
    let mantissa := match digits with
      | [d] => [d]
      | d :: rest => d :: '.' :: rest
      | [] => []
    mantissa ++ 'e' :: (toString first).toList

/-- Removes zeros at the end of digits and counts them. -/
def dropZeros (digits : List Char) : List Char × Nat :=
  let kept := (digits.reverse.dropWhile (· == '0')).reverse
  (kept, digits.length - kept.length)

/-- Numbers in JSON are written positionally from 1e-5 up to below 1e16. -/
def json : Style := ⟨-5, 15⟩

/-- The shortest text of a finite number. -/
def shortest (n : Style) (b : Binary) : String :=
  let text :=
    if b.mantissa = 0 then ['0', '.', '0']
    else
      let (units, exponent) := digitsOf b
      let (digits, zeros) := dropZeros (Nat.toDigits 10 units)
      render n digits (exponent + zeros)
  String.ofList (if b.negative then '-' :: text else text)

end Decimal
end SourceSurvey
