/-!
# The memory ledger

`Ledger` books reservations against a limit. It is a record of what was promised and measures
nothing. Amounts are any type with the operations of `Amount`: the program runs with floating-point
megabytes, and exact rationals obey the same rules without rounding.
-/

namespace SourceSurvey

/-- Quantities that a ledger adds up. -/
class Amount (α : Type) where
  zero : α
  add : α → α → α
  sub : α → α → α
  larger : α → α → α
  exceeds : α → α → Bool
  within : α → α → Bool

/-- The larger of two numbers; the other one where one is no number. -/
def Float.larger (a b : Float) : Float :=
  if a.isNaN then b else if b.isNaN then a else if a ≤ b then b else a

instance : Amount Float where
  zero := 0
  add := (· + ·)
  sub := (· - ·)
  larger := Float.larger
  exceeds a b := b < a
  within a b := a ≤ b

/-- The limit, the sum that is booked and the largest sum so far. -/
structure Ledger (α : Type) where
  limit : α
  allocated : α
  peak : α
  deriving Repr

namespace Ledger

variable {α : Type} [Amount α]

open Amount

/-- The ledger without bookings. -/
def ofLimit (limit : α) : Ledger α := ⟨limit, zero, zero⟩

/-- Whether an amount fits beside what is booked. -/
def canAllocate (l : Ledger α) (amount : α) : Bool := within (add l.allocated amount) l.limit

/-- Books an amount whether it fits or not. -/
def reserve (l : Ledger α) (amount : α) : Ledger α :=
  { l with
    allocated := add l.allocated amount
    peak := larger l.peak (add l.allocated amount) }

/-- Books an amount unless the sum would exceed the limit. -/
def tryReserve (l : Ledger α) (amount : α) : Option (Ledger α) :=
  if exceeds (add l.allocated amount) l.limit then none else some (l.reserve amount)

/-- Takes an amount back; the sum does not fall below zero. -/
def release (l : Ledger α) (amount : α) : Ledger α :=
  { l with allocated := larger (sub l.allocated amount) zero }

/-- Starts a new record of the largest sum. -/
def resetPeak (l : Ledger α) : Ledger α := { l with peak := l.allocated }

/-- The share of the limit that is booked, in percent; all of a limit that is not positive. -/
def utilization (l : Ledger Float) : Float :=
  if l.limit ≤ 0 then 100 else l.allocated / l.limit * 100

end Ledger

/-- The bytes of a megabyte. -/
def bytesPerMegabyte : Float := 1048576

/-- The megabytes to reserve for a file: three times its size, at least one. -/
def estimateMegabytes (size : Nat) : Float :=
  Float.larger (Float.ofNat size * 3 / bytesPerMegabyte) 1

end SourceSurvey
