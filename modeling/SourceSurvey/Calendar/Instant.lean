import SourceSurvey.Decimal.Fixed
import SourceSurvey.Text.Blank

/-!
# Instants

An instant is a number of seconds since 1970 in universal time and a number of nanoseconds. From a
thousand million nanoseconds on it lies in the leap second that follows its second. `Instant.print`
writes it as date and time with as many groups of three decimals as are needed; `Instant.parse?`
reads the same form with any offset and with some freedom in blanks, signs and leading zeros.
-/

namespace SourceSurvey

/-- A point in time. -/
structure Instant where
  seconds : Int
  nanos : Nat := 0
  deriving DecidableEq, Repr, Inhabited

namespace Instant

/-- The nanoseconds since 1970. -/
def total (t : Instant) : Int := t.seconds * 1000000000 + t.nanos

/-- The nanoseconds of a day. -/
def nanosPerDay : Int := 86400000000000

/-- The nanoseconds from an earlier instant to a later one. A leap second counts if the clock shows
a time after it at the other instant. -/
def since (later earlier : Instant) : Int :=
  let clock (t : Instant) := t.seconds % 86400
  let leap : Int :=
    if clock earlier < clock later && 1000000000 ≤ earlier.nanos then 1000000000
    else if clock later < clock earlier && 1000000000 ≤ later.nanos then -1000000000
    else 0
  later.total - earlier.total + leap

/-- The instant some microseconds after 1970. -/
def ofMicros (micros : Int) : Instant :=
  ⟨Int.fdiv micros 1000000, (Int.fmod micros 1000000).toNat * 1000⟩

/-! ## The calendar -/

/-- The number of days from 1970-01-01 to a date of the proleptic Gregorian calendar. Years are
counted from March, so that the leap day is the last day of a year. -/
def daysOf (year : Int) (month day : Nat) : Int :=
  let y := if month ≤ 2 then year - 1 else year
  let era := Int.fdiv y 400
  let yearOfEra := y - era * 400
  let monthFromMarch : Int := (month + 9) % 12
  let dayOfYear := Int.fdiv (153 * monthFromMarch + 2) 5 + day - 1
  let dayOfEra := yearOfEra * 365 + Int.fdiv yearOfEra 4 - Int.fdiv yearOfEra 100 + dayOfYear
  era * 146097 + dayOfEra - 719468

/-- The date of a day since 1970-01-01. -/
def dateOf (days : Int) : Int × Nat × Nat :=
  let z := days + 719468
  let era := Int.fdiv z 146097
  let dayOfEra := z - era * 146097
  let yearOfEra := Int.fdiv (dayOfEra - Int.fdiv dayOfEra 1460 + Int.fdiv dayOfEra 36524 -
    Int.fdiv dayOfEra 146096) 365
  let dayOfYear := dayOfEra -
    (365 * yearOfEra + Int.fdiv yearOfEra 4 - Int.fdiv yearOfEra 100)
  let monthFromMarch := Int.fdiv (5 * dayOfYear + 2) 153
  let day := dayOfYear - Int.fdiv (153 * monthFromMarch + 2) 5 + 1
  let month := if monthFromMarch < 10 then monthFromMarch + 3 else monthFromMarch - 9
  let year := yearOfEra + era * 400 + if month ≤ 2 then 1 else 0
  (year, month.toNat, day.toNat)

/-- Whether a year has a leap day. -/
def isLeap (year : Int) : Bool :=
  year % 4 == 0 && (year % 100 != 0 || year % 400 == 0)

/-- The number of days of a month. -/
def daysIn (year : Int) (month : Nat) : Nat :=
  match month with
  | 2 => if isLeap year then 29 else 28
  | 4 | 6 | 9 | 11 => 30
  | _ => 31

/-! ## Writing -/

/-- The decimals of a second: none, three, six or nine. -/
def printNanos (nanos : Nat) : List Char :=
  if nanos = 0 then []
  else if nanos % 1000000 = 0 then '.' :: Decimal.padded 3 (nanos / 1000000)
  else if nanos % 1000 = 0 then '.' :: Decimal.padded 6 (nanos / 1000)
  else '.' :: Decimal.padded 9 nanos

/-- A year with four digits, and with a sign outside of the first ten thousand. -/
def printYear (year : Int) : List Char :=
  if 0 ≤ year && year ≤ 9999 then Decimal.padded 4 year.toNat
  else (if year < 0 then '-' else '+') :: Decimal.padded 4 year.natAbs

/-- The text of an instant in universal time. -/
def print (t : Instant) : String :=
  let days := Int.fdiv t.seconds 86400
  let (year, month, day) := dateOf days
  let clock := (t.seconds - days * 86400).toNat
  let (leap, nanos) := if 1000000000 ≤ t.nanos then (1, t.nanos - 1000000000) else (0, t.nanos)
  String.ofList <|
    printYear year ++ '-' :: Decimal.padded 2 month ++ '-' :: Decimal.padded 2 day ++
      'T' :: Decimal.padded 2 (clock / 3600) ++ ':' :: Decimal.padded 2 (clock / 60 % 60) ++
      ':' :: Decimal.padded 2 (clock % 60 + leap) ++ printNanos nanos ++ ['Z']

/-! ## Reading -/

/-- Reads up to `most` digits, of which there has to be one. -/
def digits? (most : Nat) (cs : List Char) : Option (Nat × List Char) :=
  let digits := (cs.take most).takeWhile Char.isDigit
  if digits.isEmpty then none
  else some (digits.foldl (fun n c => n * 10 + (c.toNat - 48)) 0, cs.drop digits.length)

/-- Reads a number of at most two digits in a range, with blanks before it. -/
def field? (low high : Nat) (cs : List Char) : Option (Nat × List Char) := do
  let (n, rest) ← digits? 2 (Text.trimStart cs)
  if low ≤ n && n ≤ high then some (n, rest) else none

/-- Reads a separator with blanks before it. -/
def separator? (c : Char) (cs : List Char) : Option (List Char) :=
  match Text.trimStart cs with
  | d :: rest => if d == c then some rest else none
  | [] => none

/-- Reads a year: four digits at most, or a sign and any number of digits. -/
def year? (cs : List Char) : Option (Int × List Char) :=
  match Text.trimStart cs with
  | '-' :: rest => (digits? rest.length rest).map fun (n, rest) => (-(n : Int), rest)
  | '+' :: rest => (digits? rest.length rest).map fun (n, rest) => ((n : Int), rest)
  | cs => (digits? 4 cs).map fun (n, rest) => ((n : Int), rest)

/-- Reads the decimals of a second; those after the ninth are skipped. -/
def nanos? (cs : List Char) : Option (Nat × List Char) :=
  match cs with
  | '.' :: rest =>
    (digits? 9 rest).map fun (n, after) =>
      (n * Nat.pow 10 (9 - (rest.length - after.length)), after.dropWhile Char.isDigit)
  | cs => some (0, cs)

/-- Reads an offset in seconds: the letter of universal time or its name, or a sign, hours and
minutes with any colons and blanks between them. -/
def offset? (cs : List Char) : Option (Int × List Char) :=
  match cs with
  | 'Z' :: rest | 'z' :: rest => some (0, rest)
  | cs =>
    if (cs.take 3).map Char.toLower = ['u', 't', 'c'] then some (0, cs.drop 3)
    else match cs with
      | sign :: h₁ :: h₂ :: rest =>
        if (sign == '+' || sign == '-' || sign == '−') && h₁.isDigit && h₂.isDigit then
          match rest.dropWhile fun c => c == ':' || Text.isBlank c with
          | m₁ :: m₂ :: rest =>
            if m₁.isDigit && m₂.isDigit && m₁.toNat < 54 then
              let hours := (h₁.toNat - 48) * 10 + (h₂.toNat - 48)
              let minutes := (m₁.toNat - 48) * 10 + (m₂.toNat - 48)
              let seconds : Int := hours * 3600 + minutes * 60
              if seconds < 86400 then some (if sign == '+' then seconds else -seconds, rest)
              else none
            else none
          | _ => none
        else none
      | _ => none

/-- The years that have a date. -/
def inRange (year : Int) : Bool := -262143 ≤ year && year ≤ 262142

/-- The instant of a written date, time and offset. -/
def parse? (cs : List Char) : Option Instant := do
  let (year, rest) ← year? cs
  let rest ← separator? '-' rest
  let (month, rest) ← field? 1 12 rest
  let rest ← separator? '-' rest
  let (day, rest) ← field? 1 31 rest
  let rest ← match rest with
    | 'T' :: rest | 't' :: rest | ' ' :: rest => some rest
    | _ => none
  let (hour, rest) ← field? 0 23 rest
  let rest ← separator? ':' rest
  let (minute, rest) ← field? 0 59 rest
  let rest ← separator? ':' rest
  let (second, rest) ← field? 0 60 rest
  let (nanos, rest) ← nanos? rest
  let (offset, rest) ← offset? (Text.trimStart rest)
  if !(Text.trimStart rest).isEmpty || !inRange year || daysIn year month < day then none
  let (second, nanos) := if second = 60 then (59, nanos + 1000000000) else (second, nanos)
  let clock : Int := hour * 3600 + minute * 60 + second
  let seconds := daysOf year month day * 86400 + clock - offset
  if !inRange (dateOf (Int.fdiv seconds 86400)).1 then none
  return ⟨seconds, nanos⟩

/-- The instant of a written date, time and offset. -/
def ofString? (s : String) : Option Instant := parse? s.toList

end Instant
end SourceSurvey
