import SourceSurvey.Json.Basic

/-!
# Reading records from JSON values

A record with named fields is read from an object, in which unknown fields are ignored and a known
field stands at most once, or from an array that lists the fields in their order. A choice among
names is read from a string, or from an object whose only field is such a name with a value that
says nothing. A `Dialect` decides what says nothing and whether an array may be too long.
-/

namespace SourceSurvey
namespace Json

/-- What formats with the same values differ in. -/
structure Dialect where
  saysNothing : Json → Bool
  longArrays : Bool

/-- The rules of JSON: `null` says nothing and an array for a record has no further items. -/
def plain : Dialect := ⟨fun | null => true | _ => false, false⟩

/-- The values of the named fields, in the order of the names. A field is absent when an object
does not mention it and when an array is too short for it. -/
def Dialect.record? (d : Dialect) (names : List String) : Json → Option (List (Option Json))
  | object fields =>
    if names.all fun n => (fields.filter fun f => f.1 == n).length ≤ 1 then
      some (names.map fun n => fields.lookup n)
    else none
  | array items =>
    if items.length ≤ names.length || d.longArrays then
      some ((items.take names.length).map some ++
        List.replicate (names.length - items.length) none)
    else none
  | _ => none

/-- A choice among named values. -/
def Dialect.choice? {α : Type} (d : Dialect) (choices : List (String × α)) : Json → Option α
  | string s => choices.lookup s
  | object [(s, j)] => if d.saysNothing j then choices.lookup s else none
  | _ => none

/-- The values of the named fields of a JSON value. -/
def record? (names : List String) (j : Json) : Option (List (Option Json)) := plain.record? names j

/-- The value of a field that has to be there. -/
def required {α : Type} (f : Json → Option α) (j : Option Json) : Option α := j.bind f

/-- The value of a field that has a default. -/
def defaulted {α : Type} (f : Json → Option α) (d : α) : Option Json → Option α
  | none => some d
  | some j => f j

/-- A value or `null`. -/
def nullable {α : Type} (f : Json → Option α) : Json → Option (Option α)
  | null => some none
  | j => (f j).map some

/-- A string. -/
def string? : Json → Option String
  | string s => some s
  | _ => none

/-- A truth value. -/
def bool? : Json → Option Bool
  | bool b => some b
  | _ => none

/-- A natural number of at most `bits` bits. -/
def word? (bits : Nat) : Json → Option Nat
  | natural n => if n < Nat.pow 2 bits then some n else none
  | _ => none

/-- A natural number of at most 64 bits. -/
def natural? (j : Json) : Option Nat := j.word? 64

/-- A list of values. -/
def list? {α : Type} (f : Json → Option α) : Json → Option (List α)
  | array items => items.mapM f
  | _ => none

/-- A choice among named values of a JSON value. -/
def choice? {α : Type} (choices : List (String × α)) (j : Json) : Option α := plain.choice? choices j

end Json
end SourceSurvey
