/-!
# JSON values

Objects keep their fields in the order of the text, repeated keys included. A number is a natural
number or else its own text. `unreadable` stands for text that is well-formed JSON and yet denotes
no value: a string, or a key of an object, with half of a surrogate pair.
-/

namespace SourceSurvey

/-- A JSON value. -/
inductive Json where
  | null
  | bool (b : Bool)
  | natural (n : Nat)
  | decimal (text : String)
  | string (s : String)
  | array (items : List Json)
  | object (fields : List (String × Json))
  | unreadable
  deriving Inhabited, Repr

namespace Json

/-- The value of the first field with this key. -/
def field? (j : Json) (key : String) : Option Json :=
  match j with
  | object fields => fields.lookup key
  | _ => none

/-- A list of strings. -/
def strings (xs : List String) : Json := array (xs.map string)

/-- A value or `null`. -/
def optional {α : Type} (f : α → Json) : Option α → Json
  | none => null
  | some a => f a

end Json
end SourceSurvey
