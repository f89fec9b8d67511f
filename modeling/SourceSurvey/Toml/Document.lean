import SourceSurvey.Json.Basic

/-!
# TOML documents under construction

A document is built line by line. A header opens a table, a key with dots goes through tables that
dotted keys made, and no table is opened twice: each table remembers how it came to be.
-/

namespace SourceSurvey
namespace Toml

/-- How a table came to be: on the way to a table that a header opened, by a header, or by a key
with dots. -/
inductive Origin where
  | passed
  | header
  | dotted
  deriving DecidableEq, Repr

/-- A part of a document: a value, a table or a list of tables. -/
inductive Node where
  | leaf (value : Json)
  | table (origin : Origin) (fields : List (String × Node))
  | tables (items : List (List (String × Node)))

/-- The fields of a table. -/
abbrev Fields := List (String × Node)

/-- The fields with the node at a present key replaced. -/
def replace (key : String) (node : Node) (fields : Fields) : Fields :=
  fields.map fun (k, n) => if k == key then (k, node) else (k, n)

/-- The fields with a value at a key of one or more parts; the key has to be new and may pass
through tables that no header opened. -/
def assign (value : Json) (fields : Fields) : List String → Option Fields
  | [] => none
  | [key] =>
    match fields.lookup key with
    | none => some (fields ++ [(key, .leaf value)])
    | some _ => none
  | key :: rest =>
    match fields.lookup key with
    | none => (assign value [] rest).map fun sub => fields ++ [(key, .table .dotted sub)]
    | some (.table origin sub) =>
      if origin = .header then none
      else (assign value sub rest).map fun sub => replace key (.table origin sub) fields
    | some _ => none

/-- The fields changed at the place that a header names. The last part of the name is up to
`change`; the parts before it pass through tables and the last items of lists. -/
def through (change : String → Fields → Option Fields) (fields : Fields) :
    List String → Option Fields
  | [] => none
  | [key] => change key fields
  | key :: rest =>
    match fields.lookup key with
    | none => (through change [] rest).map fun sub => fields ++ [(key, .table .passed sub)]
    | some (.table origin sub) =>
      (through change sub rest).map fun sub => replace key (.table origin sub) fields
    | some (.tables items) =>
      match items.getLast? with
      | none => none
      | some last =>
        (through change last rest).map fun sub =>
          replace key (.tables (items.dropLast ++ [sub])) fields
    | some (.leaf _) => none

/-- Opens a table, which is new or was only passed so far. -/
def openTable (key : String) (fields : Fields) : Option Fields :=
  match fields.lookup key with
  | none => some (fields ++ [(key, .table .header [])])
  | some (.table .passed sub) => some (replace key (.table .header sub) fields)
  | some _ => none

/-- Adds an empty table to a list of tables, which is new or was opened so before. -/
def openItem (key : String) (fields : Fields) : Option Fields :=
  match fields.lookup key with
  | none => some (fields ++ [(key, .tables [[]])])
  | some (.tables items) => some (replace key (.tables (items ++ [[]])) fields)
  | some _ => none

/-- Sets a value in the table that the last header opened. -/
def assignIn (path : List String) (key : List String) (value : Json) (fields : Fields) :
    Option Fields :=
  if path.isEmpty then assign value fields key
  else
    through
      (fun last fields =>
        match fields.lookup last with
        | some (.table origin sub) =>
          (assign value sub key).map fun sub => replace last (.table origin sub) fields
        | some (.tables items) =>
          match items.getLast? with
          | none => none
          | some item =>
            (assign value item key).map fun sub =>
              replace last (.tables (items.dropLast ++ [sub])) fields
        | _ => none)
      fields path

mutual

/-- The value of a finished part. -/
def Node.value : Node → Json
  | .leaf j => j
  | .table _ fields => .object (fieldValues fields)
  | .tables items => .array (itemValues items)

/-- The values of finished fields. -/
def fieldValues : Fields → List (String × Json)
  | [] => []
  | (k, n) :: rest => (k, n.value) :: fieldValues rest

/-- The values of finished tables. -/
def itemValues : List Fields → List Json
  | [] => []
  | item :: rest => .object (fieldValues item) :: itemValues rest

end

end Toml
end SourceSurvey
