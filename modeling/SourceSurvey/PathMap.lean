import SourceSurvey.Path

/-!
# Maps from paths

A map keeps its entries in the order of `Path.order`. Paths with the same components are one key,
written as it was first inserted.
-/

namespace SourceSurvey

/-- A map from paths, as its entries in increasing order. -/
structure PathMap (α : Type) where
  entries : List (Path × α)

namespace PathMap

variable {α β : Type}

/-- The map without entries. -/
def empty : PathMap α := ⟨[]⟩

/-- Puts an entry into an ordered list of entries; a present key keeps its spelling. -/
def insertEntry (p : Path) (a : α) : List (Path × α) → List (Path × α)
  | [] => [(p, a)]
  | (q, b) :: rest =>
    match p.order q with
    | .lt => (p, a) :: (q, b) :: rest
    | .eq => (q, a) :: rest
    | .gt => (q, b) :: insertEntry p a rest

/-- The map with the value at a path set. -/
def insert (m : PathMap α) (p : Path) (a : α) : PathMap α := ⟨insertEntry p a m.entries⟩

/-- The map with these entries; the last of several entries at one path holds. -/
def ofList (entries : List (Path × α)) : PathMap α :=
  entries.foldl (fun m e => m.insert e.1 e.2) empty

/-- The value at a path. -/
def get? (m : PathMap α) (p : Path) : Option α :=
  (m.entries.find? fun e => p.same e.1).map Prod.snd

/-- Whether a path has a value. -/
def contains (m : PathMap α) (p : Path) : Bool := m.entries.any fun e => p.same e.1

/-- The map without a path. -/
def erase (m : PathMap α) (p : Path) : PathMap α := ⟨m.entries.filter fun e => !p.same e.1⟩

/-- The paths with a value, in order. -/
def keys (m : PathMap α) : List Path := m.entries.map Prod.fst

/-- The values in the order of their paths. -/
def values (m : PathMap α) : List α := m.entries.map Prod.snd

/-- The number of entries. -/
def size (m : PathMap α) : Nat := m.entries.length

end PathMap
end SourceSurvey
