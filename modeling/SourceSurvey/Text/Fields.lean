/-!
# Cutting a list at separators

`fields sep xs` cuts a list at every separator and drops the separators: a list with `n`
separators has `n + 1` fields, and joining them with the separators gives the list back.
-/

namespace SourceSurvey
namespace Text

variable {α : Type}

/-- Puts an element in front of the first field, or opens a new field before a separator. -/
def consField (sep : α → Bool) (x : α) (fs : List (List α)) : List (List α) :=
  if sep x then [] :: fs
  else match fs with
    | [] => [[x]]
    | f :: rest => (x :: f) :: rest

/-- The pieces of a list between separators. -/
def fields (sep : α → Bool) (xs : List α) : List (List α) :=
  xs.foldr (consField sep) [[]]

@[simp] theorem fields_nil (sep : α → Bool) : fields sep [] = [[]] := rfl

theorem fields_cons (sep : α → Bool) (x : α) (xs : List α) :
    fields sep (x :: xs) = consField sep x (fields sep xs) := rfl

theorem fields_ne_nil (sep : α → Bool) (xs : List α) : fields sep xs ≠ [] := by
  cases xs with
  | nil => simp
  | cons x xs =>
    rw [fields_cons]
    unfold consField
    split
    · simp
    · split <;> simp

/-- The piece before the first separator. -/
def firstField (sep : α → Bool) (xs : List α) : List α := xs.takeWhile (fun x => !sep x)

/-- The piece after the last separator. -/
def lastField (sep : α → Bool) (xs : List α) : List α :=
  (firstField sep xs.reverse).reverse

/-- Cuts a list at the first occurrence of a pattern, which belongs to neither part. -/
def cutAt [BEq α] (pattern : List α) : List α → Option (List α × List α)
  | [] => if pattern.isEmpty then some ([], []) else none
  | x :: xs =>
    if pattern.isPrefixOf (x :: xs) then some ([], (x :: xs).drop pattern.length)
    else (cutAt pattern xs).map fun (before, rest) => (x :: before, rest)

end Text
end SourceSurvey
