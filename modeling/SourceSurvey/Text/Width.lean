import SourceSurvey.Text.WidthTable
import SourceSurvey.Text.Word

/-!
# Columns of a text

The number of columns that a text takes on a terminal: two for wide characters, none for marks,
one for all others.
-/

namespace SourceSurvey
namespace Text

/-- The columns of a character. -/
def columnsOf (c : Char) : Nat :=
  if c.toNat < 0xa0 then 1
  else if inTable zeroWidth c.toNat then 0
  else if inTable wide c.toNat then 2
  else 1

/-- The columns of a text. -/
def columns (cs : List Char) : Nat := (cs.map columnsOf).foldr (· + ·) 0

/-- A text filled up with blanks to a number of columns. -/
def padTo (width : Nat) (cs : List Char) : List Char :=
  cs ++ List.replicate (width - columns cs) ' '

end Text
end SourceSurvey
