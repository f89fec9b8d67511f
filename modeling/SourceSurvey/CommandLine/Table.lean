import SourceSurvey.Text.Fields
import SourceSurvey.Text.Width

/-!
# Tables

A table of texts in a frame. Every column is as wide as its widest line; a cell with several lines
makes its row as high as it needs.
-/

namespace SourceSurvey
namespace CommandLine

/-- The lines of a cell. -/
abbrev TableCell := List (List Char)

/-- A row of cells. -/
abbrev Row := List TableCell

/-- The cells of some texts, cut at line feeds. -/
def rowOf (texts : List String) : Row := texts.map fun s => Text.fields (· == '\n') s.toList

/-- The width of a cell. -/
def cellWidth (c : TableCell) : Nat := (c.map Text.columns).foldl max 0

/-- The widths of the columns of some rows; every row has `count` cells. -/
def columnWidths (count : Nat) (rows : List Row) : List Nat :=
  rows.foldl (fun ws row => List.zipWith max ws (row.map cellWidth)) (List.replicate count 0)

/-- The characters of a horizontal line of the frame. -/
structure Rule where
  left : Char
  fill : Char
  cross : Char
  right : Char

/-- The line above the table. -/
def Rule.top : Rule := ⟨'┌', '─', '┬', '┐'⟩

/-- The line below the heads of the columns. -/
def Rule.head : Rule := ⟨'╞', '═', '╪', '╡'⟩

/-- The line between two rows. -/
def Rule.between : Rule := ⟨'├', '╌', '┼', '┤'⟩

/-- The line below the table. -/
def Rule.bottom : Rule := ⟨'└', '─', '┴', '┘'⟩

/-- A horizontal line over columns of some widths. -/
def Rule.draw (r : Rule) (widths : List Nat) : List Char :=
  r.left :: ([r.cross].intercalate (widths.map fun w => List.replicate (w + 2) r.fill) ++ [r.right])

/-- The line of a row at a height; a cell without a line there is blank. -/
def drawLine (widths : List Nat) (row : Row) (height : Nat) : List Char :=
  let cells := List.zipWith (fun w c => ' ' :: (Text.padTo w (c.getD height []) ++ [' '])) widths row
  '│' :: (['┆'].intercalate cells ++ ['│'])

/-- The lines of a row. -/
def drawRow (widths : List Nat) (row : Row) : List (List Char) :=
  (List.range ((row.map List.length).foldl max 0)).map (drawLine widths row)

/-- The lines of a table with heads over its columns. -/
def drawTable (heads : List String) (rows : List (List String)) : List (List Char) :=
  let head := rowOf heads
  let rows := rows.map rowOf
  let widths := columnWidths heads.length (head :: rows)
  let body := [Rule.between.draw widths].intercalate (rows.map (drawRow widths))
  Rule.top.draw widths :: (drawRow widths head ++ Rule.head.draw widths :: body) ++
    [Rule.bottom.draw widths]

end CommandLine
end SourceSurvey
