import SourceSurvey.Text.Fields
import SourceSurvey.Text.Blank

/-!
# Lines of a text

A line ends at a line feed; a text that does not end in one has a last line without it. Two
readings differ on carriage returns: `lines` drops one that stands directly before a line feed,
`bareLine` drops every one at the end of a line.
-/

namespace SourceSurvey
namespace Text

/-- The pieces of a list that a terminator ends; an empty rest after the last one is no piece. -/
def terminated {α : Type} (stop : α → Bool) (xs : List α) : List (List α) :=
  let pieces := fields stop xs
  match pieces.getLast? with
  | some [] => pieces.dropLast
  | _ => pieces

/-- The line without one final carriage return. -/
def dropReturn (line : List Char) : List Char :=
  if line.getLast? = some '\r' then line.dropLast else line

/-- The lines of a text, each without the line feed or the carriage return and line feed that end
it. A carriage return at the end of an unfinished last line belongs to that line. -/
def lines (text : List Char) : List (List Char) :=
  let pieces := fields (· == '\n') text
  let finished := pieces.dropLast.map dropReturn
  match pieces.getLast? with
  | none | some [] => finished
  | some rest => finished ++ [rest]

/-- The line without the carriage returns and line feeds at its end. -/
def bareLine (line : List Char) : List Char :=
  trimEndWhere (fun c => c == '\n' || c == '\r') line

/-- The text of bytes in UTF-8, if they are well formed. -/
def decode? (bytes : List UInt8) : Option (List Char) :=
  (String.fromUTF8? ⟨bytes.toArray⟩).map String.toList

/-- The bytes of a text in UTF-8. -/
def encode (text : List Char) : List UInt8 := text.flatMap String.utf8EncodeChar

/-- The number of bytes of a text in UTF-8. -/
def byteLength (text : List Char) : Nat := (text.map Char.utf8Size).foldr (· + ·) 0

end Text
end SourceSurvey
