import SourceSurvey.Text.WordTable

/-!
# Letters, digits and word characters

Two classes that differ on marks and numbers: `isAlphanumeric` counts letters and numbers of every
kind, `isWordChar` counts letters, marks, decimal digits, connectors and the two joiners.
-/

namespace SourceSurvey
namespace Text

/-- Whether a code point lies in one of the closed ranges of a table. -/
def inTable (table : Array (Nat × Nat)) (n : Nat) : Bool :=
  table.any fun r => r.1 ≤ n && n ≤ r.2

/-- Letters and numbers of any script. -/
def isAlphanumeric (c : Char) : Bool :=
  if c.toNat < 128 then c.isAlphanum
  else inTable alphabetic c.toNat || inTable decimalDigits c.toNat || inTable otherNumbers c.toNat

/-- The characters that continue a name. -/
def isWordChar (c : Char) : Bool :=
  if c.toNat < 128 then c.isAlphanum || c == '_'
  else inTable alphabetic c.toNat || inTable decimalDigits c.toNat || inTable marks c.toNat ||
    inTable connectors c.toNat || c.toNat == 0x200c || c.toNat == 0x200d

/-- The characters that start a name: an ASCII letter or the underscore. -/
def isNameStart (c : Char) : Bool := c.isAlpha || c == '_'

end Text
end SourceSurvey
