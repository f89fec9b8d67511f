import SourceSurvey.Text.Hex

/-!
# Bytes as hexadecimal text

Every byte is written as two digits, the high one first, in lower case.
-/

namespace SourceSurvey
namespace Digest

/-- The two digits of a byte. -/
def hexByte (b : UInt8) : List Char :=
  [Text.hexDigit (b.toNat / 16), Text.hexDigit (b.toNat % 16)]

/-- The digits of some bytes. -/
def hex (bytes : List UInt8) : List Char := bytes.flatMap hexByte

/-- Cuts a list into pieces of `n + 1` elements; the last piece may be shorter. -/
def pieces {α : Type} (n : Nat) (xs : List α) : List (List α) :=
  match xs with
  | [] => []
  | x :: rest => (x :: rest.take n) :: pieces n (rest.drop n)
  termination_by xs.length
  decreasing_by simp only [List.length_drop, List.length_cons]; omega

end Digest
end SourceSurvey
