/-!
# White space and trimming

`isBlank` is the Unicode white-space property. Trimming works on lists of characters: a front cut
is a `dropWhile`, an end cut is the same on the reversed list.
-/

namespace SourceSurvey
namespace Text

/-- The white-space characters of all scripts. -/
def isBlank (c : Char) : Bool :=
  let n := c.toNat
  (0x9 ≤ n && n ≤ 0xd) || n == 0x20 || n == 0x85 || n == 0xa0 || n == 0x1680 ||
    (0x2000 ≤ n && n ≤ 0x200a) || n == 0x2028 || n == 0x2029 || n == 0x202f || n == 0x205f ||
    n == 0x3000

/-- The text without its last characters that satisfy `p`. -/
def trimEndWhere (p : Char → Bool) (cs : List Char) : List Char :=
  (cs.reverse.dropWhile p).reverse

/-- The text without its first and last characters that satisfy `p`. -/
def trimWhere (p : Char → Bool) (cs : List Char) : List Char :=
  trimEndWhere p (cs.dropWhile p)

/-- The text without leading white space. -/
def trimStart (cs : List Char) : List Char := cs.dropWhile isBlank

/-- The text without white space at either end. -/
def trim (cs : List Char) : List Char := trimWhere isBlank cs

end Text
end SourceSurvey
