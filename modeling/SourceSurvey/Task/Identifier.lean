import SourceSurvey.Digest.Sha1
import SourceSurvey.Path

/-!
# Task identifiers

A task is known by an identifier of 16 bytes that its path determines: the name-based identifier of
the path as a file location. Identifiers are written as hyphenated lower-case hexadecimal digits;
`TaskId.parse?` also reads them without hyphens, in braces and as a resource name.
-/

namespace SourceSurvey

/-- An identifier, as its hexadecimal digits without hyphens. -/
structure TaskId where
  digits : List Char
  deriving DecidableEq, Repr

namespace TaskId

/-- The name space of locations. -/
def locations : List UInt8 :=
  [0x6b, 0xa7, 0xb8, 0x11, 0x9d, 0xad, 0x11, 0xd1, 0x80, 0xb4, 0x00, 0xc0, 0x4f, 0xd4, 0x30, 0xc8]

/-- The identifier that a digest gives: its first 16 bytes with the version and the variant set. -/
def ofDigest (digest : List UInt8) : TaskId :=
  ⟨Digest.hex <| (digest.take 16).mapIdx fun i b =>
    if i = 6 then (b &&& 0x0f) ||| 0x50 else if i = 8 then (b &&& 0x3f) ||| 0x80 else b⟩

/-- The identifier of the task for a path. -/
def ofPath (p : Path) : TaskId :=
  ofDigest (Digest.Sha1.hash (locations ++ ("file://" ++ p.text).toUTF8.toList))

/-- The version that an identifier states. -/
def version (id : TaskId) : Nat := ((id.digits[12]?.bind Text.hexValue?).getD 0)

/-- The places of the hyphens in the written form. -/
def hyphens : List Nat := [8, 13, 18, 23]

/-- The written form: groups of 8, 4, 4, 4 and 12 digits. -/
def text (id : TaskId) : String :=
  let d := id.digits
  String.ofList <| d.take 8 ++ '-' :: (d.drop 8).take 4 ++ '-' :: (d.drop 12).take 4 ++
    '-' :: (d.drop 16).take 4 ++ '-' :: d.drop 20

/-- The identifier of 32 digits in either case. -/
def ofDigits? (cs : List Char) : Option TaskId :=
  if cs.length = 32 then
    (cs.mapM fun c => (Text.hexValue? c).map Text.hexDigit).map TaskId.mk
  else none

/-- The identifier of 36 characters with hyphens at their places. -/
def ofHyphenated? (cs : List Char) : Option TaskId :=
  if cs.length = 36 && hyphens.all (fun i => cs[i]? == some '-') then
    ofDigits? (cs.zipIdx.filterMap fun (c, i) => if hyphens.contains i then none else some c)
  else none

/-- The identifier that a text denotes. -/
def parse? (s : String) : Option TaskId :=
  let cs := s.toList
  match cs.length with
  | 32 => ofDigits? cs
  | 36 => ofHyphenated? cs
  | 38 =>
    if cs.head? = some '\x7b' && cs.getLast? = some '\x7d' then ofHyphenated? (cs.tail.dropLast)
    else none
  | 45 => if "urn:uuid:".toList.isPrefixOf cs then ofHyphenated? (cs.drop 9) else none
  | _ => none

end TaskId
end SourceSurvey
