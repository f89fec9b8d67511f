import SourceSurvey.Digest.Hex

/-!
# SHA-1

The digest of 20 bytes that name-based identifiers are cut from.
-/

namespace SourceSurvey
namespace Digest
namespace Sha1

/-- The five words that the blocks change. -/
structure State where
  a : UInt32
  b : UInt32
  c : UInt32
  d : UInt32
  e : UInt32

def start : State := ⟨0x67452301, 0xefcdab89, 0x98badcfe, 0x10325476, 0xc3d2e1f0⟩

def rotateLeft (x : UInt32) (n : UInt32) : UInt32 := (x <<< n) ||| (x >>> (32 - n))

/-- The word of four bytes, the highest one first. -/
def word : List UInt8 → UInt32
  | [a, b, c, d] => a.toUInt32 <<< 24 ||| b.toUInt32 <<< 16 ||| c.toUInt32 <<< 8 ||| d.toUInt32
  | _ => 0

/-- The four bytes of a word, the highest one first. -/
def bytes (w : UInt32) : List UInt8 :=
  [(w >>> 24).toUInt8, (w >>> 16).toUInt8, (w >>> 8).toUInt8, w.toUInt8]

/-- The message with a one bit, zeros up to eight bytes before the end of a block, and its length
in bits. -/
def pad (message : List UInt8) : List UInt8 :=
  let zeros := (119 - message.length % 64) % 64
  let bits := message.length * 8
  message ++ 0x80 :: List.replicate zeros 0 ++
    (List.range 8).map fun i => (bits / Nat.pow 256 (7 - i)).toUInt8

/-- The sixteen words of a block extended to eighty. -/
def schedule (block : List UInt8) : Array UInt32 :=
  (List.range 64).foldl
    (fun w i =>
      w.push (rotateLeft (w.getD (i + 13) 0 ^^^ w.getD (i + 8) 0 ^^^ w.getD (i + 2) 0 ^^^ w.getD i 0)
        1))
    ((pieces 3 block).map word).toArray

/-- The mixing function and the constant of a round. -/
def roundTerms (i : Nat) (b c d : UInt32) : UInt32 × UInt32 :=
  if i < 20 then ((b &&& c) ||| (~~~b &&& d), 0x5a827999)
  else if i < 40 then (b ^^^ c ^^^ d, 0x6ed9eba1)
  else if i < 60 then ((b &&& c) ||| (b &&& d) ||| (c &&& d), 0x8f1bbcdc)
  else (b ^^^ c ^^^ d, 0xca62c1d6)

/-- One of the eighty rounds. -/
def round (s : State) (i : Nat) (w : UInt32) : State :=
  let (f, k) := roundTerms i s.b s.c s.d
  ⟨rotateLeft s.a 5 + f + s.e + k + w, s.a, rotateLeft s.b 30, s.c, s.d⟩

/-- The state after a block. -/
def compress (s : State) (block : List UInt8) : State :=
  let w := schedule block
  let t := (List.range 80).foldl (fun t i => round t i (w.getD i 0)) s
  ⟨s.a + t.a, s.b + t.b, s.c + t.c, s.d + t.d, s.e + t.e⟩

/-- The digest of a message. -/
def hash (message : List UInt8) : List UInt8 :=
  let s := (pieces 63 (pad message)).foldl compress start
  [s.a, s.b, s.c, s.d, s.e].flatMap bytes

end Sha1
end Digest
end SourceSurvey
