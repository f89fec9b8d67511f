import SourceSurvey.Digest.Hex

/-!
# BLAKE3

The digest of 32 bytes that stands for the content of a file. A message is cut into chunks of 1024
bytes, a chunk into blocks of 64 bytes; the chunks are the leaves of a binary tree in which
neighbours are joined level by level and an odd one out moves up. The last joining, or the last
block of an only chunk, is marked as the root.
-/

namespace SourceSurvey
namespace Digest
namespace Blake3

/-- The eight words with which every chunk starts. -/
def iv : Array UInt32 :=
  #[0x6a09e667, 0xbb67ae85, 0x3c6ef372, 0xa54ff53a, 0x510e527f, 0x9b05688c, 0x1f83d9ab, 0x5be0cd19]

/-- The order in which the next round takes the words of the message. -/
def permutation : Array Nat := #[2, 6, 3, 10, 7, 0, 4, 13, 1, 11, 12, 5, 9, 14, 15, 8]

def chunkStart : UInt32 := 1
def chunkEnd : UInt32 := 2
def parent : UInt32 := 4
def root : UInt32 := 8

def rotateRight (x : UInt32) (n : UInt32) : UInt32 := (x >>> n) ||| (x <<< (32 - n))

/-- The word of up to four bytes, the lowest one first. -/
def word (bytes : List UInt8) : UInt32 :=
  bytes.foldr (fun b w => (w <<< 8) ||| b.toUInt32) 0

/-- The four bytes of a word, the lowest one first. -/
def bytes (w : UInt32) : List UInt8 :=
  [w.toUInt8, (w >>> 8).toUInt8, (w >>> 16).toUInt8, (w >>> 24).toUInt8]

/-- The sixteen words of a block; a short block is filled up with zeros. -/
def blockWords (block : List UInt8) : Array UInt32 :=
  let words := ((pieces 3 block).map word).toArray
  words ++ Array.replicate (16 - words.size) 0

/-- Mixes four words of the state with two words of the message. -/
def mix (v : Array UInt32) (a b c d : Nat) (x y : UInt32) : Array UInt32 :=
  let va := v.getD a 0 + v.getD b 0 + x
  let vd := rotateRight (v.getD d 0 ^^^ va) 16
  let vc := v.getD c 0 + vd
  let vb := rotateRight (v.getD b 0 ^^^ vc) 12
  let va := va + vb + y
  let vd := rotateRight (vd ^^^ va) 8
  let vc := vc + vd
  let vb := rotateRight (vb ^^^ vc) 7
  (((v.setIfInBounds a va).setIfInBounds b vb).setIfInBounds c vc).setIfInBounds d vd

/-- The places that the eight mixings of a round take: first the columns, then the diagonals. -/
def mixings : List (Nat × Nat × Nat × Nat) :=
  [(0, 4, 8, 12), (1, 5, 9, 13), (2, 6, 10, 14), (3, 7, 11, 15),
    (0, 5, 10, 15), (1, 6, 11, 12), (2, 7, 8, 13), (3, 4, 9, 14)]

/-- One round over the state. -/
def round (v m : Array UInt32) : Array UInt32 :=
  (mixings.foldl
    (fun (v, i) (a, b, c, d) => (mix v a b c d (m.getD i 0) (m.getD (i + 1) 0), i + 2)) (v, 0)).1

/-- The words of the message in the order of the next round. -/
def permute (m : Array UInt32) : Array UInt32 := permutation.map fun i => m.getD i 0

/-- The eight words that a block makes of the chaining words before it. -/
def compress (cv m : Array UInt32) (counter : Nat) (length flags : UInt32) : Array UInt32 :=
  let v := cv ++ iv.take 4 ++
    #[counter.toUInt32, (counter >>> 32).toUInt32, length, flags]
  let (v, _) := (List.range 7).foldl (fun (v, m) _ => (round v m, permute m)) (v, m)
  (Array.range 8).map fun i => v.getD i 0 ^^^ v.getD (i + 8) 0

/-- The chaining words of the blocks of a chunk. `flags` marks the last block. -/
def chunkBlocks (cv : Array UInt32) (counter : Nat) (first flags : UInt32) :
    List (List UInt8) → Array UInt32
  | [] => compress cv (blockWords []) counter 0 (first ||| chunkEnd ||| flags)
  | [block] =>
    compress cv (blockWords block) counter block.length.toUInt32 (first ||| chunkEnd ||| flags)
  | block :: rest =>
    chunkBlocks (compress cv (blockWords block) counter block.length.toUInt32 first) counter 0 flags
      rest

/-- The chaining words of a chunk. -/
def chunk (counter : Nat) (flags : UInt32) (content : List UInt8) : Array UInt32 :=
  chunkBlocks iv counter chunkStart flags (pieces 63 content)

/-- The chaining words of two neighbours. -/
def join (flags : UInt32) (left right : Array UInt32) : Array UInt32 :=
  compress iv (left ++ right) 0 64 (parent ||| flags)

/-- Joins neighbours; an odd one out stays. -/
def level : List (Array UInt32) → List (Array UInt32)
  | left :: right :: rest => join 0 left right :: level rest
  | rest => rest

theorem length_level (cvs : List (Array UInt32)) : (level cvs).length = (cvs.length + 1) / 2 := by
  fun_induction level cvs with
  | case1 left right rest ih => simp only [List.length_cons, ih]; omega
  | case2 rest h =>
    match rest, h with
    | [], _ => rfl
    | [_], _ => simp
    | a :: b :: r, h => exact absurd rfl (h a b r)

/-- The words of the root over at least two neighbours. -/
def tree (cvs : List (Array UInt32)) : Array UInt32 :=
  match cvs with
  | [] => iv
  | [only] => only
  | [left, right] => join root left right
  | a :: b :: c :: rest => tree (level (a :: b :: c :: rest))
  termination_by cvs.length
  decreasing_by simp only [length_level, List.length_cons]; omega

/-- The digest of a message. -/
def hash (message : List UInt8) : List UInt8 :=
  let words := match pieces 1023 message with
    | [] => chunk 0 root []
    | [only] => chunk 0 root only
    | chunks => tree (chunks.mapIdx fun i c => chunk i 0 c)
  words.toList.flatMap bytes

/-- The digest of a message as text. -/
def hexHash (message : List UInt8) : String := String.ofList (hex (hash message))

end Blake3
end Digest
end SourceSurvey
