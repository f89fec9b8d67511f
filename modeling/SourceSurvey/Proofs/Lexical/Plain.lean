import SourceSurvey.Proofs.Lexical.Ends

/-!
# Lines that leave nothing open

Only quotes, brackets and the hash mean something to the scanner outside of strings
(`Lexical.isMark`). A line leaves open what was open before it when it holds none of them
(`Lexical.advance_plain`), when it holds none before a comment (`Lexical.advance_comment`), and when
it holds one pair of parentheses (`Lexical.advance_group`).
-/

namespace SourceSurvey
namespace Lexical

variable {s : Lexical} {text before inner rest : List Char}

/-- The bytes that mean something outside of strings. -/
def isMarkByte (b : UInt8) : Bool := b == hash || isQuote b || isOpening b || isClosing b

/-- The characters that mean something outside of strings. -/
def isMark (c : Char) : Bool :=
  ['#', '"', '\'', '(', '[', '\x7b', ')', ']', '\x7d'].contains c

/-- Only the encoding of a mark holds the byte of one. -/
theorem isMarkByte_of_mem {c : Char} {b : UInt8} (hc : isMark c = false)
    (h : b ∈ String.utf8EncodeChar c) : isMarkByte b = false := by
  by_contra hb
  rw [Bool.not_eq_false] at hb
  have hmem : b ∈ ([35, 34, 39, 40, 91, 123, 41, 93, 125] : List UInt8) := by
    simpa [isMarkByte, hash, isQuote, isOpening, isClosing, or_assoc] using hb
  have hall : ∀ n ∈ ([35, 34, 39, 40, 91, 123, 41, 93, 125] : List UInt8).map UInt8.toNat,
      n < 128 ∧ isMark (Char.ofNat n) = true := by decide
  obtain ⟨hlow, hmark⟩ := hall b.toNat (List.mem_map_of_mem hmem)
  rw [← Text.toNat_eq_of_mem_utf8EncodeChar h hlow, Char.ofNat_toNat, hc] at hmark
  exact nomatch hmark

/-- A byte outside of strings that starts neither a string nor a comment. -/
theorem scan_code {b : UInt8} (hs : s.triple? = none) (hhash : (b == hash) = false)
    (hquote : isQuote b = false) (rest : List UInt8) :
    s.scan none (b :: rest) = (s.bracket b).scan none rest := by
  rw [scan_cons, hs]
  simp only [hhash, hquote, Bool.false_eq_true, if_false]

/-- Plain bytes are passed over. -/
theorem scan_plain_bytes {bytes : List UInt8} (hs : s.triple? = none)
    (h : ∀ b ∈ bytes, isMarkByte b = false) (rest : List UInt8) :
    s.scan none (bytes ++ rest) = s.scan none rest := by
  induction bytes with
  | nil => rfl
  | cons b bytes ih =>
    obtain ⟨hb, hbytes⟩ := List.forall_mem_cons.mp h
    simp only [isMarkByte, Bool.or_eq_false_iff] at hb
    obtain ⟨⟨⟨hhash, hquote⟩, hopening⟩, hclosing⟩ := hb
    have hbracket : s.bracket b = s := by simp [bracket, hopening, hclosing]
    rw [List.cons_append, scan_code hs hhash hquote, hbracket, ih hbytes]

/-- Plain characters are passed over. -/
theorem scan_plain (hs : s.triple? = none) (h : ∀ c ∈ text, isMark c = false) (rest : List UInt8) :
    s.scan none (Text.encode text ++ rest) = s.scan none rest :=
  scan_plain_bytes hs (fun b hb => by
    obtain ⟨c, hc, hb⟩ := List.mem_flatMap.mp hb
    exact isMarkByte_of_mem (h c hc) hb) rest

/-- A line without marks leaves open what was open. -/
theorem advance_plain (hs : s.triple? = none) (h : ∀ c ∈ text, isMark c = false) :
    s.advance text = s := by
  have hscan := scan_plain hs h []
  rwa [List.append_nil, scan_nil] at hscan

/-- A comment behind plain text is not read. -/
theorem advance_comment (hs : s.triple? = none) (h : ∀ c ∈ text, isMark c = false)
    (comment : List Char) : s.advance (text ++ '#' :: comment) = s := by
  have hhash : Text.encode ('#' :: comment) = hash :: Text.encode comment := rfl
  rw [advance, Text.encode_append, scan_plain hs h, hhash, scan_cons, hs]
  rfl

/-- A bracket that is opened and closed again counts for nothing, also where the counter wraps
around. -/
theorem max_add_sub {depth : Int32} (h : 0 ≤ depth) : max (depth + 1 - 1) 0 = depth := by
  rw [Int32.add_sub_cancel]
  show (if depth ≤ 0 then 0 else depth) = depth
  split
  case isTrue hle => exact Int32.le_antisymm h hle
  case isFalse => rfl

/-- A pair of parentheses leaves open what was open. -/
theorem advance_group (hs : s.triple? = none) (hdepth : 0 ≤ s.depth) (hbefore : ∀ c ∈ before, isMark c = false)
    (hinner : ∀ c ∈ inner, isMark c = false) (hrest : ∀ c ∈ rest, isMark c = false) :
    s.advance (before ++ '(' :: (inner ++ ')' :: rest)) = s := by
  have hopen (cs : List Char) : Text.encode ('(' :: cs) = 40 :: Text.encode cs := rfl
  have hclose (cs : List Char) : Text.encode (')' :: cs) = 41 :: Text.encode cs := rfl
  have hopened : s.bracket 40 = { s with depth := s.depth + 1 } := rfl
  have hclosed : ({ s with depth := s.depth + 1 } : Lexical).bracket 41 = s :=
    congrArg (fun depth => { s with depth }) (max_add_sub hdepth)
  rw [advance, Text.encode_append, scan_plain hs hbefore, hopen, scan_code hs rfl rfl, hopened,
    Text.encode_append, scan_plain (s := { s with depth := s.depth + 1 }) hs hinner, hclose,
    scan_code (s := { s with depth := s.depth + 1 }) hs rfl rfl, hclosed]
  exact advance_plain hs hrest

end Lexical
end SourceSurvey
