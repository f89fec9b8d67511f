import Mathlib.Algebra.Group.Nat.Defs
import SourceSurvey.Lexical.Modes
import SourceSurvey.Proofs.Lexical.Cursor
import SourceSurvey.Proofs.Lexical.Plain

/-!
# Bytes and characters of a line

The scanner goes through the bytes of a line and drops one byte after a backslash, the automaton of
`Lexical.Reader.read` goes through its characters and drops one character. They agree, for no byte
of a character beyond ASCII means anything: what is left of a character behind its first byte is
passed over in every string, so that dropping one byte is as good as dropping the character.

* `Lexical.scan_wide`: bytes beyond ASCII are passed over.
* `Lexical.resume_code_cons`, `Lexical.resume_quoted_cons`, `Lexical.resume_tripled_cons`: what the
  scanner does at one character, with the characters that it takes with it. `Lexical.Reader.read_cons`
  says the same of the automaton.
* `Lexical.resume_encode`: the scanner and the automaton leave the same open, in whatever mode they
  start.
* `Lexical.Reader.read_natural`: a machine integer counts brackets as long as there is room for them.
* `Lexical.walk_line`: the walk by index, the scanner and the automaton from the state before a line.
-/

namespace SourceSurvey

/-! ## Bytes of a character -/

namespace Text

variable {c d : Char} {b : UInt8} {bytes : List UInt8} {text : List Char}

/-- The byte of a character of ASCII. -/
def byte (c : Char) : UInt8 := c.toNat.toUInt8

theorem toNat_byte (h : c.toNat < 128) : (byte c).toNat = c.toNat := by
  rw [byte, Nat.toUInt8, UInt8.toNat_ofNat']
  omega

theorem byte_lt (h : c.toNat < 128) : byte c < 128 := by
  rwa [UInt8.lt_iff_toNat_lt, toNat_byte h]

theorem byte_inj (hc : c.toNat < 128) (hd : d.toNat < 128) : byte c = byte d ↔ c = d := by
  constructor
  · intro h
    rw [← Char.toNat_inj, ← toNat_byte hc, h, toNat_byte hd]
  · rintro rfl
    rfl

theorem toNat_ofNat {n : Nat} (h : n < 128) : (Char.ofNat n).toNat = n := by
  rw [Char.ofNat, dif_pos (.inl (by omega))]
  exact BitVec.toNat_ofNatLT ..

theorem encode_cons_of_lt (h : c.toNat < 128) (text : List Char) :
    encode (c :: text) = byte c :: encode text := by
  have hv : c.val.toNat ≤ 127 := Nat.le_of_lt_succ h
  rw [encode_cons, String.utf8EncodeChar, if_pos hv]
  rfl

theorem utf8EncodeChar_ne_nil (c : Char) : String.utf8EncodeChar c ≠ [] := by
  rw [← List.length_pos_iff, String.length_utf8EncodeChar]
  exact c.utf8Size_pos

/-- The bytes of a character beyond ASCII are not those of ASCII. -/
theorem le_of_mem_utf8EncodeChar (h : 128 ≤ c.toNat) (hb : b ∈ String.utf8EncodeChar c) : 128 ≤ b := by
  by_contra hlow
  rw [UInt8.le_iff_toNat_le, Nat.not_le] at hlow
  have := toNat_eq_of_mem_utf8EncodeChar hb hlow
  have : UInt8.toNat 128 = 128 := rfl
  omega

/-- Nor are the bytes of any character behind its first one. -/
theorem le_of_mem_tail_utf8EncodeChar (hb : b ∈ (String.utf8EncodeChar c).tail) : 128 ≤ b := by
  by_cases h : c.toNat < 128
  · have hone := encode_cons_of_lt h []
    rw [encode_cons, encode_nil, List.append_nil] at hone
    rw [hone] at hb
    exact nomatch hb
  · exact le_of_mem_utf8EncodeChar (Nat.not_lt.mp h) (List.mem_of_mem_tail hb)

/-- The byte of ASCII in front of an encoded text is its first character. -/
theorem exists_of_encode_eq_cons (hd : d.toNat < 128) (h : encode text = byte d :: bytes) :
    ∃ rest, text = d :: rest ∧ encode rest = bytes := by
  cases text with
  | nil => exact nomatch h
  | cons c rest =>
    have hmem : byte d ∈ String.utf8EncodeChar c := by
      obtain ⟨first, more, hbytes⟩ := List.exists_cons_of_ne_nil (utf8EncodeChar_ne_nil c)
      rw [encode_cons, hbytes, List.cons_append, List.cons.injEq] at h
      rw [hbytes, h.1]
      exact List.mem_cons_self
    have hc : c = d := by
      rw [← Char.toNat_inj, ← toNat_byte hd]
      exact toNat_eq_of_mem_utf8EncodeChar hmem (by rwa [toNat_byte hd])
    subst hc
    rw [encode_cons_of_lt hd] at h
    exact ⟨rest, rfl, (List.cons.inj h).2⟩

/-- A text starts with a character of ASCII twice where its encoding starts with the byte twice. -/
theorem take_encode_iff (hd : d.toNat < 128) (text : List Char) :
    (encode text).take 2 = [byte d, byte d] ↔ text.take 2 = [d, d] := by
  constructor
  · intro h
    have hbytes : encode text = byte d :: byte d :: (encode text).drop 2 := by
      conv => lhs; rw [← List.take_append_drop 2 (encode text), h]
      rfl
    obtain ⟨more, rfl, hmore⟩ := exists_of_encode_eq_cons hd hbytes
    obtain ⟨rest, rfl, -⟩ := exists_of_encode_eq_cons hd hmore
    rfl
  · intro h
    rw [← List.take_append_drop 2 text, h, List.cons_append, List.singleton_append,
      encode_cons_of_lt hd, encode_cons_of_lt hd]
    rfl

theorem drop_encode (hd : d.toNat < 128) (h : text.take 2 = [d, d]) :
    (encode text).drop 2 = encode (text.drop 2) := by
  conv => lhs; rw [← List.take_append_drop 2 text, h, List.cons_append, List.singleton_append,
      encode_cons_of_lt hd, encode_cons_of_lt hd]
  rfl

end Text

namespace Lexical

open Text (byte encode)

variable {s : Lexical} {quote? : Option UInt8} {bytes : List UInt8} {b n : UInt8} {c q : Char}

/-- What the scanner leaves open when it comes to the bytes in a mode of the automaton. -/
def resume (depth : Int32) (mode : Mode) (bytes : List UInt8) : Lexical :=
  match mode with
  | .code => scan { depth } none bytes
  | .quoted q => scan { depth } (some (byte q)) bytes
  | .tripled q => scan { depth, triple? := some (byte q) } none bytes
  | .comment => { depth }

/-! ## Bytes beyond ASCII -/

theorem beq_of_wide (hb : 128 ≤ b) (hn : n < 128) : (b == n) = false := by
  rw [beq_eq_false_iff_ne]
  rintro rfl
  exact absurd hb (UInt8.not_le.mpr hn)

theorem isMarkByte_of_wide (hb : 128 ≤ b) : isMarkByte b = false := by
  have hne (n : UInt8) (hn : n < 128 := by decide) : (b == n) = false := beq_of_wide hb hn
  simp only [isMarkByte, isQuote, isOpening, isClosing, hash, hne 34, hne 35, hne 39, hne 40, hne 41,
    hne 91, hne 93, hne 123, hne 125, Bool.or_self]

/-- Bytes beyond ASCII are passed over, in strings whose quote is of ASCII and outside of strings. -/
theorem scan_wide (hs : ∀ q ∈ s.triple?, q < 128) (hquote : ∀ q ∈ quote?, q < 128)
    (hwide : ∀ b ∈ bytes, 128 ≤ b) (rest : List UInt8) :
    s.scan quote? (bytes ++ rest) = s.scan quote? rest := by
  by_cases hcode : s.triple? = none ∧ quote? = none
  · obtain ⟨htriple, rfl⟩ := hcode
    exact scan_plain_bytes htriple (fun b hb => isMarkByte_of_wide (hwide b hb)) rest
  · induction bytes with
    | nil => rfl
    | cons b bytes ih =>
      obtain ⟨hb, hbytes⟩ := List.forall_mem_cons.mp hwide
      rw [List.cons_append, scan_cons]
      split
      · rename_i q htriple
        rw [beq_of_wide hb (by decide), beq_of_wide hb (hs q htriple)]
        exact ih hbytes
      · rename_i q _
        rw [beq_of_wide hb (by decide), beq_of_wide hb (hquote q rfl)]
        exact ih hbytes
      · rename_i htriple
        exact absurd ⟨htriple, rfl⟩ hcode

/-- Dropping the first byte of a character is as good as dropping the character. -/
theorem scan_drop_encode (hs : ∀ q ∈ s.triple?, q < 128) (hquote : ∀ q ∈ quote?, q < 128)
    (text : List Char) :
    s.scan quote? ((encode text).drop 1) = s.scan quote? (encode (text.drop 1)) := by
  cases text with
  | nil => rfl
  | cons c rest =>
    rw [Text.encode_cons, List.drop_one, List.tail_append_of_ne_nil (Text.utf8EncodeChar_ne_nil c)]
    exact scan_wide hs hquote (fun b => Text.le_of_mem_tail_utf8EncodeChar) (encode rest)

/-- A character beyond ASCII is passed over. -/
theorem scan_encode_wide (hs : ∀ q ∈ s.triple?, q < 128) (hquote : ∀ q ∈ quote?, q < 128)
    (hc : 128 ≤ c.toNat) (rest : List Char) :
    s.scan quote? (encode (c :: rest)) = s.scan quote? (encode rest) := by
  rw [Text.encode_cons]
  exact scan_wide hs hquote (fun b => Text.le_of_mem_utf8EncodeChar hc) (encode rest)

theorem ne_of_wide (hc : ¬ c.toNat < 128) (hq : q.toNat < 128) : c ≠ q := by
  rintro rfl
  exact hc hq

/-! ## One character -/

/-- The scanner at a character between triple quotes. -/
theorem resume_tripled_cons (hq : q.toNat < 128) (depth : Int32) (c : Char) (rest : List Char) :
    resume depth (.tripled q) (encode (c :: rest)) =
      if c = '\\' then resume depth (.tripled q) (encode (rest.drop 1))
      else if c = q ∧ rest.take 2 = [q, q] then resume depth .code (encode (rest.drop 2))
      else resume depth (.tripled q) (encode rest) := by
  have hs : ∀ n ∈ some (byte q), n < 128 := by
    rintro n ⟨⟩
    exact Text.byte_lt hq
  have hquote : ∀ n ∈ (none : Option UInt8), n < 128 := fun _ h => nomatch h
  by_cases hc : c.toNat < 128
  · have hslash : byte c = backslash ↔ c = '\\' := Text.byte_inj (d := '\\') hc (by decide)
    simp only [resume, Text.encode_cons_of_lt hc, scan_cons, beq_iff_eq, Bool.and_eq_true, hslash,
      Text.byte_inj hc hq, Text.take_encode_iff hq]
    split
    · exact scan_drop_encode hs hquote rest
    · split
      · rename_i h
        rw [Text.drop_encode hq h.2]
      · rfl
  · rw [if_neg (ne_of_wide hc (by decide)), if_neg fun h => ne_of_wide hc hq h.1]
    exact scan_encode_wide hs hquote (Nat.not_lt.mp hc) rest

/-- The scanner at a character of a one-line string. -/
theorem resume_quoted_cons (hq : q.toNat < 128) (depth : Int32) (c : Char) (rest : List Char) :
    resume depth (.quoted q) (encode (c :: rest)) =
      if c = '\\' then resume depth (.quoted q) (encode (rest.drop 1))
      else resume depth (if c = q then .code else .quoted q) (encode rest) := by
  have hs : ∀ n ∈ (none : Option UInt8), n < 128 := fun _ h => nomatch h
  have hquote : ∀ n ∈ some (byte q), n < 128 := by
    rintro n ⟨⟩
    exact Text.byte_lt hq
  by_cases hc : c.toNat < 128
  · have hslash : byte c = backslash ↔ c = '\\' := Text.byte_inj (d := '\\') hc (by decide)
    simp only [resume, Text.encode_cons_of_lt hc, scan_cons, beq_iff_eq, hslash, Text.byte_inj hc hq]
    split
    · exact scan_drop_encode hs hquote rest
    · split <;> rfl
  · rw [if_neg (ne_of_wide hc (by decide)), if_neg (ne_of_wide hc hq)]
    exact scan_encode_wide hs hquote (Nat.not_lt.mp hc) rest

/-- A bracket outside of strings, told by its byte or by its character. -/
theorem bracket_byte (hc : c.toNat < 128) (depth : Int32) :
    bracket { depth } (byte c) = { depth := Counter.machine.after depth c } := by
  have hsign (d : Char) (hd : d.toNat < 128 := by decide) : decide (c = d) = (byte c == byte d) := by
    rw [Bool.eq_iff_iff, decide_eq_true_iff, beq_iff_eq, Text.byte_inj hc hd]
  have hdepth : Counter.machine.after depth c =
      if isOpening (byte c) then depth + 1
      else if isClosing (byte c) then max (depth - 1) 0 else depth := by
    rw [Counter.after, hsign '(', hsign '[', hsign '\x7b', hsign ')', hsign ']', hsign '\x7d']
    rfl
  rw [hdepth, bracket]
  split
  · rfl
  · split <;> rfl

/-- A character beyond ASCII is no bracket. -/
theorem Counter.after_of_wide {δ : Type} (n : Counter δ) (hc : ¬ c.toNat < 128) (depth : δ) :
    n.after depth c = depth := by
  have hne (d : Char) (hd : d.toNat < 128 := by decide) : decide (c = d) = false :=
    decide_eq_false (ne_of_wide hc hd)
  rw [Counter.after, hne '(', hne '[', hne '\x7b', hne ')', hne ']', hne '\x7d']
  rfl

/-- The scanner at a character of code. -/
theorem resume_code_cons (depth : Int32) (c : Char) (rest : List Char) :
    resume depth .code (encode (c :: rest)) =
      if c = '#' then resume depth .comment (encode rest)
      else if c = '"' ∨ c = '\'' then
        if rest.take 2 = [c, c] then resume depth (.tripled c) (encode (rest.drop 2))
        else resume depth (.quoted c) (encode rest)
      else resume (Counter.machine.after depth c) .code (encode rest) := by
  have hnone : ∀ n ∈ (none : Option UInt8), n < 128 := fun _ h => nomatch h
  by_cases hc : c.toNat < 128
  · have hhash : byte c = hash ↔ c = '#' := Text.byte_inj (d := '#') hc (by decide)
    have hmark : isQuote (byte c) = true ↔ c = '"' ∨ c = '\'' := by
      rw [isQuote, Bool.or_eq_true_iff, beq_iff_eq, beq_iff_eq]
      exact or_congr (Text.byte_inj (d := '"') hc (by decide))
        (Text.byte_inj (d := '\'') hc (by decide))
    simp only [resume, Text.encode_cons_of_lt hc, scan_cons, beq_iff_eq, hhash, hmark,
      Text.take_encode_iff hc, bracket_byte hc]
    split
    · rfl
    · split
      · split
        · rename_i h
          rw [Text.drop_encode hc h]
        · rfl
      · rfl
  · rw [if_neg (ne_of_wide hc (by decide)), if_neg, Counter.machine.after_of_wide hc]
    · exact scan_encode_wide hnone hnone (Nat.not_lt.mp hc) rest
    · rintro (h | h)
      · exact ne_of_wide hc (by decide) h
      · exact ne_of_wide hc (by decide) h

@[simp] theorem Reader.read_nil {δ : Type} (n : Counter δ) (depth : δ) (mode : Mode) :
    read n depth mode [] = ⟨depth, mode⟩ := by
  rw [read.eq_def]

/-- The automaton at a character. -/
theorem Reader.read_cons {δ : Type} (n : Counter δ) (depth : δ) (mode : Mode) (c : Char) (rest : List Char) :
    read n depth mode (c :: rest) =
      match mode with
      | .code =>
        if c = '#' then read n depth .comment rest
        else if c = '"' ∨ c = '\'' then
          if rest.take 2 = [c, c] then read n depth (.tripled c) (rest.drop 2)
          else read n depth (.quoted c) rest
        else read n (n.after depth c) .code rest
      | .quoted q =>
        if c = '\\' then read n depth (.quoted q) (rest.drop 1)
        else read n depth (if c = q then .code else .quoted q) rest
      | .tripled q =>
        if c = '\\' then read n depth (.tripled q) (rest.drop 1)
        else if c = q ∧ rest.take 2 = [q, q] then read n depth .code (rest.drop 2)
        else read n depth (.tripled q) rest
      | .comment => read n depth .comment rest := by
  rw [read.eq_def]
  cases mode with
  | comment => rfl
  | quoted q => cases rest <;> simp
  | tripled q =>
    match rest with
    | [] => simp
    | [d] => simp
    | d :: e :: rest => simp [and_assoc]
  | code =>
    match rest with
    | [] => simp
    | [d] => simp
    | d :: e :: rest => simp

/-! ## One line -/

/-- The quote of an open string is a character of ASCII. -/
def Mode.Narrow : Mode → Prop
  | .quoted q | .tripled q => q.toNat < 128
  | .code | .comment => True

/-- The scanner and the automaton leave the same open. -/
theorem resume_encode (depth : Int32) (mode : Mode) (h : mode.Narrow) (text : List Char) :
    resume depth mode (encode text) = (Reader.read .machine depth mode text).ending := by
  induction hn : text.length using Nat.strongRecOn generalizing depth mode text with
  | _ n ih =>
    cases text with
    | nil => cases mode <;> simp only [resume, Text.encode_nil, scan_nil] <;> rfl
    | cons c rest =>
      have hrest (k : Nat) (depth' : Int32) (mode' : Mode) (h' : mode'.Narrow) :
          resume depth' mode' (encode (rest.drop k)) =
            (Reader.read .machine depth' mode' (rest.drop k)).ending :=
        ih _ (by rw [List.length_drop, ← hn, List.length_cons]; omega) depth' mode' h' _ rfl
      rw [Reader.read_cons]
      cases mode with
      | code =>
        rw [resume_code_cons]
        dsimp only
        split
        · exact hrest 0 depth _ trivial
        · split
          · rename_i hquote
            have hc : c.toNat < 128 := by rcases hquote with rfl | rfl <;> decide
            split
            · exact hrest 2 depth _ hc
            · exact hrest 0 depth _ hc
          · exact hrest 0 _ _ trivial
      | quoted q =>
        rw [resume_quoted_cons h]
        dsimp only
        split
        · exact hrest 1 depth _ h
        · split
          · exact hrest 0 depth _ trivial
          · exact hrest 0 depth _ h
      | tripled q =>
        rw [resume_tripled_cons h]
        dsimp only
        split
        · exact hrest 1 depth _ h
        · split
          · exact hrest 2 depth _ trivial
          · exact hrest 0 depth _ h
      | comment => exact hrest 0 depth .comment trivial

/-- The scanner leaves open what the automaton does. -/
theorem advance_eq_advanceChars (hs : ∀ q ∈ s.triple?, q < 128) (line : List Char) :
    s.advance line = s.advanceChars line := by
  obtain ⟨depth, triple?⟩ := s
  cases triple? with
  | none => exact resume_encode depth .code trivial line
  | some q =>
    have hlow : (Char.ofNat q.toNat).toNat = q.toNat :=
      Text.toNat_ofNat (UInt8.lt_iff_toNat_lt.mp (hs q rfl))
    have hbyte : byte (Char.ofNat q.toNat) = q := by
      rw [byte, hlow]
      exact UInt8.ofNat_toNat
    have hresume := resume_encode depth (.tripled (Char.ofNat q.toNat))
      (by rw [Mode.Narrow, hlow]; exact UInt8.lt_iff_toNat_lt.mp (hs q rfl)) line
    rwa [resume, hbyte] at hresume

/-! ## Brackets counted without a bound -/

theorem toInt_add_one {d : Int32} {n : Nat} (h : d.toInt = n) (hn : n + 1 < 2 ^ 31) :
    (d + 1).toInt = (n + 1 : Nat) := by
  have hone : Int32.toInt 1 = 1 := rfl
  rw [Int32.toInt_add, h, hone]
  exact Int.bmod_eq_of_le (by omega) (by omega)

theorem toInt_max_sub_one {d : Int32} {n : Nat} (h : d.toInt = n) (hn : n < 2 ^ 31) :
    (max (d - 1) 0).toInt = (n - 1 : Nat) := by
  have hzero : Int32.toInt 0 = 0 := rfl
  have hone : Int32.toInt 1 = 1 := rfl
  have hsub : (d - 1).toInt = n - 1 := by
    rw [Int32.toInt_sub, h, hone]
    exact Int.bmod_eq_of_le (by omega) (by omega)
  show (if d - 1 ≤ 0 then 0 else d - 1).toInt = _
  split
  case isTrue hle =>
    rw [Int32.le_iff_toInt_le, hsub] at hle
    omega
  case isFalse hlt =>
    rw [Int32.le_iff_toInt_le, hsub] at hlt
    omega

/-- A bracket is counted by a machine integer as without a bound, as long as there is room for it. -/
theorem Counter.toInt_after {d : Int32} {n : Nat} (h : d.toInt = n) (hn : n + 1 < 2 ^ 31) (c : Char) :
    (machine.after d c).toInt = (natural.after n c : Nat) ∧ natural.after n c ≤ n + 1 := by
  unfold after
  split
  · exact ⟨toInt_add_one h hn, Nat.le_refl _⟩
  · split
    · exact ⟨toInt_max_sub_one h (by omega), by simp only [natural]; omega⟩
    · exact ⟨h, Nat.le_succ n⟩

/-- A line is read in the same modes whatever counts its brackets, and by a machine integer they are
counted as without a bound, as long as there is room for them. -/
theorem Reader.read_natural {d : Int32} {n : Nat} (h : d.toInt = n) (mode : Mode) (text : List Char)
    (hn : n + text.length < 2 ^ 31) :
    (read .machine d mode text).depth.toInt = (read .natural n mode text).depth ∧
      (read .machine d mode text).mode = (read .natural n mode text).mode := by
  induction hlength : text.length using Nat.strongRecOn generalizing d n mode text with
  | _ k ih =>
    cases text with
    | nil => exact ⟨by simpa using h, by simp⟩
    | cons c rest =>
      rw [List.length_cons] at hn hlength
      -- the rest of the line from behind the characters that go with the first one
      have hrest (k : Nat) {d' : Int32} {n' : Nat} (h' : d'.toInt = n') (hn' : n' ≤ n + 1)
          (mode' : Mode) :=
        ih (rest.drop k).length (by rw [List.length_drop]; omega) h' mode' (rest.drop k)
          (by rw [List.length_drop]; omega) rfl
      have hsame (k : Nat) (mode' : Mode) := hrest k h (Nat.le_succ n) mode'
      rw [read_cons, read_cons]
      cases mode with
      | code =>
        dsimp only
        split
        · exact hsame 0 _
        · split
          · split
            · exact hsame 2 _
            · exact hsame 0 _
          · obtain ⟨hafter, hle⟩ := Counter.toInt_after h (by omega) c
            exact hrest 0 hafter hle _
      | quoted q =>
        dsimp only
        split
        · exact hsame 1 _
        · exact hsame 0 _
      | tripled q =>
        dsimp only
        split
        · exact hsame 1 _
        · split
          · exact hsame 2 _
          · exact hsame 0 _
      | comment => exact hsame 0 _

/-- Three bytes beyond ASCII may be equal within one character, so that a string between such bytes
would be closed there. Strings are opened by quotes only (`Quoted.scan`). -/
example :
    ({ triple? := some 128 } : Lexical).advance [Char.ofNat 0x40000] = {} ∧
      ({ triple? := some 128 } : Lexical).advanceChars [Char.ofNat 0x40000] ≠ {} := by
  decide +kernel

end Lexical
end SourceSurvey
