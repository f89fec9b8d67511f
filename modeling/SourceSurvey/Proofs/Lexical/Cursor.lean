import SourceSurvey.Proofs.Lexical.Ends

/-!
# Walking over a line by index

`Lexical.scan` takes the bytes of a line apart. Here an index runs over them instead, by one, two or
three bytes a round, and what it meets decides how far it goes. Two things can go wrong: a byte
behind the end of the line is asked for, and the index does not arrive.

* `Lexical.Cursor.round?`, `Lexical.Cursor.walk?`: one round, and rounds until the end of the line.
* `Lexical.Cursor.round?_spec`: what a round leaves as it is, and that the index moves on.
* `Lexical.Cursor.walk?_eq_some`: the walk arrives and leaves open what `Lexical.scan` does.
-/

namespace SourceSurvey
namespace Lexical

/-- A place in a line: the index of the next byte, what is open in front of it, and the quote byte of
an open one-line string. -/
structure Cursor where
  index : Nat
  state : Lexical
  quote? : Option UInt8 := none
  deriving DecidableEq, Repr

namespace Cursor

/-- Whether a byte stands three times from an index on. The bytes are asked for only if the line is
long enough; `none` if there is one that it does not have. -/
def tripled? (bytes : List UInt8) (i : Nat) (q : UInt8) : Option Bool :=
  if i + 3 ≤ bytes.length then do
    let b ← bytes[i]?
    let c ← bytes[i + 1]?
    let d ← bytes[i + 2]?
    some (b == q && c == q && d == q)
  else some false

/-- One round of the walk. A hash outside of strings ends the line. `none` if a byte is asked for that
the line does not have. -/
def round? (bytes : List UInt8) (c : Cursor) : Option Cursor := do
  let b ← bytes[c.index]?
  match c.state.triple?, c.quote? with
  | some q, _ =>
    if b == backslash then some { c with index := c.index + 2 }
    else if ← tripled? bytes c.index q then
      some { c with index := c.index + 3, state := { c.state with triple? := none } }
    else some { c with index := c.index + 1 }
  | none, some q =>
    if b == backslash then some { c with index := c.index + 2 }
    else some { c with index := c.index + 1, quote? := if b == q then none else some q }
  | none, none =>
    if b == hash then some { c with index := bytes.length }
    else if isQuote b then
      if ← tripled? bytes c.index b then
        some { c with index := c.index + 3, state := { c.state with triple? := some b } }
      else some { c with index := c.index + 1, quote? := some b }
    else some { c with index := c.index + 1, state := c.state.bracket b }

/-- Rounds until the index has left the line. `none` if a round breaks down or if the rounds that are
granted do not suffice. -/
def walk? (bytes : List UInt8) : Nat → Cursor → Option Cursor
  | 0, c => if c.index < bytes.length then none else some c
  | rounds + 1, c =>
    if c.index < bytes.length then (c.round? bytes).bind (walk? bytes rounds) else some c

/-- What the line leaves open, from the cursor on. -/
def outcome (bytes : List UInt8) (c : Cursor) : Lexical :=
  c.state.scan c.quote? (bytes.drop c.index)

variable {bytes rest : List UInt8} {c : Cursor} {b : UInt8} {i : Nat}

/-! ## One round -/

/-- The bytes that are asked for are there. -/
theorem tripled?_eq_some (h : bytes.drop i = b :: rest) (q : UInt8) :
    tripled? bytes i q = some (b == q && rest.take 2 == [q, q]) := by
  have hlength : bytes.length = i + (rest.length + 1) := by
    have := congrArg List.length h
    rw [List.length_drop, List.length_cons] at this
    omega
  have hbyte (k : Nat) : bytes[i + k]? = (b :: rest)[k]? := by rw [← h, List.getElem?_drop]
  unfold tripled?
  rw [hlength]
  match rest with
  | [] => simp
  | [d] => simp
  | d :: e :: rest =>
    rw [if_pos (by simp only [List.length_cons]; omega), ← Nat.add_zero i, hbyte 0, Nat.add_zero,
      hbyte 1, hbyte 2]
    simp [Bool.and_assoc]

/-- A round inside of the line does not break down, moves on, and keeps what the line leaves open. -/
theorem round?_spec (hi : c.index < bytes.length) :
    ∃ c', c.round? bytes = some c' ∧ c.index < c'.index ∧ c'.outcome bytes = c.outcome bytes := by
  obtain ⟨i, ⟨depth, triple?⟩, quote?⟩ := c
  have hbyte : bytes[i]? = some bytes[i] := List.getElem?_eq_getElem hi
  have hdrop : bytes.drop i = bytes[i] :: bytes.drop (i + 1) := List.drop_eq_getElem_cons hi
  generalize bytes[i] = b at hbyte hdrop
  generalize hrest : bytes.drop (i + 1) = rest at hdrop
  -- every round but the one at a comment goes on `k` bytes behind the one that it reads
  have hgo (k : Nat) {s' : Lexical} {quote' : Option UInt8} {next : Option Cursor} {ending : Lexical}
      (hnext : next = some ⟨i + k + 1, s', quote'⟩) (hending : s'.scan quote' (rest.drop k) = ending) :
      ∃ c', next = some c' ∧ i < c'.index ∧ c'.outcome bytes = ending := by
    have hfrom : bytes.drop (i + k + 1) = rest.drop k := by
      rw [← hrest, List.drop_drop, Nat.add_right_comm]
    refine ⟨⟨i + k + 1, s', quote'⟩, hnext, by dsimp only; omega, ?_⟩
    rw [outcome, hfrom, hending]
  simp only [round?, hbyte, tripled?_eq_some hdrop, Option.bind_eq_bind, Option.bind_some, outcome,
    hdrop, scan_cons, beq_self_eq_true, Bool.true_and]
  cases triple? with
  | some q =>
    dsimp only
    split
    · exact hgo 1 rfl rfl
    · split
      · exact hgo 2 rfl rfl
      · exact hgo 0 rfl rfl
  | none =>
    cases quote? with
    | some q =>
      dsimp only
      split
      · exact hgo 1 rfl rfl
      · exact hgo 0 rfl rfl
    | none =>
      dsimp only
      split
      · refine ⟨_, rfl, hi, ?_⟩
        rw [List.drop_length, scan_nil]
      · split
        · split
          · exact hgo 2 rfl rfl
          · exact hgo 0 rfl rfl
        · exact hgo 0 rfl rfl

/-- The walk arrives, with a round for every byte of the line, and leaves open what the scanner does. -/
theorem walk?_eq_some {rounds : Nat} (hrounds : bytes.length ≤ c.index + rounds) :
    ∃ last, walk? bytes rounds c = some last ∧ last.state = c.outcome bytes := by
  have harrived {c : Cursor} (hi : ¬ c.index < bytes.length) : c.state = c.outcome bytes := by
    rw [outcome, List.drop_of_length_le (Nat.not_lt.mp hi), scan_nil]
  induction rounds generalizing c with
  | zero =>
    have hi : ¬ c.index < bytes.length := by omega
    exact ⟨c, by rw [walk?, if_neg hi], harrived hi⟩
  | succ rounds ih =>
    by_cases hi : c.index < bytes.length
    · obtain ⟨c', hround, hindex, houtcome⟩ := round?_spec hi
      obtain ⟨last, hwalk, hlast⟩ := ih (c := c') (by omega)
      refine ⟨last, ?_, hlast.trans houtcome⟩
      rw [walk?, if_pos hi, hround, Option.bind_some, hwalk]
    · exact ⟨c, by rw [walk?, if_neg hi], harrived hi⟩

end Cursor
end Lexical
end SourceSurvey
