import Mathlib.Data.List.TakeWhile
import SourceSurvey.Lexical.Basic
import SourceSurvey.Proofs.Text.Lines

/-!
# The ends of lines

The two readings of lines differ on the carriage returns at the end of a line: one of them drops all,
the other one at most. The scanner does not see the difference, for no line end is a quote, a bracket,
a backslash or a hash.

* `Lexical.scan_cons`: what one byte does, with the bytes that it takes with it.
* `Lexical.foldl_advance_bareLine`: lines leave the same open with and without their ends.
* `Text.map_bareLine_terminated`: without their ends both readings have the same lines.
-/

namespace SourceSurvey

namespace Lexical

variable {s : Lexical} {quote? : Option UInt8} {bytes ends rest : List UInt8} {b q : UInt8}

/-! ## Bytes -/

@[simp] theorem scan_nil (s : Lexical) (quote? : Option UInt8) : s.scan quote? [] = s := by
  rw [scan.eq_def]

/-- What one byte does, with the bytes that it takes with it. -/
theorem scan_cons (s : Lexical) (quote? : Option UInt8) (b : UInt8) (rest : List UInt8) :
    s.scan quote? (b :: rest) =
      match s.triple?, quote? with
      | some q, _ =>
        if b == backslash then s.scan quote? (rest.drop 1)
        else if b == q && rest.take 2 == [q, q] then
          scan { s with triple? := none } quote? (rest.drop 2)
        else s.scan quote? rest
      | none, some q =>
        if b == backslash then s.scan quote? (rest.drop 1)
        else s.scan (if b == q then none else some q) rest
      | none, none =>
        if b == hash then s
        else if isQuote b then
          if rest.take 2 == [b, b] then scan { s with triple? := some b } none (rest.drop 2)
          else s.scan (some b) rest
        else scan (s.bracket b) none rest := by
  rw [scan.eq_def]
  cases s.triple? with
  | some q =>
    match rest with
    | [] => simp
    | [c] => simp
    | c :: d :: rest => simp [Bool.and_assoc]
  | none =>
    cases quote? with
    | some q => cases rest <;> simp
    | none =>
      match rest with
      | [] => simp
      | [c] => simp
      | c :: d :: rest => simp

/-- An open string is one between quotes. -/
def Quoted (s : Lexical) : Prop := ∀ q ∈ s.triple?, isQuote q = true

theorem quoted_none (depth : Int32) : Quoted { depth } := fun _ h => nomatch h

theorem quoted_some (depth : Int32) (hb : isQuote b = true) : Quoted { depth, triple? := some b } := by
  rintro q ⟨⟩
  exact hb

theorem Quoted.bracket (hs : s.Quoted) (b : UInt8) : (s.bracket b).Quoted := by
  have htriple : (s.bracket b).triple? = s.triple? := by
    unfold Lexical.bracket
    split
    · rfl
    · split <;> rfl
  unfold Quoted
  rwa [htriple]

/-- Scanning opens strings at quotes only. -/
theorem Quoted.scan (hs : s.Quoted) (quote? : Option UInt8) (bytes : List UInt8) :
    (s.scan quote? bytes).Quoted := by
  induction hn : bytes.length using Nat.strongRecOn generalizing s quote? bytes with
  | _ n ih =>
    cases bytes with
    | nil => rwa [scan_nil]
    | cons b rest =>
      have hrest (k : Nat) {s' : Lexical} (hs' : s'.Quoted) (quote' : Option UInt8) :
          (s'.scan quote' (rest.drop k)).Quoted :=
        ih _ (by rw [List.length_drop, ← hn, List.length_cons]; omega) hs' quote' _ rfl
      rw [scan_cons]
      split
      · split
        · exact hrest 1 hs _
        · split
          · exact hrest 2 (quoted_none s.depth) _
          · exact hrest 0 hs _
      · split
        · exact hrest 1 hs _
        · exact hrest 0 hs _
      · split
        · exact hs
        · split
          · rename_i hquote
            split
            · exact hrest 2 (quoted_some s.depth hquote) _
            · exact hrest 0 hs _
          · exact hrest 0 (hs.bracket b) _

/-- Whether a byte ends a line. -/
def isEnd (b : UInt8) : Bool := b == 10 || b == 13

theorem isEnd_cases (h : isEnd b = true) : b = 10 ∨ b = 13 := by
  simpa [isEnd] using h

theorem not_isQuote_of_isEnd (h : isEnd b = true) : isQuote b = false := by
  rcases isEnd_cases h with rfl | rfl <;> rfl

/-- Line ends open and close nothing. -/
theorem scan_ends (hs : s.Quoted) (he : ∀ b ∈ ends, isEnd b = true) : s.scan quote? ends = s := by
  induction ends generalizing quote? with
  | nil => exact scan_nil s quote?
  | cons b rest ih =>
    obtain ⟨hb, he⟩ := List.forall_mem_cons.mp he
    have hquote := not_isQuote_of_isEnd hb
    have hslash : (b == backslash) = false := by rcases isEnd_cases hb with rfl | rfl <;> rfl
    have hhash : (b == hash) = false := by rcases isEnd_cases hb with rfl | rfl <;> rfl
    have hbracket : s.bracket b = s := by rcases isEnd_cases hb with rfl | rfl <;> rfl
    rw [scan_cons, hslash, hhash, hquote, hbracket]
    split
    · rename_i q hq
      have hne : (b == q) = false := by
        rw [beq_eq_false_iff_ne]
        rintro rfl
        rw [hs b hq] at hquote
        cases hquote
      rw [hne]
      exact ih he
    · exact ih he
    · exact ih he

/-- Two quotes stand in front of the line ends or nowhere. -/
theorem take_append_ends (hq : isQuote q = true) (he : ∀ b ∈ ends, isEnd b = true) :
    ((rest ++ ends).take 2 == [q, q]) = (rest.take 2 == [q, q]) := by
  have hne : q ∉ ends := fun h => by
    have := not_isQuote_of_isEnd (he q h)
    rw [hq] at this
    cases this
  match rest with
  | [] =>
    rw [List.nil_append, List.take_nil, Bool.eq_iff_iff, beq_iff_eq, beq_iff_eq]
    refine ⟨fun h => absurd (List.mem_of_mem_take (i := 2) ?_) hne, fun h => nomatch h⟩
    rw [h]
    exact List.mem_cons_self
  | [c] =>
    cases ends with
    | nil => rfl
    | cons e ends =>
      have he : (e == q) = false := beq_eq_false_iff_ne.mpr fun h => hne (h ▸ List.mem_cons_self)
      simp [he]
  | c :: d :: rest => rfl

/-- Line ends after some bytes change nothing. -/
theorem scan_append_ends (hs : s.Quoted) (he : ∀ b ∈ ends, isEnd b = true) :
    s.scan quote? (bytes ++ ends) = s.scan quote? bytes := by
  induction hn : bytes.length using Nat.strongRecOn generalizing s quote? bytes ends with
  | _ n ih =>
    cases bytes with
    | nil => rw [List.nil_append, scan_ends hs he, scan_nil]
    | cons b rest =>
      have hrest (k : Nat) {s' : Lexical} (hs' : s'.Quoted) (quote' : Option UInt8) :
          s'.scan quote' ((rest ++ ends).drop k) = s'.scan quote' (rest.drop k) := by
        rw [List.drop_append]
        exact ih _ (by rw [List.length_drop, ← hn, List.length_cons]; omega) hs'
          (fun b hb => he b (List.mem_of_mem_drop hb)) rfl
      have hwhole {s' : Lexical} (hs' : s'.Quoted) (quote' : Option UInt8) :
          s'.scan quote' (rest ++ ends) = s'.scan quote' rest := hrest 0 hs' quote'
      rw [List.cons_append, scan_cons, scan_cons]
      split
      · rename_i q hq
        rw [take_append_ends (hs q hq) he, hrest 1 hs, hrest 2 (quoted_none s.depth), hwhole hs]
      · rw [hrest 1 hs, hwhole hs]
      · rw [hwhole hs, hwhole (hs.bracket b)]
        split
        · rfl
        · split
          · rename_i hquote
            rw [take_append_ends hquote he, hrest 2 (quoted_some s.depth hquote)]
          · rfl

end Lexical

/-! ## Lines -/

namespace Text

/-- Whether a character ends a line. -/
def isLineEnd (c : Char) : Bool := c == '\n' || c == '\r'

/-- A line is what is left without its ends, and its ends. -/
theorem exists_append_bareLine (line : List Char) :
    ∃ ends, line = bareLine line ++ ends ∧ ∀ c ∈ ends, isLineEnd c = true := by
  refine ⟨(line.reverse.takeWhile isLineEnd).reverse, ?_, fun c hc => ?_⟩
  · have hline := congrArg List.reverse (List.takeWhile_append_dropWhile (p := isLineEnd) (l := line.reverse))
    rw [List.reverse_append, List.reverse_reverse] at hline
    exact hline.symm
  · exact List.mem_takeWhile_imp (List.mem_reverse.mp hc)

theorem bareLine_concat (line : List Char) {c : Char} (hc : isLineEnd c = true) :
    bareLine (line ++ [c]) = bareLine line := by
  unfold isLineEnd at hc
  unfold bareLine trimEndWhere
  rw [List.reverse_append, List.reverse_singleton, List.singleton_append, List.dropWhile_cons,
    if_pos hc]

/-- The carriage return that one reading drops is one of those that the other one drops. -/
theorem bareLine_dropReturn (line : List Char) : bareLine (dropReturn line) = bareLine line := by
  unfold dropReturn
  split
  · rename_i hlast
    obtain ⟨before, rfl⟩ := List.getLast?_eq_some_iff.mp hlast
    rw [List.dropLast_concat, bareLine_concat before rfl]
  · rfl

/-- Without their ends both readings have the same lines. -/
theorem map_bareLine_terminated (text : List Char) :
    (terminated (· == '\n') text).map bareLine = (lines text).map bareLine := by
  have hfinished : ((fields (· == '\n') text).dropLast.map dropReturn).map bareLine =
      (fields (· == '\n') text).dropLast.map bareLine := by
    rw [List.map_map]
    exact List.map_congr_left fun line _ => bareLine_dropReturn line
  unfold terminated lines
  dsimp only
  cases hl : (fields (· == '\n') text).getLast? with
  | none => exact absurd (List.getLast?_eq_none_iff.mp hl) (fields_ne_nil _ _)
  | some last =>
    cases last with
    | nil => exact hfinished.symm
    | cons c cs =>
      dsimp only
      rw [List.map_append, hfinished, ← List.map_append, List.dropLast_append_getLast? _ hl]

end Text

namespace Lexical

variable {s : Lexical}

/-- A line leaves the same open with and without its ends. -/
theorem advance_bareLine (hs : s.Quoted) (line : List Char) :
    s.advance (Text.bareLine line) = s.advance line := by
  obtain ⟨ends, hline, hends⟩ := Text.exists_append_bareLine line
  have hbytes : ∀ b ∈ Text.encode ends, isEnd b = true := by
    intro b hb
    obtain ⟨c, hc, hb⟩ := List.mem_flatMap.mp hb
    have hc : c = '\n' ∨ c = '\r' := by simpa [Text.isLineEnd] using hends c hc
    rcases hc with rfl | rfl
    · rw [List.mem_singleton.mp (show b ∈ [10] from hb)]
      rfl
    · rw [List.mem_singleton.mp (show b ∈ [13] from hb)]
      rfl
  conv => rhs; rw [hline, advance, Text.encode_append, scan_append_ends hs hbytes]
  rfl

/-- Lines leave the same open with and without their ends. -/
theorem foldl_advance_bareLine (hs : s.Quoted) (lines : List (List Char)) :
    (lines.map Text.bareLine).foldl advance s = lines.foldl advance s := by
  induction lines generalizing s with
  | nil => rfl
  | cons line rest ih =>
    rw [List.map_cons, List.foldl_cons, List.foldl_cons, advance_bareLine hs]
    exact ih (hs.scan none (Text.encode line))

end Lexical
end SourceSurvey
