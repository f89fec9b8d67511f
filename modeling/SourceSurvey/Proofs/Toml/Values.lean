import SourceSurvey.Proofs.Toml.Strings
import SourceSurvey.Toml.Parser

/-!
# Values of TOML read back

`Toml.value?_print`: a truth value, a natural number of at most 128 bits, a string, or an array of such
values is read back from its text.

* `wordAt?_append`: a word is read up to what cannot go on a word.
* `items?_printItems`: the items of an array, each on a line of its own, by induction on the items.
-/

namespace SourceSurvey
namespace Toml

open Json (Stops)

variable {c : Char} {cs rest : List Char} {fuel : Nat} {j : Json}

/-! ## Words -/

theorem not_isWordPart_of_stops (h : Stops rest) : ∀ c ∈ rest.head?, isWordPart c = false := by
  intro c hc
  rcases h c hc with rfl | rfl | rfl | rfl <;> decide

theorem takeWhile_append {p : Char → Bool} (hcs : ∀ c ∈ cs, p c = true)
    (hrest : ∀ c ∈ rest.head?, p c = false) : (cs ++ rest).takeWhile p = cs := by
  rw [List.takeWhile_append_of_pos hcs]
  cases rest with
  | nil => simp
  | cons c rest => simp [hrest c rfl]

/-- A word is read up to what cannot go on a word. -/
theorem wordAt?_append (hcs : ∀ c ∈ cs, isWordPart c = true) (hrest : Stops rest) :
    wordAt? (cs ++ rest) = (word? cs).map (·, rest) := by
  unfold wordAt?
  rw [takeWhile_append hcs (not_isWordPart_of_stops hrest)]
  dsimp only
  rw [List.drop_left]
  cases rest with
  | nil => rfl
  | cons c rest => rcases hrest c rfl with rfl | rfl | rfl | rfl <;> rfl

/-! ## Numbers -/

theorem ne_of_isDigit {d : Char} (hc : c.isDigit = true) (hd : d.isDigit = false) : c ≠ d := by
  rintro rfl
  exact absurd hc (by rw [hd]; exact Bool.false_ne_true)

theorem digits?_of_all (hne : cs ≠ []) (hcs : ∀ c ∈ cs, c.isDigit = true) :
    digits? Char.isDigit cs = some cs := by
  induction cs with
  | nil => exact absurd rfl hne
  | cons c cs ih =>
    obtain ⟨hc, hmore⟩ := List.forall_mem_cons.mp hcs
    cases cs with
    | nil => rw [digits?, if_pos hc]
    | cons d cs =>
      have hd := ne_of_isDigit (hmore d List.mem_cons_self) (d := '_') (by decide)
      rw [digits?, if_pos hc, ih (List.cons_ne_nil _ _) hmore]
      · rfl
      · exact nofun
      · exact fun _ heq => hd (List.cons.inj heq).1

theorem hexValue?_of_isDigit (hc : c.isDigit = true) : Text.hexValue? c = some (c.toNat - 48) := by
  have h : 48 ≤ c.toNat ∧ c.toNat ≤ 57 := by
    simp only [Char.isDigit, Bool.and_eq_true, decide_eq_true_eq] at hc
    exact hc
  unfold Text.hexValue?
  simp [h]

theorem inBase_eq_decimalValue (hcs : ∀ c ∈ cs, c.isDigit = true) :
    inBase 10 cs = Json.decimalValue cs := by
  unfold inBase Json.decimalValue
  refine List.foldl_ext _ _ _ fun n c hc => ?_
  rw [hexValue?_of_isDigit (hcs c hc), Option.getD_some]

theorem decimal?_toDigits (n : Nat) : decimal? (Nat.toDigits 10 n) = some n := by
  have hdigits := @Json.isDigit_of_mem_toDigits n
  have hlead : ¬ ((Nat.toDigits 10 n).head? = some '0' ∧ (Nat.toDigits 10 n).length ≠ 1) := by
    rintro ⟨hzero, hlength⟩
    rw [Json.toDigits_head hzero] at hlength
    exact hlength rfl
  unfold decimal?
  rw [digits?_of_all Nat.toDigits_ne_nil hdigits]
  simp only [Option.bind_eq_bind, Option.bind_some]
  rw [if_neg (by simpa using hlead), inBase_eq_decimalValue hdigits, Json.decimalValue_toDigits]
  rfl

theorem word?_toDigits {n : Nat} (hn : n < Nat.pow 2 128) :
    word? (Nat.toDigits 10 n) = some (.natural n) := by
  have hdigits := @Json.isDigit_of_mem_toDigits n
  have hdecimal := decimal?_toDigits n
  obtain ⟨c, cs, hcs⟩ := List.exists_cons_of_ne_nil (@Nat.toDigits_ne_nil n 10)
  rw [hcs] at hdigits hdecimal ⊢
  obtain ⟨hc, hmore⟩ := List.forall_mem_cons.mp hdigits
  have hne (d : Char) (hd : d.isDigit = false) : c ≠ d := ne_of_isDigit hc hd
  have hnext (d : Char) (hd : d.isDigit = false) (rest : List Char) : cs ≠ d :: rest := by
    rintro rfl
    exact ne_of_isDigit (hmore d List.mem_cons_self) hd rfl
  unfold word?
  split
  rename_i negative signed body hsign
  obtain ⟨rfl, rfl⟩ : negative = false ∧ body = c :: cs := by
    split at hsign
    · exact absurd (List.cons.inj ‹_›).1 (hne _ (by decide))
    · exact absurd (List.cons.inj ‹_›).1 (hne _ (by decide))
    · cases hsign
      exact ⟨rfl, rfl⟩
  split
  · exact absurd (List.cons.inj ‹_›).1 (hne _ (by decide))
  · exact absurd (List.cons.inj ‹_›).1 (hne _ (by decide))
  · exact absurd (List.cons.inj ‹_›).2 (hnext _ (by decide) _)
  · exact absurd (List.cons.inj ‹_›).2 (hnext _ (by decide) _)
  · exact absurd (List.cons.inj ‹_›).2 (hnext _ (by decide) _)
  · rw [hdecimal]
    exact if_pos hn

/-! ## Blanks and line ends -/

/-- A character at which skipping stops: no blank, no line end and no comment. -/
def Starts (c : Char) : Prop := c ≠ ' ' ∧ c ≠ '\t' ∧ c ≠ '\n' ∧ c ≠ '\r' ∧ c ≠ '#'

instance (c : Char) : Decidable (Starts c) := inferInstanceAs (Decidable (_ ∧ _))

theorem skipBlanks_cons (hc : c ≠ ' ' ∧ c ≠ '\t') (cs : List Char) :
    skipBlanks (c :: cs) = c :: cs := by
  simp [skipBlanks, hc]

theorem skipBlanks_blank (cs : List Char) : skipBlanks (' ' :: cs) = skipBlanks cs := by
  simp [skipBlanks]

theorem Starts.newline? (hc : Starts c) (cs : List Char) : newline? (c :: cs) = none := by
  obtain ⟨-, -, hn, hr, -⟩ := hc
  rw [Toml.newline?]
  · exact fun _ heq => hn (List.cons.inj heq).1
  · exact fun _ heq => hr (List.cons.inj heq).1

theorem skipLines_cons (hc : Starts c) (cs : List Char) :
    skipLines (fuel + 1) (c :: cs) = some (c :: cs) := by
  rw [skipLines, skipBlanks_cons ⟨hc.1, hc.2.1⟩, hc.newline? cs]
  dsimp only
  split
  · exact absurd (List.cons.inj ‹_›).1 hc.2.2.2.2
  · rfl

theorem skipLines_newline (cs : List Char) :
    skipLines (fuel + 1) ('\n' :: cs) = skipLines fuel cs := by
  rw [skipLines, skipBlanks_cons ⟨by decide, by decide⟩]
  rfl

theorem skipLines_blank (cs : List Char) :
    skipLines (fuel + 1) (' ' :: cs) = skipLines (fuel + 1) cs := by
  rw [skipLines, skipBlanks_blank, skipLines]

/-! ## Values -/

attribute [local simp] print printItems value? items?

/-- The values that settings are made of: truth values, natural numbers, strings and arrays of them. -/
inductive Simple : Json → Prop
  | bool (b : Bool) : Simple (.bool b)
  | natural {n : Nat} (h : n < Nat.pow 2 128) : Simple (.natural n)
  | string (s : String) : Simple (.string s)
  | array {items : List Json} (h : ∀ j ∈ items, Simple j) : Simple (.array items)

/-- A value is read from its printed text, whatever may follow a value. -/
def ReadsBack (j : Json) : Prop :=
  ∀ (fuel : Nat) (rest : List Char), (print j).length < fuel → Stops rest →
    value? fuel (print j ++ rest) = some (j, rest)

theorem quote_head (s : String) : ∃ c cs, quote s = c :: cs ∧ (c = '"' ∨ c = '\'') := by
  unfold quote
  extract_lets cs t
  split
  · exact ⟨_, _, rfl, .inl rfl⟩
  split
  · exact ⟨_, _, rfl, .inr rfl⟩
  split
  · exact ⟨_, _, rfl, .inl rfl⟩
  split
  · exact ⟨_, _, rfl, .inr rfl⟩
  split
  · exact ⟨_, _, rfl, .inl rfl⟩
  · exact ⟨_, _, rfl, .inl rfl⟩

theorem print_singleton (j : Json) : print (.array [j]) = '[' :: (print j ++ [']']) := by
  simp

theorem print_array (j j' : Json) (js : List Json) :
    print (.array (j :: j' :: js)) = '[' :: '\n' :: (printItems (j :: j' :: js) ++ [']']) := by
  rw [print]
  · exact nofun
  · exact nofun

/-- The text of a value starts with a character at which skipping stops, and closes nothing. -/
theorem Simple.print_head (h : Simple j) : ∃ c cs, print j = c :: cs ∧ Starts c ∧ c ≠ ']' := by
  cases h with
  | bool b =>
    cases b
    · exact ⟨'f', _, rfl, by decide, by decide⟩
    · exact ⟨'t', _, rfl, by decide, by decide⟩
  | @natural n =>
    obtain ⟨c, cs, hcs⟩ := List.exists_cons_of_ne_nil (@Nat.toDigits_ne_nil n 10)
    have hc : c.isDigit = true := Json.isDigit_of_mem_toDigits c (hcs ▸ List.mem_cons_self)
    have hne (d : Char) (hd : d.isDigit = false) : c ≠ d := ne_of_isDigit hc hd
    exact ⟨c, cs, by rw [print, hcs], ⟨hne _ (by decide), hne _ (by decide), hne _ (by decide),
      hne _ (by decide), hne _ (by decide)⟩, hne _ (by decide)⟩
  | string s =>
    obtain ⟨c, cs, hcs, hc⟩ := quote_head s
    refine ⟨c, cs, by rw [print, hcs], ?_⟩
    rcases hc with rfl | rfl <;> decide
  | array =>
    rename_i items _
    match items with
    | [] => exact ⟨'[', _, rfl, by decide, by decide⟩
    | [j] => exact ⟨'[', _, print_singleton j, by decide, by decide⟩
    | j :: j' :: js => exact ⟨'[', _, print_array j j' js, by decide, by decide⟩

/-- A word that stands for a value is read as it. -/
theorem value?_word (cs : List Char) (hc : c.isAlphanum = true) (hcs : ∀ d ∈ c :: cs, isWordPart d = true)
    (hword : word? (c :: cs) = some j) (hrest : Stops rest) :
    value? (fuel + 1) (c :: cs ++ rest) = some (j, rest) := by
  have hne (d : Char) (hd : d.isAlphanum = false) : c ≠ d := by
    rintro rfl
    exact absurd hc (by rw [hd]; exact Bool.false_ne_true)
  have hat := wordAt?_append hcs hrest
  rw [hword, Option.map_some] at hat
  rw [← hat, List.cons_append, value?]
  all_goals
    intro more heq
    exact hne _ (by decide) (List.cons.inj heq).1

theorem skipLines_print (h : Simple j) (rest : List Char) :
    skipLines (fuel + 1) (print j ++ rest) = some (print j ++ rest) := by
  obtain ⟨c, cs, hcs, hc, -⟩ := h.print_head
  rw [hcs, List.cons_append, skipLines_cons hc]

/-! ## Arrays -/

/-- An item is read, and then what stands behind it decides. -/
theorem items?_print (before : List Char) (h : Simple j) (hv : ReadsBack j)
    (hfuel : (print j).length < fuel) (hrest : Stops rest) (acc : List Json)
    (hbefore : skipLines ((before ++ (print j ++ rest)).length + 1) (before ++ (print j ++ rest)) =
      some (print j ++ rest)) :
    items? (fuel + 1) acc (before ++ (print j ++ rest)) =
      match skipLines (rest.length + 1) rest with
      | some (',' :: rest) => items? fuel (j :: acc) rest
      | some (']' :: rest) => some (.array (j :: acc).reverse, rest)
      | _ => none := by
  obtain ⟨c, cs, hcs, -, hc⟩ := h.print_head
  have hvalue := hv fuel rest hfuel hrest
  rw [items?, hbefore]
  rw [hcs, List.cons_append] at hvalue ⊢
  split
  · contradiction
  · rename_i heq
    exact absurd (List.cons.inj (Option.some.inj heq)).1 hc
  · rename_i heq
    obtain rfl := Option.some.inj heq
    rewrite [hvalue]
    rfl

theorem stops_comma (cs : List Char) : Stops (',' :: cs) := by
  rintro c ⟨⟩
  exact .inl rfl

theorem stops_bracket (cs : List Char) : Stops (']' :: cs) := by
  rintro c ⟨⟩
  exact .inr (.inl rfl)

theorem stops_newline (cs : List Char) : Stops ('\n' :: cs) := by
  rintro c ⟨⟩
  exact .inr (.inr (.inr rfl))

/-- Items, each on a line of its own, are read up to the closing bracket. -/
theorem items?_printItems {js : List Json} (hjs : ∀ j ∈ js, Simple j) (hv : ∀ j ∈ js, ReadsBack j)
    (hfuel : (printItems js).length < fuel) (acc : List Json) (rest : List Char) :
    items? fuel acc ('\n' :: (printItems js ++ ']' :: rest)) =
      some (.array (acc.reverse ++ js), rest) := by
  obtain ⟨fuel, rfl⟩ : ∃ n, fuel = n + 1 := ⟨fuel - 1, by omega⟩
  induction js generalizing fuel acc with
  | nil =>
    rw [printItems, List.nil_append, items?, skipLines_newline, List.length_cons,
      skipLines_cons (by decide), List.append_nil]
    rfl
  | cons j js ih =>
    obtain ⟨hj, hjs⟩ := List.forall_mem_cons.mp hjs
    obtain ⟨hvj, hv⟩ := List.forall_mem_cons.mp hv
    have hbefore : '\n' :: (printItems (j :: js) ++ ']' :: rest) =
        "\n    ".toList ++ (print j ++ ',' :: '\n' :: (printItems js ++ ']' :: rest)) := by
      have hnewline : "\n    ".toList = '\n' :: "    ".toList := rfl
      rw [printItems, hnewline]
      simp only [List.append_assoc, List.cons_append]
    have hblanks : ∀ cs, "\n    ".toList ++ cs = '\n' :: ' ' :: ' ' :: ' ' :: ' ' :: cs := fun _ => rfl
    rw [printItems, List.length_append, List.length_append, List.length_cons, List.length_cons] at hfuel
    obtain ⟨fuel, rfl⟩ : ∃ n, fuel = n + 1 := ⟨fuel - 1, by omega⟩
    rw [hbefore, items?_print _ hj hvj (by omega) (stops_comma _), skipLines_cons (by decide)]
    · refine (ih hjs hv (j :: acc) fuel (by omega)).trans ?_
      simp
    · rw [hblanks, List.length_cons, skipLines_newline]
      simp only [List.length_cons, skipLines_blank]
      exact skipLines_print hj _

theorem readsBack_bool (b : Bool) : ReadsBack (.bool b) := by
  intro fuel rest hfuel hrest
  obtain ⟨fuel, rfl⟩ : ∃ n, fuel = n + 1 := ⟨fuel - 1, by omega⟩
  cases b
  · exact value?_word "alse".toList (by decide) (List.all_eq_true.mp (by decide)) rfl hrest
  · exact value?_word "rue".toList (by decide) (List.all_eq_true.mp (by decide)) rfl hrest

theorem readsBack_natural {n : Nat} (hn : n < Nat.pow 2 128) : ReadsBack (.natural n) := by
  intro fuel rest hfuel hrest
  obtain ⟨fuel, rfl⟩ : ∃ n, fuel = n + 1 := ⟨fuel - 1, by omega⟩
  have hdigits := @Json.isDigit_of_mem_toDigits n
  have hword := word?_toDigits hn
  obtain ⟨c, cs, hcs⟩ := List.exists_cons_of_ne_nil (@Nat.toDigits_ne_nil n 10)
  rw [print]
  rw [hcs] at hdigits hword ⊢
  have halpha : ∀ d ∈ c :: cs, d.isAlphanum = true := fun d hd => by
    rw [Char.isAlphanum, hdigits d hd, Bool.or_true]
  refine value?_word cs (halpha c List.mem_cons_self) (fun d hd => ?_) hword hrest
  simp [isWordPart, halpha d hd]

theorem readsBack_string (s : String) : ReadsBack (.string s) := by
  intro fuel rest hfuel hrest
  obtain ⟨fuel, rfl⟩ : ∃ n, fuel = n + 1 := ⟨fuel - 1, by omega⟩
  have hs := string?_quote s hrest
  obtain ⟨c, cs, hcs, hc⟩ := quote_head s
  rw [print]
  rw [hcs, List.cons_append] at hs ⊢
  rcases hc with rfl | rfl
  · simp [hs]
  · simp [hs]

theorem readsBack_array {items : List Json} (hitems : ∀ j ∈ items, Simple j)
    (hv : ∀ j ∈ items, ReadsBack j) : ReadsBack (.array items) := by
  intro fuel rest hfuel hrest
  match items, hitems, hv with
  | [], _, _ =>
    have hempty : print (.array []) = ['[', ']'] := by
      rw [print]
      rfl
    rw [hempty, List.length_cons, List.length_singleton] at hfuel
    obtain ⟨fuel, rfl⟩ : ∃ n, fuel = n + 2 := ⟨fuel - 2, by omega⟩
    rw [hempty, List.cons_append, value?, List.singleton_append, items?, skipLines_cons (by decide)]
    rfl
  | [j], hitems, hv =>
    have hj := hitems j List.mem_cons_self
    rw [print_singleton, List.length_cons, List.length_append, List.length_singleton] at hfuel
    obtain ⟨fuel, rfl⟩ : ∃ n, fuel = n + 2 := ⟨fuel - 2, by omega⟩
    rw [print_singleton, List.cons_append, List.append_assoc, List.singleton_append, value?]
    refine (items?_print [] hj (hv j List.mem_cons_self) (by omega) (stops_bracket _) []
      (skipLines_print hj _)).trans ?_
    rw [skipLines_cons (by decide)]
    rfl
  | j :: j' :: js, hitems, hv =>
    rw [print_array, List.length_cons, List.length_cons, List.length_append] at hfuel
    obtain ⟨fuel, rfl⟩ : ∃ n, fuel = n + 1 := ⟨fuel - 1, by omega⟩
    rw [print_array, List.cons_append, List.cons_append, List.append_assoc, List.singleton_append,
      value?, items?_printItems hitems hv (by omega)]
    rfl

/-- A value is read back from its text. -/
theorem value?_print (h : Simple j) : ReadsBack j := by
  induction h with
  | bool b => exact readsBack_bool b
  | natural hn => exact readsBack_natural hn
  | string s => exact readsBack_string s
  | array hitems hv => exact readsBack_array hitems hv

end Toml
end SourceSurvey
