import Mathlib.Data.List.Basic
import SourceSurvey.Json.Parser
import SourceSurvey.Json.Printer

/-!
# Printed JSON reads back

`Json.parse_print`: a value without decimals, printed on one line, is read back as itself. The
readers of the single parts take exactly the part that was printed and leave the rest:

* `stringBody_escape`: the characters of a string up to its closing quote.
* `number_toDigits`: the digits of a natural number, in front of something that cannot go on a
  number (`Json.Stops`).
* `value_print`, `items_print`, `members_print`: values, items and fields, by induction on the
  value. The length of the printed text is enough as a bound of the recursion.
-/

namespace SourceSurvey
namespace Json

/-! ## Values that print without loss -/

mutual

/-- A value without decimals and without unreadable text. -/
def Plain : Json → Prop
  | decimal _ | unreadable => False
  | null | bool _ | natural _ | string _ => True
  | array items => PlainItems items
  | object fields => PlainFields fields

/-- Items without decimals and without unreadable text. -/
def PlainItems : List Json → Prop
  | [] => True
  | j :: rest => j.Plain ∧ PlainItems rest

/-- Fields without decimals and without unreadable text. -/
def PlainFields : List (String × Json) → Prop
  | [] => True
  | (_, j) :: rest => j.Plain ∧ PlainFields rest

end

theorem plainItems_iff {items : List Json} : PlainItems items ↔ ∀ j ∈ items, j.Plain := by
  induction items with
  | nil => simp [PlainItems]
  | cons j rest ih => simp [PlainItems, ih]

theorem plainFields_iff {fields : List (String × Json)} :
    PlainFields fields ↔ ∀ f ∈ fields, f.2.Plain := by
  induction fields with
  | nil => simp [PlainFields]
  | cons f rest ih =>
    obtain ⟨k, j⟩ := f
    simp [PlainFields, ih]

/-- What may follow a value: nothing, a comma, a closing bracket or a line feed. -/
def Stops (rest : List Char) : Prop :=
  ∀ c ∈ rest.head?, c = ',' ∨ c = ']' ∨ c = '\x7d' ∨ c = '\n'

theorem stops_nil : Stops [] := by
  intro c hc
  cases hc

/-! ## Strings -/

attribute [local simp] stringBody

theorem hexUnit?_hexDigit {n : Nat} (hn : n < 0x20) :
    hexUnit? '0' '0' (Text.hexDigit (n / 16)) (Text.hexDigit (n % 16)) = some n := by
  unfold hexUnit?
  rw [Text.hexValue?_hexDigit _ (by omega), Text.hexValue?_hexDigit _ (by omega)]
  have hz : Text.hexValue? '0' = some 0 := by decide
  rw [hz]
  show some (((0 * 16 + 0) * 16 + n / 16) * 16 + n % 16) = some n
  rw [Option.some.injEq]
  omega

/-- A character that needs no escape is read as itself. -/
theorem stringBody_of_bare {c : Char} (hq : c ≠ '"') (hb : c ≠ '\\') (hc : ¬ c.toNat < 0x20)
    (acc : List Char) (good : Bool) (rest : List Char) :
    stringBody acc good (c :: rest) = stringBody (c :: acc) good rest := by
  rw [stringBody.eq_def]
  split
  · contradiction
  · simp_all
  · simp_all
  · simp_all
  · rename_i c' rest' _ _ _ heq
    obtain ⟨rfl, rfl⟩ := List.cons.inj heq
    simp [hc, hb]

/-- A control character is read back from its number. -/
theorem stringBody_unicode {n : Nat} (hn : n < 0x20) (acc : List Char) (good : Bool)
    (rest : List Char) :
    stringBody acc good
      ('\\' :: 'u' :: '0' :: '0' :: Text.hexDigit (n / 16) :: Text.hexDigit (n % 16) :: rest) =
      stringBody (Char.ofNat n :: acc) good rest := by
  have hs : isHighUnit n = false := by simp [isHighUnit]; omega
  have hl : isLowUnit n = false := by simp [isLowUnit]; omega
  rw [stringBody, hexUnit?_hexDigit hn]
  simp [hs, hl]

/-- An escaped character is read as itself. -/
theorem stringBody_escapeChar (acc : List Char) (good : Bool) (c : Char) (rest : List Char) :
    stringBody acc good (escapeChar c ++ rest) = stringBody (c :: acc) good rest := by
  unfold escapeChar
  split
  · simp
  · simp
  · simp
  · simp
  · simp
  · simp
  · simp
  · rename_i hq hb _ _ _ _ _
    by_cases hc : c.toNat < 0x20
    · rw [if_pos hc]
      simp only [List.cons_append, List.nil_append]
      rw [stringBody_unicode hc, Char.ofNat_toNat]
    · rw [if_neg hc]
      exact stringBody_of_bare hq hb hc acc good rest

/-- The characters of a string are read up to the closing quote. -/
theorem stringBody_escape (acc cs rest : List Char) :
    stringBody acc true (cs.flatMap escapeChar ++ '"' :: rest) =
      some (some (String.ofList (acc.reverse ++ cs)), rest) := by
  induction cs generalizing acc with
  | nil => simp
  | cons c cs ih =>
    rw [List.flatMap_cons, List.append_assoc, stringBody_escapeChar, ih]
    simp

/-! ## Numbers -/

theorem isDigit_of_mem_toDigits {n : Nat} : ∀ c ∈ Nat.toDigits 10 n, c.isDigit = true :=
  fun _ hc => Nat.isDigit_of_mem_toDigits (by decide) (by decide) hc

/-- The decimal digits of a number start with a zero for zero only. -/
theorem toDigits_head {n : Nat} (h : (Nat.toDigits 10 n).head? = some '0') : n = 0 := by
  induction n using Nat.strongRecOn with
  | _ n ih =>
    by_cases hn : n < 10
    · have hall : ∀ m < 10, [Nat.digitChar m].head? = some '0' → m = 0 := by decide
      rw [Nat.toDigits_of_lt_base hn] at h
      exact hall n hn h
    · rw [Nat.toDigits_of_base_le (by decide) (by omega),
        List.head?_append_of_ne_nil _ Nat.toDigits_ne_nil] at h
      have := ih (n / 10) (by omega) h
      omega

theorem decimalValue_toDigits (n : Nat) : decimalValue (Nat.toDigits 10 n) = n := by
  have h := @Nat.ofDigitChars_toDigits 10 n (by decide) (by decide)
  rw [Nat.ofDigitChars_eq_foldl] at h
  unfold decimalValue
  simpa [Nat.mul_comm] using h

/-- What may follow a value does not go on a number. -/
theorem Stops.fraction {rest : List Char} (h : Stops rest) : fraction rest = some ([], rest) := by
  cases rest with
  | nil => rfl
  | cons c rest => rcases h c rfl with rfl | rfl | rfl | rfl <;> rfl

theorem Stops.exponent {rest : List Char} (h : Stops rest) : exponent rest = some ([], rest) := by
  cases rest with
  | nil => rfl
  | cons c rest => rcases h c rfl with rfl | rfl | rfl | rfl <;> rfl

theorem Stops.not_digit {rest : List Char} (h : Stops rest) :
    ∀ c ∈ rest.head?, c.isDigit = false := by
  intro c hc
  rcases h c hc with rfl | rfl | rfl | rfl <;> decide

theorem takeWhile_digits {digits rest : List Char} (hd : ∀ c ∈ digits, c.isDigit = true)
    (hr : ∀ c ∈ rest.head?, c.isDigit = false) :
    (digits ++ rest).takeWhile Char.isDigit = digits ∧
      (digits ++ rest).dropWhile Char.isDigit = rest := by
  induction digits with
  | nil =>
    cases rest with
    | nil => exact ⟨rfl, rfl⟩
    | cons c rest =>
      have hc := hr c rfl
      simp [hc]
  | cons c digits ih =>
    obtain ⟨ht, hdr⟩ := ih fun c hc => hd c (List.mem_cons_of_mem _ hc)
    have hc := hd c List.mem_cons_self
    rw [List.cons_append, List.takeWhile_cons, List.dropWhile_cons, if_pos hc, if_pos hc, ht, hdr]
    exact ⟨rfl, rfl⟩

theorem exists_digit_toDigits (n : Nat) :
    ∃ c cs, Nat.toDigits 10 n = c :: cs ∧ c.isDigit = true := by
  obtain ⟨c, cs, hcs⟩ := List.exists_cons_of_ne_nil (@Nat.toDigits_ne_nil n 10)
  refine ⟨c, cs, hcs, @isDigit_of_mem_toDigits n c ?_⟩
  rw [hcs]
  exact List.mem_cons_self

/-- The digits of a natural number are read as that number. -/
theorem number_toDigits (n : Nat) {rest : List Char} (h : Stops rest) :
    number (Nat.toDigits 10 n ++ rest) = some (natural n, rest) := by
  obtain ⟨ht, hd⟩ := takeWhile_digits (@isDigit_of_mem_toDigits n) h.not_digit
  obtain ⟨c, cs, hcs, hc⟩ := exists_digit_toDigits n
  have hzero : ¬ (c = '0' ∧ cs ≠ []) := by
    rintro ⟨rfl, hne⟩
    have hn : n = 0 := toDigits_head (by rw [hcs]; rfl)
    rw [hn, Nat.toDigits_zero] at hcs
    exact hne (List.cons.inj hcs).2.symm
  have hminus : minus (c :: (cs ++ rest)) = ([], c :: (cs ++ rest)) := by
    unfold minus
    split
    · rename_i heq
      rw [(List.cons.inj heq).1] at hc
      exact absurd hc (by decide)
    · rfl
  have hlead : ¬ ((c :: cs).isEmpty ||
      ((c :: cs).head? = some '0' && (c :: cs).length ≠ 1)) = true := by
    simpa [List.head?_cons] using hzero
  unfold number
  rw [hcs, List.cons_append] at ht hd ⊢
  rw [hminus]
  simp only [ht, hd]
  rw [if_neg hlead]
  simp only [h.fraction, Option.bind_eq_bind, Option.bind_some, h.exponent, ← hcs,
    decimalValue_toDigits]
  rfl

/-! ## Values -/

attribute [local simp] print printItems printFields value items members

/-- The printed text of a value starts with a character that is no blank and closes nothing. -/
theorem print_head {j : Json} (h : j.Plain) :
    ∃ c cs, j.print = c :: cs ∧ isSpace c = false ∧ c ≠ ']' := by
  cases j with
  | null => exact ⟨_, _, rfl, by decide, by decide⟩
  | bool b => cases b <;> exact ⟨_, _, rfl, by decide, by decide⟩
  | natural n =>
    obtain ⟨c, cs, hcs, hc⟩ := exists_digit_toDigits n
    refine ⟨c, cs, by rw [print, hcs], ?_, ?_⟩
    · unfold isSpace
      simp only [Bool.or_eq_false_iff, beq_eq_false_iff_ne]
      refine ⟨⟨⟨?_, ?_⟩, ?_⟩, ?_⟩ <;> rintro rfl <;> exact absurd hc (by decide)
    · rintro rfl
      exact absurd hc (by decide)
  | decimal => exact h.elim
  | string s => exact ⟨_, _, rfl, by decide, by decide⟩
  | array items => exact ⟨_, _, by rw [print], by decide, by decide⟩
  | object fields => exact ⟨_, _, by rw [print], by decide, by decide⟩
  | unreadable => exact h.elim

theorem skipSpace_cons {c : Char} (h : isSpace c = false) (cs : List Char) :
    skipSpace (c :: cs) = c :: cs := by
  unfold skipSpace
  rw [List.dropWhile_cons, h]
  rfl

theorem skipSpace_print {j : Json} (h : j.Plain) (rest : List Char) :
    skipSpace (j.print ++ rest) = j.print ++ rest := by
  obtain ⟨c, cs, hp, hs, -⟩ := print_head h
  rw [hp, List.cons_append, skipSpace_cons hs]

theorem value_digit {c : Char} (hc : c.isDigit = true) (depth : Nat) (cs : List Char) :
    value (depth + 1) (c :: cs) = number (c :: cs) := by
  have hne (d : Char) (hd : d.isDigit = false) : c ≠ d := by
    rintro rfl
    rw [hc] at hd
    exact nomatch hd
  rw [value]
  · exact nofun
  all_goals
    intro rest h
    exact hne _ (by decide) (List.cons.inj h).1

theorem literal_append (word : String) (j : Json) (rest : List Char) :
    literal word j (word.toList ++ rest) = some (j, rest) := by
  have hp : word.toList.isPrefixOf (word.toList ++ rest) = true :=
    List.isPrefixOf_iff_prefix.mpr (List.prefix_append _ _)
  unfold literal
  rw [if_pos hp, ← String.length_toList, List.drop_left]

theorem ofFields_map (fields : List (String × Json)) :
    ofFields (fields.map fun f => (some f.1, f.2)).reverse = object fields := by
  have h : (fields.map fun f : String × Json => (some f.1, f.2)).mapM
      (fun f => f.1.map (·, f.2)) = some fields := by
    induction fields with
    | nil => rfl
    | cons f rest ih => simp [ih]
  unfold ofFields
  rw [List.reverse_reverse, h]

theorem length_quote_pos (k : String) : 0 < (quote k).length := by simp [quote]

theorem stringBody_quote (k : String) (rest : List Char) :
    ∃ cs, quote k ++ rest = '"' :: cs ∧ stringBody [] true cs = some (some k, rest) := by
  refine ⟨k.toList.flatMap escapeChar ++ '"' :: rest, by simp [quote], ?_⟩
  rw [stringBody_escape]
  simp

theorem printItems_cons (j j' : Json) (js : List Json) :
    printItems (j :: j' :: js) = j.print ++ ',' :: printItems (j' :: js) := by
  rw [printItems]
  exact nofun

theorem printFields_cons (k : String) (j : Json) (f : String × Json) (fs : List (String × Json)) :
    printFields ((k, j) :: f :: fs) =
      quote k ++ ':' :: (j.print ++ ',' :: printFields (f :: fs)) := by
  rw [printFields]
  exact nofun

/-- The items of an array start like the first of them. -/
theorem printItems_head {j : Json} (h : j.Plain) (js : List Json) :
    ∃ c cs, printItems (j :: js) = c :: cs ∧ isSpace c = false ∧ c ≠ ']' := by
  obtain ⟨c, cs, hc, hs, hb⟩ := print_head h
  cases js with
  | nil => exact ⟨c, cs, by rw [printItems, hc], hs, hb⟩
  | cons j' js => exact ⟨c, _, by rw [printItems_cons, hc, List.cons_append], hs, hb⟩

theorem printFields_head (f : String × Json) (fs : List (String × Json)) :
    ∃ cs, printFields (f :: fs) = '"' :: cs := by
  obtain ⟨k, j⟩ := f
  cases fs with
  | nil => exact ⟨_, by rw [printFields, quote, List.cons_append]⟩
  | cons f fs => exact ⟨_, by rw [printFields_cons, quote, List.cons_append]⟩

/-- A value is read from its printed text, whatever may follow a value. -/
def ReadsBack (j : Json) : Prop :=
  ∀ (depth : Nat) (rest : List Char), j.print.length ≤ depth → Stops rest →
    value depth (j.print ++ rest) = some (j, rest)

/-- Printed items are read up to the closing bracket. -/
theorem items_print {j : Json} {js : List Json} (hp : PlainItems (j :: js))
    (hv : ∀ j' ∈ j :: js, ReadsBack j') {depth : Nat}
    (hd : (printItems (j :: js)).length + 1 ≤ depth) (acc : List Json) (rest : List Char) :
    items depth acc (printItems (j :: js) ++ ']' :: rest) =
      some (array (acc.reverse ++ j :: js), rest) := by
  obtain ⟨depth, rfl⟩ : ∃ d, depth = d + 1 := ⟨depth - 1, by omega⟩
  induction js generalizing j depth acc with
  | nil =>
    rw [printItems] at hd ⊢
    rw [items, hv j List.mem_cons_self depth _ (by omega) (by simp [Stops])]
    simp only [skipSpace_cons (c := ']') (by decide)]
    simp
  | cons j' js ih =>
    obtain ⟨c, cs, hc, hs, -⟩ := printItems_head hp.2.1 js
    rw [printItems_cons, List.length_append, List.length_cons] at hd
    have hpos : 0 < (printItems (j' :: js)).length := by rw [hc]; exact Nat.succ_pos _
    have hrest := ih hp.2 (fun k hk => hv k (List.mem_cons_of_mem _ hk)) (j :: acc) (depth - 1)
      (by omega)
    rw [show depth - 1 + 1 = depth by omega] at hrest
    rw [printItems_cons, List.append_assoc, List.cons_append, items,
      hv j List.mem_cons_self depth _ (by omega) (by simp [Stops])]
    simp only [skipSpace_cons (c := ',') (by decide)]
    rw [hc, List.cons_append] at hrest ⊢
    rw [skipSpace_cons hs, hrest]
    simp

/-- Printed fields are read up to the closing brace. -/
theorem members_print {f : String × Json} {fs : List (String × Json)} (hp : PlainFields (f :: fs))
    (hv : ∀ f' ∈ f :: fs, ReadsBack f'.2) {depth : Nat}
    (hd : (printFields (f :: fs)).length + 1 ≤ depth) (acc : List (Option String × Json))
    (rest : List Char) :
    members depth acc (printFields (f :: fs) ++ '\x7d' :: rest) =
      some (ofFields (((f :: fs).map fun f => (some f.1, f.2)).reverse ++ acc), rest) := by
  obtain ⟨depth, rfl⟩ : ∃ d, depth = d + 1 := ⟨depth - 1, by omega⟩
  induction fs generalizing f depth acc with
  | nil =>
    obtain ⟨k, j⟩ := f
    rw [printFields, List.length_append, List.length_cons] at hd
    rw [printFields, List.append_assoc, List.cons_append]
    obtain ⟨cs, hq, hs⟩ := stringBody_quote k (':' :: (j.print ++ '\x7d' :: rest))
    rw [hq, members, hs]
    simp only [skipSpace_cons (c := ':') (by decide), skipSpace_print hp.1]
    rw [hv (k, j) List.mem_cons_self depth _ (show j.print.length ≤ depth by omega) (by simp [Stops])]
    simp only [skipSpace_cons (c := '\x7d') (by decide)]
    simp
  | cons g gs ih =>
    obtain ⟨k, j⟩ := f
    obtain ⟨cs', hc⟩ := printFields_head g gs
    rw [printFields_cons, List.length_append, List.length_cons, List.length_append,
      List.length_cons] at hd
    have hpos : 0 < (printFields (g :: gs)).length := by rw [hc]; exact Nat.succ_pos _
    have hrest := ih hp.2 (fun f hf => hv f (List.mem_cons_of_mem _ hf)) ((some k, j) :: acc)
      (depth - 1) (by omega)
    rw [show depth - 1 + 1 = depth by omega] at hrest
    rw [printFields_cons, List.append_assoc, List.cons_append, List.append_assoc, List.cons_append]
    obtain ⟨cs, hq, hs⟩ := stringBody_quote k
      (':' :: (j.print ++ ',' :: (printFields (g :: gs) ++ '\x7d' :: rest)))
    rw [hq, members, hs]
    simp only [skipSpace_cons (c := ':') (by decide), skipSpace_print hp.1]
    rw [hv (k, j) List.mem_cons_self depth _ (show j.print.length ≤ depth by omega) (by simp [Stops])]
    simp only [skipSpace_cons (c := ',') (by decide)]
    rw [hc, List.cons_append] at hrest ⊢
    rw [skipSpace_cons (by decide), hrest]
    simp

theorem array_print {items : List Json} (hp : PlainItems items)
    (hv : ∀ j ∈ items, ReadsBack j) : ReadsBack (array items) := by
  intro depth rest hd hr
  rw [print, List.length_cons, List.length_append, List.length_singleton] at hd
  obtain ⟨depth, rfl⟩ : ∃ d, depth = d + 1 := ⟨depth - 1, by omega⟩
  rw [print, List.cons_append, List.append_assoc, List.singleton_append]
  cases items with
  | nil => simp [skipSpace, isSpace]
  | cons j js =>
    have hitems := items_print hp hv (show (printItems (j :: js)).length + 1 ≤ depth by omega) [] rest
    obtain ⟨c, cs, hc, hs, hb⟩ := printItems_head hp.1 js
    rw [hc, List.cons_append] at hitems ⊢
    rw [value, skipSpace_cons hs]
    split
    · rename_i heq
      exact absurd (List.cons.inj heq).1 hb
    · exact hitems

theorem object_print {fields : List (String × Json)} (hp : PlainFields fields)
    (hv : ∀ f ∈ fields, ReadsBack f.2) : ReadsBack (object fields) := by
  intro depth rest hd hr
  rw [print, List.length_cons, List.length_append, List.length_singleton] at hd
  obtain ⟨depth, rfl⟩ : ∃ d, depth = d + 1 := ⟨depth - 1, by omega⟩
  rw [print, List.cons_append, List.append_assoc, List.singleton_append]
  cases fields with
  | nil => simp [skipSpace, isSpace]
  | cons f fs =>
    have hmembers := members_print hp hv
      (show (printFields (f :: fs)).length + 1 ≤ depth by omega) [] rest
    obtain ⟨cs, hc⟩ := printFields_head f fs
    rw [List.append_nil, ofFields_map] at hmembers
    rw [hc, List.cons_append] at hmembers ⊢
    rw [value, skipSpace_cons (by decide)]
    exact hmembers

theorem natural_print (n : Nat) : ReadsBack (natural n) := by
  intro depth rest hd hr
  obtain ⟨c, cs, hp⟩ := List.exists_cons_of_ne_nil (@Nat.toDigits_ne_nil n 10)
  have hc : c.isDigit = true := by
    refine @isDigit_of_mem_toDigits n c ?_
    rw [hp]
    exact List.mem_cons_self
  rw [print, hp, List.length_cons] at hd
  obtain ⟨depth, rfl⟩ : ∃ d, depth = d + 1 := ⟨depth - 1, by omega⟩
  rw [← number_toDigits n hr, print, hp, List.cons_append, value_digit hc]

theorem string_print (s : String) : ReadsBack (string s) := by
  intro depth rest hd hr
  rw [print] at hd
  have := length_quote_pos s
  obtain ⟨depth, rfl⟩ : ∃ d, depth = d + 1 := ⟨depth - 1, by omega⟩
  obtain ⟨cs, hq, hs⟩ := stringBody_quote s rest
  rw [print, hq, value, hs]
  rfl

/-- A printed value is read as itself. -/
theorem value_print : (j : Json) → j.Plain → ReadsBack j
  | null, _ => fun
    | 0, _, hd, _ => absurd hd (by decide)
    | _ + 1, rest, _, _ => literal_append "null" null rest
  | bool false, _ => fun
    | 0, _, hd, _ => absurd hd (by decide)
    | _ + 1, rest, _, _ => literal_append "false" (bool false) rest
  | bool true, _ => fun
    | 0, _, hd, _ => absurd hd (by decide)
    | _ + 1, rest, _, _ => literal_append "true" (bool true) rest
  | natural n, _ => natural_print n
  | string s, _ => string_print s
  | array _, h => array_print h fun j _ => value_print j (plainItems_iff.mp h j ‹_›)
  | object _, h => object_print h fun f _ => value_print f.2 (plainFields_iff.mp h f ‹_›)
  termination_by j => sizeOf j
  decreasing_by
    · have := List.sizeOf_lt_of_mem ‹_›
      simp only [array.sizeOf_spec]
      omega
    · have := List.sizeOf_lt_of_mem ‹_›
      obtain ⟨k, j⟩ := f
      simp only [object.sizeOf_spec, Prod.mk.sizeOf_spec] at *
      omega

/-- A printed value is read back. -/
theorem parse_print {j : Json} (h : j.Plain) : parse j.print = some j := by
  obtain ⟨c, cs, hp, hs, -⟩ := print_head h
  have hv := value_print j h (j.print.length + 1) [] (by omega) stops_nil
  rw [List.append_nil] at hv
  have hskip : skipSpace j.print = j.print := by rw [hp, skipSpace_cons hs]
  unfold parse
  rw [hskip, hv]
  rfl

end Json
end SourceSurvey
