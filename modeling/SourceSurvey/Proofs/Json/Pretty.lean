import SourceSurvey.Proofs.Json.RoundTrip

/-!
# JSON over several lines reads back

`Json.parse_pretty`: a value without decimals, printed over several lines, is read back as itself.
The line feeds and blanks before an item, before a field and before a closing bracket are skipped by
the reader (`skipSpace_newLine`); apart from them the argument is that for a single line.
-/

namespace SourceSurvey
namespace Json

theorem skipSpace_newLine (depth : Nat) (cs : List Char) :
    skipSpace (newLine depth ++ cs) = skipSpace cs := by
  have hblanks (n : Nat) : skipSpace (List.replicate n ' ' ++ cs) = skipSpace cs := by
    induction n with
    | zero => rfl
    | succ n ih => exact ih
  exact hblanks (2 * depth)

theorem length_newLine_pos (depth : Nat) : 0 < (newLine depth).length := Nat.succ_pos _

theorem stops_newLine (depth : Nat) (cs : List Char) : Stops (newLine depth ++ cs) := by
  intro c hc
  exact .inr (.inr (.inr (Option.some.inj hc).symm))

theorem stops_comma (cs : List Char) : Stops (',' :: cs) := by
  intro c hc
  exact .inl (Option.some.inj hc).symm

attribute [local simp] printAt printItemsAt printFieldsAt value items members

/-- The text of a value at some depth starts with a character that is no blank and closes nothing. -/
theorem printAt_head {j : Json} (h : j.Plain) (depth : Nat) :
    ∃ c cs, j.printAt depth = c :: cs ∧ isSpace c = false ∧ c ≠ ']' := by
  cases j with
  | array items =>
    cases items with
    | nil => exact ⟨_, _, by rw [printAt], by decide, by decide⟩
    | cons j js => exact ⟨_, _, by rw [printAt]; exact nofun, by decide, by decide⟩
  | object fields =>
    cases fields with
    | nil => exact ⟨_, _, by rw [printAt], by decide, by decide⟩
    | cons f fs => exact ⟨_, _, by rw [printAt]; exact nofun, by decide, by decide⟩
  | decimal => exact h.elim
  | unreadable => exact h.elim
  | null => simpa using print_head h
  | bool b => simpa using print_head h
  | natural n => simpa using print_head h
  | string s => simpa using print_head h

theorem skipSpace_printAt {j : Json} (h : j.Plain) (depth : Nat) (rest : List Char) :
    skipSpace (j.printAt depth ++ rest) = j.printAt depth ++ rest := by
  obtain ⟨c, cs, hp, hs, -⟩ := printAt_head h depth
  rw [hp, List.cons_append, skipSpace_cons hs]

theorem printItemsAt_cons (depth : Nat) (j j' : Json) (js : List Json) :
    printItemsAt depth (j :: j' :: js) =
      newLine depth ++ (j.printAt depth ++ ',' :: printItemsAt depth (j' :: js)) := by
  rw [printItemsAt, List.append_assoc]
  exact nofun

theorem printFieldsAt_cons (depth : Nat) (k : String) (j : Json) (f : String × Json)
    (fs : List (String × Json)) :
    printFieldsAt depth ((k, j) :: f :: fs) = newLine depth ++ (quote k ++
      ':' :: ' ' :: (j.printAt depth ++ ',' :: printFieldsAt depth (f :: fs))) := by
  rw [printFieldsAt, List.append_assoc]
  exact nofun

theorem printAt_array (depth : Nat) (j : Json) (js : List Json) :
    (array (j :: js)).printAt depth =
      '[' :: (printItemsAt (depth + 1) (j :: js) ++ newLine depth ++ [']']) := by
  rw [printAt]
  exact nofun

theorem printAt_object (depth : Nat) (f : String × Json) (fs : List (String × Json)) :
    (object (f :: fs)).printAt depth =
      '\x7b' :: (printFieldsAt (depth + 1) (f :: fs) ++ newLine depth ++ ['\x7d']) := by
  rw [printAt]
  exact nofun

/-- The first of some items that are printed on lines of their own. -/
theorem printItemsAt_head {j : Json} (h : j.Plain) (js : List Json) (depth : Nat)
    (rest : List Char) :
    ∃ c cs, skipSpace (printItemsAt depth (j :: js) ++ rest) = c :: cs ∧ isSpace c = false ∧
      c ≠ ']' := by
  obtain ⟨c, cs, hc, hs, hb⟩ := printAt_head h depth
  cases js with
  | nil =>
    rw [printItemsAt, List.append_assoc, skipSpace_newLine, skipSpace_printAt h, hc,
      List.cons_append]
    exact ⟨c, _, rfl, hs, hb⟩
  | cons j' js =>
    rw [printItemsAt_cons, List.append_assoc, skipSpace_newLine, List.append_assoc,
      skipSpace_printAt h, hc, List.cons_append]
    exact ⟨c, _, rfl, hs, hb⟩

theorem printFieldsAt_head (f : String × Json) (fs : List (String × Json)) (depth : Nat)
    (rest : List Char) : ∃ cs, skipSpace (printFieldsAt depth (f :: fs) ++ rest) = '"' :: cs := by
  obtain ⟨k, j⟩ := f
  cases fs with
  | nil =>
    rw [printFieldsAt, List.append_assoc, List.append_assoc, skipSpace_newLine]
    exact ⟨_, rfl⟩
  | cons f fs =>
    rw [printFieldsAt_cons, List.append_assoc, skipSpace_newLine]
    exact ⟨_, rfl⟩

/-- A value is read from its text at any depth, whatever may follow a value. -/
def ReadsBackAt (j : Json) : Prop :=
  ∀ (depth most : Nat) (rest : List Char), (j.printAt depth).length ≤ most → Stops rest →
    value most (j.printAt depth ++ rest) = some (j, rest)

/-- Items on lines of their own are read up to the closing bracket. -/
theorem items_printAt {j : Json} {js : List Json} (hp : PlainItems (j :: js))
    (hv : ∀ j' ∈ j :: js, ReadsBackAt j') {depth most : Nat} (above : Nat)
    (hm : (printItemsAt depth (j :: js)).length ≤ most) (acc : List Json) (rest : List Char) :
    items most acc (skipSpace (printItemsAt depth (j :: js) ++ (newLine above ++ ']' :: rest))) =
      some (array (acc.reverse ++ j :: js), rest) := by
  have hline := length_newLine_pos depth
  induction js generalizing j most acc with
  | nil =>
    rw [printItemsAt, List.length_append] at hm
    obtain ⟨most, rfl⟩ : ∃ m, most = m + 1 := ⟨most - 1, by omega⟩
    rw [printItemsAt, List.append_assoc, skipSpace_newLine, skipSpace_printAt hp.1, items,
      hv j List.mem_cons_self depth most _ (by omega) (stops_newLine _ _)]
    simp only [skipSpace_newLine, skipSpace_cons (c := ']') (by decide)]
    simp
  | cons j' js ih =>
    rw [printItemsAt_cons, List.length_append, List.length_append, List.length_cons] at hm
    obtain ⟨most, rfl⟩ : ∃ m, most = m + 1 := ⟨most - 1, by omega⟩
    have hrest := ih hp.2 (fun k hk => hv k (List.mem_cons_of_mem _ hk))
      (show (printItemsAt depth (j' :: js)).length ≤ most by omega) (j :: acc)
    rw [printItemsAt_cons, List.append_assoc, skipSpace_newLine, List.append_assoc,
      skipSpace_printAt hp.1, List.cons_append, items,
      hv j List.mem_cons_self depth most _ (by omega) (stops_comma _)]
    simp only [skipSpace_cons (c := ',') (by decide)]
    rw [hrest]
    simp

/-- Fields on lines of their own are read up to the closing brace. -/
theorem members_printAt {f : String × Json} {fs : List (String × Json)}
    (hp : PlainFields (f :: fs)) (hv : ∀ f' ∈ f :: fs, ReadsBackAt f'.2) {depth most : Nat}
    (above : Nat) (hm : (printFieldsAt depth (f :: fs)).length ≤ most)
    (acc : List (Option String × Json)) (rest : List Char) :
    members most acc
        (skipSpace (printFieldsAt depth (f :: fs) ++ (newLine above ++ '\x7d' :: rest))) =
      some (ofFields (((f :: fs).map fun f => (some f.1, f.2)).reverse ++ acc), rest) := by
  have hline := length_newLine_pos depth
  have hquote : isSpace '"' = false := by decide
  induction fs generalizing f most acc with
  | nil =>
    obtain ⟨k, j⟩ := f
    rw [printFieldsAt, List.length_append, List.length_append, List.length_cons,
      List.length_cons] at hm
    obtain ⟨most, rfl⟩ : ∃ m, most = m + 1 := ⟨most - 1, by omega⟩
    obtain ⟨cs, hq, hs⟩ := stringBody_quote k
      (':' :: ' ' :: (j.printAt depth ++ (newLine above ++ '\x7d' :: rest)))
    rw [printFieldsAt, List.append_assoc, List.append_assoc, skipSpace_newLine, List.cons_append,
      List.cons_append, hq, skipSpace_cons hquote, members, hs]
    simp only [skipSpace_cons (c := ':') (by decide)]
    rw [show skipSpace (' ' :: (j.printAt depth ++ (newLine above ++ '\x7d' :: rest))) =
        skipSpace (j.printAt depth ++ (newLine above ++ '\x7d' :: rest)) from rfl,
      skipSpace_printAt hp.1,
      hv (k, j) List.mem_cons_self depth most _ (by dsimp only; omega) (stops_newLine _ _)]
    simp only [skipSpace_newLine, skipSpace_cons (c := '\x7d') (by decide)]
    simp
  | cons g gs ih =>
    obtain ⟨k, j⟩ := f
    rw [printFieldsAt_cons, List.length_append, List.length_append, List.length_cons,
      List.length_cons, List.length_append, List.length_cons] at hm
    obtain ⟨most, rfl⟩ : ∃ m, most = m + 1 := ⟨most - 1, by omega⟩
    have hrest := ih hp.2 (fun f hf => hv f (List.mem_cons_of_mem _ hf))
      (show (printFieldsAt depth (g :: gs)).length ≤ most by omega) ((some k, j) :: acc)
    obtain ⟨cs, hq, hs⟩ := stringBody_quote k (':' :: ' ' :: (j.printAt depth ++
      ',' :: (printFieldsAt depth (g :: gs) ++ (newLine above ++ '\x7d' :: rest))))
    rw [printFieldsAt_cons, List.append_assoc, skipSpace_newLine, List.append_assoc,
      List.cons_append, List.cons_append, List.append_assoc, List.cons_append, hq,
      skipSpace_cons hquote, members, hs]
    simp only [skipSpace_cons (c := ':') (by decide)]
    rw [show skipSpace (' ' :: (j.printAt depth ++
          ',' :: (printFieldsAt depth (g :: gs) ++ (newLine above ++ '\x7d' :: rest)))) =
        skipSpace (j.printAt depth ++
          ',' :: (printFieldsAt depth (g :: gs) ++ (newLine above ++ '\x7d' :: rest))) from rfl,
      skipSpace_printAt hp.1,
      hv (k, j) List.mem_cons_self depth most _ (by dsimp only; omega) (stops_comma _)]
    simp only [skipSpace_cons (c := ',') (by decide)]
    rw [hrest]
    simp

theorem array_printAt {items : List Json} (hp : PlainItems items)
    (hv : ∀ j ∈ items, ReadsBackAt j) : ReadsBackAt (array items) := by
  intro depth most rest hm hr
  cases items with
  | nil =>
    rw [printAt] at hm
    obtain ⟨most, rfl⟩ : ∃ m, most = m + 1 := ⟨most - 1, by simp at hm; omega⟩
    simp [skipSpace, isSpace]
  | cons j js =>
    rw [printAt_array, List.length_cons, List.length_append, List.length_append] at hm
    obtain ⟨most, rfl⟩ : ∃ m, most = m + 1 := ⟨most - 1, by omega⟩
    have hitems := items_printAt hp hv depth
      (show (printItemsAt (depth + 1) (j :: js)).length ≤ most by omega) [] rest
    obtain ⟨c, cs, hc, hs, hb⟩ := printItemsAt_head hp.1 js (depth + 1)
      (newLine depth ++ ']' :: rest)
    rw [printAt_array, List.cons_append, List.append_assoc, List.append_assoc,
      List.singleton_append, value]
    rw [hc] at hitems ⊢
    split
    · rename_i heq
      exact absurd (List.cons.inj heq).1 hb
    · exact hitems

theorem object_printAt {fields : List (String × Json)} (hp : PlainFields fields)
    (hv : ∀ f ∈ fields, ReadsBackAt f.2) : ReadsBackAt (object fields) := by
  intro depth most rest hm hr
  cases fields with
  | nil =>
    rw [printAt] at hm
    obtain ⟨most, rfl⟩ : ∃ m, most = m + 1 := ⟨most - 1, by simp at hm; omega⟩
    simp [skipSpace, isSpace]
  | cons f fs =>
    rw [printAt_object, List.length_cons, List.length_append, List.length_append] at hm
    obtain ⟨most, rfl⟩ : ∃ m, most = m + 1 := ⟨most - 1, by omega⟩
    have hmembers := members_printAt hp hv depth
      (show (printFieldsAt (depth + 1) (f :: fs)).length ≤ most by omega) [] rest
    obtain ⟨cs, hc⟩ := printFieldsAt_head f fs (depth + 1) (newLine depth ++ '\x7d' :: rest)
    rw [List.append_nil, ofFields_map] at hmembers
    rw [printAt_object, List.cons_append, List.append_assoc, List.append_assoc,
      List.singleton_append, value]
    rw [hc] at hmembers ⊢
    exact hmembers

/-- A value that is written in the same way at every depth. -/
theorem readsBackAt_of_print {j : Json} (h : j.Plain) (hprint : ∀ depth, j.printAt depth = j.print) :
    ReadsBackAt j := by
  intro depth most rest hm hr
  rw [hprint] at hm ⊢
  exact value_print j h most rest hm hr

/-- A value is read from its text at any depth. -/
theorem value_printAt : (j : Json) → j.Plain → ReadsBackAt j
  | null, h => readsBackAt_of_print h fun _ => by simp
  | bool _, h => readsBackAt_of_print h fun _ => by simp
  | natural _, h => readsBackAt_of_print h fun _ => by simp
  | string _, h => readsBackAt_of_print h fun _ => by simp
  | array _, h => array_printAt h fun j _ => value_printAt j (plainItems_iff.mp h j ‹_›)
  | object _, h => object_printAt h fun f _ => value_printAt f.2 (plainFields_iff.mp h f ‹_›)
  termination_by j => sizeOf j
  decreasing_by
    · have := List.sizeOf_lt_of_mem ‹_›
      simp only [array.sizeOf_spec]
      omega
    · have := List.sizeOf_lt_of_mem ‹_›
      obtain ⟨k, j⟩ := f
      simp only [object.sizeOf_spec, Prod.mk.sizeOf_spec] at *
      omega

/-- A value that is printed over several lines is read back. -/
theorem parse_pretty {j : Json} (h : j.Plain) : parse j.pretty.toList = some j := by
  have hv := value_printAt j h 0 ((j.printAt 0).length + 1) [] (by omega) stops_nil
  have hskip := skipSpace_printAt h 0 []
  rw [List.append_nil] at hv hskip
  unfold parse pretty
  rw [String.toList_ofList, hskip, hv]
  rfl

end Json
end SourceSurvey
