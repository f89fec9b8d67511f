import SourceSurvey.Proofs.Json.RoundTrip
import SourceSurvey.Toml.Printer
import SourceSurvey.Toml.Scalar

/-!
# Strings of TOML read back

A string is printed in one of its four forms, and every form is read back up to its closing quotes
(`Toml.string?_quote`), whatever stands behind them but another quote.

* `basic_escape`: escaped characters between quotes.
* `multiBasic_escapeLines`: text over several lines. Of quotes that stand together at most two are left
  as they are, so three of them close the text and what stands before them is read from there.
* `literal_append`, `multiLiteral_append`: characters as they are, without control characters and with
  runs of apostrophes that are short enough.
-/

namespace SourceSurvey
namespace Toml

variable {c : Char} {cs acc rest : List Char} {fuel run : Nat}

/-! ## Characters -/

theorem isControl_eq_false_iff :
    isControl c = false ↔ (c = '\t' ∨ ¬ c.toNat < 0x20) ∧ c.toNat ≠ 0x7f := by
  simp only [isControl, Bool.or_eq_false_iff, Bool.and_eq_false_iff, decide_eq_false_iff_not,
    bne_eq_false_iff_eq, beq_eq_false_iff_ne, ne_eq]
  rw [or_comm]

/-- A character is read from its number. -/
theorem scalar?_upperDigit :
    ∀ n < 0x80, scalar? ['0', '0', upperDigit (n / 16), upperDigit (n % 16)] = some (Char.ofNat n) := by
  decide

/-- A character is written as an escape, or else it is nothing but itself. -/
theorem escapeChar_cases (c : Char) :
    (∃ body, escapeChar c = '\\' :: body ∧ continuation? (body ++ rest) = none ∧
        escape? (body ++ rest) = some (c, rest)) ∨
      escapeChar c = [c] ∧ isControl c = false ∧ c ≠ '"' ∧ c ≠ '\\' ∧ c ≠ '\n' ∧ c ≠ '\r' := by
  unfold escapeChar
  split
  · exact .inl ⟨_, rfl, rfl, rfl⟩
  · exact .inl ⟨_, rfl, rfl, rfl⟩
  · exact .inl ⟨_, rfl, rfl, rfl⟩
  · exact .inl ⟨_, rfl, rfl, rfl⟩
  · exact .inl ⟨_, rfl, rfl, rfl⟩
  · exact .inl ⟨_, rfl, rfl, rfl⟩
  · exact .inl ⟨_, rfl, rfl, rfl⟩
  · rename_i hb ht hn hf hr hq hs
    by_cases hc : (decide (c.toNat < 0x20) || c.toNat == 0x7f) = true
    · have hlt : c.toNat < 0x80 := by
        simp only [Bool.or_eq_true, decide_eq_true_eq, beq_iff_eq] at hc
        omega
      refine .inl ⟨['u', '0', '0', upperDigit (c.toNat / 16), upperDigit (c.toNat % 16)], ?_, rfl, ?_⟩
      · rw [if_pos hc]
      · show (scalar? ['0', '0', upperDigit (c.toNat / 16), upperDigit (c.toNat % 16)]).map (·, rest) = _
        rw [scalar?_upperDigit _ hlt, Char.ofNat_toNat]
        rfl
    · rw [if_neg hc]
      refine .inr ⟨rfl, ?_, hq, hs, hn, hr⟩
      simp only [Bool.or_eq_true, decide_eq_true_eq, beq_iff_eq, not_or] at hc
      rw [isControl_eq_false_iff]
      exact ⟨.inr hc.1, hc.2⟩

/-! ## Basic strings -/

theorem basic_bare (hc : isControl c = false) (hq : c ≠ '"') (hs : c ≠ '\\') :
    basic (fuel + 1) acc (c :: rest) = basic fuel (c :: acc) rest := by
  rw [basic, hc, if_neg Bool.false_ne_true]
  · exact hq
  · exact hs

theorem basic_escapeChar (c : Char) :
    basic (fuel + 1) acc (escapeChar c ++ rest) = basic fuel (c :: acc) rest := by
  rcases @escapeChar_cases rest c with ⟨body, hbody, -, hescape⟩ | ⟨hself, hc, hq, hs, -⟩
  · rw [hbody, List.cons_append, basic, hescape]
  · rw [hself]
    exact basic_bare hc hq hs

/-- Escaped characters are read up to the closing quote. -/
theorem basic_escape (h : cs.length < fuel) :
    basic fuel acc (cs.flatMap escapeChar ++ '"' :: rest) =
      some (String.ofList (acc.reverse ++ cs), rest) := by
  induction cs generalizing fuel acc with
  | nil =>
    obtain ⟨fuel, rfl⟩ := Nat.exists_eq_add_of_lt h
    simp [basic]
  | cons c cs ih =>
    obtain ⟨fuel, rfl⟩ : ∃ n, fuel = n + 1 := ⟨fuel - 1, by omega⟩
    rw [List.flatMap_cons, List.append_assoc, basic_escapeChar, ih (Nat.lt_of_succ_lt_succ h)]
    simp

/-! ## Literal strings -/

/-- Characters are read as they are up to the closing apostrophe. -/
theorem literal_append (hcs : ∀ c ∈ cs, isControl c = false ∧ c ≠ '\'') :
    literal acc (cs ++ '\'' :: rest) = some (String.ofList (acc.reverse ++ cs), rest) := by
  induction cs generalizing acc with
  | nil => simp [literal]
  | cons c cs ih =>
    obtain ⟨⟨hc, ha⟩, hcs⟩ := List.forall_mem_cons.mp hcs
    rw [List.cons_append, literal, hc, if_neg Bool.false_ne_true, ih hcs]
    · simp
    · exact ha

/-! ## Quotes that stand together -/

section Quotes

variable {quote : Char}

/-- Up to two quotes that stand in front of the closing ones belong to the string. -/
theorem close_replicate (hrest : rest.head? ≠ some quote) (hrun : run ≤ 2) :
    close quote acc (List.replicate run quote ++ rest) =
      (String.ofList (acc.reverse ++ List.replicate run quote), rest) := by
  cases rest with
  | nil =>
    match run, hrun with
    | 0, _ | 1, _ | 2, _ => simp [close, List.replicate]
  | cons c rest =>
    have hc : c ≠ quote := fun he => hrest (congrArg some he)
    match run, hrun with
    | 0, _ => cases rest <;> simp [close, hc]
    | 1, _ | 2, _ => simp [close, List.replicate, hc]

theorem replicate_closing (quote : Char) (run : Nat) (rest : List Char) :
    List.replicate run quote ++ quote :: quote :: quote :: rest =
      quote :: quote :: quote :: (List.replicate run quote ++ rest) := by
  induction run with
  | zero => rfl
  | succ run ih => rw [List.replicate_succ, List.cons_append, ih, List.cons_append]

/-- A reader that takes a quote as it is, unless three stand together, takes two of them in front of
another character. -/
theorem reads_quotes {read : Nat → List Char → List Char → Option (String × List Char)}
    (step : ∀ fuel acc rest, (∀ more, quote :: rest ≠ quote :: quote :: quote :: more) →
      read (fuel + 1) acc (quote :: rest) = read fuel (quote :: acc) rest)
    (hc : c ≠ quote) (hrun : run ≤ 2) :
    read (fuel + run) acc (List.replicate run quote ++ c :: rest) =
      read fuel (List.replicate run quote ++ acc) (c :: rest) := by
  match run, hrun with
  | 0, _ => rfl
  | 1, _ => exact step _ _ _ (by simp [hc])
  | 2, _ => exact (step _ _ _ (by simp [hc])).trans (step _ _ _ (by simp [hc]))

end Quotes

/-! ## Basic strings over several lines -/

theorem newline?_eq_none (hc : isControl c = false) (rest : List Char) :
    newline? (c :: rest) = none := by
  unfold newline?
  split
  · rename_i heq
    rw [(List.cons.inj heq).1] at hc
    exact absurd hc (by decide)
  · rename_i heq
    rw [(List.cons.inj heq).1] at hc
    exact absurd hc (by decide)
  · rfl

theorem multiBasic_bare (hc : isControl c = false) (hs : c ≠ '\\')
    (hq : ∀ more, c :: rest ≠ '"' :: '"' :: '"' :: more) :
    multiBasic (fuel + 1) acc (c :: rest) = multiBasic fuel (c :: acc) rest := by
  rw [multiBasic, newline?_eq_none hc]
  · dsimp only
    rw [hc, if_neg Bool.false_ne_true]
  · rintro more rfl rfl
    exact hq _ rfl
  · exact hs

theorem multiBasic_quotes (hc : c ≠ '"') (hrun : run ≤ 2) :
    multiBasic (fuel + run) acc (List.replicate run '"' ++ c :: rest) =
      multiBasic fuel (List.replicate run '"' ++ acc) (c :: rest) :=
  reads_quotes (fun _ _ _ => multiBasic_bare (by decide) (by decide)) hc hrun

theorem multiBasic_newline (hrun : run ≤ 2) :
    multiBasic (fuel + 1 + run) acc (List.replicate run '"' ++ '\n' :: rest) =
      multiBasic fuel ('\n' :: (List.replicate run '"' ++ acc)) rest := by
  rw [multiBasic_quotes (by decide) hrun, multiBasic]
  · rfl
  · exact nofun
  · exact nofun

theorem multiBasic_escapeChar (hrun : run ≤ 2) (c : Char) :
    multiBasic (fuel + 1 + run) acc (List.replicate run '"' ++ (escapeChar c ++ rest)) =
      multiBasic fuel (c :: (List.replicate run '"' ++ acc)) rest := by
  rcases @escapeChar_cases rest c with ⟨body, hbody, hcont, hescape⟩ | ⟨hself, hc, hq, hs, -⟩
  · rw [hbody, List.cons_append, multiBasic_quotes (by decide) hrun, multiBasic, hcont, hescape]
  · rw [hself, List.singleton_append, multiBasic_quotes hq hrun, multiBasic_bare hc hs (by simp [hq])]

/-- How a text over several lines starts: with a line feed, with a quote that stays, or with an
escaped character, which may be a quote behind two others. -/
theorem escapeLines_cons (run : Nat) (c : Char) (cs : List Char) :
    (c = '\n' ∧ escapeLines run (c :: cs) = '\n' :: escapeLines 0 cs) ∨
      (c = '"' ∧ run ≠ 2 ∧ escapeLines run (c :: cs) = '"' :: escapeLines (run + 1) cs) ∨
      escapeLines run (c :: cs) = escapeChar c ++ escapeLines 0 cs := by
  by_cases hn : c = '\n'
  · subst hn
    exact .inl ⟨rfl, by rw [escapeLines]⟩
  by_cases hq : c = '"'
  · subst hq
    rw [escapeLines]
    split
    · exact .inr (.inr rfl)
    · exact .inr (.inl ⟨rfl, ‹_›, rfl⟩)
  · refine .inr (.inr ?_)
    rw [escapeLines]
    · exact hn
    · exact hq

/-- Text over several lines is read up to the closing quotes. `run` quotes were written before it and
are read with it. -/
theorem multiBasic_escapeLines (run : Nat) (hrest : rest.head? ≠ some '"') (hrun : run ≤ 2)
    (h : run + cs.length < fuel) :
    multiBasic fuel acc
        (List.replicate run '"' ++ (escapeLines run cs ++ '"' :: '"' :: '"' :: rest)) =
      some (String.ofList (acc.reverse ++ (List.replicate run '"' ++ cs)), rest) := by
  induction cs generalizing fuel acc run with
  | nil =>
    obtain ⟨fuel, rfl⟩ : ∃ n, fuel = n + 1 := ⟨fuel - 1, by omega⟩
    rw [escapeLines, List.nil_append, replicate_closing, multiBasic, close_replicate hrest hrun,
      List.append_nil]
  | cons c cs ih =>
    rw [List.length_cons] at h
    obtain ⟨fuel, rfl⟩ : ∃ n, fuel = n + 1 + run := ⟨fuel - 1 - run, by omega⟩
    rcases escapeLines_cons run c cs with ⟨rfl, hc⟩ | ⟨rfl, hne, hc⟩ | hc
    · rw [hc, List.cons_append, multiBasic_newline hrun]
      refine (ih 0 (by decide) (by omega)).trans ?_
      simp
    · rw [hc, ← List.singleton_append, List.append_assoc, ← List.append_assoc,
        ← List.replicate_succ', ih (run + 1) (by omega) (by omega), List.replicate_succ', List.append_assoc,
        List.singleton_append]
    · rw [hc, List.append_assoc, multiBasic_escapeChar hrun]
      refine (ih 0 (by decide) (by omega)).trans ?_
      simp

/-! ## Literal strings over several lines -/

/-- Nowhere three quotes stand together, if `run` of them stand in front. -/
def Sparse (quote : Char) (run : Nat) : List Char → Prop
  | [] => run ≤ 2
  | c :: cs => if c = quote then Sparse quote (run + 1) cs else run ≤ 2 ∧ Sparse quote 0 cs

theorem multiLiteral_bare (hc : isControl c = false)
    (hq : ∀ more, c :: rest ≠ '\'' :: '\'' :: '\'' :: more) :
    multiLiteral (fuel + 1) acc (c :: rest) = multiLiteral fuel (c :: acc) rest := by
  rw [multiLiteral, newline?_eq_none hc]
  · dsimp only
    rw [hc, if_neg Bool.false_ne_true]
  · rintro more rfl rfl
    exact hq _ rfl

theorem multiLiteral_quotes (hc : c ≠ '\'') (hrun : run ≤ 2) :
    multiLiteral (fuel + run) acc (List.replicate run '\'' ++ c :: rest) =
      multiLiteral fuel (List.replicate run '\'' ++ acc) (c :: rest) :=
  reads_quotes (fun _ _ _ => multiLiteral_bare (by decide)) hc hrun

theorem multiLiteral_cons (hc : isControl c = false ∨ c = '\n') (hq : c ≠ '\'') (hrun : run ≤ 2) :
    multiLiteral (fuel + 1 + run) acc (List.replicate run '\'' ++ c :: rest) =
      multiLiteral fuel (c :: (List.replicate run '\'' ++ acc)) rest := by
  rw [multiLiteral_quotes hq hrun]
  rcases hc with hc | rfl
  · exact multiLiteral_bare hc (by simp [hq])
  · rw [multiLiteral]
    · rfl
    · exact nofun

/-- Lines of characters are read as they are up to the closing apostrophes. -/
theorem multiLiteral_append (run : Nat) (hrest : rest.head? ≠ some '\'')
    (hcs : ∀ c ∈ cs, isControl c = false ∨ c = '\n') (sparse : Sparse '\'' run cs)
    (h : run + cs.length < fuel) :
    multiLiteral fuel acc (List.replicate run '\'' ++ (cs ++ '\'' :: '\'' :: '\'' :: rest)) =
      some (String.ofList (acc.reverse ++ (List.replicate run '\'' ++ cs)), rest) := by
  induction cs generalizing fuel acc run with
  | nil =>
    obtain ⟨fuel, rfl⟩ : ∃ n, fuel = n + 1 := ⟨fuel - 1, by omega⟩
    rw [List.nil_append, replicate_closing, multiLiteral, close_replicate hrest sparse,
      List.append_nil]
  | cons c cs ih =>
    obtain ⟨hc, hmore⟩ := List.forall_mem_cons.mp hcs
    rw [List.length_cons] at h
    rw [Sparse] at sparse
    split at sparse
    · subst c
      rw [List.cons_append, ← List.singleton_append, ← List.append_assoc, ← List.replicate_succ',
        ih (run + 1) hmore sparse (by omega), List.replicate_succ', List.append_assoc, List.singleton_append]
    · rename_i hq
      obtain ⟨fuel, rfl⟩ : ∃ n, fuel = n + 1 + run := ⟨fuel - 1 - run, by omega⟩
      rw [List.cons_append, multiLiteral_cons hc hq sparse.1]
      refine (ih 0 hmore sparse.2 (by omega)).trans ?_
      simp

/-! ## Traits -/

section Runs

variable {quote : Char}

/-- The longest run so far and the run at the end, with one more character. -/
def extendRun (quote : Char) (s : Nat × Nat) (c : Char) : Nat × Nat :=
  if c == quote then (max s.1 (s.2 + 1), s.2 + 1) else (s.1, 0)

theorem le_foldl_extendRun (quote : Char) (s : Nat × Nat) (cs : List Char) :
    s.1 ≤ (cs.foldl (extendRun quote) s).1 := by
  induction cs generalizing s with
  | nil => exact Nat.le_refl _
  | cons c cs ih =>
    refine Nat.le_trans ?_ (ih _)
    unfold extendRun
    split
    · exact Nat.le_max_left ..
    · exact Nat.le_refl _

/-- Nowhere three quotes stand together if no run of them is longer than two. -/
theorem sparse_of_foldl {s : Nat × Nat} (hs : s.2 ≤ s.1)
    (h : (cs.foldl (extendRun quote) s).1 ≤ 2) : Sparse quote s.2 cs := by
  induction cs generalizing s with
  | nil => exact Nat.le_trans hs h
  | cons c cs ih =>
    have hle : s.1 ≤ 2 := Nat.le_trans (le_foldl_extendRun quote s (c :: cs)) h
    rw [List.foldl_cons] at h
    rw [Sparse]
    by_cases hc : c = quote
    · rw [extendRun, if_pos (beq_iff_eq.mpr hc)] at h
      rw [if_pos hc]
      exact ih (Nat.le_max_right ..) h
    · rw [extendRun, if_neg (by simpa using hc)] at h
      rw [if_neg hc]
      exact ⟨Nat.le_trans hs hle, ih (Nat.zero_le _) h⟩

theorem not_mem_of_foldl {s : Nat × Nat} (h : (cs.foldl (extendRun quote) s).1 = 0) :
    quote ∉ cs := by
  induction cs generalizing s with
  | nil => exact List.not_mem_nil
  | cons c cs ih =>
    rw [List.foldl_cons] at h
    refine fun hmem => (List.mem_cons.mp hmem).elim (fun hc => ?_) (ih h)
    subst hc
    have hle := le_foldl_extendRun quote (extendRun quote s quote) cs
    rw [h, extendRun, if_pos BEq.rfl] at hle
    have : s.2 + 1 ≤ 0 := Nat.le_trans (Nat.le_max_right ..) hle
    omega

end Runs

theorem control_of_hasControl (h : (Traits.of cs).hasControl = false) :
    ∀ c ∈ cs, isControl c = false ∨ c = '\n' := by
  intro c hc
  have hany := List.any_eq_false.mp h c hc
  by_cases hn : c = '\n'
  · exact .inr hn
  · refine .inl (Bool.eq_false_iff.mpr ?_)
    simpa [isControl, hn] using hany

/-! ## Forms -/

theorem head?_ne_of_stops (h : Json.Stops rest) (hq : c = '"' ∨ c = '\'') : rest.head? ≠ some c := by
  intro hc
  rcases h c hc with rfl | rfl | rfl | rfl
  all_goals exact absurd hq (by decide)

theorem escapeChar_head (c : Char) : (escapeChar c).head? ≠ some '"' ∧ 0 < (escapeChar c).length := by
  rcases @escapeChar_cases [] c with ⟨body, hbody, -⟩ | ⟨hself, -, hq, -⟩
  · rw [hbody]
    exact ⟨by simp, Nat.succ_pos _⟩
  · rw [hself]
    exact ⟨by simpa using hq, Nat.one_pos⟩

theorem length_le_flatMap_escapeChar (cs : List Char) :
    cs.length ≤ (cs.flatMap escapeChar).length := by
  induction cs with
  | nil => exact Nat.le_refl _
  | cons c cs ih =>
    have := (escapeChar_head c).2
    rw [List.flatMap_cons, List.length_append, List.length_cons]
    omega

theorem length_le_escapeLines (run : Nat) (cs : List Char) :
    cs.length ≤ (escapeLines run cs).length := by
  induction cs generalizing run with
  | nil => exact Nat.zero_le _
  | cons c cs ih =>
    rcases escapeLines_cons run c cs with ⟨-, hc⟩ | ⟨-, -, hc⟩ | hc
    · rw [hc]
      exact Nat.succ_le_succ (ih 0)
    · rw [hc]
      exact Nat.succ_le_succ (ih _)
    · have := (escapeChar_head c).2
      have := ih 0
      rw [hc, List.length_append, List.length_cons]
      omega

theorem string?_basic (cs : List Char) (hrest : Json.Stops rest) :
    string? ('"' :: (cs.flatMap escapeChar ++ ['"']) ++ rest) = some (String.ofList cs, rest) := by
  have hlength := length_le_flatMap_escapeChar cs
  rw [List.cons_append, List.append_assoc, List.singleton_append, string?, basic_escape]
  · rfl
  · simp only [List.length_append]
    omega
  · -- what stands behind the first quote does not open a string over several lines
    intro more hmore
    have hhead := congrArg List.head? hmore
    cases cs with
    | nil => exact head?_ne_of_stops hrest (.inl rfl) (congrArg List.head? (List.cons.inj hmore).2)
    | cons c cs =>
      obtain ⟨hc, hpos⟩ := escapeChar_head c
      rw [List.flatMap_cons, List.append_assoc,
        List.head?_append_of_ne_nil _ (List.ne_nil_of_length_pos hpos)] at hhead
      exact hc hhead

theorem string?_literal (hcs : ∀ c ∈ cs, isControl c = false ∧ c ≠ '\'') (hrest : Json.Stops rest) :
    string? ('\'' :: (cs ++ ['\'']) ++ rest) = some (String.ofList cs, rest) := by
  rw [List.cons_append, List.append_assoc, List.singleton_append, string?, literal_append hcs]
  · rfl
  · intro more hmore
    cases cs with
    | nil => exact head?_ne_of_stops hrest (.inr rfl) (congrArg List.head? (List.cons.inj hmore).2)
    | cons c cs => exact (hcs c List.mem_cons_self).2 (List.cons.inj hmore).1

theorem string?_multiBasic (cs : List Char) (hrest : Json.Stops rest) :
    string? ("\"\"\"\n".toList ++ escapeLines 0 cs ++ "\"\"\"".toList ++ rest) =
      some (String.ofList cs, rest) := by
  have hlength := length_le_escapeLines 0 cs
  have hopen : "\"\"\"\n".toList = ['"', '"', '"', '\n'] := rfl
  have hclose : "\"\"\"".toList = ['"', '"', '"'] := rfl
  rw [hopen, hclose]
  simp only [List.cons_append, List.nil_append, List.append_assoc]
  rw [string?]
  refine multiBasic_escapeLines 0 (head?_ne_of_stops hrest (.inl rfl)) (by decide) ?_
  simp only [List.length_append, List.length_cons]
  omega

theorem string?_multiLiteral (hcs : ∀ c ∈ cs, isControl c = false ∨ c = '\n')
    (sparse : Sparse '\'' 0 cs) (hrest : Json.Stops rest) :
    string? ("'''\n".toList ++ cs ++ "'''".toList ++ rest) = some (String.ofList cs, rest) := by
  have hopen : "'''\n".toList = ['\'', '\'', '\'', '\n'] := rfl
  have hclose : "'''".toList = ['\'', '\'', '\''] := rfl
  rw [hopen, hclose]
  simp only [List.cons_append, List.nil_append, List.append_assoc]
  rw [string?]
  refine multiLiteral_append 0 (head?_ne_of_stops hrest (.inr rfl)) hcs sparse ?_
  simp only [List.length_append, List.length_cons]
  omega

/-- A string is read from its text in whatever form it is printed. -/
theorem string?_quote (s : String) (hrest : Json.Stops rest) :
    string? (quote s ++ rest) = some (s, rest) := by
  have hs : String.ofList s.toList = s := String.ofList_toList
  unfold quote
  extract_lets cs t
  split
  · rw [string?_basic _ hrest, hs]
  split
  · rename_i h
    simp only [Bool.and_eq_true, Bool.not_eq_true', decide_eq_true_eq] at h
    obtain ⟨⟨hcontrol, happ⟩, hline⟩ := h
    have hnewline : '\n' ∉ cs := by simpa [t, Traits.of] using hline
    rw [string?_literal (fun c hc => ⟨?_, ?_⟩) hrest, hs]
    · exact (control_of_hasControl hcontrol c hc).resolve_right fun hn => hnewline (hn ▸ hc)
    · exact fun ha => not_mem_of_foldl happ (ha ▸ hc)
  split
  · rw [string?_multiBasic _ hrest, hs]
  split
  · rename_i h
    simp only [Bool.and_eq_true, Bool.not_eq_true', decide_eq_true_eq] at h
    have sparse := sparse_of_foldl (Nat.le_refl 0) (Nat.le_of_lt_succ h.2)
    rw [string?_multiLiteral (control_of_hasControl h.1) sparse hrest, hs]
  split
  · rw [string?_multiBasic _ hrest, hs]
  · rw [string?_basic _ hrest, hs]

end Toml
end SourceSurvey
