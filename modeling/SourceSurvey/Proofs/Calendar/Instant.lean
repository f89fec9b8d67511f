import Mathlib.Algebra.Group.Nat.Defs
import SourceSurvey.Calendar.Instant
import SourceSurvey.Proofs.Json.RoundTrip

/-!
# Written instants read back

An instant of the calendar (`Instant.Dated`) is read back from its text (`Instant.ofString?_print`).

* `dateOf_spec`: the date of a day is a date of the calendar and denotes that day. A day of an era
  of 400 years is taken apart into centuries of 36524 days, spans of four years of 1461 days, and
  years (`EraDay`); what is left is the day of a year that starts in March.
* `digits?_append`: digits are read up to a character that is no digit, or up to their bound.
-/

namespace SourceSurvey
namespace Instant

/-! ## The days of an era -/

/-- A day of an era: the century, the span of four years, the year of the span and the day of the
year. Only the last year of a span has a leap day, and the last span of a century has one only at
the end of the era. -/
structure EraDay (b q w d : Int) : Prop where
  century : 0 ≤ b ∧ b ≤ 3
  span : 0 ≤ q ∧ q ≤ 24
  year : 0 ≤ w ∧ w ≤ 3
  day : 0 ≤ d ∧ d ≤ 365
  leap : d = 365 → w = 3 ∧ (q = 24 → b = 3)

/-- The number of a day in its era. -/
def eraDay (b q w d : Int) : Int := 36524 * b + 1461 * q + 365 * w + d

theorem exists_eraDay {e : Int} (h₀ : 0 ≤ e) (h₁ : e < 146097) :
    ∃ b q w d, EraDay b q w d ∧ e = eraDay b q w d := by
  unfold eraDay
  generalize hb : min (e / 36524) 3 = b
  have hcentury : 0 ≤ b ∧ b ≤ 3 := by omega
  generalize hr : e - 36524 * b = r
  have hrest : 0 ≤ r ∧ r ≤ 36524 ∧ (r = 36524 → b = 3) := by omega
  refine ⟨b, r / 1461, min (r % 1461 / 365) 3, r % 1461 - 365 * min (r % 1461 / 365) 3,
    ⟨hcentury, ?_, ?_, ?_, ?_⟩, ?_⟩
  all_goals omega

variable {b q w d e : Int}

/-- The year of a day of an era, as the calendar computes it. -/
theorem EraDay.yearOfEra (h : EraDay b q w d) (he : e = eraDay b q w d) :
    (e - e / 1460 + e / 36524 - e / 146096) / 365 = 100 * b + 4 * q + w := by
  obtain ⟨hb, hq, hw, hd, hleap⟩ := h
  unfold eraDay at he
  have hspans : e / 1460 = 25 * b + q + if 1460 ≤ 24 * b + q + 365 * w + d then 1 else 0 := by
    split <;> omega
  have hcenturies : e / 36524 - e / 146096 = b := by
    have hlast : 1461 * q + 365 * w + d < 36524 ∨ 1461 * q + 365 * w + d = 36524 ∧ b = 3 := by omega
    rcases hlast with hlast | ⟨hlast, rfl⟩
    · have hwhole : e / 36524 = b := by omega
      have hera : e / 146096 = 0 := by omega
      omega
    · omega
  have hyears : e - e / 1460 + e / 36524 - e / 146096 = 365 * (100 * b + 4 * q + w) +
      (d - if 1460 ≤ 24 * b + q + 365 * w + d then 1 else 0) := by
    omega
  rw [hyears]
  split <;> omega

/-- The day of the year of a day of an era. -/
theorem EraDay.dayOfYear (h : EraDay b q w d) {y : Int} (hy : y = 100 * b + 4 * q + w) :
    eraDay b q w d - (365 * y + y / 4 - y / 100) = d := by
  obtain ⟨hb, hq, hw, -, -⟩ := h
  unfold eraDay
  have hspans : y / 4 = 25 * b + q := by omega
  have hcenturies : y / 100 = b := by omega
  omega

/-- The month and the day of the month of a day of a year. -/
theorem month_of_dayOfYear : ∀ n : Fin 366,
    let dayOfYear : Int := n.val
    let monthFromMarch := Int.fdiv (5 * dayOfYear + 2) 153
    let day := dayOfYear - Int.fdiv (153 * monthFromMarch + 2) 5 + 1
    let month := if monthFromMarch < 10 then monthFromMarch + 3 else monthFromMarch - 9
    1 ≤ month ∧ month ≤ 12 ∧ 1 ≤ day ∧ day ≤ 31 ∧
      (month = 2 → day ≤ 29 ∧ (day = 29 → dayOfYear = 365)) ∧
      (month = 4 ∨ month = 6 ∨ month = 9 ∨ month = 11 → day ≤ 30) ∧
      (month + 9) % 12 = monthFromMarch := by
  decide +kernel

theorem eraDay_bounds (h : EraDay b q w d) : 0 ≤ eraDay b q w d ∧ eraDay b q w d < 146097 := by
  obtain ⟨hb, hq, hw, hd, hleap⟩ := h
  unfold eraDay
  omega

/-- The date of a day, by the parts of its era. -/
theorem dateOf_eq (h : EraDay b q w d) (era : Int) :
    dateOf (era * 146097 + eraDay b q w d - 719468) =
      let monthFromMarch := Int.fdiv (5 * d + 2) 153
      let month := if monthFromMarch < 10 then monthFromMarch + 3 else monthFromMarch - 9
      (100 * b + 4 * q + w + era * 400 + (if month ≤ 2 then 1 else 0), month.toNat,
        (d - Int.fdiv (153 * monthFromMarch + 2) 5 + 1).toNat) := by
  have hbounds := eraDay_bounds h
  have hera : Int.fdiv (era * 146097 + eraDay b q w d - 719468 + 719468) 146097 = era := by
    rw [Int.fdiv_eq_ediv_of_nonneg _ (by decide)]
    omega
  have hday : era * 146097 + eraDay b q w d - 719468 + 719468 - era * 146097 = eraDay b q w d := by
    omega
  have hyear := h.yearOfEra rfl
  have hrest := h.dayOfYear rfl
  unfold dateOf
  simp only [hera, hday]
  simp only [Int.fdiv_eq_ediv_of_nonneg _ (show (0 : Int) ≤ 1460 by decide),
    Int.fdiv_eq_ediv_of_nonneg _ (show (0 : Int) ≤ 36524 by decide),
    Int.fdiv_eq_ediv_of_nonneg _ (show (0 : Int) ≤ 146096 by decide),
    Int.fdiv_eq_ediv_of_nonneg _ (show (0 : Int) ≤ 365 by decide), hyear,
    Int.fdiv_eq_ediv_of_nonneg _ (show (0 : Int) ≤ 4 by decide),
    Int.fdiv_eq_ediv_of_nonneg _ (show (0 : Int) ≤ 100 by decide), hrest]

/-- The number of a day, from the parts of its era and its month and day. Counted from March the year
is that of the era again. -/
theorem daysOf_eraDay (h : EraDay b q w d) (era : Int) {m month day : Int}
    (hmonth : 1 ≤ month ∧ month ≤ 12) (hmarch : (month + 9) % 12 = m) (hday : 1 ≤ day)
    (hd : d - Int.fdiv (153 * m + 2) 5 + 1 = day) :
    daysOf (100 * b + 4 * q + w + era * 400 + (if month ≤ 2 then 1 else 0)) month.toNat
        day.toNat = era * 146097 + eraDay b q w d - 719468 := by
  obtain ⟨hb, hq, hw, -, -⟩ := id h
  have hmonths : ((month.toNat : Int) + 9) % 12 = m := by omega
  have hdays : (day.toNat : Int) = day := by omega
  have hyear : (if month.toNat ≤ 2 then
      100 * b + 4 * q + w + era * 400 + (if month ≤ 2 then 1 else 0) - 1
      else 100 * b + 4 * q + w + era * 400 + (if month ≤ 2 then 1 else 0)) =
      100 * b + 4 * q + w + era * 400 := by
    split <;> split <;> omega
  have hera : Int.fdiv (100 * b + 4 * q + w + era * 400) 400 = era := by
    rw [Int.fdiv_eq_ediv_of_nonneg _ (by decide)]
    omega
  have hof : 100 * b + 4 * q + w + era * 400 - era * 400 = 100 * b + 4 * q + w := by omega
  have hrest := h.dayOfYear (y := 100 * b + 4 * q + w) rfl
  unfold daysOf
  dsimp only
  rw [hyear, hera, hof, hmonths, hdays]
  rw [Int.fdiv_eq_ediv_of_nonneg _ (show (0 : Int) ≤ 4 by decide),
    Int.fdiv_eq_ediv_of_nonneg _ (show (0 : Int) ≤ 100 by decide)]
  omega

/-- A day of February is a leap day only as the last day of a leap year, counted from March. -/
theorem day_le_daysIn (h : EraDay b q w d) (era : Int) {month day : Int}
    (hmonth : 1 ≤ month ∧ month ≤ 12) (hlast : day ≤ 31)
    (hfebruary : month = 2 → day ≤ 29 ∧ (day = 29 → d = 365))
    (hshort : month = 4 ∨ month = 6 ∨ month = 9 ∨ month = 11 → day ≤ 30) :
    day.toNat ≤ daysIn (100 * b + 4 * q + w + era * 400 + (if month ≤ 2 then 1 else 0))
      month.toNat := by
  generalize hyear : 100 * b + 4 * q + w + era * 400 + (if month ≤ 2 then 1 else 0) = year
  by_cases hsecond : month = 2
  · subst hsecond
    obtain ⟨hshortest, hleapDay⟩ := hfebruary rfl
    obtain ⟨hb, hq, hw, -, hleap⟩ := h
    unfold daysIn isLeap
    simp only [show (2 : Int).toNat = 2 from rfl]
    split
    · omega
    · rename_i hcommon
      have hlastDay : day ≠ 29 := by
        intro hlastDay
        obtain ⟨hwthree, hqlast⟩ := hleap (hleapDay hlastDay)
        apply hcommon
        simp only [Bool.and_eq_true, Bool.or_eq_true, beq_iff_eq, bne_iff_ne]
        simp only [Int.le_refl, if_true] at hyear
        omega
      omega
  · by_cases hthirty : month = 4 ∨ month = 6 ∨ month = 9 ∨ month = 11
    · have := hshort hthirty
      rcases hthirty with rfl | rfl | rfl | rfl <;> simp [daysIn] <;> omega
    · have hlong : daysIn year month.toNat = 31 := by
        unfold daysIn
        split <;> omega
      omega

/-- The parts of a date: the number of its day, and that it is a date of the calendar. -/
theorem dateOf_spec (days : Int) :
    daysOf (dateOf days).1 (dateOf days).2.1 (dateOf days).2.2 = days ∧
      (1 ≤ (dateOf days).2.1 ∧ (dateOf days).2.1 ≤ 12) ∧
      1 ≤ (dateOf days).2.2 ∧ (dateOf days).2.2 ≤ daysIn (dateOf days).1 (dateOf days).2.1 := by
  obtain ⟨era, e, h₀, h₁, rfl⟩ : ∃ era e : Int, 0 ≤ e ∧ e < 146097 ∧
      days = era * 146097 + e - 719468 :=
    ⟨(days + 719468) / 146097, (days + 719468) % 146097, by omega, by omega, by omega⟩
  obtain ⟨b, q, w, d, h, rfl⟩ := exists_eraDay h₀ h₁
  rw [dateOf_eq h]
  obtain ⟨n, hn⟩ : ∃ n : Fin 366, (n.val : Int) = d := by
    have := h.day
    exact ⟨⟨d.toNat, by omega⟩, by simp; omega⟩
  have hmonth := month_of_dayOfYear n
  rw [hn] at hmonth
  dsimp only at hmonth ⊢
  generalize hm : Int.fdiv (5 * d + 2) 153 = m at hmonth ⊢
  generalize hM : (if m < 10 then m + 3 else m - 9) = month at hmonth ⊢
  generalize hD : d - Int.fdiv (153 * m + 2) 5 + 1 = day at hmonth ⊢
  obtain ⟨hlow, hhigh, hfirst, hlast, hfebruary, hshort, hmarch⟩ := hmonth
  exact ⟨daysOf_eraDay h era ⟨hlow, hhigh⟩ hmarch hfirst hD, by omega, by omega,
    day_le_daysIn h era ⟨hlow, hhigh⟩ hlast hfebruary hshort⟩

/-! ## Digits -/

theorem isBlank_of_isDigit {c : Char} (h : c.isDigit = true) : Text.isBlank c = false := by
  have hrange : 48 ≤ c.toNat ∧ c.toNat ≤ 57 := by
    simp only [Char.isDigit, Bool.and_eq_true, decide_eq_true_eq] at h
    exact ⟨h.1, h.2⟩
  unfold Text.isBlank
  simp only [Bool.or_eq_false_iff, Bool.and_eq_false_iff, decide_eq_false_iff_not,
    beq_eq_false_iff_ne]
  omega

theorem trimStart_cons {c : Char} (h : Text.isBlank c = false) (cs : List Char) :
    Text.trimStart (c :: cs) = c :: cs := by
  unfold Text.trimStart
  rw [List.dropWhile_cons, h]
  rfl

theorem trimStart_digits {digits : List Char} (hd : ∀ c ∈ digits, c.isDigit = true)
    (hne : digits ≠ []) (rest : List Char) :
    Text.trimStart (digits ++ rest) = digits ++ rest := by
  obtain ⟨c, cs, rfl⟩ := List.exists_cons_of_ne_nil hne
  exact trimStart_cons (isBlank_of_isDigit (hd c List.mem_cons_self)) _

/-- Digits are read up to a character that is no digit, or up to their bound. -/
theorem digits?_append {most : Nat} {digits rest : List Char}
    (hd : ∀ c ∈ digits, c.isDigit = true) (hne : digits ≠ []) (hmost : digits.length ≤ most)
    (hstop : digits.length = most ∨ ∀ c ∈ rest.head?, c.isDigit = false) :
    digits? most (digits ++ rest) = some (Json.decimalValue digits, rest) := by
  have htake : (digits ++ rest).take most = digits ++ rest.take (most - digits.length) := by
    rw [List.take_append, List.take_of_length_le hmost]
  have hhead : ∀ c ∈ (rest.take (most - digits.length)).head?, c.isDigit = false := by
    intro c hc
    rcases hstop with hstop | hstop
    · rw [hstop, Nat.sub_self] at hc
      exact nomatch hc
    · refine hstop c ?_
      rw [List.head?_take] at hc
      split at hc
      · exact nomatch hc
      · exact hc
  have hdigits := (Json.takeWhile_digits hd hhead).1
  have hempty : digits.isEmpty = false := by
    rw [List.isEmpty_eq_false_iff]
    exact hne
  unfold digits?
  simp only [htake, hdigits, hempty, Bool.false_eq_true, if_false, List.drop_left]
  rfl

theorem isDigit_of_mem_padded {width n : Nat} {c : Char} (h : c ∈ Decimal.padded width n) :
    c.isDigit = true := by
  rcases List.mem_append.mp h with h | h
  · rw [List.eq_of_mem_replicate h]
    rfl
  · exact Json.isDigit_of_mem_toDigits c h

theorem padded_ne_nil (width n : Nat) : Decimal.padded width n ≠ [] :=
  List.append_ne_nil_of_right_ne_nil _ Nat.toDigits_ne_nil

theorem length_padded {width n : Nat} (hw : 0 < width) (hn : n < 10 ^ width) :
    (Decimal.padded width n).length = width := by
  have hdigits : (Nat.toDigits 10 n).length ≤ width :=
    (Nat.length_toDigits_le_iff (by decide) hw).mpr hn
  unfold Decimal.padded
  rw [List.length_append, List.length_replicate]
  omega

/-- The zeros that fill a number up do not change it. -/
theorem decimalValue_padded (width n : Nat) : Json.decimalValue (Decimal.padded width n) = n := by
  have hzeros (k : Nat) : (List.replicate k '0').foldl
      (fun (n : Nat) (c : Char) => n * 10 + (c.toNat - 48)) 0 = 0 := by
    induction k with
    | zero => rfl
    | succ k ih => exact ih
  unfold Decimal.padded Json.decimalValue
  rw [List.foldl_append, hzeros]
  exact Json.decimalValue_toDigits n

/-! ## The parts of a written instant -/

theorem field?_padded {low high n : Nat} (hlow : low ≤ n) (hhigh : n ≤ high) (hn : n < 100)
    (rest : List Char) : field? low high (Decimal.padded 2 n ++ rest) = some (n, rest) := by
  have hlength := length_padded (show 0 < 2 by decide) hn
  unfold field?
  rw [trimStart_digits (fun _ => isDigit_of_mem_padded) (padded_ne_nil 2 n),
    digits?_append (fun _ => isDigit_of_mem_padded) (padded_ne_nil 2 n) (Nat.le_of_eq hlength)
      (.inl hlength),
    decimalValue_padded]
  simp [hlow, hhigh]

theorem separator?_cons {c : Char} (h : Text.isBlank c = false) (rest : List Char) :
    separator? c (c :: rest) = some rest := by
  unfold separator?
  rw [trimStart_cons h]
  simp

theorem year?_printYear (year : Int) (rest : List Char) :
    year? (printYear year ++ '-' :: rest) = some (year, '-' :: rest) := by
  have hstop : ∀ c ∈ ('-' :: rest).head?, c.isDigit = false := by
    intro c hc
    rw [← Option.some.inj hc]
    rfl
  have hsigned := @digits?_append (Decimal.padded 4 year.natAbs ++ '-' :: rest).length
    (Decimal.padded 4 year.natAbs) ('-' :: rest) (fun _ => isDigit_of_mem_padded)
    (padded_ne_nil _ _) (by rw [List.length_append]; omega) (.inr hstop)
  rw [decimalValue_padded] at hsigned
  unfold printYear
  split
  · rename_i hshort
    simp only [Bool.and_eq_true, decide_eq_true_eq] at hshort
    have hlength := length_padded (n := year.toNat) (show 0 < 4 by decide) (by omega)
    have hdigits := @digits?_append 4 (Decimal.padded 4 year.toNat) ('-' :: rest)
      (fun _ => isDigit_of_mem_padded) (padded_ne_nil _ _) (Nat.le_of_eq hlength) (.inl hlength)
    rw [decimalValue_padded] at hdigits
    obtain ⟨c, cs, hcs⟩ := List.exists_cons_of_ne_nil (padded_ne_nil 4 year.toNat)
    have hc : c.isDigit = true := isDigit_of_mem_padded (by rw [hcs]; exact List.mem_cons_self)
    unfold year?
    rw [trimStart_digits (fun _ => isDigit_of_mem_padded) (padded_ne_nil _ _)]
    rw [hcs] at hdigits ⊢
    rw [List.cons_append] at hdigits ⊢
    split
    · rename_i heq
      rw [(List.cons.inj heq).1] at hc
      exact absurd hc (by decide)
    · rename_i heq
      rw [(List.cons.inj heq).1] at hc
      exact absurd hc (by decide)
    · rw [hdigits]
      simp only [Option.map_some, Option.some.injEq, Prod.mk.injEq, and_true]
      omega
  · rename_i hlong
    simp only [Bool.and_eq_true, decide_eq_true_eq] at hlong
    by_cases hneg : year < 0
    · unfold year?
      rw [if_pos hneg, List.cons_append, trimStart_cons (by decide)]
      simp only [hsigned, Option.map_some, Option.some.injEq, Prod.mk.injEq, and_true]
      omega
    · unfold year?
      rw [if_neg hneg, List.cons_append, trimStart_cons (by decide)]
      simp only [hsigned, Option.map_some, Option.some.injEq, Prod.mk.injEq, and_true]
      omega

/-- Some decimals of a second are read up to what is no digit. -/
theorem nanos?_padded {places n : Nat} (hp : 0 < places) (hmost : places ≤ 9)
    (hn : n < 10 ^ places) {rest : List Char} (hstop : ∀ c ∈ rest.head?, c.isDigit = false) :
    nanos? ('.' :: (Decimal.padded places n ++ rest)) = some (n * 10 ^ (9 - places), rest) := by
  have hlength := length_padded hp hn
  have hrest : rest.dropWhile Char.isDigit = rest := by
    cases rest with
    | nil => rfl
    | cons c rest => rw [List.dropWhile_cons, hstop c rfl]; rfl
  have hdigits := @digits?_append 9 (Decimal.padded places n) rest
    (fun _ => isDigit_of_mem_padded) (padded_ne_nil places n) (by omega) (.inr hstop)
  rw [decimalValue_padded] at hdigits
  unfold nanos?
  simp only [hdigits]
  simp only [Option.map_some, List.length_append, hlength, hrest, Nat.add_sub_cancel]
  rfl

theorem nanos?_printNanos {nanos : Nat} (hn : nanos < 1000000000) :
    nanos? (printNanos nanos ++ ['Z']) = some (nanos, ['Z']) := by
  have hstop : ∀ c ∈ ['Z'].head?, c.isDigit = false := by
    intro c hc
    rw [← Option.some.inj hc]
    rfl
  unfold printNanos
  split
  · rename_i hzero
    rw [hzero]
    rfl
  · split
    · rw [List.cons_append, nanos?_padded (by decide) (by decide) (by omega) hstop]
      simp only [Option.some.injEq, Prod.mk.injEq, and_true]
      omega
    · split
      · rw [List.cons_append, nanos?_padded (by decide) (by decide) (by omega) hstop]
        simp only [Option.some.injEq, Prod.mk.injEq, and_true]
        omega
      · rw [List.cons_append, nanos?_padded (by decide) (by decide) (by omega) hstop]
        simp

/-! ## Instants of the calendar -/

theorem daysIn_le (year : Int) (month : Nat) : daysIn year month ≤ 31 := by
  unfold daysIn
  split
  · split <;> decide
  all_goals decide

/-- A written date and time in universal time is read as its parts say. -/
theorem parse?_written {year : Int} {month day hour minute second nanos : Nat}
    (hyear : inRange year = true) (hmonth : 1 ≤ month) (hmonth' : month ≤ 12) (hday : 1 ≤ day)
    (hday' : day ≤ daysIn year month) (hhour : hour < 24) (hminute : minute < 60)
    (hsecond : second < 60) (hnanos : nanos < 1000000000) {seconds : Int}
    (hseconds : daysOf year month day * 86400 + (hour * 3600 + minute * 60 + second) = seconds)
    (hrange : inRange (dateOf (Int.fdiv seconds 86400)).1 = true) :
    parse? (printYear year ++ '-' :: (Decimal.padded 2 month ++ '-' :: (Decimal.padded 2 day ++
      'T' :: (Decimal.padded 2 hour ++ ':' :: (Decimal.padded 2 minute ++
        ':' :: (Decimal.padded 2 second ++ (printNanos nanos ++ ['Z']))))))) =
      some ⟨seconds, nanos⟩ := by
  have hlong : day ≤ 31 := Nat.le_trans hday' (daysIn_le year month)
  unfold parse?
  rw [year?_printYear, Option.bind_eq_bind, Option.bind_some]
  dsimp only [Option.bind_eq_bind]
  rw [separator?_cons (show Text.isBlank '-' = false by decide), Option.bind_some,
    field?_padded hmonth hmonth' (show month < 100 by omega), Option.bind_some]
  dsimp only
  rw [separator?_cons (show Text.isBlank '-' = false by decide), Option.bind_some,
    field?_padded hday hlong (show day < 100 by omega), Option.bind_some]
  -- The match on the letter between date and time stands for its first arm.
  change (field? 0 23 (Decimal.padded 2 hour ++ _)).bind _ = some (⟨seconds, nanos⟩ : Instant)
  rw [field?_padded (Nat.zero_le _) (show hour ≤ 23 by omega) (show hour < 100 by omega),
    Option.bind_some]
  dsimp only
  rw [separator?_cons (show Text.isBlank ':' = false by decide), Option.bind_some,
    field?_padded (Nat.zero_le _) (show minute ≤ 59 by omega) (show minute < 100 by omega),
    Option.bind_some]
  dsimp only
  rw [separator?_cons (show Text.isBlank ':' = false by decide), Option.bind_some,
    field?_padded (Nat.zero_le _) (show second ≤ 60 by omega) (show second < 100 by omega),
    Option.bind_some]
  dsimp only
  rw [nanos?_printNanos hnanos, Option.bind_some,
    trimStart_cons (show Text.isBlank 'Z' = false by decide), offset?, Option.bind_some]
  have hshort : ¬ daysIn year month < day := Nat.not_lt.mpr hday'
  have hplain : ¬ second = 60 := by omega
  simp only [if_neg hplain, Int.sub_zero, hseconds, hrange, hyear, decide_eq_false hshort]
  rfl

/-- An instant outside of a leap second whose year has a date. -/
structure Dated (t : Instant) : Prop where
  nanos : t.nanos < 1000000000
  inRange : inRange (dateOf (Int.fdiv t.seconds 86400)).1 = true

/-- An instant of the calendar is read back from its text. -/
theorem ofString?_print {t : Instant} (h : t.Dated) : ofString? t.print = some t := by
  obtain ⟨hnanos, hrange⟩ := h
  obtain ⟨hdays, ⟨hmonth, hmonth'⟩, hday, hday'⟩ := dateOf_spec (Int.fdiv t.seconds 86400)
  have hdiv := Int.fdiv_eq_ediv_of_nonneg t.seconds (show (0 : Int) ≤ 86400 by decide)
  generalize hd : Int.fdiv t.seconds 86400 = days at hrange hdays hday hday' hmonth hmonth'
  generalize hdateOf : dateOf days = date at hrange hdays hday hday' hmonth hmonth'
  obtain ⟨year, month, day⟩ := date
  generalize hc : (t.seconds - days * 86400).toNat = clock
  have hclock : clock < 86400 ∧ (clock : Int) = t.seconds - days * 86400 := by omega
  dsimp only at hrange hdays hday hday' hmonth hmonth'
  have hleap : ¬ 1000000000 ≤ t.nanos := by omega
  have hseconds : daysOf year month day * 86400 + (((clock / 3600 : Nat) : Int) * 3600 +
      ((clock / 60 % 60 : Nat) : Int) * 60 + ((clock % 60 : Nat) : Int)) = t.seconds := by
    rw [hdays]
    omega
  have hyear : inRange (dateOf (Int.fdiv t.seconds 86400)).1 = true := by
    rw [hd, hdateOf]
    exact hrange
  unfold ofString? print
  simp only [hd, hdateOf, hc, if_neg hleap, String.toList_ofList, List.append_assoc,
    List.cons_append, Nat.add_zero]
  exact parse?_written hrange hmonth hmonth' hday hday' (by omega) (by omega) (by omega) hnanos
    hseconds hyear

end Instant
end SourceSurvey
