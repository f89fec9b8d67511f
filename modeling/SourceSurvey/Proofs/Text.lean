import Mathlib.Data.List.Basic
import SourceSurvey.Text.Fields
import SourceSurvey.Text.Lines

/-!
# Encoding and cutting texts

* `Text.decode?_toUTF8`: the bytes of a text decode to the text.
* `Text.fields_append`: cutting at separators goes piece by piece, and joining the pieces with the
  separator gives the text back (`Text.intercalate_fields`).
-/

namespace SourceSurvey
namespace Text

/-! ## Encoding -/

theorem toList_loop (b : ByteArray) (i : Nat) (r : List UInt8) :
    ByteArray.toList.loop b i r = r.reverse ++ b.data.toList.drop i := by
  fun_induction ByteArray.toList.loop b i r with
  | case1 i r h ih =>
    have hi : i < b.data.toList.length := by simpa using h
    rw [ih, List.reverse_cons, List.append_assoc, List.singleton_append,
      List.drop_eq_getElem_cons hi]
    congr 2
    rw [Array.getElem_toList]
    exact getElem!_pos b.data i h
  | case2 i r h =>
    have hi : b.data.toList.length ≤ i := by simpa using h
    rw [List.drop_eq_nil_of_le hi, List.append_nil]

theorem toList_data (b : ByteArray) : b.toList = b.data.toList := by
  unfold ByteArray.toList
  rw [toList_loop]
  rfl

/-- The bytes of a text decode to the text. -/
theorem decode?_toUTF8 (s : String) : decode? s.toUTF8.toList = some s.toList := by
  have hs : (⟨s.toUTF8.data.toList.toArray⟩ : ByteArray) = s.toUTF8 := by simp
  have hf : String.fromUTF8? s.toUTF8 = some s := by
    unfold String.fromUTF8?
    rw [String.toUTF8_eq_toByteArray, dif_pos s.isValidUTF8]
    rfl
  unfold decode?
  rw [toList_data, hs, hf]
  rfl

/-- Texts with the same bytes are equal. -/
theorem toUTF8_inj {s s' : String} (h : s.toUTF8.toList = s'.toUTF8.toList) : s = s' := by
  have hd := decode?_toUTF8 s
  rw [h, decode?_toUTF8, Option.some.injEq] at hd
  exact (String.toList_inj.mp hd).symm

/-! ## Fields -/

variable {α : Type} {sep : α → Bool}

theorem fields_eq_splitOnP (xs : List α) : fields sep xs = xs.splitOnP sep := by
  induction xs with
  | nil => rfl
  | cons x xs ih =>
    obtain ⟨f, fs, hf⟩ := List.exists_cons_of_ne_nil (fields_ne_nil sep xs)
    rw [fields_cons, List.splitOnP_cons_eq_if_modifyHead, ← ih, hf]
    unfold consField
    split
    · rfl
    · rfl

/-- Fields before and after a separator. -/
theorem fields_append {x : α} (hx : sep x = true) (xs ys : List α) :
    fields sep (xs ++ x :: ys) = fields sep xs ++ fields sep ys := by
  rw [fields_eq_splitOnP, fields_eq_splitOnP, fields_eq_splitOnP]
  exact List.splitOnP_append_cons xs ys hx

/-- A list without the separator is its only field. -/
theorem fields_of_not_mem [DecidableEq α] {x : α} {xs : List α} (h : x ∉ xs) :
    fields (· == x) xs = [xs] := by
  rw [fields_eq_splitOnP]
  refine List.splitOnP_eq_singleton fun y hy => ?_
  rw [beq_eq_false_iff_ne]
  rintro rfl
  exact h hy

/-- Fields joined with the separator between them are what was cut. -/
theorem intercalate_fields [DecidableEq α] (x : α) (xs : List α) :
    [x].intercalate (fields (· == x) xs) = xs := by
  rw [fields_eq_splitOnP, ← List.splitOn_eq_splitOnP, List.intercalate_splitOn]

/-- Cutting what was joined gives the fields back, if they hold no separator. -/
theorem fields_intercalate [DecidableEq α] (x : α) {xss : List (List α)} (hne : xss ≠ [])
    (h : ∀ xs ∈ xss, x ∉ xs) : fields (· == x) ([x].intercalate xss) = xss := by
  induction xss with
  | nil => exact absurd rfl hne
  | cons xs xss ih =>
    have hxs : fields (· == x) xs = [xs] := fields_of_not_mem (h xs List.mem_cons_self)
    by_cases hnil : xss = []
    · rw [hnil, List.intercalate_singleton]
      exact hxs
    · rw [List.intercalate_cons_of_ne_nil hnil, List.append_assoc, List.singleton_append]
      have hx : (fun y => y == x) x = true := beq_self_eq_true x
      refine (@fields_append α (· == x) x hx xs _).trans ?_
      rw [hxs, ih hnil fun ys hys => h ys (List.mem_cons_of_mem _ hys)]
      rfl

/-- Text behind the last of several joined pieces belongs to that piece. -/
theorem intercalate_concat_append (sep : List α) (xs : List (List α)) (y z : List α) :
    sep.intercalate (xs ++ [y ++ z]) = sep.intercalate (xs ++ [y]) ++ z := by
  induction xs with
  | nil => simp
  | cons x xs ih =>
    cases xs with
    | nil => simp
    | cons x' xs => simp_all

/-- The part after the last separator. -/
theorem lastField_append {x : α} (hx : sep x = true) (xs : List α) {ys : List α}
    (hys : ∀ y ∈ ys, sep y = false) : lastField sep (xs ++ x :: ys) = ys := by
  unfold lastField firstField
  rw [List.reverse_append, List.reverse_cons, List.append_assoc, List.singleton_append,
    List.takeWhile_append_of_pos]
  · simp [hx]
  · intro y hy
    simpa using hys y (List.mem_reverse.mp hy)

end Text
end SourceSurvey
