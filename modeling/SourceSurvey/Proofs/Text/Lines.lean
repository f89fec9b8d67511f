import SourceSurvey.Proofs.Text

/-!
# Lines of bytes and lines of text

A line feed is one byte, and no byte of another character equals it. Bytes can therefore be cut into
lines first and decoded line by line afterwards.

* `Text.decode?_eq_some_iff`: bytes decode to a text if they are its encoding.
* `Text.terminated_encode`: the lines of an encoded text are the encoded lines of the text.
* `Text.exists_encode_of_terminated`: bytes decode if each of their lines does.
* `Text.lines_eq_terminated`: without carriage returns the lines of a text are its pieces before
  line feeds.
* `Text.lines_flatMap`: the lines of a text are those that it was put together from.
-/

namespace SourceSurvey
namespace Text

/-! ## Encoding -/

@[simp] theorem encode_nil : encode [] = [] := rfl

@[simp] theorem encode_cons (c : Char) (cs : List Char) :
    encode (c :: cs) = String.utf8EncodeChar c ++ encode cs := rfl

@[simp] theorem encode_append (cs ds : List Char) : encode (cs ++ ds) = encode cs ++ encode ds := by
  simp [encode]

theorem length_encode (text : List Char) : (encode text).length = byteLength text := by
  induction text with
  | nil => rfl
  | cons c cs ih => simp [byteLength, ih, String.length_utf8EncodeChar]

@[simp] theorem byteLength_nil : byteLength [] = 0 := rfl

@[simp] theorem byteLength_cons (c : Char) (cs : List Char) :
    byteLength (c :: cs) = c.utf8Size + byteLength cs := rfl

@[simp] theorem byteLength_append (cs ds : List Char) :
    byteLength (cs ++ ds) = byteLength cs + byteLength ds := by
  simp [← length_encode]

theorem toUTF8_eq_encode (s : String) : s.toUTF8.toList = encode s.toList := by
  conv => lhs; rw [← String.ofList_toList (s := s)]
  rw [toList_data, String.toUTF8_eq_toByteArray, String.toByteArray_ofList]
  simp [List.utf8Encode, encode]

/-- Bytes decode to a text if they are its encoding. -/
theorem decode?_eq_some_iff {bytes : List UInt8} {text : List Char} :
    decode? bytes = some text ↔ bytes = encode text := by
  constructor
  · intro h
    obtain ⟨s, hs, rfl⟩ := Option.map_eq_some_iff.mp h
    unfold String.fromUTF8? at hs
    split at hs
    · rename_i valid
      obtain ⟨m, hm⟩ := valid
      have hb : bytes = encode m := by
        have := congrArg (fun b : ByteArray => b.data.toList) hm
        simpa [List.utf8Encode, encode] using this
      have hd := decode?_toUTF8 (String.ofList m)
      rw [toUTF8_eq_encode, String.toList_ofList, ← hb, h, Option.some.injEq] at hd
      rw [hb, hd]
    · exact nomatch hs
  · rintro rfl
    have hd := decode?_toUTF8 (String.ofList text)
    rwa [toUTF8_eq_encode, String.toList_ofList] at hd

@[simp] theorem decode?_encode (text : List Char) : decode? (encode text) = some text :=
  decode?_eq_some_iff.mpr rfl

/-- A byte below 128 in the encoding of a character is that character. -/
theorem toNat_eq_of_mem_utf8EncodeChar {c : Char} {b : UInt8} (h : b ∈ String.utf8EncodeChar c)
    (hb : b.toNat < 128) : c.toNat = b.toNat := by
  have hlow (n k : Nat) (hk : 128 ≤ k) (hn : n + k < 256) : b ≠ UInt8.ofNat (n + k) := by
    intro he
    have := congrArg UInt8.toNat he
    simp at this
    omega
  have hv : c.val.toNat ≤ 127 := by
    by_contra hv
    simp only [String.utf8EncodeChar, if_neg hv] at h
    split at h
    · simp only [List.mem_cons, List.not_mem_nil, or_false] at h
      rcases h with h | h <;> exact hlow _ _ (by omega) (by omega) h
    · split at h
      · simp only [List.mem_cons, List.not_mem_nil, or_false] at h
        rcases h with h | h | h <;> exact hlow _ _ (by omega) (by omega) h
      · simp only [List.mem_cons, List.not_mem_nil, or_false] at h
        rcases h with h | h | h | h <;> exact hlow _ _ (by omega) (by omega) h
  simp only [String.utf8EncodeChar, if_pos hv, List.mem_singleton] at h
  have := congrArg UInt8.toNat h
  have hval : c.toNat = c.val.toNat := rfl
  simp at this
  omega

/-! ## Line feeds -/

/-- The byte of the line feed. -/
def feed : UInt8 := 10

/-- No byte of another character equals the line feed. -/
theorem feed_mem_utf8EncodeChar {c : Char} (h : feed ∈ String.utf8EncodeChar c) : c = '\n' := by
  have hc := toNat_eq_of_mem_utf8EncodeChar h (by decide)
  rw [← Char.ofNat_toNat c, hc]
  decide

theorem feed_mem_encode_iff {cs : List Char} : feed ∈ encode cs ↔ '\n' ∈ cs := by
  constructor
  · intro h
    obtain ⟨c, hc, h⟩ := List.mem_flatMap.mp h
    rwa [← feed_mem_utf8EncodeChar h]
  · intro h
    exact List.mem_flatMap.mpr ⟨'\n', h, by decide⟩

/-- Joining encoded pieces encodes the joined pieces. -/
theorem encode_intercalate (pieces : List (List Char)) :
    encode (['\n'].intercalate pieces) = [feed].intercalate (pieces.map encode) := by
  have hfeed : encode ['\n'] = [feed] := by decide
  induction pieces with
  | nil => rfl
  | cons piece pieces ih =>
    by_cases hnil : pieces = []
    · simp [hnil]
    · rw [List.intercalate_cons_of_ne_nil hnil, List.map_cons,
        List.intercalate_cons_of_ne_nil (by simpa using hnil), encode_append, encode_append, ih, hfeed]

/-- What a piece holds, the joined pieces hold. -/
theorem mem_intercalate {α : Type} {sep piece : List α} {pieces : List (List α)}
    (h : piece ∈ pieces) {x : α} (hx : x ∈ piece) : x ∈ sep.intercalate pieces := by
  induction pieces with
  | nil => exact nomatch h
  | cons first rest ih =>
    by_cases hnil : rest = []
    · subst hnil
      rw [List.mem_singleton] at h
      simpa [← h] using hx
    · rw [List.intercalate_cons_of_ne_nil hnil]
      rcases List.mem_cons.mp h with rfl | h
      · simp [hx]
      · simp [ih h]

theorem not_sep_of_mem_fields {α : Type} {sep : α → Bool} {xs piece : List α}
    (h : piece ∈ fields sep xs) : ∀ x ∈ piece, sep x = false := by
  induction xs generalizing piece with
  | nil =>
    rw [fields_nil, List.mem_singleton] at h
    simp [h]
  | cons x xs ih =>
    obtain ⟨f, fs, hf⟩ := List.exists_cons_of_ne_nil (fields_ne_nil sep xs)
    rw [fields_cons, hf] at h
    rw [hf] at ih
    unfold consField at h
    split at h
    · rcases List.mem_cons.mp h with rfl | h
      · simp
      · exact ih h
    · rcases List.mem_cons.mp h with rfl | h
      · have := ih List.mem_cons_self
        simp_all
      · exact ih (List.mem_cons_of_mem _ h)

/-- A piece between separators holds no separator. -/
theorem not_mem_of_mem_fields {α : Type} [DecidableEq α] {x : α} {xs piece : List α}
    (h : piece ∈ fields (· == x) xs) : x ∉ piece :=
  fun hmem => beq_eq_false_iff_ne.mp (not_sep_of_mem_fields h x hmem) rfl

/-- Bytes are cut at line feeds where their text is. -/
theorem fields_encode (text : List Char) :
    fields (· == feed) (encode text) = (fields (· == '\n') text).map encode := by
  conv => lhs; rw [← intercalate_fields '\n' text, encode_intercalate]
  refine fields_intercalate feed (by simpa using fields_ne_nil _ _) fun bytes hb => ?_
  obtain ⟨line, hline, rfl⟩ := List.mem_map.mp hb
  rw [feed_mem_encode_iff]
  exact not_mem_of_mem_fields hline

/-! ## Lines -/

/-- The pieces before terminators are all pieces but an empty rest. -/
theorem terminated_cases {α : Type} (stop : α → Bool) (xs : List α) :
    (fields stop xs = terminated stop xs ++ [[]]) ∨
      (fields stop xs = terminated stop xs ∧ (fields stop xs).getLast? ≠ some []) := by
  unfold terminated
  dsimp only
  split
  · rename_i h
    exact .inl (List.dropLast_append_getLast? _ h).symm
  · rename_i h
    exact .inr ⟨rfl, h⟩

theorem mem_fields_of_mem_terminated {α : Type} {stop : α → Bool} {xs piece : List α}
    (h : piece ∈ terminated stop xs) : piece ∈ fields stop xs := by
  rcases terminated_cases stop xs with hf | ⟨hf, -⟩
  · rw [hf]
    exact List.mem_append_left _ h
  · rwa [hf]

/-- The lines of an encoded text are the encoded lines of the text. -/
theorem terminated_encode (text : List Char) :
    terminated (· == feed) (encode text) = (terminated (· == '\n') text).map encode := by
  unfold terminated
  dsimp only
  rw [fields_encode, List.getLast?_map]
  cases hl : (fields (· == '\n') text).getLast? with
  | none => simp
  | some last =>
    cases last with
    | nil => simp
    | cons c cs => simp

/-- Bytes decode if each of their lines does. -/
theorem exists_encode_of_terminated {bytes : List UInt8}
    (h : ∀ raw ∈ terminated (· == feed) bytes, (decode? raw).isSome) :
    ∃ text, bytes = encode text := by
  have hall : ∀ raw ∈ fields (· == feed) bytes, ∃ line, encode line = raw := by
    intro raw hraw
    have hmem : raw ∈ terminated (· == feed) bytes ∨ raw = [] := by
      rcases terminated_cases (· == feed) bytes with hf | ⟨hf, -⟩
      · rw [hf] at hraw
        simpa using hraw
      · rw [hf] at hraw
        exact .inl hraw
    rcases hmem with hmem | rfl
    · obtain ⟨line, hline⟩ := Option.isSome_iff_exists.mp (h raw hmem)
      exact ⟨line, (decode?_eq_some_iff.mp hline).symm⟩
    · exact ⟨[], rfl⟩
  choose! line hline using hall
  have hmap : ((fields (· == feed) bytes).map line).map encode = fields (· == feed) bytes := by
    rw [List.map_map]
    conv => rhs; rw [← List.map_id (fields (· == feed) bytes)]
    exact List.map_congr_left hline
  refine ⟨['\n'].intercalate ((fields (· == feed) bytes).map line), ?_⟩
  rw [encode_intercalate, hmap, intercalate_fields]

theorem trimEndWhere_eq_self {p : Char → Bool} {cs : List Char} (h : ∀ c ∈ cs, p c = false) :
    trimEndWhere p cs = cs := by
  unfold trimEndWhere
  cases hr : cs.reverse with
  | nil => simpa using hr.symm
  | cons c rest =>
    have hc : c ∈ cs := by
      rw [← List.mem_reverse, hr]
      exact List.mem_cons_self
    rw [List.dropWhile_cons, h c hc, if_neg Bool.false_ne_true, ← hr, List.reverse_reverse]

theorem bareLine_eq_self {line : List Char} (hr : '\r' ∉ line) (hn : '\n' ∉ line) :
    bareLine line = line := by
  refine trimEndWhere_eq_self fun c hc => ?_
  rw [Bool.or_eq_false_iff, beq_eq_false_iff_ne, beq_eq_false_iff_ne]
  exact ⟨fun he => hn (he ▸ hc), fun he => hr (he ▸ hc)⟩

theorem dropReturn_eq_self {line : List Char} (h : '\r' ∉ line) : dropReturn line = line :=
  if_neg fun hlast => h (List.mem_of_getLast? hlast)

@[simp] theorem dropReturn_concat (line : List Char) : dropReturn (line ++ ['\r']) = line := by
  rw [dropReturn, List.getLast?_concat, if_pos rfl, List.dropLast_concat]

theorem dropReturn_subset (line : List Char) : ∀ c ∈ dropReturn line, c ∈ line := by
  intro c hc
  unfold dropReturn at hc
  split at hc
  · exact List.dropLast_subset _ hc
  · exact hc

/-- Without carriage returns the lines of a text are its pieces before line feeds. -/
theorem lines_eq_terminated {text : List Char} (h : '\r' ∉ text) :
    lines text = terminated (· == '\n') text ∧
      (terminated (· == '\n') text).map bareLine = terminated (· == '\n') text := by
  have hreturn : ∀ piece ∈ fields (· == '\n') text, '\r' ∉ piece := by
    intro piece hpiece hr
    refine h ?_
    rw [← intercalate_fields '\n' text]
    exact mem_intercalate hpiece hr
  constructor
  · have hfinished : (fields (· == '\n') text).dropLast.map dropReturn =
        (fields (· == '\n') text).dropLast := by
      conv => rhs; rw [← List.map_id (fields (· == '\n') text).dropLast]
      exact List.map_congr_left fun piece hpiece =>
        dropReturn_eq_self (hreturn piece (List.dropLast_subset _ hpiece))
    unfold lines terminated
    dsimp only
    rw [hfinished]
    cases hl : (fields (· == '\n') text).getLast? with
    | none => exact absurd (List.getLast?_eq_none_iff.mp hl) (fields_ne_nil _ _)
    | some last =>
      cases last with
      | nil => rfl
      | cons c cs => exact List.dropLast_append_getLast? _ hl
  · conv => rhs; rw [← List.map_id (terminated (· == '\n') text)]
    refine List.map_congr_left fun piece hpiece => ?_
    have hfield := mem_fields_of_mem_terminated hpiece
    exact bareLine_eq_self (hreturn piece hfield) (not_mem_of_mem_fields hfield)

/-- The lines of a text that has a line feed behind every line. -/
theorem lines_flatMap {ls : List (List Char)} (h : ∀ line ∈ ls, '\n' ∉ line) :
    lines (ls.flatMap fun line => line ++ ['\n']) = ls.map dropReturn := by
  have hfields : fields (· == '\n') (ls.flatMap fun line => line ++ ['\n']) = ls ++ [[]] := by
    induction ls with
    | nil => rfl
    | cons line rest ih =>
      obtain ⟨hline, hrest⟩ := List.forall_mem_cons.mp h
      rw [List.flatMap_cons, List.append_assoc, List.singleton_append, fields_append (by rfl),
        fields_of_not_mem hline, ih hrest, List.singleton_append, List.cons_append]
  unfold lines
  dsimp only
  rw [hfields, List.getLast?_concat, List.dropLast_concat]

end Text
end SourceSurvey
