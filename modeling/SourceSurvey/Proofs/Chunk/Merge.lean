import SourceSurvey.Proofs.Chunk.View
import SourceSurvey.Proofs.Chunk.Windows

/-!
# Merging windows

The windows of a source are outlined one by one and merged. If every one of them turns the record of
the lines before its own into the record of the lines up to its end (`Chunk.Joins`), the merged
record is the record of the whole source (`ChunkPlan.merge_eq`). A window does so once its walk
agrees with the whole walk at its end (`Chunk.joins_of_agree`), which later modules show of flat
sources and of sources that split cleanly.
-/

namespace SourceSurvey

theorem take_eq_append {α : Type} (xs : List α) {n stop : Nat} (h : n ≤ stop) :
    xs.take stop = xs.take n ++ (xs.take stop).drop n := by
  conv => lhs; rw [← List.take_append_drop n (xs.take stop)]
  rw [List.take_take, Nat.min_eq_left h]

theorem Lexical.eq_of_atStatementStart {s : Lexical} (h : s.atStatementStart = true) : s = {} := by
  obtain ⟨depth, triple⟩ := s
  simpa [Lexical.atStatementStart] using h

/-! ## The state of the marker -/

namespace ChunkPlan

/-- The marker after some lines. -/
def Marker.after (m : Marker) (lines : List (List Char)) : Marker :=
  lines.foldl (fun m line => (m.mark line).2) m

theorem Marker.lexical_after (m : Marker) (lines : List (List Char)) :
    (m.after lines).lexical = lines.foldl Lexical.advance m.lexical := by
  induction lines generalizing m with
  | nil => rfl
  | cons line rest ih => exact ih (m.mark line).2

/-- A line is marked by what the lines before it have left behind. -/
theorem getElem?_annotate (m : Marker) (lines : List (List Char)) (i : Nat) :
    (annotate m lines)[i]? = lines[i]?.map fun line => ((m.after (lines.take i)).mark line).1 := by
  induction lines generalizing m i with
  | nil => rfl
  | cons line rest ih =>
    cases i with
    | zero => rfl
    | succ i => exact ih (m.mark line).2 i

/-- A line at which a top-level construct starts has a first character, which is not blank. -/
theorem exists_cons_of_startsTopLevel {line : List Char} (h : startsTopLevel line = true) :
    ∃ c rest, line = c :: rest ∧ Text.isBlank c = false := by
  cases line with
  | nil => exact nomatch h
  | cons c rest =>
    simp only [startsTopLevel, Bool.and_eq_true, Bool.not_eq_true'] at h
    exact ⟨c, rest, rfl, h.1⟩

/-- A line at which a top-level construct starts is at the left edge. -/
theorem indentation_of_startsTopLevel {line : List Char} (h : startsTopLevel line = true) :
    Outline.indentation line = 0 := by
  obtain ⟨c, rest, rfl, hc⟩ := exists_cons_of_startsTopLevel h
  rw [Outline.indentation, List.takeWhile_cons, hc]
  rfl

/-- A line at which a top-level construct starts is a comment or a statement. -/
theorem isSilent_of_startsTopLevel {line : List Char} (h : startsTopLevel line = true) :
    Outline.isSilent line = (line.head? == some '#') := by
  obtain ⟨c, rest, rfl, hc⟩ := exists_cons_of_startsTopLevel h
  rw [Outline.isSilent, Text.trimStart, List.dropWhile_cons, hc]
  rfl

end ChunkPlan

/-! ## The whole walk -/

namespace Outline

variable {path : Path} {lines : List (List Char)}

/-- The state of the walk over the first `n` lines of a source. -/
def upTo (path : Path) (lines : List (List Char)) (n : Nat) : State :=
  walk { outline := { module := .empty path } } 1 0 (lines.take n)

theorem nested_upTo (path : Path) (lines : List (List Char)) (n : Nat) :
    Nested (upTo path lines n).scopes :=
  Nested.walk (s := { outline := { module := .empty path } }) List.Pairwise.nil 1 0 _

theorem lexical_upTo (path : Path) (lines : List (List Char)) (n : Nat) :
    (upTo path lines n).lexical = (lines.take n).foldl Lexical.advance {} :=
  lexical_walk _ _ _ _

/-- The walk goes on from the first lines to more of them. -/
theorem upTo_eq_walk {n stop : Nat} (hn : n ≤ stop) (hstop : stop ≤ lines.length) :
    upTo path lines stop =
      walk (upTo path lines n) (n + 1) 0 ((lines.take stop).drop n) := by
  have hlength : (lines.take n).length = n := by
    rw [List.length_take]
    omega
  conv => lhs; rw [upTo, take_eq_append lines hn, walk_append, hlength, Nat.add_comm 1 n, Nat.zero_sub]
  rfl

/-- The walk goes on to one more line. -/
theorem upTo_succ (path : Path) {i : Nat} (hi : i < lines.length) :
    upTo path lines (i + 1) = step (upTo path lines i) true (i + 1) lines[i] := by
  rw [upTo, ← List.take_append_getElem hi, walk_append, List.length_take,
    Nat.min_eq_left (Nat.le_of_lt hi), Nat.add_comm 1 i, Nat.zero_sub]
  rfl

/-- The record of a source is what the whole walk has collected. -/
theorem ofText_eq (path : Path) (text : List Char) :
    ofText path text =
      { (upTo path (Text.lines text) (Text.lines text).length).outline.module with
        lineCount := (Text.lines text).length } := by
  rw [upTo, List.take_length]
  rfl

/-- The scopes that a chunk starts with. -/
def enclosing : Option String → List Scope
  | some name => [.ofClass 0 (.context name)]
  | none => []

/-- The state that the walk over a chunk starts with. -/
def start (path : Path) (enclosing? : Option String) : State :=
  { scopes := enclosing enclosing?, outline := { module := .empty path } }

/-- The outline of lines is what the walk over them has collected, up to the number of lines. -/
theorem extract_eq (path : Path) (lines : List (List Char)) (firstLine context : Nat)
    (enclosing? : Option String) :
    ∃ lineCount, extract path lines firstLine context enclosing? =
      { (walk (start path enclosing?) firstLine context lines).outline with
        module := { (walk (start path enclosing?) firstLine context lines).outline.module with
          lineCount } } := by
  cases enclosing? <;> exact ⟨_, rfl⟩

end Outline

/-! ## The outline of a window -/

namespace Chunk

open Outline (upTo walk)

/-- The outline of a chunk turns the record of the lines before its own into the record of the lines
up to its end. -/
def Joins (path : Path) (lines : List (List Char)) (c : Chunk) : Prop :=
  (upTo path lines (c.startLine + c.context)).outline.module.addOutline (c.outline path) =
    (upTo path lines c.endLine).outline.module

/-- The state of the walk over a window of a source at its first own line. -/
def entry (path : Path) (lines : List (List Char)) (first context : Nat)
    (enclosing? : Option String) : Outline.State :=
  walk (Outline.start path enclosing?) (first - context + 1) context
    ((lines.take first).drop (first - context))

variable {path : Path} {lines : List (List Char)} {first context stop : Nat}
  {enclosing? : Option String}

theorem outline_entry (hc : context ≤ first) :
    (entry path lines first context enclosing?).outline = { module := .empty path } := by
  refine Outline.outline_walk_context _ _ ?_
  rw [List.length_drop, List.length_take]
  omega

theorem lexical_entry :
    (entry path lines first context enclosing?).lexical =
      ((lines.take first).drop (first - context)).foldl Lexical.advance {} :=
  Outline.lexical_walk _ _ _ _

/-- Where a statement can start before the first line of a window, the lexers of both walks read the
context alike. -/
theorem lexical_entry_eq (h : ((lines.take (first - context)).foldl Lexical.advance {}).atStatementStart
      = true) :
    (upTo path lines first).lexical = (entry path lines first context enclosing?).lexical := by
  rw [lexical_entry, Outline.lexical_upTo, take_eq_append lines (Nat.sub_le first context),
    List.foldl_append, Lexical.eq_of_atStatementStart h, ← take_eq_append lines (Nat.sub_le _ _)]

/-- The walk over a window goes on from its entry over its own lines. -/
theorem outline_window (path : Path) {marked : List MarkedLine} (index : Nat)
    (hm : marked.map MarkedLine.text = lines)
    (hc : context ≤ first) (hown : first ≤ stop) (hstop : stop ≤ lines.length) :
    ∃ lineCount, ∃ s, s = walk (entry path lines first context
          (marked[first - context]?.bind MarkedLine.openClass?)) (first + 1) 0
          ((lines.take stop).drop first) ∧
      (window marked index (first - context) context stop).outline path =
        { s.outline with module := { s.outline.module with lineCount } } := by
  have hlines : (window marked index (first - context) context stop).lines =
      (lines.take first).drop (first - context) ++ (lines.take stop).drop first := by
    have htake := take_eq_append lines hown
    have hlength : first - context ≤ (lines.take first).length := by
      rw [List.length_take]
      omega
    rw [← List.drop_append_of_le_length hlength, ← htake, ← hm, ← List.map_take, ← List.map_drop]
    rfl
  have hcontext : ((lines.take first).drop (first - context)).length = context := by
    rw [List.length_drop, List.length_take]
    omega
  obtain ⟨lineCount, hextract⟩ := Outline.extract_eq path
    (window marked index (first - context) context stop).lines (first - context + 1) context
    (window marked index (first - context) context stop).enclosing?
  refine ⟨lineCount, _, rfl, ?_⟩
  have hnumber : first - context + 1 + context = first + 1 := by omega
  rw [hlines, Outline.walk_append, hcontext, Nat.sub_self, hnumber, ← hlines] at hextract
  exact hextract

/-- A window joins if the walk over its own lines agrees with the whole walk, and it leaves no
methods to earlier classes unless it is torn off inside of scopes. -/
theorem joins_of_agree {marked : List MarkedLine} (torn : Prop) (index : Nat)
    (hm : marked.map MarkedLine.text = lines) (hc : context ≤ first) (hown : first ≤ stop)
    (hstop : stop ≤ lines.length)
    (ha : Outline.Agree (upTo path lines first).outline.module torn
      (walk (upTo path lines first) (first + 1) 0 ((lines.take stop).drop first))
      (walk (entry path lines first context (marked[first - context]?.bind MarkedLine.openClass?))
        (first + 1) 0 ((lines.take stop).drop first))) :
    Joins path lines (window marked index (first - context) context stop) ∧
      (¬torn → ((window marked index (first - context) context stop).outline path).continued = []) := by
  have hmarked : stop ≤ marked.length := by rwa [← hm, List.length_map] at hstop
  obtain ⟨lineCount, s, rfl, houtline⟩ := outline_window path index hm hc hown hstop
  rw [Joins, endLine_window (by omega) hmarked, startLine_window, context_window,
    Nat.sub_add_cancel hc, houtline, Outline.upTo_eq_walk hown hstop]
  exact ⟨ha.module.symm, ha.clean⟩

end Chunk

/-! ## Merging -/

namespace ChunkPlan

open Outline (upTo)

variable {plan : ChunkPlan} {marked : List MarkedLine} {index first context : Nat}
  {chunks : List Chunk} {path : Path}

/-- Every window is the window of some lines. -/
theorem Windows.exists_eq (h : Windows plan marked index first context chunks) (hc : context ≤ first) :
    ∀ c ∈ chunks, ∃ index first context stop, context ≤ first ∧ first < stop ∧ stop ≤ marked.length ∧
      c = Chunk.window marked index (first - context) context stop := by
  induction h with
  | done => simp
  | next owns fits rest ih =>
    exact List.forall_mem_cons.mpr ⟨⟨_, _, _, _, hc, owns, fits, rfl⟩, ih (by omega)⟩

theorem Windows.endLine_last (h : Windows plan marked index first context chunks)
    (hc : context ≤ first) : (chunks.getLast?.map Chunk.endLine).getD first = marked.length := by
  induction h with
  | done => rfl
  | @next index first context stop chunks owns fits rest ih =>
    have hlast := ih (by omega)
    cases chunks with
    | nil => simpa [Chunk.endLine_window (show first - context ≤ stop by omega) fits] using hlast
    | cons d rest => simpa [List.getLast?_cons] using hlast

/-- Windows that join give the record of all lines. -/
theorem Windows.foldl_eq (h : Windows plan marked index first context chunks) (hc : context ≤ first)
    (hj : ∀ c ∈ chunks, c.Joins path (marked.map MarkedLine.text)) :
    chunks.foldl (fun m c => m.addOutline (c.outline path))
        (upTo path (marked.map MarkedLine.text) first).outline.module =
      (upTo path (marked.map MarkedLine.text) marked.length).outline.module := by
  induction h with
  | done => rfl
  | @next index first context stop chunks owns fits rest ih =>
    obtain ⟨hfirst, hj⟩ := List.forall_mem_cons.mp hj
    rw [Chunk.Joins, Chunk.startLine_window, Chunk.context_window, Nat.sub_add_cancel hc,
      Chunk.endLine_window (by omega) fits] at hfirst
    rw [List.foldl_cons, hfirst]
    exact ih (by omega) hj

/-- The merged record of windows that join is the record of the source. -/
theorem merge_eq {text : List Char} {chunks : List Chunk}
    (h : Windows plan (annotate {} (Text.lines text)) 0 0 0 chunks)
    (hj : ∀ c ∈ chunks, c.Joins path (Text.lines text)) :
    Chunk.merge path chunks =
      { Outline.ofText path text with chunkCount := max chunks.length 1 } := by
  have hfold := h.foldl_eq (Nat.le_refl _) (show ∀ c ∈ chunks, c.Joins path _ by
    rwa [map_text_annotate])
  have hlast := h.endLine_last (Nat.le_refl _)
  rw [length_annotate] at hlast hfold
  rw [map_text_annotate] at hfold
  have hempty : (upTo path (Text.lines text) 0).outline.module = .empty path := rfl
  rw [hempty] at hfold
  simp only [Chunk.merge, hfold, hlast, Outline.ofText_eq]

/-- The chunks of a text are those of its lines. -/
theorem chunks_text (plan : ChunkPlan) (text : List Char) :
    plan.chunks (Text.encode text) = (plan.chunksOf (sourceLines text) .complete, .complete) := by
  rw [chunks, readLines_encode]

/-- Without carriage returns both readings of a text have the same lines. -/
theorem chunks_encode (plan : ChunkPlan) {text : List Char} (h : '\r' ∉ text) :
    plan.chunks (Text.encode text) = (plan.chunksOf (Text.lines text) .complete, .complete) := by
  obtain ⟨hlines, hbare⟩ := Text.lines_eq_terminated h
  rw [chunks_text, sourceLines, hbare, ← hlines]

end ChunkPlan

/-- The file of a text has the merged record of its chunks and a report after each of them. -/
theorem LargeFiles.parseFile_encode (l : LargeFiles) {t : Tree} {path : Path} {text : List Char}
    (hread : t.read path = .ok (Text.encode text)) :
    l.parseFile t path =
      (.ok (Chunk.merge path (l.plan.chunks (Text.encode text)).1),
        Chunk.reports 0 (l.plan.chunks (Text.encode text)).1, (Text.encode text).length) := by
  simp only [parseFile, hread, parseBytes, ChunkPlan.chunks_text]

/-- The file of a text has the merged record of its chunks. -/
theorem LargeFiles.parseFile_text (l : LargeFiles) {t : Tree} {path : Path} {text : List Char}
    (hread : t.read path = .ok (Text.encode text)) :
    (l.parseFile t path).1 = .ok (Chunk.merge path (l.plan.chunks (Text.encode text)).1) := by
  rw [parseFile_encode l hread]

/-- The file of a text without carriage returns has the merged record of its chunks. -/
theorem LargeFiles.parseFile_eq (l : LargeFiles) {t : Tree} {path : Path} {text : List Char}
    (hr : '\r' ∉ text) (hread : t.read path = .ok (Text.encode text)) :
    (l.parseFile t path).1 =
      .ok (Chunk.merge path (l.plan.chunksOf (Text.lines text) .complete)) := by
  rw [parseFile_text l hread, ChunkPlan.chunks_encode l.plan hr]

end SourceSurvey
