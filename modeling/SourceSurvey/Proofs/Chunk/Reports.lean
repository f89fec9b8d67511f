import Mathlib.Algebra.GroupWithZero.Nat
import SourceSurvey.Proofs.Chunk.Merge
import SourceSurvey.Proofs.Tree.Names

/-!
# Reports of a reading in chunks

After every chunk the reading reports how many lines and how many bytes are done. The bytes are put
together from the lines, each with one line feed, while the share of the file that is done compares
them with the size of the file. The two differ where a line does not end in exactly one line feed: the
carriage returns that the reading drops are not counted, and a last line without a line feed counts
one byte too many.

* `ChunkReport.Accounts`: what the reports of a text say, each of them about the lines up to it.
* `Text.lineBytes_sourceLines`: the bytes of the lines of a text against the size of the text.
* `LargeFiles.parseFile_reports`: the reports of a file, the last of which reaches the size of the
  file if and only if the reading drops no more carriage returns than line feeds are missing.
-/

namespace SourceSurvey

/-! ## Bytes of lines -/

namespace Text

/-- The bytes of some lines, each with a line feed. -/
def lineBytes (lines : List (List Char)) : Nat := (lines.map fun line => byteLength line + 1).sum

@[simp] theorem lineBytes_nil : lineBytes [] = 0 := rfl

@[simp] theorem lineBytes_cons (line : List Char) (lines : List (List Char)) :
    lineBytes (line :: lines) = byteLength line + 1 + lineBytes lines := by
  simp [lineBytes]

@[simp] theorem lineBytes_append (lines lines' : List (List Char)) :
    lineBytes (lines ++ lines') = lineBytes lines + lineBytes lines' := by
  simp [lineBytes]

/-- The pieces between line feeds have one byte more than the text: the last of them has no line feed
after it. -/
theorem lineBytes_fields (text : List Char) :
    lineBytes (fields (· == '\n') text) = byteLength text + 1 := by
  induction text with
  | nil => rfl
  | cons c cs ih =>
    obtain ⟨piece, rest, hf⟩ := List.exists_cons_of_ne_nil (fields_ne_nil (· == '\n') cs)
    rw [hf, lineBytes_cons] at ih
    rw [fields_cons, hf, byteLength_cons]
    unfold consField
    split
    · rename_i hc
      obtain rfl := beq_iff_eq.mp hc
      have hfeed : Char.utf8Size '\n' = 1 := rfl
      simp only [lineBytes_cons, byteLength_nil]
      omega
    · simp only [lineBytes_cons, byteLength_cons]
      omega

/-- The number of line feeds that the end of a text is short of. -/
def missingFeeds (text : List Char) : Nat := if text.getLast? = some '\n' then 0 else 1

/-- The last piece of a text is what follows the last line feed. -/
theorem getLast?_fields_iff {text : List Char} (h : text ≠ []) :
    (fields (· == '\n') text).getLast? = some [] ↔ text.getLast? = some '\n' := by
  by_cases hmem : '\n' ∈ text.reverse
  · obtain ⟨last, rest, hsplit, hlast⟩ := List.eq_append_cons_of_mem hmem
    obtain rfl : text = rest.reverse ++ '\n' :: last.reverse := by
      simpa using congrArg List.reverse hsplit
    have hpiece : fields (· == '\n') last.reverse = [last.reverse] :=
      fields_of_not_mem fun hc => hlast (List.mem_reverse.mp hc)
    rw [fields_append (by rfl), hpiece, List.getLast?_concat]
    cases last with
    | nil => simp
    | cons c cs =>
      have hne : c ≠ '\n' := fun he => hlast (he ▸ List.mem_cons_self)
      have hend : (rest.reverse ++ '\n' :: (c :: cs).reverse).getLast? = some c := by
        rw [List.reverse_cons, ← List.cons_append, ← List.append_assoc, List.getLast?_concat]
      rw [hend]
      simp [hne]
  · rw [fields_of_not_mem fun hc => hmem (List.mem_reverse.mpr hc)]
    simp only [List.getLast?_singleton, Option.some.injEq, h, false_iff]
    exact fun hlast => hmem (List.mem_reverse.mpr (List.mem_of_getLast? hlast))

/-- The pieces that line feeds end have the bytes of the text and one for a line feed that is
missing. -/
theorem lineBytes_terminated {text : List Char} (h : text ≠ []) :
    lineBytes (terminated (· == '\n') text) = byteLength text + missingFeeds text := by
  have hbytes := lineBytes_fields text
  rcases terminated_cases (· == '\n') text with hf | ⟨hf, hlast⟩
  · have hfeed : text.getLast? = some '\n' := (getLast?_fields_iff h).mp (by simp [hf])
    rw [hf, lineBytes_append] at hbytes
    rw [missingFeeds, if_pos hfeed]
    simp [byteLength] at hbytes ⊢
    exact hbytes
  · rw [missingFeeds, if_neg fun hfeed => hlast ((getLast?_fields_iff h).mpr hfeed), ← hf, hbytes]

/-! ## Carriage returns -/

/-- The number of carriage returns at the end of a line. -/
def finalReturns (line : List Char) : Nat := (line.reverse.takeWhile (· == '\r')).length

/-- The number of carriage returns that the lines of a text end in. -/
def droppedReturns (text : List Char) : Nat :=
  ((terminated (· == '\n') text).map finalReturns).sum

/-- A line is what is left of it and the carriage returns at its end. -/
theorem bareLine_append_returns {line : List Char} (h : '\n' ∉ line) :
    bareLine line ++ List.replicate (finalReturns line) '\r' = line := by
  have hdrop (cs : List Char) (hcs : '\n' ∉ cs) :
      cs.dropWhile (fun c => c == '\n' || c == '\r') = cs.dropWhile (· == '\r') := by
    induction cs with
    | nil => rfl
    | cons c cs ih =>
      have hne : c ≠ '\n' := fun he => hcs (he ▸ List.mem_cons_self)
      simp [List.dropWhile_cons, hne, ih fun hmem => hcs (List.mem_cons_of_mem _ hmem)]
  have htake : line.reverse.takeWhile (· == '\r') = List.replicate (finalReturns line) '\r' :=
    List.eq_replicate_iff.mpr ⟨rfl, fun c hc => by simpa using List.mem_takeWhile_imp hc⟩
  calc bareLine line ++ List.replicate (finalReturns line) '\r'
      = (line.reverse.takeWhile (· == '\r') ++ line.reverse.dropWhile (· == '\r')).reverse := by
        rw [bareLine, trimEndWhere, hdrop _ (by simpa using h), htake, List.reverse_append, List.reverse_replicate]
    _ = line := by rw [List.takeWhile_append_dropWhile, List.reverse_reverse]

theorem byteLength_bareLine {line : List Char} (h : '\n' ∉ line) :
    byteLength (bareLine line) + finalReturns line = byteLength line := by
  have hreturns (n : Nat) : byteLength (List.replicate n '\r') = n := by
    induction n with
    | zero => rfl
    | succ n ih =>
      have hreturn : Char.utf8Size '\r' = 1 := rfl
      rw [List.replicate_succ, byteLength_cons, ih, hreturn, Nat.add_comm]
  conv => rhs; rw [← bareLine_append_returns h, byteLength_append, hreturns]

/-- The lines of a text have the bytes of the text, less the carriage returns at their ends and with
one for a line feed that is missing. -/
theorem lineBytes_sourceLines {text : List Char} (h : text ≠ []) :
    lineBytes (ChunkPlan.sourceLines text) + droppedReturns text =
      (encode text).length + missingFeeds text := by
  have hbare (lines : List (List Char)) (hlines : ∀ line ∈ lines, '\n' ∉ line) :
      lineBytes (lines.map bareLine) + (lines.map finalReturns).sum = lineBytes lines := by
    induction lines with
    | nil => rfl
    | cons line lines ih =>
      obtain ⟨hline, hlines⟩ := List.forall_mem_cons.mp hlines
      have := ih hlines
      have := byteLength_bareLine hline
      simp only [List.map_cons, lineBytes_cons, List.sum_cons]
      omega
  have hfeeds : ∀ line ∈ terminated (· == '\n') text, '\n' ∉ line := fun line hline =>
    not_mem_of_mem_fields (mem_fields_of_mem_terminated hline)
  rw [ChunkPlan.sourceLines, droppedReturns, hbare _ hfeeds, lineBytes_terminated h, length_encode]

end Text

/-! ## Reports -/

namespace ChunkReport

/-- Reports are numbered from zero on, each is about more lines and more bytes than the one before,
and the bytes are those of the lines so far. -/
structure Accounts (lines : List (List Char)) (reports : List ChunkReport) : Prop where
  indices : reports.map index = List.range reports.length
  endLines : (reports.map endLine).Pairwise (· < ·)
  bytes : (reports.map bytesDone).Pairwise (· < ·)
  counted : ∀ r ∈ reports, r.bytesDone = Text.lineBytes (lines.take r.endLine)

end ChunkReport

namespace Chunk

@[simp] theorem map_index_reports (done : Nat) (chunks : List Chunk) :
    (reports done chunks).map ChunkReport.index = chunks.map index := by
  induction chunks generalizing done with
  | nil => rfl
  | cons c chunks ih => simp [reports, ih]

@[simp] theorem map_endLine_reports (done : Nat) (chunks : List Chunk) :
    (reports done chunks).map ChunkReport.endLine = chunks.map endLine := by
  induction chunks generalizing done with
  | nil => rfl
  | cons c chunks ih => simp [reports, ih]

@[simp] theorem length_reports (done : Nat) (chunks : List Chunk) :
    (reports done chunks).length = chunks.length := by
  rw [← List.length_map (f := ChunkReport.index), map_index_reports, List.length_map]

/-- The bytes of a chunk are those of the lines it owns. -/
theorem ownedBytes_eq (c : Chunk) : c.ownedBytes = Text.lineBytes c.ownedLines := rfl

theorem ownedBytes_pos {c : Chunk} (h : c.context < c.lines.length) : 0 < c.ownedBytes := by
  have hne : c.ownedLines ≠ [] := by simpa [ownedLines] using h
  obtain ⟨line, lines, hlines⟩ := List.exists_cons_of_ne_nil hne
  rw [ownedBytes_eq, hlines, Text.lineBytes_cons]
  omega

/-- The reports of chunks that own lines are about more and more bytes. -/
theorem bytesDone_reports (done : Nat) {chunks : List Chunk}
    (h : ∀ c ∈ chunks, c.context < c.lines.length) :
    (done :: (reports done chunks).map ChunkReport.bytesDone).Pairwise (· < ·) := by
  induction chunks generalizing done with
  | nil => simp [reports]
  | cons c chunks ih =>
    obtain ⟨hc, h⟩ := List.forall_mem_cons.mp h
    have hstep : done < done + c.ownedBytes := Nat.lt_add_of_pos_right (ownedBytes_pos hc)
    have hrest := ih (done + c.ownedBytes) h
    refine List.pairwise_cons.mpr ⟨fun bytes hmem => ?_, hrest⟩
    rcases List.mem_cons.mp hmem with rfl | hmem
    · exact hstep
    · exact hstep.trans (List.rel_of_pairwise_cons hrest hmem)

end Chunk

namespace ChunkPlan.Windows

variable {plan : ChunkPlan} {marked : List MarkedLine} {index first context : Nat}
  {chunks : List Chunk}

/-- The windows from a place on end behind it, one behind the other. -/
theorem endLines (h : Windows plan marked index first context chunks) :
    (first :: chunks.map Chunk.endLine).Pairwise (· < ·) := by
  induction h with
  | done => simp
  | @next index first context stop chunks owns fits rest ih =>
    rw [List.map_cons, Chunk.endLine_window (by omega) fits]
    refine List.pairwise_cons.mpr ⟨fun stop' hmem => ?_, ih⟩
    rcases List.mem_cons.mp hmem with rfl | hmem
    · exact owns
    · exact owns.trans (List.rel_of_pairwise_cons ih hmem)

/-- When the lines before a place are counted, the reports of the windows from there on count all
lines up to them. -/
theorem counted (h : Windows plan marked index first context chunks) (hc : context ≤ first)
    {lines : List (List Char)} (hl : lines = marked.map MarkedLine.text) :
    ∀ r ∈ Chunk.reports (Text.lineBytes (lines.take first)) chunks,
      r.bytesDone = Text.lineBytes (lines.take r.endLine) := by
  induction h with
  | done => simp [Chunk.reports]
  | @next index first context stop chunks owns fits rest ih =>
    have hdone : Text.lineBytes (lines.take first) +
        (Chunk.window marked index (first - context) context stop).ownedBytes =
          Text.lineBytes (lines.take stop) := by
      rw [Chunk.ownedBytes_eq, Chunk.ownedLines_window, Nat.sub_add_cancel hc, List.map_drop,
        List.map_take, ← hl, ← Text.lineBytes_append]
      congr 1
      have htake : (lines.take stop).take first = lines.take first := by
        rw [List.take_take, Nat.min_eq_left owns.le]
      rw [← htake, List.take_append_drop]
    rw [Chunk.reports, hdone]
    refine List.forall_mem_cons.mpr ⟨?_, ih (by omega)⟩
    rw [Chunk.endLine_window (by omega) fits]

/-- The reports of the windows of all lines count these lines. -/
theorem accounts (h : Windows plan marked 0 0 0 chunks) :
    ChunkReport.Accounts (marked.map MarkedLine.text) (Chunk.reports 0 chunks) where
  indices := by rw [Chunk.map_index_reports, h.tiles.indices, Chunk.length_reports]
  endLines := by
    rw [Chunk.map_endLine_reports]
    exact h.endLines.of_cons
  bytes := (Chunk.bytesDone_reports 0 (h.owns (Nat.le_refl _))).of_cons
  counted := h.counted (Nat.le_refl _) rfl

/-- The last report of the windows of all lines is about all lines. -/
theorem exists_lastReport (h : Windows plan marked 0 0 0 chunks) (hne : marked ≠ []) :
    ∃ last, (Chunk.reports 0 chunks).getLast? = some last ∧ last.endLine = marked.length := by
  have hlast := h.endLine_last (Nat.le_refl 0)
  rw [← List.getLast?_map, ← Chunk.map_endLine_reports 0, List.getLast?_map] at hlast
  cases hr : (Chunk.reports 0 chunks).getLast? with
  | none =>
    rw [hr] at hlast
    exact absurd (List.eq_nil_of_length_eq_zero hlast.symm) hne
  | some last =>
    rw [hr] at hlast
    exact ⟨last, rfl, hlast⟩

end ChunkPlan.Windows

/-- A text that is not empty has lines. -/
theorem ChunkPlan.sourceLines_ne_nil {text : List Char} (h : text ≠ []) : sourceLines text ≠ [] := by
  intro hnil
  have hbytes := Text.lineBytes_terminated h
  rw [List.map_eq_nil_iff.mp hnil, Text.lineBytes_nil] at hbytes
  obtain ⟨c, cs, rfl⟩ := List.exists_cons_of_ne_nil h
  have hpos := Char.utf8Size_pos c
  rw [Text.byteLength_cons] at hbytes
  omega

namespace LargeFiles

/-- The reports of a text file that is not empty count its lines, and the last of them is about all.
Its bytes are those of the file, less the carriage returns that the reading drops and with one for a
line feed that the end of the file is short of. -/
theorem parseFile_reports (l : LargeFiles) {t : Tree} {path : Path} {text : List Char}
    (hne : text ≠ []) (hread : t.read path = .ok (Text.encode text)) :
    ∃ m reports last, l.parseFile t path = (.ok m, reports, (Text.encode text).length) ∧
      ChunkReport.Accounts (ChunkPlan.sourceLines text) reports ∧ reports.getLast? = some last ∧
      last.endLine = (ChunkPlan.sourceLines text).length ∧
      last.bytesDone + Text.droppedReturns text =
        (Text.encode text).length + Text.missingFeeds text ∧
      ((Text.encode text).length ≤ last.bytesDone ↔
        Text.droppedReturns text ≤ Text.missingFeeds text) := by
  have hw := l.plan.chunksOf_windows (ChunkPlan.sourceLines text)
  have hbytes := Text.lineBytes_sourceLines hne
  have hlines : ChunkPlan.sourceLines text ≠ [] := ChunkPlan.sourceLines_ne_nil hne
  have haccounts := hw.accounts
  obtain ⟨last, hlast, hend⟩ := hw.exists_lastReport (by simpa [← List.length_pos_iff] using hlines)
  rw [ChunkPlan.map_text_annotate] at haccounts
  rw [ChunkPlan.length_annotate] at hend
  have hdone : last.bytesDone = Text.lineBytes (ChunkPlan.sourceLines text) := by
    rw [haccounts.counted last (List.mem_of_getLast? hlast), hend, List.take_length]
  rw [parseFile_encode l hread, ChunkPlan.chunks_text]
  exact ⟨_, _, last, rfl, haccounts, hlast, hend, hdone ▸ hbytes, by omega⟩

/-- A tree with one file. -/
def soloTree (text : List Char) : Tree :=
  { nodes := [(["a"], .file (Text.encode text) ⟨0, 0⟩)], now := ⟨0, 0⟩ }

theorem read_soloTree (text : List Char) :
    (soloTree text).read ⟨"/a"⟩ = .ok (Text.encode text) := by
  have hlocate : (soloTree text).locate ⟨"/a"⟩ = .ok (["a"], .file (Text.encode text) ⟨0, 0⟩) :=
    Tree.locate_top ⟨by decide, by decide⟩ (by decide) (by decide) (by decide)
      (.of_name (by decide) (by decide)) rfl
  rw [Tree.read, hlocate]
  rfl

/-- Chunks of one line. -/
def lineFiles : LargeFiles := ⟨⟨1000, 1, 0, false⟩, 0⟩

/-- A line that ends in a carriage return and a line feed, and one that ends the file. -/
def returnText : List Char := "a = 1\r\nb = 2".toList

/-- The carriage return that is not counted makes up for the line feed that is missing. -/
theorem parseFile_reports_return :
    (lineFiles.parseFile (soloTree returnText) ⟨"/a"⟩).2 = ([⟨0, 1, 6⟩, ⟨1, 2, 12⟩], 12) ∧
      ChunkReport.Accounts (ChunkPlan.sourceLines returnText) [⟨0, 1, 6⟩, ⟨1, 2, 12⟩] := by
  have hread := read_soloTree returnText
  have hreports : (lineFiles.parseFile (soloTree returnText) ⟨"/a"⟩).2 =
      ([⟨0, 1, 6⟩, ⟨1, 2, 12⟩], 12) := by
    rw [parseFile_encode lineFiles hread]
    decide +kernel
  obtain ⟨m, reports, last, hparse, haccounts, -⟩ := parseFile_reports lineFiles (by decide) hread
  rw [hparse, Prod.mk.injEq] at hreports
  rw [hparse, ← hreports.1, ← hreports.2]
  exact ⟨rfl, haccounts⟩

/-- A line that ends in a carriage return and a line feed. -/
def crampedText : List Char := "x = 1\r\n".toList

/-- The bytes that are done at the end of the file are one short of its size. -/
theorem parseFile_reports_short :
    (lineFiles.parseFile (soloTree crampedText) ⟨"/a"⟩).2 = ([⟨0, 1, 6⟩], 7) := by
  rw [parseFile_encode lineFiles (read_soloTree crampedText)]
  decide +kernel

end LargeFiles
end SourceSurvey
