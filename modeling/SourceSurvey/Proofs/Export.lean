import SourceSurvey.Export
import SourceSurvey.Proofs.Cache.Sized
import SourceSurvey.Proofs.Text.Lines
import SourceSurvey.Proofs.Tree.Single

/-!
# Exports read back

An exported file is one line for each record: printed JSON holds no line feed
(`Json.not_mem_print`), and a record is read back as its module or edge whatever stands in front of its
fields (`Exporter.decodes_module`, `Exporter.decodes_edge`). The lines stand at the destination after
the draft was moved there (`Exporter.read_exported`), unless the path of the draft comes across the
entry of the destination (`Tree.Beside`): then the export reports success all the same
(`Exporter.exists_run`) and leaves no file to read (`Exporter.read_run`).
-/

namespace SourceSurvey

open SourceSurvey.Path (IsName IsEntry)

/-! ## Records on one line -/

namespace Json

theorem not_mem_escapeChar (c : Char) : '\n' ∉ escapeChar c := by
  have hdigit : ∀ n < 16, '\n' ≠ Text.hexDigit n := by decide
  unfold escapeChar
  split
  all_goals try decide
  rename_i hfeed _ _ _ _
  split
  · rename_i hc
    simp only [List.mem_cons, List.not_mem_nil, or_false, not_or]
    exact ⟨by decide, by decide, by decide, by decide, hdigit _ (by omega), hdigit _ (by omega)⟩
  · rw [List.mem_singleton]
    exact fun h => hfeed h.symm

theorem not_mem_quote (s : String) : '\n' ∉ quote s := by
  simp only [quote, List.mem_cons, List.mem_append, List.mem_flatMap, List.not_mem_nil, or_false,
    not_or, not_exists, not_and]
  exact ⟨by decide, fun c _ => not_mem_escapeChar c, by decide⟩

theorem not_mem_printItems {items : List Json} (h : ∀ j ∈ items, '\n' ∉ j.print) :
    '\n' ∉ printItems items := by
  induction items with
  | nil => exact nofun
  | cons j items ih =>
    obtain ⟨hj, hitems⟩ := List.forall_mem_cons.mp h
    cases items with
    | nil => rwa [printItems]
    | cons j' items =>
      rw [printItems_cons]
      simp [hj, ih hitems]

theorem not_mem_printFields {fields : List (String × Json)} (h : ∀ f ∈ fields, '\n' ∉ f.2.print) :
    '\n' ∉ printFields fields := by
  induction fields with
  | nil => exact nofun
  | cons f fields ih =>
    obtain ⟨k, j⟩ := f
    obtain ⟨hj, hfields⟩ := List.forall_mem_cons.mp h
    have hk := not_mem_quote k
    cases fields with
    | nil =>
      rw [printFields]
      simp [hk, hj]
    | cons f' fields =>
      rw [printFields_cons]
      simp [hk, hj, ih hfields]

/-- A value is printed on one line. -/
theorem not_mem_print : (j : Json) → j.Plain → '\n' ∉ j.print
  | null, _ => by decide
  | bool false, _ => by decide
  | bool true, _ => by decide
  | natural n, _ => fun hmem => absurd (isDigit_of_mem_toDigits _ hmem) (by decide)
  | string s, _ => not_mem_quote s
  | array items, h => by
    rw [print]
    simp [not_mem_printItems fun j _ => not_mem_print j (plainItems_iff.mp h j ‹_›)]
  | object fields, h => by
    rw [print]
    simp [not_mem_printFields fun f _ => not_mem_print f.2 (plainFields_iff.mp h f ‹_›)]
  termination_by j => sizeOf j
  decreasing_by
    · have := List.sizeOf_lt_of_mem ‹_›
      simp only [array.sizeOf_spec]
      omega
    · have := List.sizeOf_lt_of_mem ‹_›
      obtain ⟨k, j⟩ := f
      simp only [object.sizeOf_spec, Prod.mk.sizeOf_spec] at *
      omega

/-- A field that no one asks for says nothing about a record. -/
theorem record?_cons {names : List String} {key : String} (h : key ∉ names) (j : Json)
    (fields : List (String × Json)) :
    record? names (object ((key, j) :: fields)) = record? names (object fields) := by
  have hcount : ∀ n ∈ names,
      ((key, j) :: fields).filter (·.1 == n) = fields.filter (·.1 == n) := by
    intro n hn
    rw [List.filter_cons, if_neg]
    rw [beq_iff_eq]
    rintro rfl
    exact h hn
  have hvalue : ∀ n ∈ names, ((key, j) :: fields).lookup n = fields.lookup n := by
    intro n hn
    have hne : (n == key) = false := by
      rw [beq_eq_false_iff_ne]
      rintro rfl
      exact h hn
    rw [List.lookup_cons, hne]
  have hall : (names.all fun n => (((key, j) :: fields).filter (·.1 == n)).length ≤ 1) =
      names.all fun n => (fields.filter (·.1 == n)).length ≤ 1 := by
    rw [Bool.eq_iff_iff, List.all_eq_true, List.all_eq_true]
    exact forall₂_congr fun n hn => by rw [hcount n hn]
  unfold record? Dialect.record?
  dsimp only
  rw [hall, List.map_congr_left hvalue]

end Json

open Json

/-- A line is read as a record of some type. -/
def Decodes {α : Type} (type : String) (ofJson? : Json → Option α) (line : List Char) (a : α) : Prop :=
  ∃ j, parse line = some j ∧ j.field? "type" = some (.string type) ∧ ofJson? j = some a

namespace Exporter

variable {t t' : Tree} {p : Path} {modules : PathMap Module} {edges : List Edge} {s : ExportSummary}

theorem plain_record {type : String} {fields : List (String × Json)} (h : (object fields).Plain) :
    (record type fields).Plain := ⟨trivial, h⟩

theorem decodes_module {m : Module} (h : m.Sized) :
    Decodes "module" Module.ofJson? (record "module" m.jsonFields).print m := by
  refine ⟨_, parse_print (plain_record m.plain), rfl, ?_⟩
  rw [← Module.ofJson?_toJson h, Module.ofJson?, Module.ofJson?, record, Module.toJson,
    record?_cons (by decide)]

theorem decodes_edge {e : Edge} (h : e.Sized) :
    Decodes "relationship" Edge.ofJson? (record "relationship" e.jsonFields).print e := by
  refine ⟨_, parse_print (plain_record e.plain), rfl, ?_⟩
  rw [← Edge.ofJson?_toJson h, Edge.ofJson?, Edge.ofJson?, record, Edge.toJson,
    record?_cons (by decide)]

/-! ## The file of an export -/

/-- The lines of the modules and of the edges. -/
def moduleLines (modules : PathMap Module) : List (List Char) :=
  modules.values.map fun m => (record "module" m.jsonFields).print

def edgeLines (edges : List Edge) : List (List Char) :=
  edges.map fun e => (record "relationship" e.jsonFields).print

theorem lines_eq (modules : PathMap Module) (edges : List Edge) :
    lines modules edges = (moduleLines modules ++ edgeLines edges).flatMap (· ++ ['\n']) := by
  simp [lines, records, moduleLines, edgeLines, List.flatMap_append, List.flatMap_map]

theorem not_mem_lines (modules : PathMap Module) (edges : List Edge) :
    ∀ line ∈ moduleLines modules ++ edgeLines edges, '\n' ∉ line := by
  intro line hline
  rcases List.mem_append.mp hline with hline | hline
  · obtain ⟨m, -, rfl⟩ := List.mem_map.mp hline
    exact not_mem_print _ (plain_record m.plain)
  · obtain ⟨e, -, rfl⟩ := List.mem_map.mp hline
    exact not_mem_print _ (plain_record e.plain)

/-! ## The draft -/

/-- The pieces of the draft path are those of the path, but for the last one. -/
theorem pieces_draftPath {pieces : List String} {name : String} (h : p.pieces = pieces ++ [name]) :
    (draftPath p).pieces = pieces ++ [name ++ ".tmp"] := by
  have htext : draftPath p = ⟨"/".intercalate (pieces ++ [name ++ ".tmp"])⟩ := by
    unfold draftPath
    rw [Path.mk.injEq, ← p.intercalate_pieces, h, ← String.toList_inj, String.toList_append,
      String.toList_intercalate, String.toList_intercalate]
    simp [Text.intercalate_concat_append]
  have hslash : ∀ piece ∈ pieces ++ [name], '/' ∉ piece.toList := fun piece hpiece =>
    Path.no_slash_of_mem_pieces (h ▸ hpiece)
  rw [htext, Path.pieces_intercalate (by simp)]
  intro piece hpiece
  rcases List.mem_append.mp hpiece with hpiece | hpiece
  · exact hslash piece (List.mem_append_left _ hpiece)
  · rw [List.mem_singleton.mp hpiece, String.toList_append, List.mem_append, not_or]
    exact ⟨hslash name (by simp), by decide⟩

theorem isName_draft {name : String} (hn : IsName name) : IsName (name ++ ".tmp") := by
  have htmp : (".tmp" : String).toList = ['.', 't', 'm', 'p'] := rfl
  refine .of_mem (c := 't') (by simp [htmp]) (by decide) ?_
  simpa [htmp] using hn.no_slash

theorem drafts (p : Path) : (draftPath p).Drafts p := fun h hn =>
  ⟨_, isName_draft hn, by simp, pieces_draftPath h⟩

/-! ## Exports that succeed -/

/-- The steps of an export that succeeds. -/
theorem run_ok (h : (jsonLines p).run t modules edges = (t', .ok s)) :
    ∃ t₁, (prepareParent t p).1.write (draftPath p) (Text.encode (lines modules edges)) = .ok t₁ ∧
      t₁.rename (draftPath p) p = .ok t' ∧
      s = { modules := modules.size, edges := edges.length, destination? := some p
            bytesWritten := (Text.encode (lines modules edges)).length } := by
  unfold run at h
  dsimp only at h
  rw [Text.toUTF8_eq_encode, String.toList_ofList] at h
  split at h
  · cases h
  · rename_i t₀ hprepare
    split at h
    · cases h
    · rename_i t₁ hwrite
      split at h
      · cases h
      · rename_i t₂ hrename
        cases h
        exact ⟨t₁, by rw [hprepare]; exact hwrite, hrename, rfl⟩

/-- The destination of an export leads to what was written to its draft if the draft is beside it, else
to no file. -/
theorem read_run (h : (jsonLines p).run t modules edges = (t', .ok s)) :
    ((prepareParent t p).1.Beside p (draftPath p) →
      t'.read p = .ok (Text.encode (lines modules edges))) ∧
    (¬ (prepareParent t p).1.Beside p (draftPath p) → ∀ content, t'.read p ≠ .ok content) := by
  obtain ⟨t₁, hwrite, hrename, -⟩ := run_ok h
  exact Tree.read_replaced (drafts p) hwrite hrename

/-- An exported file is one line for each module in the order of their paths, and then one for each
edge. Every line is read as its record, and the number of bytes is that of the file. -/
theorem read_exported (h : (jsonLines p).run t modules edges = (t', .ok s))
    (beside : (prepareParent t p).1.Beside p (draftPath p)) (hmodules : ∀ m ∈ modules.values, m.Sized)
    (hedges : ∀ e ∈ edges, e.Sized) :
    ∃ lines : List (List Char),
      t'.read p = .ok (Text.encode (lines.flatMap (· ++ ['\n']))) ∧
      (∀ line ∈ lines, '\n' ∉ line) ∧
      lines.length = modules.size + edges.length ∧
      List.Forall₂ (Decodes "module" Module.ofJson?) (lines.take modules.size) modules.values ∧
      List.Forall₂ (Decodes "relationship" Edge.ofJson?) (lines.drop modules.size) edges ∧
      s.bytesWritten = (Text.encode (lines.flatMap (· ++ ['\n']))).length := by
  have hlength : (moduleLines modules).length = modules.size := by
    simp [moduleLines, PathMap.values, PathMap.size]
  refine ⟨moduleLines modules ++ edgeLines edges, ?_, not_mem_lines modules edges, ?_, ?_, ?_, ?_⟩
  · rw [← lines_eq]
    exact (read_run h).1 beside
  · rw [List.length_append, hlength, edgeLines, List.length_map]
  · rw [← hlength, List.take_left, moduleLines, List.forall₂_map_left_iff, List.forall₂_same]
    exact fun m hm => decodes_module (hmodules m hm)
  · rw [← hlength, List.drop_left, edgeLines, List.forall₂_map_left_iff, List.forall₂_same]
    exact fun e he => decodes_edge (hedges e he)
  · obtain ⟨t₁, -, -, rfl⟩ := run_ok h
    rw [← lines_eq]

/-- An export succeeds if its lines can be written to the draft and moved. -/
theorem exists_run {t₀ t₁ : Tree} (hprepare : prepareParent t p = (t₀, .ok ()))
    (hwrite : t₀.write (draftPath p) (Text.encode (lines modules edges)) = .ok t₁)
    (hrename : t₁.rename (draftPath p) p = .ok t') :
    ∃ s, (jsonLines p).run t modules edges = (t', .ok s) := by
  unfold run
  dsimp only
  rw [hprepare]
  dsimp only
  rw [Text.toUTF8_eq_encode, String.toList_ofList, hwrite]
  dsimp only
  rw [hrename]
  exact ⟨_, rfl⟩

/-! ## Drafts that are links -/

section Linked

variable {target : String}

theorem isEntry_graph : IsEntry "graph.jsonl" := by decide

theorem isEntry_graphDraft : IsEntry "graph.jsonl.tmp" := by decide

theorem draftPath_graph : draftPath ⟨"graph.jsonl"⟩ = ⟨"graph.jsonl.tmp"⟩ := by decide

theorem prepareParent_graph (t : Tree) : prepareParent t ⟨"graph.jsonl"⟩ = (t, .ok ()) :=
  Tree.createParent_top (by decide) (by decide)

variable (ht : IsEntry target) (hne : target ≠ "graph.jsonl.tmp")
include ht hne

/-- The draft is beside the destination unless the link leads to the destination. -/
theorem beside_graph :
    let t := Tree.single "graph.jsonl.tmp" (.link target)
    (prepareParent t ⟨"graph.jsonl"⟩).1.Beside ⟨"graph.jsonl"⟩ (draftPath ⟨"graph.jsonl"⟩) ↔
      target ≠ "graph.jsonl" := by
  intro t
  rw [prepareParent_graph, draftPath_graph]
  exact Tree.beside_linked isEntry_graphDraft ht hne isEntry_graph (by decide)

/-- An export through a link to another name of the directory succeeds. -/
theorem exists_run_linked (modules : PathMap Module) (edges : List Edge) :
    ∃ t' s, (jsonLines ⟨"graph.jsonl"⟩).run (Tree.single "graph.jsonl.tmp" (.link target)) modules
      edges = (t', .ok s) := by
  obtain ⟨t₁, t', hwrite, hrename⟩ := Tree.exists_replaced_linked isEntry_graphDraft ht hne
    isEntry_graph (by decide) (Text.encode (lines modules edges))
  rw [← draftPath_graph] at hwrite hrename
  exact ⟨t', exists_run (prepareParent_graph _) hwrite hrename⟩

end Linked

/-- A module with a line feed and a quote in its texts. -/
def noted : PathMap Module :=
  .ofList [(⟨"a.py"⟩, { path := ⟨"a.py"⟩, name := "a", lineCount := 2
                        imports := [{ source := "b\n\"c", line := 1 }] })]

/-- An export through a link to another file is read back. -/
theorem read_exported_stored :
    let edge : Edge := { kind := .imports, source := "a", target := "b\n\"c", sourcePath := ⟨"a.py"⟩
                         line := 1 }
    let t := Tree.single "graph.jsonl.tmp" (.link "store.jsonl")
    ∃ t' s, (jsonLines ⟨"graph.jsonl"⟩).run t noted [edge] = (t', .ok s) ∧
      (prepareParent t ⟨"graph.jsonl"⟩).1.Beside ⟨"graph.jsonl"⟩ (draftPath ⟨"graph.jsonl"⟩) ∧
      (∀ m ∈ noted.values, m.Sized) ∧ (∀ e ∈ [edge], e.Sized) ∧
      ∃ lines : List (List Char),
        t'.read ⟨"graph.jsonl"⟩ = .ok (Text.encode (lines.flatMap (· ++ ['\n']))) ∧
        (∀ line ∈ lines, '\n' ∉ line) ∧
        lines.length = noted.size + [edge].length ∧
        List.Forall₂ (Decodes "module" Module.ofJson?) (lines.take noted.size) noted.values ∧
        List.Forall₂ (Decodes "relationship" Edge.ofJson?) (lines.drop noted.size) [edge] ∧
        s.bytesWritten = (Text.encode (lines.flatMap (· ++ ['\n']))).length := by
  intro edge t
  have ht : IsEntry "store.jsonl" := by decide
  obtain ⟨t', s, h⟩ := exists_run_linked ht (by decide) noted [edge]
  have beside := (beside_graph ht (by decide)).mpr (by decide)
  have hmodules : ∀ m ∈ noted.values, m.Sized := by
    have hline : (1 : Nat) < wordLimit := by decide
    exact List.forall_mem_singleton.mpr
      ⟨List.forall_mem_singleton.mpr hline, nofun, nofun, nofun, by decide, hline⟩
  have hedges : ∀ e ∈ [edge], e.Sized := List.forall_mem_singleton.mpr (by decide : 1 < wordLimit)
  exact ⟨t', s, h, beside, hmodules, hedges, read_exported h beside hmodules hedges⟩

/-- An export through a link to its own destination succeeds and leaves nothing to read there. -/
theorem read_exported_looped :
    let t := Tree.single "graph.jsonl.tmp" (.link "graph.jsonl")
    ∃ t' s, (jsonLines ⟨"graph.jsonl"⟩).run t noted [] = (t', .ok s) ∧
      ∀ content, t'.read ⟨"graph.jsonl"⟩ ≠ .ok content := by
  intro t
  obtain ⟨t', s, h⟩ := exists_run_linked isEntry_graph (by decide) noted []
  refine ⟨t', s, h, (read_run h).2 fun beside => ?_⟩
  exact (beside_graph isEntry_graph (by decide)).mp beside rfl

end Exporter
end SourceSurvey
