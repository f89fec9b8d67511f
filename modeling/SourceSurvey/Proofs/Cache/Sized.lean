import SourceSurvey.Cache.Basic
import SourceSurvey.Proofs.Cache.Codec
import SourceSurvey.Proofs.Calendar.Instant
import SourceSurvey.Proofs.Json.Pretty
import SourceSurvey.Relationship

/-!
# Records that fit the machine

A record is sized if its numbers have 64 bits and its instants are those of the calendar. What is
written of a sized record is read back as itself: values by `ofJson?_toJson`, a payload file by
`CacheEntry.read_sized` and the index file by `IndexFile.read_sized`.
-/

namespace SourceSurvey

namespace Json

/-- Numbers of 64 bits. -/
def wordLimit : Nat := 2 ^ 64

theorem natural?_natural {n : Nat} (h : n < wordLimit) : natural? (natural n) = some n :=
  if_pos h

theorem word?_natural {bits n : Nat} (h : n < 2 ^ bits) : word? bits (natural n) = some n :=
  if_pos h

theorem list?_map {α : Type} {f : Json → Option α} {g : α → Json} {xs : List α}
    (h : ∀ x ∈ xs, f (g x) = some x) : list? f (array (xs.map g)) = some xs := by
  show (xs.map g).mapM f = some xs
  induction xs with
  | nil => rfl
  | cons x xs ih =>
    obtain ⟨hx, hxs⟩ := List.forall_mem_cons.mp h
    rw [List.map_cons, List.mapM_cons, hx, ih hxs]
    rfl

theorem list?_strings (xs : List String) : list? string? (strings xs) = some xs :=
  list?_map fun _ _ => rfl

theorem nullable_string (s? : Option String) :
    nullable string? (.optional .string s?) = some s? := by
  cases s? with
  | none => rfl
  | some s => rfl

end Json

open Json

theorem Path.ofJson?_toJson (p : Path) : ofJson? p.toJson = some p := rfl

theorem Instant.ofJson?_toJson {t : Instant} (h : t.Dated) : ofJson? t.toJson = some t := by
  unfold ofJson? toJson string?
  rw [Option.bind_some, ofString?_print h]

theorem Json.nullable_instant {t? : Option Instant} (h : ∀ t ∈ t?, t.Dated) :
    nullable Instant.ofJson? (.optional Instant.toJson t?) = some t? := by
  cases t? with
  | none => rfl
  | some t =>
    have hsome : nullable Instant.ofJson? t.toJson = (Instant.ofJson? t.toJson).map some := by
      unfold Instant.toJson nullable
      rfl
    unfold Json.optional
    rw [hsome, Instant.ofJson?_toJson (h t rfl)]
    rfl

/-! ## Modules and edges -/

/-- An import on a line of 64 bits. -/
def Import.Sized (i : Import) : Prop := i.line < wordLimit

/-- A function on a line of 64 bits. -/
def FunctionDef.Sized (f : FunctionDef) : Prop := f.line < wordLimit

/-- A variable on a line of 64 bits. -/
def Variable.Sized (v : Variable) : Prop := v.line < wordLimit

/-- An edge from a line of 64 bits. -/
def Edge.Sized (e : Edge) : Prop := e.line < wordLimit

/-- A class on a line of 64 bits, with its methods. -/
structure ClassDef.Sized (c : ClassDef) : Prop where
  line : c.line < wordLimit
  methods : ∀ f ∈ c.methods, f.Sized

/-- A module whose numbers have 64 bits. -/
structure Module.Sized (m : Module) : Prop where
  imports : ∀ i ∈ m.imports, i.Sized
  classes : ∀ c ∈ m.classes, c.Sized
  functions : ∀ f ∈ m.functions, f.Sized
  globals : ∀ v ∈ m.globals, v.Sized
  lineCount : m.lineCount < wordLimit
  chunkCount : m.chunkCount < wordLimit

theorem Import.ofJson?_toJson {i : Import} (h : i.Sized) : ofJson? i.toJson = some i := by
  unfold ofJson?
  simp only [Import.record?_toJson, Option.bind_eq_bind, Option.bind_some, required_some, defaulted, list?_strings,
    nullable_string, natural?_natural h]
  rfl

theorem FunctionDef.ofJson?_toJson {f : FunctionDef} (h : f.Sized) : ofJson? f.toJson = some f := by
  unfold ofJson?
  simp only [FunctionDef.record?_toJson, Option.bind_eq_bind, Option.bind_some, required_some, defaulted, list?_strings,
    natural?_natural h]
  rfl

theorem ClassDef.ofJson?_toJson {c : ClassDef} (h : c.Sized) : ofJson? c.toJson = some c := by
  unfold ofJson?
  simp only [ClassDef.record?_toJson, Option.bind_eq_bind, Option.bind_some, required_some, defaulted, list?_strings,
    list?_map fun f hf => FunctionDef.ofJson?_toJson (h.methods f hf), natural?_natural h.line]
  rfl

theorem Variable.ofJson?_toJson {v : Variable} (h : v.Sized) : ofJson? v.toJson = some v := by
  unfold ofJson?
  simp only [Variable.record?_toJson, Option.bind_eq_bind, Option.bind_some, required_some, natural?_natural h]
  rfl

theorem Module.ofJson?_toJson {m : Module} (h : m.Sized) : ofJson? m.toJson = some m := by
  unfold ofJson?
  simp only [Module.record?_toJson, Option.bind_eq_bind, Option.bind_some, required_some, defaulted,
    Path.ofJson?_toJson, list?_map fun i hi => Import.ofJson?_toJson (h.imports i hi),
    list?_map fun c hc => ClassDef.ofJson?_toJson (h.classes c hc),
    list?_map fun f hf => FunctionDef.ofJson?_toJson (h.functions f hf),
    list?_map fun v hv => Variable.ofJson?_toJson (h.globals v hv),
    natural?_natural h.lineCount, natural?_natural h.chunkCount]
  rfl

theorem Edge.ofJson?_toJson {e : Edge} (h : e.Sized) : ofJson? e.toJson = some e := by
  have hr : record? ["kind", "source", "target", "source_path", "line", "resolved"] e.toJson =
    some [some (.string e.kind.name), some (.string e.source), some (.string e.target),
      some e.sourcePath.toJson, some (.natural e.line), some (.bool e.resolved)] := rfl
  have hkind : choice? EdgeKind.names (.string e.kind.name) = some e.kind := by
    cases e.kind <;> rfl
  unfold ofJson?
  simp only [hr, Option.bind_eq_bind, Option.bind_some, required_some, defaulted, hkind,
    Path.ofJson?_toJson, natural?_natural h]
  rfl

/-- The edges that a module declares are on its lines. -/
theorem Module.Sized.edges {m : Module} (h : m.Sized) (known : KnownNames) :
    ∀ e ∈ m.edges known, e.Sized := by
  intro e he
  unfold Module.edges at he
  simp only [List.mem_append, List.mem_map, List.mem_flatMap, List.mem_cons] at he
  rcases he with (⟨i, hi, rfl⟩ | ⟨c, hc, (rfl | ⟨base, -, rfl⟩) | ⟨f, hf, rfl⟩⟩) | ⟨f, hf, rfl⟩
  · exact h.imports i hi
  · exact (h.classes c hc).line
  · exact (h.classes c hc).line
  · exact (h.classes c hc).methods f hf
  · exact h.functions f hf

theorem PathMap.edges_sized {modules : PathMap Module} (h : ∀ r ∈ modules.entries, r.2.Sized) :
    ∀ e ∈ modules.edges, e.Sized := by
  intro e he
  obtain ⟨m, hm, he⟩ := List.mem_flatMap.mp he
  obtain ⟨r, hr, rfl⟩ := List.mem_map.mp hm
  exact (h r hr).edges _ e he

/-! ## Stamps and records -/

/-- A stamp whose numbers have 64 bits and whose instants are those of the calendar. -/
structure FileStamp.Sized (s : FileStamp) : Prop where
  size : s.size < wordLimit
  changed : ∀ t ∈ s.changed?, t.Dated
  parsedAt : s.parsedAt.Dated
  parseMicros : s.parseMicros < wordLimit
  edgeCount : s.edgeCount < wordLimit

/-- Metadata with an instant of the calendar and a version of 32 bits. -/
structure CacheMetadata.Sized (m : CacheMetadata) : Prop where
  storedAt : m.storedAt.Dated
  formatVersion : m.formatVersion < 2 ^ 32

/-- An entry whose parts fit the machine. -/
structure CacheEntry.Sized (e : CacheEntry) : Prop where
  stamp : e.stamp.Sized
  module : e.module.Sized
  edges : ∀ edge ∈ e.edges, edge.Sized
  metadata : e.metadata.Sized

/-- A record of the index whose stamp and instant fit the machine. -/
structure IndexRecord.Sized (r : IndexRecord) : Prop where
  stamp : r.stamp.Sized
  storedAt : r.storedAt.Dated

theorem FileStamp.ofJson?_toJson {s : FileStamp} (h : s.Sized) : ofJson? s.toJson = some s := by
  unfold ofJson?
  simp only [FileStamp.record?_toJson, Option.bind_eq_bind, Option.bind_some, required_some, defaulted,
    nullable_instant h.changed, Path.ofJson?_toJson, natural?_natural h.size,
    Instant.ofJson?_toJson h.parsedAt,
    natural?_natural h.parseMicros, natural?_natural h.edgeCount]
  rfl

theorem CacheMetadata.ofJson?_toJson {m : CacheMetadata} (h : m.Sized) :
    ofJson? m.toJson = some m := by
  unfold ofJson?
  simp only [CacheMetadata.record?_toJson, Option.bind_eq_bind, Option.bind_some, required_some,
    Instant.ofJson?_toJson h.storedAt, word?_natural h.formatVersion]
  rfl

theorem CacheEntry.ofJson?_toJson {e : CacheEntry} (h : e.Sized) : ofJson? e.toJson = some e := by
  unfold ofJson?
  simp only [CacheEntry.record?_toJson, Option.bind_eq_bind, Option.bind_some, required_some, defaulted,
    FileStamp.ofJson?_toJson h.stamp, Module.ofJson?_toJson h.module,
    list?_map fun edge he => Edge.ofJson?_toJson (h.edges edge he),
    CacheMetadata.ofJson?_toJson h.metadata]
  rfl

theorem IndexRecord.ofJson?_toJson {r : IndexRecord} (h : r.Sized) : ofJson? r.toJson = some r := by
  have hr : record? ["hash", "cached_at", "config_digest"] r.toJson =
    some [some r.stamp.toJson, some r.storedAt.toJson, some (.string r.settingsDigest)] := rfl
  unfold ofJson?
  simp only [hr, Option.bind_eq_bind, Option.bind_some, required_some,
    FileStamp.ofJson?_toJson h.stamp, Instant.ofJson?_toJson h.storedAt]
  rfl

theorem IndexRecord.plain (r : IndexRecord) : r.toJson.Plain := by
  refine plain_object ?_
  simp only [List.forall_mem_cons]
  exact ⟨r.stamp.plain, trivial, trivial, nofun⟩

namespace IndexFile

variable {f : IndexFile}

theorem ofJson?_toJson (version : f.version < 2 ^ 32) (records : ∀ r ∈ f.records, r.Sized) :
    ofJson? f.toJson = some f := by
  have hr : record? ["version", "entries"] f.toJson =
    some [some (.natural f.version), some (.array (f.records.map IndexRecord.toJson))] := rfl
  unfold ofJson?
  simp only [hr, Option.bind_eq_bind, Option.bind_some, required_some, word?_natural version,
    list?_map fun r h => IndexRecord.ofJson?_toJson (records r h)]
  rfl

theorem plain (f : IndexFile) : f.toJson.Plain := by
  refine plain_object ?_
  simp only [List.forall_mem_cons]
  exact ⟨trivial, plain_array IndexRecord.plain _, nofun⟩

/-- The bytes of an index file. -/
def bytes (f : IndexFile) : List UInt8 := f.toJson.pretty.toUTF8.toList

/-- What is read from an index file is what was written. -/
theorem read_sized (version : f.version < 2 ^ 32) (records : ∀ r ∈ f.records, r.Sized) :
    (Text.decode? f.bytes).bind (fun text => (Json.parse text).bind ofJson?) = some f := by
  unfold bytes
  rw [Text.decode?_toUTF8, Option.bind_some, parse_pretty f.plain, Option.bind_some,
    ofJson?_toJson version records]

end IndexFile

/-- What is read from a payload file is the entry that was written. -/
theorem CacheEntry.read_sized {e : CacheEntry} (h : e.Sized) :
    (Text.decode? e.bytes).bind (fun text => (Json.parse text).bind ofJson?) = some e := by
  unfold bytes compact
  rw [Text.decode?_toUTF8, Option.bind_some, String.toList_ofList, parse_print e.plain,
    Option.bind_some, ofJson?_toJson h]

end SourceSurvey
