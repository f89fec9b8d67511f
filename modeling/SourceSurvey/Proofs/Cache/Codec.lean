import SourceSurvey.Cache.Record
import SourceSurvey.Proofs.Json.RoundTrip
import SourceSurvey.Proofs.Text

/-!
# Stored results read back

What is read from the JSON of a record is the record, if anything is (`Json.Reads`): the readers are
strict about numbers of more than 64 bits, so reading may fail, but it never answers something else.

* `Module.reads`: the record of a module.
* `CacheEntry.read_bytes`: what is read from the payload file of an entry has the module, the digest
  and the settings of the entry.
-/

namespace SourceSurvey
namespace Json

/-- A reader answers nothing but a given value. -/
def Reads {α : Type} (f : Json → Option α) (j : Json) (a : α) : Prop := ∀ b, f j = some b → b = a

theorem required_some {α : Type} (f : Json → Option α) (j : Json) : required f (some j) = f j := rfl

theorem reads_string (s : String) : Reads string? (string s) s :=
  fun _ h => (Option.some.inj h).symm

theorem reads_bool (b : Bool) : Reads bool? (bool b) b :=
  fun _ h => (Option.some.inj h).symm

theorem reads_natural (n : Nat) : Reads natural? (natural n) n := by
  intro m h
  unfold natural? at h
  rw [word?] at h
  split at h
  · exact (Option.some.inj h).symm
  · exact nomatch h

theorem reads_list {α : Type} {f : Json → Option α} {g : α → Json}
    (h : ∀ a, Reads f (g a) a) (xs : List α) : Reads (list? f) (array (xs.map g)) xs := by
  intro ys hys
  replace hys : (xs.map g).mapM f = some ys := hys
  induction xs generalizing ys with
  | nil => exact (Option.some.inj hys).symm
  | cons x xs ih =>
    rw [List.map_cons, List.mapM_cons] at hys
    obtain ⟨y, hy, hys⟩ := Option.bind_eq_some_iff.mp hys
    obtain ⟨zs, hzs, hys⟩ := Option.bind_eq_some_iff.mp hys
    rw [← Option.some.inj hys, h x y hy, ih zs hzs]

theorem reads_strings (xs : List String) : Reads (list? string?) (strings xs) xs :=
  reads_list reads_string xs

theorem reads_optional_string (s? : Option String) :
    Reads (nullable string?) (.optional .string s?) s? := by
  intro r h
  cases s? with
  | none => exact (Option.some.inj h).symm
  | some s => exact (Option.some.inj h).symm

end Json

open Json

namespace Import

theorem record?_toJson (i : Import) :
    record? ["module", "names", "alias", "line"] i.toJson =
      some [some (.string i.source), some (.strings i.names), some (.optional .string i.alias?),
        some (.natural i.line)] := rfl

theorem reads (i : Import) : Reads ofJson? i.toJson i := by
  intro i' h
  unfold ofJson? at h
  simp only [record?_toJson, Option.bind_eq_bind, Option.bind_some] at h
  obtain ⟨source, hs, h⟩ := Option.bind_eq_some_iff.mp h
  obtain ⟨names, hn, h⟩ := Option.bind_eq_some_iff.mp h
  obtain ⟨alias?, ha, h⟩ := Option.bind_eq_some_iff.mp h
  obtain ⟨line, hl, h⟩ := Option.bind_eq_some_iff.mp h
  rw [← Option.some.inj h, reads_string _ _ hs, reads_strings _ _ hn,
    reads_optional_string _ _ ha, reads_natural _ _ hl]

end Import

namespace FunctionDef

theorem record?_toJson (f : FunctionDef) :
    record? ["name", "line", "parameters", "is_async"] f.toJson =
      some [some (.string f.name), some (.natural f.line), some (.strings f.parameters),
        some (.bool f.isAsync)] := rfl

theorem reads (f : FunctionDef) : Reads ofJson? f.toJson f := by
  intro f' h
  unfold ofJson? at h
  simp only [record?_toJson, Option.bind_eq_bind, Option.bind_some] at h
  obtain ⟨name, hn, h⟩ := Option.bind_eq_some_iff.mp h
  obtain ⟨line, hl, h⟩ := Option.bind_eq_some_iff.mp h
  obtain ⟨parameters, hp, h⟩ := Option.bind_eq_some_iff.mp h
  obtain ⟨isAsync, ha, h⟩ := Option.bind_eq_some_iff.mp h
  rw [← Option.some.inj h, reads_string _ _ hn, reads_natural _ _ hl, reads_strings _ _ hp,
    reads_bool _ _ ha]

end FunctionDef

namespace ClassDef

theorem record?_toJson (c : ClassDef) :
    record? ["name", "line", "bases", "methods"] c.toJson =
      some [some (.string c.name), some (.natural c.line), some (.strings c.bases),
        some (.array (c.methods.map FunctionDef.toJson))] := rfl

theorem reads (c : ClassDef) : Reads ofJson? c.toJson c := by
  intro c' h
  unfold ofJson? at h
  simp only [record?_toJson, Option.bind_eq_bind, Option.bind_some] at h
  obtain ⟨name, hn, h⟩ := Option.bind_eq_some_iff.mp h
  obtain ⟨line, hl, h⟩ := Option.bind_eq_some_iff.mp h
  obtain ⟨bases, hb, h⟩ := Option.bind_eq_some_iff.mp h
  obtain ⟨methods, hm, h⟩ := Option.bind_eq_some_iff.mp h
  rw [← Option.some.inj h, reads_string _ _ hn, reads_natural _ _ hl, reads_strings _ _ hb,
    reads_list FunctionDef.reads _ _ hm]

end ClassDef

namespace Variable

theorem record?_toJson (v : Variable) :
    record? ["name", "line"] v.toJson =
      some [some (.string v.name), some (.natural v.line)] := rfl

theorem reads (v : Variable) : Reads ofJson? v.toJson v := by
  intro v' h
  unfold ofJson? at h
  simp only [record?_toJson, Option.bind_eq_bind, Option.bind_some] at h
  obtain ⟨name, hn, h⟩ := Option.bind_eq_some_iff.mp h
  obtain ⟨line, hl, h⟩ := Option.bind_eq_some_iff.mp h
  rw [← Option.some.inj h, reads_string _ _ hn, reads_natural _ _ hl]

end Variable

theorem Path.reads (p : Path) : Reads ofJson? p.toJson p := by
  intro p' h
  obtain ⟨s, hs, rfl⟩ := Option.map_eq_some_iff.mp h
  rw [reads_string _ _ hs]

namespace Module

theorem record?_toJson (m : Module) :
    record? ["path", "module_name", "imports", "classes", "functions", "variables",
        "line_count", "chunk_count"] m.toJson =
      some [some m.path.toJson, some (.string m.name), some (.array (m.imports.map Import.toJson)),
        some (.array (m.classes.map ClassDef.toJson)),
        some (.array (m.functions.map FunctionDef.toJson)),
        some (.array (m.globals.map Variable.toJson)), some (.natural m.lineCount),
        some (.natural m.chunkCount)] := rfl

/-- What is read from the JSON of a module record is the record. -/
theorem reads (m : Module) : Reads ofJson? m.toJson m := by
  intro m' h
  unfold ofJson? at h
  simp only [record?_toJson, Option.bind_eq_bind, Option.bind_some] at h
  obtain ⟨path, hp, h⟩ := Option.bind_eq_some_iff.mp h
  obtain ⟨name, hn, h⟩ := Option.bind_eq_some_iff.mp h
  obtain ⟨imports, hi, h⟩ := Option.bind_eq_some_iff.mp h
  obtain ⟨classes, hc, h⟩ := Option.bind_eq_some_iff.mp h
  obtain ⟨functions, hf, h⟩ := Option.bind_eq_some_iff.mp h
  obtain ⟨globals, hg, h⟩ := Option.bind_eq_some_iff.mp h
  obtain ⟨lineCount, hl, h⟩ := Option.bind_eq_some_iff.mp h
  obtain ⟨chunkCount, hk, h⟩ := Option.bind_eq_some_iff.mp h
  rw [← Option.some.inj h, Path.reads _ _ hp, reads_string _ _ hn, reads_list Import.reads _ _ hi,
    reads_list ClassDef.reads _ _ hc, reads_list FunctionDef.reads _ _ hf,
    reads_list Variable.reads _ _ hg, reads_natural _ _ hl, reads_natural _ _ hk]

end Module

theorem FileStamp.record?_toJson (s : FileStamp) :
    record? ["path", "digest", "size", "mtime", "parsed_at", "parse_duration_micros",
        "relationship_count"] s.toJson =
      some [some s.path.toJson, some (.string s.digest), some (.natural s.size),
        some (.optional Instant.toJson s.changed?), some s.parsedAt.toJson,
        some (.natural s.parseMicros), some (.natural s.edgeCount)] := rfl

theorem FileStamp.reads_digest (s : FileStamp) {s' : FileStamp} (h : ofJson? s.toJson = some s') :
    s'.digest = s.digest := by
  unfold ofJson? at h
  simp only [FileStamp.record?_toJson, Option.bind_eq_bind, Option.bind_some] at h
  obtain ⟨path, -, h⟩ := Option.bind_eq_some_iff.mp h
  obtain ⟨digest, hd, h⟩ := Option.bind_eq_some_iff.mp h
  obtain ⟨size, -, h⟩ := Option.bind_eq_some_iff.mp h
  obtain ⟨changed?, -, h⟩ := Option.bind_eq_some_iff.mp h
  obtain ⟨parsedAt, -, h⟩ := Option.bind_eq_some_iff.mp h
  obtain ⟨micros, -, h⟩ := Option.bind_eq_some_iff.mp h
  obtain ⟨count, -, h⟩ := Option.bind_eq_some_iff.mp h
  rw [← Option.some.inj h]
  exact reads_string _ _ hd

theorem CacheMetadata.record?_toJson (m : CacheMetadata) :
    record? ["cached_at", "format_version", "config_digest"] m.toJson =
      some [some m.storedAt.toJson, some (.natural m.formatVersion),
        some (.string m.settingsDigest)] := rfl

theorem CacheMetadata.reads_digest (m : CacheMetadata) {m' : CacheMetadata}
    (h : ofJson? m.toJson = some m') : m'.settingsDigest = m.settingsDigest := by
  unfold ofJson? at h
  simp only [CacheMetadata.record?_toJson, Option.bind_eq_bind, Option.bind_some] at h
  obtain ⟨storedAt, -, h⟩ := Option.bind_eq_some_iff.mp h
  obtain ⟨version, -, h⟩ := Option.bind_eq_some_iff.mp h
  obtain ⟨digest, hd, h⟩ := Option.bind_eq_some_iff.mp h
  rw [← Option.some.inj h]
  exact reads_string _ _ hd

namespace CacheEntry

/-- Entries of the same module, for the same content and under the same settings. -/
structure Alike (e e' : CacheEntry) : Prop where
  digest : e'.stamp.digest = e.stamp.digest
  module : e'.module = e.module
  settings : e'.metadata.settingsDigest = e.metadata.settingsDigest

theorem record?_toJson (e : CacheEntry) :
    record? ["hash", "module", "relationships", "metadata"] e.toJson =
      some [some e.stamp.toJson, some e.module.toJson, some (.array (e.edges.map Edge.toJson)),
        some e.metadata.toJson] := rfl

theorem reads_alike (e : CacheEntry) {e' : CacheEntry} (h : ofJson? e.toJson = some e') :
    Alike e e' := by
  unfold ofJson? at h
  simp only [record?_toJson, Option.bind_eq_bind, Option.bind_some] at h
  obtain ⟨stamp, hs, h⟩ := Option.bind_eq_some_iff.mp h
  obtain ⟨module, hm, h⟩ := Option.bind_eq_some_iff.mp h
  obtain ⟨edges, -, h⟩ := Option.bind_eq_some_iff.mp h
  obtain ⟨metadata, hd, h⟩ := Option.bind_eq_some_iff.mp h
  rw [required_some] at hs hm hd
  obtain rfl := Option.some.inj h
  exact ⟨e.stamp.reads_digest hs, e.module.reads _ hm, e.metadata.reads_digest hd⟩

end CacheEntry

/-! ## Payloads as text -/

theorem Json.plain_array {α : Type} {f : α → Json} (h : ∀ a, (f a).Plain) (xs : List α) :
    (Json.array (xs.map f)).Plain := by
  refine plainItems_iff.mpr fun j hj => ?_
  obtain ⟨a, -, rfl⟩ := List.mem_map.mp hj
  exact h a

theorem Json.plain_object {fields : List (String × Json)} (h : ∀ f ∈ fields, f.2.Plain) :
    (Json.object fields).Plain :=
  plainFields_iff.mpr h

theorem Json.plain_optional {α : Type} {f : α → Json} (h : ∀ a, (f a).Plain) (a? : Option α) :
    (Json.optional f a?).Plain := by
  cases a? with
  | none => trivial
  | some a => exact h a

theorem Json.plain_strings (xs : List String) : (Json.strings xs).Plain :=
  plain_array (f := .string) (fun _ => trivial) xs

theorem Import.plain (i : Import) : i.toJson.Plain := by
  refine plain_object ?_
  simp only [List.forall_mem_cons]
  exact ⟨trivial, plain_strings _, plain_optional (f := .string) (fun _ => trivial) _, trivial, nofun⟩

theorem FunctionDef.plain (f : FunctionDef) : f.toJson.Plain := by
  refine plain_object ?_
  simp only [List.forall_mem_cons]
  exact ⟨trivial, trivial, plain_strings _, trivial, nofun⟩

theorem ClassDef.plain (c : ClassDef) : c.toJson.Plain := by
  refine plain_object ?_
  simp only [List.forall_mem_cons]
  exact ⟨trivial, trivial, plain_strings _, plain_array FunctionDef.plain _, nofun⟩

theorem Variable.plain (v : Variable) : v.toJson.Plain := by
  refine plain_object ?_
  simp only [List.forall_mem_cons]
  exact ⟨trivial, trivial, nofun⟩

theorem Module.plain (m : Module) : m.toJson.Plain := by
  refine plain_object ?_
  unfold jsonFields
  simp only [List.forall_mem_cons]
  exact ⟨trivial, trivial, plain_array Import.plain _, plain_array ClassDef.plain _,
    plain_array FunctionDef.plain _, plain_array Variable.plain _, trivial, trivial, nofun⟩

theorem Edge.plain (e : Edge) : e.toJson.Plain := by
  refine plain_object ?_
  unfold jsonFields
  simp only [List.forall_mem_cons]
  exact ⟨trivial, trivial, trivial, trivial, trivial, trivial, nofun⟩

theorem FileStamp.plain (s : FileStamp) : s.toJson.Plain := by
  refine plain_object ?_
  simp only [List.forall_mem_cons]
  exact ⟨trivial, trivial, trivial, plain_optional (f := Instant.toJson) (fun _ => trivial) _,
    trivial, trivial, trivial, nofun⟩

theorem CacheMetadata.plain (m : CacheMetadata) : m.toJson.Plain := by
  refine plain_object ?_
  simp only [List.forall_mem_cons]
  exact ⟨trivial, trivial, trivial, nofun⟩

theorem CacheEntry.plain (e : CacheEntry) : e.toJson.Plain := by
  refine plain_object ?_
  simp only [List.forall_mem_cons]
  exact ⟨e.stamp.plain, e.module.plain, plain_array Edge.plain _, e.metadata.plain, nofun⟩

namespace CacheEntry

/-- The bytes of a payload file. -/
def bytes (e : CacheEntry) : List UInt8 := e.toJson.compact.toUTF8.toList

/-- What is read from the payload file of an entry is alike the entry. -/
theorem read_bytes (e : CacheEntry) {text : List Char} (ht : Text.decode? e.bytes = some text)
    {e' : CacheEntry} (h : (Json.parse text).bind ofJson? = some e') : Alike e e' := by
  unfold bytes at ht
  rw [Text.decode?_toUTF8] at ht
  have htext : text = e.toJson.print := by
    rw [← Option.some.inj ht, compact, String.toList_ofList]
  rw [htext, parse_print e.plain] at h
  exact e.reads_alike h

end CacheEntry
end SourceSurvey
