import SourceSurvey.Proofs.Cache.Session
import SourceSurvey.Proofs.Pipeline.Discovered
import SourceSurvey.Proofs.Schedule.Content

/-!
# Visits

A visit is a survey of a tree from some roots. Several visits share a cache, the patterns of the
discovery and a parser that sees of a file its path and its bytes (`Course`). Visits are lawful
(`Course.Lawful`) if no two paths that they discover stand for one file and the fingerprint tells
apart what it is asked for; then an entry that was stored for what became of a file on one visit
tells what becomes of it on another visit, as long as the file has the same content
(`Course.Lawful.genuine`).
-/

namespace SourceSurvey

open Cache (Unambiguous)

/-- What surveys have in common: the cache directory, the patterns, the rule for large files, the
number of retries and the parser. -/
structure Course where
  site : Site
  discovery : Discovery
  largeFiles : LargeFiles
  maxRetries : Nat
  parse : Path → Except IoFailure (List UInt8) → Parse

/-- A survey of a tree from some roots. -/
structure Visit where
  tree : Tree
  roots : List Path

namespace Course

variable (course : Course)

/-- The files that a visit discovers. -/
def files (v : Visit) : List Path := course.discovery.run v.tree v.roots

/-- Where files are parsed on a visit. -/
def workplace (t : Tree) : Workplace :=
  { tree := t, largeFiles := course.largeFiles, parser := reader course.parse t }

/-- The task for a file. -/
def task (t : Tree) (p : Path) : Task := Processor.taskFor t course.maxRetries p

/-- What becomes of a file. -/
def verdict (t : Tree) (p : Path) : Except FailureRecord Module :=
  ((course.workplace t).verdict (course.task t p)).1

/-- What becomes of a file, with its path. -/
def fate (t : Tree) (p : Path) : Except FailureRecord (Path × Module) :=
  (course.verdict t p).map (p, ·)

/-- The modules that are made of some files, by path. -/
def records (t : Tree) (ps : List Path) : List (Path × Module) :=
  (ps.map (course.fate t)).filterMap Except.toOption

/-- The failures that become of some files. -/
def losses (t : Tree) (ps : List Path) : List FailureRecord :=
  (ps.map (course.fate t)).filterMap Workplace.failure?

/-- The keys of the discovered files of some visits. -/
def Keys (V : List Visit) (k : Path) : Prop :=
  ∃ v ∈ V, ∃ p ∈ course.files v, k = v.tree.key p

/-- What the fingerprint is asked for on some visits: the contents of discovered files and the
texts of their keys. -/
inductive Occurs (V : List Visit) : List UInt8 → Prop
  | content {v : Visit} {p : Path} {bytes : List UInt8} (visited : v ∈ V)
      (discovered : p ∈ course.files v) (h : v.tree.content p = .ok (some bytes)) : Occurs V bytes
  | key {v : Visit} {p : Path} (visited : v ∈ V) (discovered : p ∈ course.files v) :
      Occurs V (v.tree.key p).text.toUTF8.toList

/-- No two paths that are discovered on some visits are remembered as one file. -/
def Unmixed (V : List Visit) : Prop :=
  ∀ v ∈ V, ∀ v' ∈ V, ∀ p ∈ course.files v, ∀ p' ∈ course.files v',
    (v.tree.key p).same (v'.tree.key p') = true → p = p'

/-- The fingerprint tells apart what it is asked for. -/
def CollisionFree (V : List Visit) : Prop :=
  ∀ b b', course.Occurs V b → course.Occurs V b' →
    course.site.fingerprint b = course.site.fingerprint b' → b = b'

/-- Visits of rooted trees from one directory, which discover nothing in the home of the cache and
no file by two paths, and whose contents and keys have different digests. -/
structure Lawful (V : List Visit) : Prop where
  rooted : ∀ v ∈ V, v.tree.Rooted course.site.home
  avoids : ∀ v ∈ V, course.discovery.Avoids course.site.home v.tree v.roots
  current : ∀ v ∈ V, ∀ v' ∈ V, v.tree.current = v'.tree.current
  unmixed : course.Unmixed V
  collisionFree : course.CollisionFree V

/-- An entry was stored for the content that a file had on some visit, and tells what became of the
file there. -/
def Genuine (V : List Visit) (k : Path) (e : CacheEntry) : Prop :=
  ∃ v ∈ V, ∃ p ∈ course.files v, k = v.tree.key p ∧
    ∃ bytes, v.tree.content p = .ok (some bytes) ∧
      e.stamp.digest = course.site.fingerprint bytes ∧ course.verdict v.tree p = .ok e.module

variable {course} {V : List Visit} {v : Visit} {t t' : Tree} {p : Path} {e : CacheEntry}

theorem genuine_respects (V : List Visit) : Cache.Respects (course.Genuine V) := by
  rintro k e e' ⟨v, hv, p, hp, hk, bytes, hb, hd, hm⟩ ha
  refine ⟨v, hv, p, hp, hk, bytes, hb, ha.digest.trans hd, ?_⟩
  rw [hm, ha.module]

/-- What becomes of a file depends on its content only. -/
theorem verdict_congr (h : t.content p = t'.content p) :
    course.verdict t p = course.verdict t' p := by
  have halike : Workplace.Alike (course.workplace t) (course.workplace t') p := by
    refine ⟨h, rfl, fun n => ?_⟩
    show course.parse p (t.read p) = course.parse p (t'.read p)
    rw [Tree.read_congr h]
  have htask : course.task t p = course.task t' p := Processor.taskFor_congr h _
  unfold verdict
  rw [htask]
  exact congrArg Prod.fst (Workplace.verdict_congr halike)

/-- The system takes the path of a file of which a module is made. -/
theorem nameable_of_verdict_ok {m : Module} (h : course.verdict t p = .ok m) : p.Nameable := by
  cases hl : t.locate p with
  | ok x => exact Tree.nameable_of_locate hl
  | error e =>
    have hunreadable : (course.workplace t).tree.locate (course.task t p).path = .error e := hl
    obtain ⟨record, hr⟩ := Workplace.verdict_of_unreadable hunreadable
    exact nomatch hr.symm.trans h

namespace Lawful

variable (law : course.Lawful V)

include law

theorem cases (hv : v ∈ V) (hp : p ∈ course.files v) :
    (p.Nameable ∧ ∃ place bytes changed, ¬ Below course.site.home place ∧
        v.tree.locate p = .ok (place, .file bytes changed)) ∨
      ¬ p.Nameable ∧ v.tree.locate p = .error p.refusal :=
  Discovery.mem_run_cases (law.rooted v hv) (law.avoids v hv) hp

/-- A discovered path that the system takes leads to a file outside of the home. -/
theorem located (hv : v ∈ V) (hp : p ∈ course.files v) (hn : p.Nameable) :
    ∃ place bytes changed, ¬ Below course.site.home place ∧
      v.tree.locate p = .ok (place, .file bytes changed) := by
  rcases law.cases hv hp with ⟨-, hc⟩ | ⟨hn', -⟩
  · exact hc
  · exact absurd hn hn'

/-- The cache tells the keys of lawful visits apart. -/
theorem unambiguous : Unambiguous course.site.fingerprint (course.Keys V) := by
  rintro _ _ ⟨v, hv, p, hp, rfl⟩ ⟨v', hv', p', hp', rfl⟩ (hsame | hstem)
  · obtain rfl := law.unmixed v hv v' hv' p hp p' hp' hsame
    rcases law.cases hv hp with ⟨hn, place, bytes, changed, hout, hl⟩ | ⟨hn, hl⟩
    · rcases law.cases hv' hp' with ⟨-, place', bytes', changed', hout', hl'⟩ | ⟨hn', -⟩
      · have names := (law.rooted v hv).isName (Tree.find?_of_locate hl) hout
        have names' := (law.rooted v' hv').isName (Tree.find?_of_locate hl') hout'
        rw [Tree.key_of_locate hl, Tree.key_of_locate hl'] at hsame ⊢
        rw [Tree.pathOf_same names names' (Tree.ne_nil_of_locate hl) (Tree.ne_nil_of_locate hl')
          hsame]
      · exact absurd hn hn'
    · rcases law.cases hv' hp' with ⟨hn', -⟩ | ⟨-, hl'⟩
      · exact absurd hn' hn
      · exact Tree.key_congr_of_error hl hl' (law.current v hv v' hv')
  · have htext := Text.toUTF8_inj (law.collisionFree _ _ (.key hv hp) (.key hv' hp') hstem)
    cases hk : v.tree.key p
    cases hk' : v'.tree.key p'
    rw [hk, hk'] at htext
    rw [Path.mk.injEq]
    exact htext

/-- An entry that is genuine and fits the file on a visit tells what becomes of the file there. -/
theorem genuine (hv : v ∈ V) (hp : p ∈ course.files v)
    (he : course.Genuine V (v.tree.key p) e)
    (hf : Session.Fits course.site.fingerprint v.tree p e) :
    course.verdict v.tree p = .ok e.module := by
  obtain ⟨v₀, hv₀, p₀, hp₀, hk, bytes₀, hc₀, hd₀, hm⟩ := he
  obtain rfl : p = p₀ := by
    refine law.unmixed v hv v₀ hv₀ p hp p₀ hp₀ ?_
    rw [hk]
    exact Path.same_refl _
  obtain ⟨place, bytes, changed, hout, hl⟩ := law.located hv hp (nameable_of_verdict_ok hm)
  obtain ⟨place', bytes', changed', hl', hd⟩ := hf
  have hbytes := (law.rooted v hv).locate_key hl hout hl'
  have hcontent := Tree.content_file hl
  have heq : bytes₀ = bytes := by
    refine law.collisionFree _ _ (.content hv₀ hp₀ hc₀) (.content hv hp hcontent) ?_
    rw [← hd₀, hd, hbytes]
  rw [← hm]
  refine verdict_congr ?_
  rw [hcontent, hc₀, heq]

end Lawful
end Course
end SourceSurvey
