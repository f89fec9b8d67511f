import SourceSurvey.Proofs.Pipeline.History
import SourceSurvey.Proofs.Pipeline.Recorded

/-!
# Only what has changed is parsed again

A history is steady (`Course.Steady`) if all its caches are opened under the same settings, every
survey succeeds and every result is stored. Each survey may bring its own parser. What the surveys
found is kept in a log.

* `Course.lastParsed?`: what a file held, and when it was changed, on the last survey that parsed
  it.
* `Course.Steady.remembers`: at every moment of a steady history the index says of every file what
  the log says, and the files of the cache back the index.
* `Course.Steady.handed_iff`: a survey hands to the parser the files that no survey has parsed and
  those that are no longer what they were when they were last parsed.
-/

namespace SourceSurvey

open Cache (Backed)
open Session (Vacant)

/-- A survey that is over: where it was and what it found. -/
structure Outing where
  visit : Visit
  findings : Findings

namespace Course

variable {course : Course} {settingsDigest : String} {W : List Visit} {v : Visit} {r : Outing}
  {log : List Outing} {c c' : Cache} {t t₁ t' : Tree} {p p' : Pipeline} {path key : Path}
  {roots : List Path}

/-! ## The last time that a file was parsed -/

/-- What a file held, and when it was changed, on the last survey that parsed it. The log starts
with the latest survey. -/
def lastParsed? (log : List Outing) (key : Path) : Option (Option (List UInt8 × Instant)) :=
  log.findSome? fun r =>
    (r.findings.parsed.find? fun q => key.same (r.visit.tree.key q)).map r.visit.tree.state?

/-- A file that no survey has parsed, or that is no longer what it was when it was last parsed. -/
def Stale (log : List Outing) (t : Tree) (path : Path) : Prop :=
  lastParsed? log (t.key path) = none ∨
    ∃ state, lastParsed? log (t.key path) = some state ∧ t.state? path ≠ state

/-- A further survey has parsed a file, or leaves what is known of it. -/
theorem lastParsed?_cons (law : course.Lawful W) (hv : v ∈ W) (hp : path ∈ course.files v)
    (hr : r.visit ∈ W) (discovered : ∀ q ∈ r.findings.parsed, q ∈ course.files r.visit)
    (log : List Outing) :
    (path ∈ r.findings.parsed ∧ v.tree.key path = r.visit.tree.key path ∧
        lastParsed? (r :: log) (v.tree.key path) = some (r.visit.tree.state? path)) ∨
      (∀ q ∈ r.findings.parsed, (v.tree.key path).same (r.visit.tree.key q) = false) ∧
        lastParsed? (r :: log) (v.tree.key path) = lastParsed? log (v.tree.key path) := by
  unfold lastParsed?
  rw [List.findSome?_cons]
  cases hf : r.findings.parsed.find? fun q => (v.tree.key path).same (r.visit.tree.key q) with
  | none =>
    refine .inr ⟨fun q hq => ?_, rfl⟩
    simpa using List.find?_eq_none.mp hf q hq
  | some q =>
    have hq := List.mem_of_find?_eq_some hf
    have hsame : (v.tree.key path).same (r.visit.tree.key q) = true := @List.find?_some _ _ q _ hf
    obtain rfl := law.unmixed v hv r.visit hr path hp q (discovered q hq) hsame
    exact .inl ⟨hq, law.unambiguous _ _ ⟨v, hv, path, hp, rfl⟩
      ⟨r.visit, hr, path, discovered path hq, rfl⟩ (.inl hsame), rfl⟩

/-- What the index says of a file that is discovered on a visit, and what it held when it was last
parsed. -/
inductive Tells (course : Course) (settingsDigest : String) (W : List Visit) (v : Visit)
    (path : Path) : Option IndexRecord → Option (Option (List UInt8 × Instant)) → Prop
  | nothing : Tells course settingsDigest W v path none none
  | record {r : IndexRecord} {bytes : List UInt8} {changed : Instant}
      (describes : course.Describes settingsDigest r bytes changed)
      (occurs : course.Occurs W bytes) (nameable : path.Nameable)
      (key : (v.tree.key path).Nameable) :
      Tells course settingsDigest W v path (some r) (some (some (bytes, changed)))

/-- A record that describes what a file once held is current if the file still is what it was. -/
theorem Describes.isCurrent_iff (law : course.Lawful W)
    (fingerprint : c.fingerprint = course.site.fingerprint) {r : IndexRecord}
    {bytes bytes' : List UInt8} {changed changed' : Instant}
    (h : course.Describes c.settingsDigest r bytes changed) (occurs : course.Occurs W bytes)
    (occurs' : course.Occurs W bytes') {place : Place}
    (hl : t.locate key = .ok (place, .file bytes' changed')) :
    c.isCurrent t key r = true ↔ (bytes', changed') = (bytes, changed) := by
  unfold Cache.isCurrent
  rw [hl]
  simp only [h.settings, h.size, h.changed, h.digest, fingerprint, decide_true, Bool.true_and,
    Bool.and_eq_true, decide_eq_true_eq, Option.some.injEq, Prod.mk.injEq]
  constructor
  · rintro ⟨⟨-, hchanged⟩, hdigest⟩
    exact ⟨law.collisionFree bytes' bytes occurs' occurs hdigest, hchanged⟩
  · rintro ⟨rfl, rfl⟩
    exact ⟨⟨rfl, rfl⟩, rfl⟩

/-- A file counts as changed iff it is stale, as long as the index tells what the log tells. -/
theorem Tells.hasChanged_iff (law : course.Lawful W) (hv : v ∈ W) (hp : path ∈ course.files v)
    (fingerprint : c.fingerprint = course.site.fingerprint)
    (h : course.Tells c.settingsDigest W v path (c.index.get? (v.tree.key path))
      (lastParsed? log (v.tree.key path))) :
    c.hasChanged v.tree path = true ↔ Stale log v.tree path := by
  unfold Cache.hasChanged Stale
  generalize c.index.get? (v.tree.key path) = r? at h
  generalize lastParsed? log (v.tree.key path) = state? at h
  cases h with
  | nothing => simp
  | @record r bytes changed describes occurs nameable key =>
    obtain ⟨place, bytes', changed', hout, hl⟩ := law.located hv hp nameable
    have hk := (law.rooted v hv).locate_key_of_nameable hl hout key
    have hcurrent := describes.isCurrent_iff law fingerprint occurs
      (.content hv hp (Tree.content_file hl)) hk
    rw [Tree.state?_of_locate hl]
    simp [← Bool.not_eq_true, hcurrent]

/-! ## Steady histories -/

end Course

/-- A cache is opened at a site under given settings. -/
def Site.OpensUnder (site : Site) (settingsDigest : String) (t t' : Tree) (c : Cache) : Prop :=
  ∃ capacity, Cache.openIn t site.directory settingsDigest capacity site.formatVersion
    site.fingerprint = (t', .ok c)

/-- The results of all files that a survey has parsed are stored. -/
def Pipeline.StoresAll (p : Pipeline) (t : Tree) (parser : Parser) (roots : List Path) : Prop :=
  let g := p.prepare t parser roots
  ∀ c, g.pipeline.cache? = some c → AllStored c g.tree g.modules g.edges g.outcome.modules.keys

namespace Course

variable {course : Course} {settingsDigest : String} {W : List Visit} {v : Visit} {r : Outing}
  {log : List Outing} {c c' : Cache} {t t₁ t' : Tree} {p p' : Pipeline} {path key : Path}
  {roots : List Path}

/-- The surveys of a course under given settings, the latest first, that have led to a pipeline and
a tree, if all of them succeed and every result is stored. Each survey may bring its own parser. -/
inductive Steady (course : Course) (settingsDigest : String) :
    Pipeline → Tree → List Outing → Prop
  | start {p : Pipeline} {c : Cache} {t₀ t : Tree} (configured : p.discovery = course.discovery)
      (cached : p.cache? = some c) (opened : course.site.OpensUnder settingsDigest t₀ t c)
      (houses : t.Houses course.site.directory course.site.home)
      (made : t.find? (course.site.home ++ ["entries"]) = some .directory)
      (vacant : Vacant course.site.home t) (rooted : t.Rooted course.site.home) :
      Steady course settingsDigest p t []
  | edit {p : Pipeline} {t t' : Tree} {log : List Outing} (h : Steady course settingsDigest p t log)
      (spared : course.site.Spares t t') : Steady course settingsDigest p t' log
  | run {p p' : Pipeline} {t t₁ t' : Tree} {log : List Outing} {parser : Parser}
      {roots : List Path} {s : Survey} (h : Steady course settingsDigest p t log)
      (avoids : course.discovery.Avoids course.site.home t roots)
      (stores : p.StoresAll t parser roots) (gathered : (p.gather t parser roots).2.1 = t₁)
      (ran : p.run t parser roots = (p', t', .ok s)) (spared : course.site.Spares t₁ t') :
      Steady course settingsDigest p' t' (⟨⟨t, roots⟩, s.toFindings⟩ :: log)
  | reopen {p p' : Pipeline} {c : Cache} {t t₁ t' : Tree} {log : List Outing}
      (h : Steady course settingsDigest p t log) (left : t₁ = t ∨ t₁ = p.close t)
      (configured : p'.discovery = course.discovery) (cached : p'.cache? = some c)
      (opened : course.site.OpensUnder settingsDigest t₁ t' c) :
      Steady course settingsDigest p' t' log

/-- What a steady history remembers: the index of the cache is backed by the files and tells of
every file what the log tells. -/
structure Remembers (course : Course) (settingsDigest : String) (W : List Visit)
    (log : List Outing) (c : Cache) (t : Tree) : Prop where
  directory : c.directory = course.site.directory
  fingerprint : c.fingerprint = course.site.fingerprint
  settings : c.settingsDigest = settingsDigest
  version : c.formatVersion = course.site.formatVersion
  backed : Backed (course.Keys W) course.site.home c t
  clean : c.dirty = false
  tells : ∀ v ∈ W, ∀ path ∈ course.files v, course.Tells settingsDigest W v path
    (c.index.get? (v.tree.key path)) (lastParsed? log (v.tree.key path))

/-- A survey that succeeds has found what it prepared, and has stored it. -/
theorem run_prepared {parser : Parser} {s : Survey} (ran : p.run t parser roots = (p', t', .ok s)) :
    let g := p.prepare t parser roots
    s.toFindings = g.findings ∧ p'.discovery = p.discovery ∧ ∃ q q' : Pipeline,
      q.cache? = g.pipeline.cache? ∧ p'.cache? = q'.cache? ∧
        q.persist g.tree g.outcome.modules.keys g.modules g.edges =
          (q', (p.gather t parser roots).2.1, .ok ()) := by
  obtain ⟨p₁, t₁, r, hg, hcache, setup, hok, -⟩ := History.run_cases ran
  rw [hok s rfl] at hg
  obtain ⟨q, q', result, storing, hpersist, finished, hr⟩ :=
    Pipeline.gather_prepared (Pipeline.readable_of_gather hg) hg rfl
  have discovery := setup.discovery.trans (Pipeline.gather_setup hg).discovery
  cases result with
  | error e => exact nomatch hr
  | ok u =>
    rw [hg]
    exact ⟨Except.ok.inj hr, discovery, q, q', storing.cache, hcache.trans finished.cache, hpersist⟩

namespace Remembers

theorem houses (h : course.Remembers settingsDigest W log c t) :
    t.Houses course.site.directory course.site.home := by
  rw [← h.directory]
  exact h.backed.houses

/-- A cache remembers when the tree has changed elsewhere. -/
theorem spared (h : course.Remembers settingsDigest W log c t) (hs : course.site.Spares t t') :
    course.Remembers settingsDigest W log c t' := by
  have houses := hs.houses h.houses
  rw [← h.directory] at houses
  exact ⟨h.directory, h.fingerprint, h.settings, h.version, h.backed.spared houses hs.same, h.clean,
    h.tells⟩

/-- The first cache remembers nothing. -/
theorem first (houses : t.Houses course.site.directory course.site.home)
    (made : t.find? (course.site.home ++ ["entries"]) = some .directory)
    (vacant : Vacant course.site.home t) {t₀ : Tree}
    (ho : course.site.OpensUnder settingsDigest t₀ t c) :
    course.Remembers settingsDigest W [] c t := by
  obtain ⟨capacity, ho⟩ := ho
  have missing : t.find? (course.site.home ++ [Cache.fileName "index"]) = none :=
    vacant _ (below_append nofun) (by simp; decide)
  obtain ⟨backed, index, clean⟩ := Backed.first (K := course.Keys W) houses made missing ho
  obtain ⟨-, directory, settings, fingerprint, version⟩ := Cache.openIn_ok ho
  refine ⟨directory, fingerprint, settings, version, backed, clean, fun v _ path _ => ?_⟩
  rw [index]
  exact .nothing

/-- A cache that is opened where another one was closed or lost remembers what that one did. -/
theorem reopened (h : course.Remembers settingsDigest W log c t)
    (version : course.site.formatVersion < 2 ^ 32) (hc : p.cache? = some c)
    (left : t₁ = t ∨ t₁ = p.close t) (ho : course.site.OpensUnder settingsDigest t₁ t' c') :
    t' = t ∧ course.Remembers settingsDigest W log c' t' := by
  -- The index was written by the last survey, so that closing writes nothing.
  have hleft : t₁ = t := by
    rcases left with hl | hl
    · exact hl
    · unfold Pipeline.close Cache.flush at hl
      rw [hc] at hl
      simpa [h.clean] using hl
  subst hleft
  obtain ⟨capacity, ho⟩ := ho
  obtain ⟨-, directory, settings, fingerprint, version'⟩ := Cache.openIn_ok ho
  rw [← h.directory, ← h.fingerprint, ← h.version] at ho
  rw [← h.version] at version
  obtain ⟨rfl, backed, index, clean⟩ := h.backed.reopen h.clean version ho
  refine ⟨rfl, directory, fingerprint, settings, version', backed, clean, ?_⟩
  rw [index]
  exact h.tells

/-- The stages of a survey before the storing. -/
theorem prepare (h : course.Remembers settingsDigest W log c t) (hv : ⟨t, roots⟩ ∈ W)
    (configured : p.discovery = course.discovery) (hc : p.cache? = some c) (parser : Parser) :
    (p.prepare t parser roots).Recorded c t (course.files ⟨t, roots⟩) := by
  have hplain : PlainNames c.fingerprint := by
    rw [h.fingerprint]
    exact course.site.plain
  have hfiles : p.discovery.run t roots = course.files ⟨t, roots⟩ := by
    rw [configured]
    rfl
  rw [← hfiles]
  refine Pipeline.prepare_recorded hc h.backed hplain (fun path hp => ?_) parser
  rw [hfiles] at hp
  exact ⟨⟨t, roots⟩, hv, path, hp, rfl⟩

/-- A survey whose results are stored is remembered. -/
theorem survey (h : course.Remembers settingsDigest W log c t) (law : course.Lawful W)
    (hv : ⟨t, roots⟩ ∈ W) (version : course.site.formatVersion < 2 ^ 32)
    (configured : p.discovery = course.discovery) (hc : p.cache? = some c) {parser : Parser}
    (stores : p.StoresAll t parser roots) (gathered : (p.gather t parser roots).2.1 = t₁)
    {s : Survey} (ran : p.run t parser roots = (p', t', .ok s))
    (fitting : course.Fitting ⟨t, roots⟩ s.toFindings) :
    p'.discovery = course.discovery ∧ Tree.Rewrites course.site.home t t₁ ∧
      ∃ c', p'.cache? = some c' ∧
        course.Remembers settingsDigest W (⟨⟨t, roots⟩, s.toFindings⟩ :: log) c' t₁ := by
  have prepared := h.prepare hv configured hc parser
  obtain ⟨findings, discovery, q, q', hq, hcache, hpersist⟩ := run_prepared ran
  rw [findings] at fitting
  rw [gathered] at hpersist
  rw [← h.version] at version
  obtain ⟨c', hc', backed, rewrites, clean, setup, recorded, kept⟩ := persist_recorded law hv
    h.backed h.directory h.fingerprint version prepared fitting hq stores hpersist
  refine ⟨discovery.trans configured, rewrites, c', hcache.trans hc',
    setup.directory.trans h.directory, setup.fingerprint.trans h.fingerprint,
    setup.settingsDigest.trans h.settings, setup.formatVersion.trans h.version, backed, clean,
    fun v hv' path hp => ?_⟩
  rw [findings]
  set g := p.prepare t parser roots
  have discovered : ∀ q ∈ g.findings.parsed, q ∈ course.files ⟨t, roots⟩ :=
    fun q hq => (prepared.mem_parsed hq).1
  rcases lastParsed?_cons (r := ⟨⟨t, roots⟩, g.findings⟩) law hv' hp hv discovered log with
    ⟨hmem, hkey, hlast⟩ | ⟨hfresh, hlast⟩
  · obtain ⟨nameable, r, bytes, changed, hi, hstate, describes⟩ := recorded path hmem
    obtain ⟨place, hl⟩ := Tree.locate_of_state? hstate
    rw [h.settings] at describes
    rw [← hkey] at hi nameable
    rw [hlast, hi, hstate]
    exact .record describes (.content hv (discovered path hmem) (Tree.content_file hl))
      (Tree.nameable_of_locate hl) nameable
  · rw [hlast, kept _ hfresh]
    exact h.tells v hv' path hp

end Remembers

namespace Steady

/-- At every moment of a steady history the index of the cache tells of every file what it held when
it was last parsed. -/
theorem remembers (h : course.Steady settingsDigest p t log) (law : course.Lawful W)
    (visited : ∀ v ∈ log.map Outing.visit, v ∈ W)
    (fitting : ∀ r ∈ log, course.Fitting r.visit r.findings)
    (version : course.site.formatVersion < 2 ^ 32) :
    p.discovery = course.discovery ∧
      ∃ c, p.cache? = some c ∧ course.Remembers settingsDigest W log c t := by
  induction h with
  | start configured cached opened houses made vacant rooted =>
    exact ⟨configured, _, cached, .first houses made vacant opened⟩
  | edit h spared ih =>
    obtain ⟨configured, c, hc, remembers⟩ := ih visited fitting
    exact ⟨configured, c, hc, remembers.spared spared⟩
  | run h avoids stores gathered ran spared ih =>
    obtain ⟨hv, visited⟩ := List.forall_mem_cons.mp visited
    obtain ⟨fit, fitting⟩ := List.forall_mem_cons.mp fitting
    obtain ⟨configured, c, hc, remembers⟩ := ih visited fitting
    obtain ⟨configured', -, c', hc', remembers'⟩ :=
      remembers.survey law hv version configured hc stores gathered ran fit
    exact ⟨configured', c', hc', remembers'.spared spared⟩
  | reopen h left configured cached opened ih =>
    obtain ⟨-, c, hc, remembers⟩ := ih visited fitting
    exact ⟨configured, _, cached, (remembers.reopened version hc left opened).2⟩

/-- The visits of a steady history are lawful if no two of its paths stand for one file and the
fingerprint tells apart what it is asked for. -/
theorem lawful (h : course.Steady settingsDigest p t log)
    (fitting : ∀ r ∈ log, course.Fitting r.visit r.findings)
    (version : course.site.formatVersion < 2 ^ 32)
    (unmixed : course.Unmixed (log.map Outing.visit))
    (collisionFree : course.CollisionFree (log.map Outing.visit)) :
    course.Lawful (log.map Outing.visit) ∧ t.Rooted course.site.home ∧
      ∀ v ∈ log.map Outing.visit, v.tree.current = t.current := by
  induction h with
  | start configured cached opened houses made vacant rooted =>
    exact ⟨⟨nofun, nofun, nofun, unmixed, collisionFree⟩, rooted, nofun⟩
  | edit h spared ih =>
    obtain ⟨law, rooted, current⟩ := ih fitting unmixed collisionFree
    exact ⟨law, spared.rooted rooted, fun v hv => (current v hv).trans spared.current.symm⟩
  | run h avoids stores gathered ran spared ih =>
    obtain ⟨fit, fitting⟩ := List.forall_mem_cons.mp fitting
    obtain ⟨law, rooted, current⟩ := ih fitting unmixed.of_cons collisionFree.of_cons
    have law' := law.cons rooted avoids current unmixed collisionFree
    obtain ⟨configured, c, hc, remembers⟩ :=
      h.remembers law' (fun v hv => List.mem_cons_of_mem _ hv) fitting version
    obtain ⟨-, rewrites, -⟩ := remembers.survey law' List.mem_cons_self version configured hc stores
      gathered ran fit
    have hcurrent := spared.current.trans rewrites.current
    refine ⟨law', spared.rooted (rooted.within rewrites.toWithin), fun v hv => ?_⟩
    rcases List.mem_cons.mp hv with rfl | hv
    · exact hcurrent.symm
    · exact (current v hv).trans hcurrent.symm
  | reopen h left configured cached opened ih =>
    obtain ⟨law, rooted, current⟩ := ih fitting unmixed collisionFree
    obtain ⟨-, c, hc, remembers⟩ := h.remembers law (fun v hv => hv) fitting version
    obtain ⟨rfl, -⟩ := remembers.reopened version hc left opened
    exact ⟨law, rooted, current⟩

/-- A survey of a steady history hands to the parser the files that no survey has parsed and those
that are no longer what they were when they were last parsed. It makes a module or a failure of each
of them, asks the parser for no other file, and counts the others as skipped. -/
theorem handed_iff (h : course.Steady settingsDigest p t log)
    (avoids : course.discovery.Avoids course.site.home t roots)
    (unmixed : course.Unmixed (⟨t, roots⟩ :: log.map Outing.visit))
    (collisionFree : course.CollisionFree (⟨t, roots⟩ :: log.map Outing.visit))
    (fitting : ∀ r ∈ log, course.Fitting r.visit r.findings)
    (version : course.site.formatVersion < 2 ^ 32) {parser : Parser} {s : Survey}
    (ran : p.run t parser roots = (p', t', .ok s)) :
    let files := course.files ⟨t, roots⟩
    let handed := (p.prepare t parser roots).handed
    (∀ path, path ∈ handed ↔ path ∈ files ∧ Stale log t path) ∧ handed.Nodup ∧
      (s.parsed ++ s.failures.map FailureRecord.path).Perm handed ∧
      (∀ path ∈ s.asked, path ∈ handed) ∧
      s.metrics.skipped = (files.filter fun path => path ∉ handed).length := by
  obtain ⟨law, rooted, current⟩ := h.lawful fitting version unmixed.of_cons collisionFree.of_cons
  have law' := law.cons rooted avoids current unmixed collisionFree
  obtain ⟨configured, c, hc, remembers⟩ :=
    h.remembers law' (fun v hv => List.mem_cons_of_mem _ hv) fitting version
  have hv : ⟨t, roots⟩ ∈ ⟨t, roots⟩ :: log.map Outing.visit := List.mem_cons_self
  have prepared := remembers.prepare hv configured hc parser
  obtain ⟨findings, -⟩ := run_prepared ran
  generalize p.prepare t parser roots = g at prepared findings
  intro files handed
  rw [findings]
  refine ⟨fun path => ?_, prepared.handed_nodup, ?_, ?_, ?_⟩
  · rw [prepared.handed.mem_iff, List.mem_filter]
    refine and_congr_right fun hp => ?_
    have htells := remembers.tells _ hv path hp
    rw [← remembers.settings] at htells
    exact htells.hasChanged_iff (v := ⟨t, roots⟩) law' hv hp remembers.fingerprint
  · exact prepared.accounted
  · exact prepared.asked
  · exact prepared.skipped

end Steady

/-! ## Two surveys of which the second one parses nothing -/

/-- The course in which files of two bytes are handed to the parser. -/
def whole : Course := { beside with largeFiles := { beside.largeFiles with threshold := 2 } }

/-- A pipeline of the course that exports nothing. -/
def pipelineWhole (c : Cache) : Pipeline :=
  { cache? := some c, discovery := whole.discovery
    processor := { Processor.narrow with largeFiles := whole.largeFiles } }

theorem Surveys.collisionFree_whole {V : List Visit} (h : Surveys V) : whole.CollisionFree V := by
  have occurs {b : List UInt8} (hb : whole.Occurs V b) : beside.Occurs V b := by
    cases hb with
    | content hv hp hc => exact .content hv hp hc
    | key hv hp => exact .key hv hp
  exact fun b b' hb hb' => h.collisionFree b b' (occurs hb) (occurs hb')

/-- The module that is made of the file of the tree. -/
def moduleBeside : Module := { path := ⟨"/f"⟩, name := "f" }

theorem Stands.files_whole (h : Stands t) : whole.files ⟨t, [⟨"/f"⟩]⟩ = [⟨"/f"⟩] := h.files

theorem Stands.verdict (h : Stands t) : whole.verdict t ⟨"/f"⟩ = .ok moduleBeside := by
  have hsmall : whole.largeFiles.isLarge t ⟨"/f"⟩ = .ok false := by
    unfold LargeFiles.isLarge Tree.metadata
    rw [h]
    rfl
  have hattempt : ((whole.workplace t).attempt (whole.task t ⟨"/f"⟩) 0).result =
      .ok moduleBeside := by
    unfold Workplace.attempt
    rw [if_neg (show ¬ (whole.task t ⟨"/f"⟩).preferChunked = true from nofun),
      show (whole.workplace t).largeFiles.isLarge (whole.workplace t).tree
        (whole.task t ⟨"/f"⟩).path = .ok false from hsmall]
    rfl
  unfold Course.verdict
  rw [Workplace.verdict_eq]
  show ((whole.workplace t).verdictAfter _
    ((whole.workplace t).attempt (whole.task t ⟨"/f"⟩) 0).result).1 = _
  rw [hattempt]
  rfl

/-- A survey of the file finds its module. -/
theorem Stands.found (h : Stands t) {f : Findings} (hf : whole.Surveyed ⟨t, [⟨"/f"⟩]⟩ f) :
    f.modules = .ofList [(⟨"/f"⟩, moduleBeside)] ∧ f.failures = [] := by
  have hrecords : whole.records t [⟨"/f"⟩] = [(⟨"/f"⟩, moduleBeside)] := by
    unfold Course.records fate
    rw [List.map_singleton, h.verdict]
    rfl
  have hlosses : whole.losses t [⟨"/f"⟩] = [] := by
    unfold Course.losses fate
    rw [List.map_singleton, h.verdict]
    rfl
  obtain ⟨⟨modules, failures⟩, -⟩ := hf
  rw [h.files_whole] at modules failures
  rw [hrecords] at modules
  rw [hlosses] at failures
  exact ⟨modules, failures.eq_nil⟩

theorem Stands.fitting (h : Stands t) (now : t.now = ⟨0, 0⟩) {f : Findings}
    (hf : whole.Surveyed ⟨t, [⟨"/f"⟩]⟩ f) : whole.Fitting ⟨t, [⟨"/f"⟩]⟩ f := by
  have epoch : (⟨0, 0⟩ : Instant).Dated := ⟨by decide, by decide⟩
  obtain ⟨modules, -⟩ := h.found hf
  refine ⟨?_, ?_, ?_, ?_⟩
  · rw [now]
    exact epoch
  · intro p hp bytes changed hs
    rw [h.files_whole, List.mem_singleton] at hp
    rw [hp, Tree.state?_of_locate h] at hs
    obtain ⟨rfl, rfl⟩ := Prod.mk.inj (Option.some.inj hs)
    exact ⟨by decide, epoch⟩
  · intro e he
    rw [modules] at he
    obtain rfl := List.mem_singleton.mp he
    exact ⟨nofun, nofun, nofun, nofun, by decide, by decide⟩
  · rw [hf.edges, modules]
    decide

/-- A survey of the file succeeds if there is room for its drafts. -/
theorem Stands.run_ok (h : Stands t) (law : whole.Lawful W) (hv : ⟨t, [⟨"/f"⟩]⟩ ∈ W)
    (fits : whole.Fits p) (silent : p.exporter = .none) (hc : p.cache? = some c)
    (working : whole.Working W c t) (drafts : c.drafts ≤ 2)
    (made : t.find? ["c", "entries"] = some .directory) :
    ∃ p' t' s, p.run t (reader whole.parse t) [⟨"/f"⟩] = (p', t', .ok s) ∧
      (p.gather t (reader whole.parse t) [⟨"/f"⟩]).2.1 = t' ∧ Tree.Rewrites ["c"] t t' ∧
      p'.exporter = .none ∧ whole.Surveyed ⟨t, [⟨"/f"⟩]⟩ s.toFindings ∧
      ∃ c', p'.cache? = some c' ∧ c'.drafts ≤ c.drafts + 2 := by
  rcases hrun : p.run t (reader whole.parse t) [⟨"/f"⟩] with ⟨p', t', r⟩
  obtain ⟨p₁, t₁, g, hg, hcache, setup, hfound, hnone⟩ := History.run_cases hrun
  obtain ⟨⟨c', hc', -, drafts'⟩, setup₁, rewrites, surveyed, hok⟩ :=
    gather_spec law hv fits hc working hg
  rw [h.files_whole] at drafts' hok
  have room : beside.Roomy c t 1 := roomy_beside working.directory drafts made
  obtain ⟨found, rfl⟩ := hok h.readable ⟨room.made, room.index, room.drafts⟩
  have silent₁ := setup₁.exporter.trans silent
  obtain ⟨rfl, hs⟩ := hnone silent₁
  obtain ⟨s, rfl⟩ := hs found rfl
  exact ⟨p', t', s, rfl, by rw [hg], rewrites, setup.exporter.trans silent₁,
    surveyed _ (hfound s rfl), c', hcache.trans hc', drafts'⟩

/-- The first survey parses the file. -/
theorem parsed_housed {g : Pipeline.Prepared}
    (h : g.Recorded (.first .hashed "A") .housed [⟨"/f"⟩]) (hfailures : g.findings.failures = []) :
    g.findings.parsed = [⟨"/f"⟩] := by
  have accounted := h.accounted.trans h.handed
  rw [show g.outcome.failures = [] from hfailures, List.map_nil, List.append_nil] at accounted
  exact List.perm_singleton.mp accounted

/-- The first cache stores the module of the file. -/
theorem stores_housed {g : Pipeline.Prepared}
    (h : g.Recorded (.first .hashed "A") .housed [⟨"/f"⟩])
    (hparsed : g.findings.parsed = [⟨"/f"⟩]) : ∀ c, g.pipeline.cache? = some c →
      Pipeline.AllStored c g.tree g.modules g.edges g.outcome.modules.keys := by
  intro c hc
  have hkeys : g.outcome.modules.keys = [⟨"/f"⟩] := hparsed
  obtain ⟨c', hc', same⟩ := h.cache
  obtain rfl := Option.some.inj (hc.symm.trans hc')
  obtain ⟨-, m, hm⟩ := h.mem_parsed (p := ⟨"/f"⟩) (by rw [hkeys]; exact List.mem_singleton_self _)
  obtain ⟨stamp, hstamp⟩ : ∃ stamp, c.stamp? .housed ⟨"/f"⟩ = some stamp := by
    unfold Cache.stamp?
    rw [Tree.key_housed, Tree.locate_housed]
    exact ⟨_, rfl⟩
  have houses : Tree.housed.Houses c.directory ["c"] := by
    rw [same.directory]
    exact Tree.houses_housed
  have hplain : PlainNames c.fingerprint := by
    rw [same.fingerprint]
    exact plainNames_hexHash
  have hslash := (plainNames_hexHash (Tree.housed.key ⟨"/f"⟩).text.toUTF8.toList).2
  have hp : (c.payloadPath .housed ⟨"/f"⟩).Nameable := by
    rw [Cache.payloadPath_eq, same.directory, same.fingerprint]
    exact Path.nameable_hashed _ (Cache.isName_fileName hslash) (by decide) (by decide)
  have hp' : ((c.directory.join ⟨"entries"⟩).join ⟨Cache.draftName
      (Cache.stemOf c.fingerprint (Tree.housed.key ⟨"/f"⟩)) c.drafts⟩).Nameable := by
    rw [same.directory, same.fingerprint, same.drafts]
    exact Path.nameable_hashed _ (Cache.isName_draftName hslash 0) (by decide) (by decide)
  obtain ⟨t', hstore⟩ := c.store_ok houses rfl hplain hp hp' hstamp m
    (g.edges.filter fun e => m.path.same e.sourcePath) 0
  rw [hkeys, h.tree]
  unfold Pipeline.AllStored
  rw [hm]
  dsimp only
  rw [hstore]
  exact ⟨⟨_, rfl⟩, trivial⟩

/-- The second of two surveys parses nothing. -/
theorem Steady.handed_whole :
    ∃ (p p' : Pipeline) (t t' : Tree) (r : Outing) (s : Survey), whole.Steady "A" p t [r] ∧
      r.findings.parsed = [⟨"/f"⟩] ∧ p.run t (reader whole.parse t) [⟨"/f"⟩] = (p', t', .ok s) ∧
      (p.prepare t (reader whole.parse t) [⟨"/f"⟩]).handed = [] ∧ s.metrics.skipped = 1 := by
  let c : Cache := .first .hashed "A"
  let p := pipelineWhole c
  have hbare : ∀ e ∈ Tree.beside.nodes, ¬ Below ["c"] e.1 := by decide
  have vacant : Vacant ["c"] .housed := by
    intro q hq hne
    unfold Tree.housed
    rw [Tree.find?_put _ (by decide)]
    exact (if_neg hne).trans (Tree.find?_of_bare hbare hq)
  have rooted : Tree.housed.Rooted ["c"] := ⟨by decide, by decide, by decide⟩
  have fits : whole.Fits p := ⟨rfl, rfl, rfl⟩
  have opened : Site.hashed.OpensUnder "A" .beside .housed c := ⟨1, Cache.openIn_beside "A"⟩
  have hstart : whole.Steady "A" p .housed [] :=
    .start rfl rfl opened Tree.houses_housed rfl vacant rooted
  have history : whole.History p .housed [] :=
    .start fits rfl ⟨"A", opened⟩ Tree.houses_housed vacant rooted
  have stands : Stands .housed := Tree.locate_housed
  -- The first survey.
  let v : Visit := ⟨.housed, [⟨"/f"⟩]⟩
  have hv : Surveys [v] := List.forall_mem_singleton.mpr ⟨rfl, stands⟩
  have law : whole.Lawful [v] := (history.lawful nofun nofun).1.cons rooted stands.avoids
    nofun hv.unmixed hv.collisionFree_whole
  obtain ⟨-, c₀, hc, working⟩ := history.working law nofun
  obtain rfl : c = c₀ := Option.some.inj hc
  obtain ⟨p', t, s, ran, gathered, rewrites, silent, surveyed, c', hc', drafts⟩ :=
    stands.run_ok law List.mem_cons_self fits rfl hc working (Nat.zero_le 2) rfl
  obtain ⟨configured, c₁, hc₁, remembers⟩ := hstart.remembers law nofun nofun (by decide)
  obtain rfl : c = c₁ := Option.some.inj hc₁
  have prepared := remembers.prepare List.mem_cons_self configured hc (reader whole.parse .housed)
  rw [stands.files_whole] at prepared
  have findings := (run_prepared ran).1
  have hparsed : s.parsed = [⟨"/f"⟩] := by
    have hfailures := (stands.found surveyed).2
    rw [findings] at hfailures ⊢
    exact parsed_housed prepared hfailures
  have stores : p.StoresAll .housed (reader whole.parse .housed) [⟨"/f"⟩] := by
    rw [findings] at hparsed
    exact stores_housed prepared hparsed
  let r : Outing := ⟨v, s.toFindings⟩
  have hsecond : whole.Steady "A" p' t [r] :=
    hstart.run stands.avoids stores gathered ran (.refl _ _)
  have history' : whole.History p' t [v] :=
    history.run stands.avoids gathered ran (.refl _ _)
  -- The second survey.
  have stands' : Stands t := stands.rewrites Tree.houses_housed rewrites
  have hv' : Surveys [⟨t, [⟨"/f"⟩]⟩, v] := List.forall_mem_cons.mpr ⟨⟨rfl, stands'⟩, hv⟩
  have law' : whole.Lawful [⟨t, [⟨"/f"⟩]⟩, v] :=
    law.cons (rooted.within rewrites.toWithin) stands'.avoids
      (List.forall_mem_singleton.mpr rewrites.current.symm) hv'.unmixed hv'.collisionFree_whole
  obtain ⟨fits', c₂, hc₂, working'⟩ :=
    history'.working law' fun a ha => List.mem_cons_of_mem _ ha
  obtain rfl : c' = c₂ := Option.some.inj (hc'.symm.trans hc₂)
  obtain ⟨p'', t', s', ran', -⟩ := stands'.run_ok law' List.mem_cons_self fits' silent hc' working'
    drafts (rewrites.entries.trans rfl)
  have fitting : ∀ r' ∈ [r], whole.Fitting r'.visit r'.findings :=
    List.forall_mem_singleton.mpr (stands.fitting rfl surveyed)
  obtain ⟨handed, -, -, -, skipped⟩ := hsecond.handed_iff stands'.avoids hv'.unmixed
    hv'.collisionFree_whole fitting (by decide) ran'
  have hlast : lastParsed? [r] (t.key ⟨"/f"⟩) = some (t.state? ⟨"/f"⟩) := by
    rw [stands'.key, Tree.state?_of_locate stands', ← Tree.state?_of_locate stands]
    unfold lastParsed?
    simp [r, v, hparsed, stands.key]
  have hstale : ¬ Stale [r] t ⟨"/f"⟩ := by
    unfold Stale
    rw [hlast]
    simp
  have hnone : (p'.prepare t (reader whole.parse t) [⟨"/f"⟩]).handed = [] := by
    refine List.eq_nil_iff_forall_not_mem.mpr fun q hq => ?_
    obtain ⟨hfile, hq⟩ := (handed q).mp hq
    rw [stands'.files_whole, List.mem_singleton] at hfile
    rw [hfile] at hq
    exact hstale hq
  rw [hnone, stands'.files_whole] at skipped
  exact ⟨p', p'', t, t', r, s', hsecond, hparsed, ran', hnone, skipped⟩

end Course
end SourceSurvey
