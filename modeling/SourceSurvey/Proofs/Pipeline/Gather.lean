import SourceSurvey.Proofs.Pipeline.Stages

/-!
# Surveys with and without a cache

The stages of a survey hand the pipeline on (`Pipeline.gather_stages`); only the cache and what the
processor keeps change. A survey that cannot read a directory ends with the first stage
(`Pipeline.gather_unreadable`).

* `Course.gather_spec`: with a working cache a survey finds what becomes of the discovered files,
  and the cache keeps working.
* `Course.gather_uncached`: without a cache it finds the same, does not fail and touches nothing.
-/

namespace SourceSurvey

open SourceSurvey.Tree (Rewrites)

/-! ## Stages -/

namespace Pipeline

variable {q q' q'' : Pipeline} {t t' : Tree}

/-- Pipelines that differ in their cache and in what earlier runs have left behind only. -/
structure SameSetup (q q' : Pipeline) : Prop where
  discovery : q'.discovery = q.discovery
  exporter : q'.exporter = q.exporter
  largeFiles : q'.processor.largeFiles = q.processor.largeFiles
  settings : q'.processor.settings = q.processor.settings

theorem SameSetup.trans (h : SameSetup q q') (h' : SameSetup q' q'') : SameSetup q q'' where
  discovery := h'.discovery.trans h.discovery
  exporter := h'.exporter.trans h.exporter
  largeFiles := h'.largeFiles.trans h.largeFiles
  settings := h'.settings.trans h.settings

/-- Pipelines that differ in what earlier runs have left behind only. -/
structure Resumes (q q' : Pipeline) : Prop extends SameSetup q q' where
  cache : q'.cache? = q.cache?

theorem Resumes.trans (h : Resumes q q') (h' : Resumes q' q'') : Resumes q q'' :=
  ⟨h.toSameSetup.trans h'.toSameSetup, h'.cache.trans h.cache⟩

/-- What is done as a stage is done to a pipeline that differs in what was announced only. -/
theorem during_cases {β : Type} {s : Stage} {act : Pipeline → Pipeline × β} {b : β}
    (h : q.during s act = (q', b)) :
    ∃ q₁ q₂, Resumes q q₁ ∧ act q₁ = (q₂, b) ∧ Resumes q₂ q' := by
  unfold during at h
  obtain ⟨hq, hb⟩ := Prod.mk.inj h
  refine ⟨q.begin s, (act (q.begin s)).1, ⟨⟨rfl, rfl, rfl, rfl⟩, rfl⟩, ?_, ?_⟩
  · rw [← hb]
  · rw [← hq]
    exact ⟨⟨rfl, rfl, rfl, rfl⟩, rfl⟩

/-- A stage that computes something from the pipeline leaves it. -/
theorem during_pure {β : Type} {s : Stage} {f : Pipeline → β} {b : β}
    (h : q.during s (fun q => (q, f q)) = (q', b)) :
    Resumes q q' ∧ ∃ q₁, Resumes q q₁ ∧ f q₁ = b := by
  obtain ⟨q₁, q₂, h₁, hf, h₂⟩ := during_cases h
  obtain ⟨rfl, hb⟩ := Prod.mk.inj hf
  exact ⟨h₁.trans h₂, q₁, h₁, hb⟩

/-- Parsing may empty the memory of the cache. -/
theorem parse_cases {parser : Parser} {files : List Path} {o : RunOutcome Float}
    (h : q.parse t parser files = (q', o)) :
    (q.processor.processFiles t parser files).2 = o ∧ SameSetup q q' ∧
      (q'.cache? = q.cache? ∨ q'.cache? = q.cache?.map Cache.clearMemory) := by
  unfold parse afterCleanups at h
  obtain ⟨hq, ho⟩ := Prod.mk.inj h
  refine ⟨ho, ?_⟩
  rw [← hq]
  split
  · exact ⟨⟨rfl, rfl, rfl, rfl⟩, .inr rfl⟩
  · exact ⟨⟨rfl, rfl, rfl, rfl⟩, .inl rfl⟩

/-- What the stages of a survey before the storing have led to. `handed` lists the files that were
handed to the parser. -/
structure Prepared where
  pipeline : Pipeline
  tree : Tree
  files : List Path
  handed : List Path
  stored : PathMap Module
  outcome : RunOutcome Float
  modules : PathMap Module
  edges : List Edge

/-- The stages of a survey before the storing. -/
def prepare (q : Pipeline) (t : Tree) (parser : Parser) (roots : List Path) : Prepared :=
  let (q, files) := q.during .discover fun q => (q, q.discovery.run t roots)
  let (q, t, handed, stored) := q.during .diff fun q => q.diff t files
  let (q, outcome) := q.during .parse fun q => q.parse t parser handed
  let (q, modules) := q.during .merge fun q => (q, merge stored outcome.modules)
  let (q, edges) := q.during .extract fun q => (q, modules.edges)
  { pipeline := q, tree := t, files, handed, stored, outcome, modules, edges }

/-- What a survey has found. -/
def Prepared.findings (g : Prepared) : Findings :=
  { modules := g.modules, edges := g.edges, parsed := g.outcome.modules.keys
    failures := g.outcome.failures
    metrics := { g.outcome.metrics with total := g.files.length, skipped := g.stored.size }
    execution := g.outcome.execution, asked := g.outcome.asked }

/-- A survey whose discovery fails announces the stage and does nothing else. -/
theorem gather_failed {e : Failure} {roots : List Path} (h : q.discovery.discover t roots = .error e)
    (parser : Parser) :
    q.gather t parser roots = ((q.begin .discover).finish .discover, t, .error e) := by
  unfold gather during
  dsimp only
  rw [show (q.begin .discover).discovery.discover t roots = .error e from h]

/-- A survey prepares its results and then stores them. -/
theorem gather_eq {roots : List Path} (h : q.discovery.Readable t roots) (parser : Parser) :
    q.gather t parser roots =
      let g := q.prepare t parser roots
      let (q, t', result) := g.pipeline.during .persist fun q =>
        q.persist g.tree g.outcome.modules.keys g.modules g.edges
      (q, t', result.map fun _ => g.findings) := by
  have hfound : (q.during .discover fun q => (q, q.discovery.discover t roots)) =
      ((q.during .discover fun q => (q, q.discovery.run t roots)).1, .ok (q.discovery.run t roots)) :=
    congrArg (Prod.mk _) (Discovery.discover_of_readable h)
  unfold gather prepare
  rw [hfound]
  generalize hd : q.during .discover (fun q => (q, q.discovery.run t roots)) = discovered
  obtain ⟨a₁, files⟩ := discovered
  obtain rfl : q.discovery.run t roots = files := congrArg Prod.snd hd
  dsimp only
  generalize a₁.during .diff _ = compared
  obtain ⟨a₂, t₁, handed, stored⟩ := compared
  dsimp only
  generalize a₂.during .parse _ = parsed
  obtain ⟨a₃, o⟩ := parsed
  dsimp only
  generalize a₃.during .merge _ = merged
  obtain ⟨a₄, modules⟩ := merged
  dsimp only
  generalize a₄.during .extract _ = extracted
  obtain ⟨a₅, edges⟩ := extracted
  rfl

/-- A survey compares, parses and merges. -/
theorem prepare_cases {parser : Parser} {roots : List Path} {g : Prepared}
    (h : q.prepare t parser roots = g) :
    ∃ q₁ q₂ q₃ q₄,
      Resumes q q₁ ∧ q₁.diff t (q.discovery.run t roots) = (q₂, g.tree, g.handed, g.stored) ∧
      Resumes q₂ q₃ ∧ q₃.parse g.tree parser g.handed = (q₄, g.outcome) ∧ Resumes q₄ g.pipeline ∧
      g.files = q.discovery.run t roots ∧ g.modules = merge g.stored g.outcome.modules ∧
      g.edges = g.modules.edges := by
  unfold prepare at h
  rcases h₁ : q.during .discover fun q => (q, q.discovery.run t roots) with ⟨a₁, files⟩
  rw [h₁] at h
  dsimp only at h
  rcases h₂ : a₁.during .diff fun q => q.diff t files with ⟨a₂, t₁, todo, stored⟩
  rw [h₂] at h
  dsimp only at h
  rcases h₃ : a₂.during .parse fun q => q.parse t₁ parser todo with ⟨a₃, o⟩
  rw [h₃] at h
  dsimp only at h
  rcases h₄ : a₃.during .merge fun q => (q, merge stored o.modules) with ⟨a₄, modules⟩
  rw [h₄] at h
  dsimp only at h
  rcases h₅ : a₄.during .extract fun q => (q, modules.edges) with ⟨a₅, edges⟩
  rw [h₅] at h
  subst h
  obtain ⟨discovered, b, hb, rfl⟩ := during_pure h₁
  obtain ⟨q₁, q₂, begun, hdiff, compared⟩ := during_cases h₂
  obtain ⟨q₃, q₄, ready, hparse, parsed⟩ := during_cases h₃
  obtain ⟨merged, -, -, rfl⟩ := during_pure h₄
  obtain ⟨extracted, -, -, rfl⟩ := during_pure h₅
  rw [hb.discovery] at hdiff ⊢
  exact ⟨q₁, q₂, q₃, q₄, discovered.trans begun, hdiff, compared.trans ready, hparse,
    parsed.trans (merged.trans extracted), rfl, rfl, rfl⟩

/-- A survey whose discovery does not fail stores what it has prepared. -/
theorem gather_prepared {parser : Parser} {roots : List Path} {r : Except Failure Findings}
    (readable : q.discovery.Readable t roots) (h : q.gather t parser roots = (q', t', r))
    {g : Prepared} (hg : q.prepare t parser roots = g) :
    ∃ q₅ q₆ result, Resumes g.pipeline q₅ ∧
      q₅.persist g.tree g.outcome.modules.keys g.modules g.edges = (q₆, t', result) ∧
      Resumes q₆ q' ∧ r = result.map fun _ => g.findings := by
  rw [gather_eq readable, hg] at h
  dsimp only at h
  rcases h₆ : g.pipeline.during .persist fun q =>
    q.persist g.tree g.outcome.modules.keys g.modules g.edges with ⟨a₆, t₂, result⟩
  rw [h₆] at h
  obtain ⟨rfl, rfl, rfl⟩ := Cache.triple_inj rfl h
  obtain ⟨q₅, q₆, storing, hpersist, finished⟩ := during_cases h₆
  exact ⟨q₅, q₆, result, storing, hpersist, finished, rfl⟩

/-- A survey that can read all directories compares, parses, and stores what it has merged. -/
theorem gather_stages {parser : Parser} {roots : List Path} {r : Except Failure Findings}
    (readable : q.discovery.Readable t roots) (h : q.gather t parser roots = (q', t', r)) :
    ∃ q₁ q₂ t₁ todo stored q₃ q₄ o q₅ q₆ result found,
      Resumes q q₁ ∧ q₁.diff t (q.discovery.run t roots) = (q₂, t₁, todo, stored) ∧
      Resumes q₂ q₃ ∧ q₃.parse t₁ parser todo = (q₄, o) ∧
      Resumes q₄ q₅ ∧ q₅.persist t₁ o.modules.keys found.modules found.edges = (q₆, t', result) ∧
      Resumes q₆ q' ∧ r = result.map (fun _ => found) ∧
      found.modules = merge stored o.modules ∧ found.edges = found.modules.edges ∧
      found.failures = o.failures := by
  generalize hg : q.prepare t parser roots = g
  obtain ⟨q₁, q₂, q₃, q₄, begun, hdiff, ready, hparse, merged, -, hmodules, hedges⟩ :=
    prepare_cases hg
  obtain ⟨q₅, q₆, result, storing, hpersist, finished, hr⟩ := gather_prepared readable h hg
  exact ⟨q₁, q₂, _, _, _, q₃, q₄, _, q₅, q₆, result, g.findings, begun, hdiff, ready, hparse,
    merged.trans storing, hpersist, finished, hr, hmodules, hedges, rfl⟩

/-- A survey that cannot read a directory ends there and has touched nothing. -/
theorem gather_unreadable {parser : Parser} {roots : List Path} {r : Except Failure Findings}
    (unreadable : ¬ q.discovery.Readable t roots) (h : q.gather t parser roots = (q', t', r)) :
    Resumes q q' ∧ t' = t ∧ ∃ e, r = .error e := by
  rcases q.discovery.discover_cases t roots with ⟨root, hroot, p, hp, failed⟩ | ⟨readable, -⟩
  · rw [gather_failed failed] at h
    obtain ⟨rfl, rfl, rfl⟩ := Cache.triple_inj rfl h
    exact ⟨⟨⟨rfl, rfl, rfl, rfl⟩, rfl⟩, rfl, _, rfl⟩
  · exact absurd readable unreadable

/-- What a survey has found it has found without a directory that cannot be read. -/
theorem readable_of_gather {parser : Parser} {roots : List Path} {found : Findings}
    (h : q.gather t parser roots = (q', t', .ok found)) : q.discovery.Readable t roots := by
  by_contra unreadable
  obtain ⟨-, -, e, he⟩ := gather_unreadable unreadable h
  exact nomatch he

theorem diff_setup {files todo : List Path} {stored : PathMap Module}
    (h : q.diff t files = (q', t', todo, stored)) : SameSetup q q' := by
  unfold diff at h
  split at h
  · obtain ⟨rfl, -⟩ := Prod.mk.inj h
    exact ⟨rfl, rfl, rfl, rfl⟩
  · obtain ⟨rfl, -⟩ := Prod.mk.inj h
    exact ⟨rfl, rfl, rfl, rfl⟩

theorem persist_setup {parsed : List Path} {modules : PathMap Module} {edges : List Edge}
    {r : Except Failure Unit} (h : q.persist t parsed modules edges = (q', t', r)) :
    SameSetup q q' := by
  unfold persist at h
  split at h
  · obtain ⟨rfl, -⟩ := Prod.mk.inj h
    exact ⟨rfl, rfl, rfl, rfl⟩
  · obtain ⟨rfl, -⟩ := Prod.mk.inj h
    exact ⟨rfl, rfl, rfl, rfl⟩

/-- A survey changes the cache and what earlier runs have left behind only. -/
theorem gather_setup {parser : Parser} {roots : List Path} {r : Except Failure Findings}
    (h : q.gather t parser roots = (q', t', r)) : SameSetup q q' := by
  by_cases readable : q.discovery.Readable t roots
  · obtain ⟨q₁, q₂, t₁, todo, stored, q₃, q₄, o, q₅, q₆, result, found, h₁, hdiff, h₂, hparse, h₃,
      hpersist, h₄, -⟩ := gather_stages readable h
    have compared := h₁.toSameSetup.trans (diff_setup hdiff)
    have parsed := (compared.trans h₂.toSameSetup).trans (parse_cases hparse).2.1
    exact (parsed.trans h₃.toSameSetup).trans ((persist_setup hpersist).trans h₄.toSameSetup)
  · exact (gather_unreadable readable h).1.toSameSetup

end Pipeline

/-! ## Surveys -/

namespace Course

open Pipeline (SameSetup)

variable {course : Course} {V : List Visit} {v : Visit} {c : Cache} {t t' : Tree} {q q' : Pipeline}

/-- A pipeline with the patterns, the rule for large files and the number of retries of a course. -/
structure Fits (course : Course) (q : Pipeline) : Prop where
  discovery : q.discovery = course.discovery
  largeFiles : q.processor.largeFiles = course.largeFiles
  maxRetries : q.processor.settings.maxRetries = course.maxRetries

theorem Fits.trans (h : course.Fits q) (hs : SameSetup q q') : course.Fits q' where
  discovery := hs.discovery.trans h.discovery
  largeFiles := hs.largeFiles.trans h.largeFiles
  maxRetries := (congrArg SchedulerSettings.maxRetries hs.settings).trans h.maxRetries

theorem Fits.run (h : course.Fits q) (v : Visit) : q.discovery.run v.tree v.roots = course.files v := by
  rw [h.discovery]
  rfl

theorem Working.clearMemory (h : course.Working V c t) : course.Working V c.clearMemory t :=
  ⟨h.keeps.clearMemory, .clearMemory c, h.directory, h.fingerprint⟩

/-- What a survey finds: what becomes of the discovered files, and the edges of their modules. -/
structure Surveyed (course : Course) (v : Visit) (f : Findings) : Prop where
  finds : course.Finds v f.modules f.failures
  edges : f.edges = f.modules.edges

/-- With a working cache a survey that can read all directories finds what becomes of the discovered
files, and the cache keeps working. If there is room for the drafts, it does not fail. -/
theorem gather_readable (law : course.Lawful V)
    (hv : v ∈ V) (readable : course.discovery.Readable v.tree v.roots) (fits : course.Fits q)
    (hc : q.cache? = some c) (working : course.Working V c v.tree) {r : Except Failure Findings}
    (hg : q.gather v.tree (reader course.parse v.tree) v.roots = (q', t', r)) :
    (∃ c', q'.cache? = some c' ∧ course.Working V c' t' ∧
        c'.drafts ≤ c.drafts + (course.files v).length + 1) ∧ SameSetup q q' ∧
      Rewrites course.site.home v.tree t' ∧ (∀ found, r = .ok found → course.Surveyed v found) ∧
      (course.Roomy c v.tree (course.files v).length → ∃ found, r = .ok found) := by
  have setup := Pipeline.gather_setup hg
  obtain ⟨q₁, q₂, t₁, todo, stored, q₃, q₄, o, q₅, q₆, result, found, h₁, hdiff, h₂, hparse, h₃,
    hpersist, h₄, rfl, hmodules, hedges, hfailures⟩ :=
    Pipeline.gather_stages (fits.discovery ▸ readable) hg
  have houses := working.houses
  have fits₁ := fits.trans
    ((h₁.toSameSetup.trans (Pipeline.diff_setup hdiff)).trans h₂.toSameSetup)
  rw [fits.run v] at hdiff
  obtain ⟨c₁, rfl, working₁, hw₁, drafts₁, split⟩ := diff_spec law hv (h₁.cache.trans hc) working hdiff
  obtain ⟨ho, -, hcache⟩ := Pipeline.parse_cases hparse
  have htodo : ∀ p ∈ todo, p ∈ course.files v := fun p hp =>
    split.files.mem_iff.mp (List.mem_append_left _ hp)
  obtain ⟨hm, hf⟩ := parsed fits₁.largeFiles fits₁.maxRetries
    (fun p hp => law.content_eq hv (htodo p hp) houses hw₁)
    (List.pairwise_append.mp split.distinct).1 ho
  have finds : course.Finds v found.modules found.failures := by
    rw [hmodules, hfailures]
    exact split.merged hm hf
  obtain ⟨hkeys, hlength⟩ := split.made hm
  -- Parsing may have emptied the memory of the cache.
  obtain ⟨c₂, hc₂, working₂, drafts₂⟩ : ∃ c₂, q₅.cache? = some c₂ ∧ course.Working V c₂ t₁ ∧
      c₂.drafts = c.drafts := by
    rw [h₃.cache]
    rcases hcache with hcache | hcache
    · exact ⟨c₁, hcache.trans h₂.cache, working₁, drafts₁⟩
    · refine ⟨c₁.clearMemory, ?_, working₁.clearMemory, drafts₁⟩
      rw [hcache, h₂.cache]
      rfl
  have hok (room : course.Roomy c v.tree (course.files v).length) : result = .ok () :=
    persist_ok law hv houses finds hkeys working₂ hw₁
      (room.mono (working₂.directory.trans working.directory.symm) (by omega)) hc₂ hpersist
  obtain ⟨c₃, rfl, working₃, hw₃, drafts₃⟩ :=
    persist_spec law hv houses finds hkeys working₂ hw₁ hc₂ hpersist
  refine ⟨⟨c₃, h₄.cache, working₃, by omega⟩, setup, hw₃, fun found' hfound => ?_,
    fun room => ⟨found, by rw [hok room]; rfl⟩⟩
  cases result with
  | error e => exact nomatch hfound
  | ok u =>
    obtain rfl := Except.ok.inj hfound
    exact ⟨finds, hedges⟩

/-- With a working cache a survey finds what becomes of the discovered files, and the cache keeps
working. If all directories can be read and there is room for the drafts, it does not fail. -/
theorem gather_spec (law : course.Lawful V)
    (hv : v ∈ V) (fits : course.Fits q) (hc : q.cache? = some c)
    (working : course.Working V c v.tree) {r : Except Failure Findings}
    (hg : q.gather v.tree (reader course.parse v.tree) v.roots = (q', t', r)) :
    (∃ c', q'.cache? = some c' ∧ course.Working V c' t' ∧
        c'.drafts ≤ c.drafts + (course.files v).length + 1) ∧ SameSetup q q' ∧
      Rewrites course.site.home v.tree t' ∧ (∀ found, r = .ok found → course.Surveyed v found) ∧
      (course.discovery.Readable v.tree v.roots →
        course.Roomy c v.tree (course.files v).length → ∃ found, r = .ok found) := by
  by_cases readable : course.discovery.Readable v.tree v.roots
  · obtain ⟨hcache, setup, rewrites, finds, hok⟩ := gather_readable law hv readable fits hc working hg
    exact ⟨hcache, setup, rewrites, finds, fun _ => hok⟩
  · obtain ⟨ended, rfl, e, rfl⟩ := Pipeline.gather_unreadable (fits.discovery ▸ readable) hg
    exact ⟨⟨c, ended.cache.trans hc, working, by omega⟩, ended.toSameSetup, .refl _, nofun,
      fun h => absurd h readable⟩

/-- Without a cache a survey finds what becomes of the discovered files, and it touches nothing. -/
theorem gather_uncached (v : Visit) (readable : course.discovery.Readable v.tree v.roots)
    (fits : course.Fits q) (hc : q.cache? = none) :
    ∃ q' found, q.gather v.tree (reader course.parse v.tree) v.roots = (q', v.tree, .ok found) ∧
      SameSetup q q' ∧ course.Surveyed v found := by
  rcases hg : q.gather v.tree (reader course.parse v.tree) v.roots with ⟨q', t', r⟩
  obtain ⟨q₁, q₂, t₁, todo, stored, q₃, q₄, o, q₅, q₆, result, found, h₁, hdiff, h₂, hparse, h₃,
    hpersist, h₄, rfl, hmodules, hedges, hfailures⟩ :=
    Pipeline.gather_stages (fits.discovery ▸ readable) hg
  rw [fits.run v] at hdiff
  rw [Pipeline.diff_uncached (h₁.cache.trans hc), Prod.mk.injEq, Prod.mk.injEq,
    Prod.mk.injEq] at hdiff
  obtain ⟨rfl, rfl, rfl, rfl⟩ := hdiff
  obtain ⟨ho, hs, hcache⟩ := Pipeline.parse_cases hparse
  have hc₃ : q₃.cache? = none := h₂.cache.trans (h₁.cache.trans hc)
  have hc₅ : q₅.cache? = none := by
    rw [h₃.cache]
    rcases hcache with hcache | hcache
    · exact hcache.trans hc₃
    · rw [hcache, hc₃]
      rfl
  unfold Pipeline.persist at hpersist
  rw [hc₅] at hpersist
  dsimp only at hpersist
  obtain ⟨rfl, rfl, rfl⟩ := Cache.triple_inj rfl hpersist
  have fits₁ := fits.trans (h₁.trans h₂).toSameSetup
  obtain ⟨hm, hf⟩ := parsed fits₁.largeFiles fits₁.maxRetries (fun _ _ => rfl)
    (Discovery.run_distinct _ _ _) ho
  refine ⟨q', found, rfl, ?_, ?_, hedges⟩
  · exact (h₁.trans h₂).toSameSetup.trans (hs.trans (h₃.trans h₄).toSameSetup)
  · rw [hmodules, hfailures]
    exact (split_all v).merged hm hf

end Course
end SourceSurvey
