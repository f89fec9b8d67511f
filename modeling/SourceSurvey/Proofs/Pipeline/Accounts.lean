import SourceSurvey.Proofs.Pipeline.Incremental

/-!
# Every discovered file is accounted for

A file that a survey has discovered is served from the cache, or it is handed to the parser: because
it has changed, or because its stored payload cannot be read. What is handed to the parser leads to
a record or to a failure. The counters of the cache and those of the survey say the same.

* `Cache.collect_load_counts`: looking several files up counts a hit for each one that is served and
  a miss for each one that is not. Nothing is assumed of the cache or of its files.
* `Pipeline.diff_split`: the discovered files are split into those to parse and those served; misses
  count the former and hits the latter.
* `Survey.Complete`: what the report of a survey says of its files.
* `Pipeline.run_complete`: the report of every survey that succeeds is complete, and the counters of
  the cache grow by what it says.
-/

namespace SourceSurvey

/-! ## Counters of a cache -/

namespace Cache

variable {c c' c'' : Cache} {t t' : Tree} {p : Path}

/-- A cache with some more hits and misses than another one. -/
structure Counts (hits misses : Nat) (c c' : Cache) : Prop where
  hits : c'.hits = c.hits + hits
  misses : c'.misses = c.misses + misses

theorem Counts.refl (c : Cache) : Counts 0 0 c c := ⟨rfl, rfl⟩

theorem Counts.trans {h m h' m' : Nat} (first : Counts h m c c') (then' : Counts h' m' c' c'') :
    Counts (h + h') (m + m') c c'' where
  hits := by rw [then'.hits, first.hits, Nat.add_assoc]
  misses := by rw [then'.misses, first.misses, Nat.add_assoc]

/-- A lookup counts a hit if it serves a payload and a miss otherwise. -/
theorem load_counts {e? : Option CacheEntry} (h : c.load t p = (c', t', e?)) :
    Counts e?.isSome.toNat (!e?.isSome).toNat c c' := by
  rcases c.load_cases t p with hl | hl | ⟨record, e, -, hl, -⟩
  · obtain ⟨rfl, -, rfl⟩ := triple_inj hl h
    exact ⟨rfl, rfl⟩
  · obtain ⟨rfl, -, rfl⟩ := triple_inj hl h
    exact ⟨rfl, rfl⟩
  · obtain ⟨rfl, -, rfl⟩ := triple_inj hl h
    exact ⟨rfl, rfl⟩

/-- Storing a result counts neither as a hit nor as a miss. -/
theorem store_counts (c : Cache) (t : Tree) (p : Path) (m : Module) (edges : List Edge)
    (micros : Nat) : Counts 0 0 c (c.store t p m edges micros).1 := by
  rcases c.store_cases t p m edges micros with
    ⟨e, hs⟩ | ⟨stamp, t', -, ⟨e, -, hs⟩ | ⟨-, hs⟩⟩
  · rw [hs]
    exact .refl c
  · rw [hs]
    exact ⟨rfl, rfl⟩
  · rw [hs]
    exact ⟨rfl, rfl⟩

theorem flush_counts (c : Cache) (t : Tree) : Counts 0 0 c (c.flush t).1 := by
  rcases c.flush_cases t with ⟨-, hf⟩ | ⟨t', e | u, -, -, hf⟩
  · rw [hf]
    exact .refl c
  · rw [hf]
    exact ⟨rfl, rfl⟩
  · rw [hf]
    exact ⟨rfl, rfl⟩

/-- Looking several files up serves some of them: each one counts as a hit and each of the others
as a miss. -/
theorem collect_load_counts {paths : List Path} {found loaded : PathMap CacheEntry}
    (distinct : paths.Pairwise fun p q => p.same q = false)
    (hl : collect load c t found paths = (c', t', loaded))
    (fresh : ∀ p ∈ paths, ∀ q ∈ found.keys, p.same q = false) :
    ∃ served lost, served + lost = paths.length ∧ loaded.size = found.size + served ∧
      Counts served lost c c' := by
  induction paths generalizing c t found with
  | nil =>
    obtain ⟨rfl, rfl, rfl⟩ := triple_inj rfl hl
    exact ⟨0, 0, rfl, rfl, .refl c⟩
  | cons p rest ih =>
    obtain ⟨hdistinct, distinct⟩ := List.pairwise_cons.mp distinct
    obtain ⟨hfresh, fresh⟩ := List.forall_mem_cons.mp fresh
    unfold collect at hl
    rcases hload : c.load t p with ⟨c₁, t₁, e?⟩
    rw [hload] at hl
    have counted := load_counts hload
    cases e? with
    | none =>
      obtain ⟨served, lost, hall, hsize, counts⟩ := ih distinct hl fresh
      refine ⟨served, lost + 1, ?_, hsize, ?_⟩
      · rw [List.length_cons, ← hall, Nat.add_assoc]
      · simpa [Nat.add_comm] using counted.trans counts
    | some e =>
      dsimp only at hl
      have hperm := PathMap.perm_insert (a := e) hfresh
      obtain ⟨served, lost, hall, hsize, counts⟩ :=
        ih distinct hl (PathMap.fresh_insert e hdistinct fresh)
      refine ⟨served + 1, lost, ?_, ?_, ?_⟩
      · rw [List.length_cons, ← hall]
        omega
      · have hlength := hperm.length_eq
        rw [List.length_cons] at hlength
        unfold PathMap.size at hsize ⊢
        omega
      · simpa [Nat.add_comm] using counted.trans counts

end Cache

/-! ## The stages of a survey -/

namespace Pipeline

open Cache (Counts)

variable {q q' : Pipeline} {t t' : Tree} {p : Path}

/-- The caches of two pipelines differ by some hits and misses: neither has one, or both have. -/
def CacheCounts (hits misses : Nat) (q q' : Pipeline) : Prop :=
  ∀ c, q.cache? = some c → ∃ c', q'.cache? = some c' ∧ Counts hits misses c c'

theorem CacheCounts.of_eq (h : q'.cache? = q.cache?) : CacheCounts 0 0 q q' :=
  fun c hc => ⟨c, h.trans hc, .refl c⟩

theorem CacheCounts.trans {q'' : Pipeline} {h m h' m' : Nat} (first : CacheCounts h m q q')
    (then' : CacheCounts h' m' q' q'') : CacheCounts (h + h') (m + m') q q'' := by
  intro c hc
  obtain ⟨c', hc', counts⟩ := first c hc
  obtain ⟨c'', hc'', counts'⟩ := then' c' hc'
  exact ⟨c'', hc'', counts.trans counts'⟩

/-- Discovered files are split into those that have to be parsed, which count as misses, and those
of which a stored module is served, which count as hits. -/
theorem diff_split {files todo : List Path} {stored : PathMap Module}
    (distinct : files.Pairwise fun p q => p.same q = false)
    (hd : q.diff t files = (q', t', todo, stored)) :
    (todo ++ stored.keys).Perm files ∧ stored.Sorted ∧
      CacheCounts stored.size todo.length q q' := by
  cases hc : q.cache? with
  | none =>
    rw [diff_uncached hc, Prod.mk.injEq, Prod.mk.injEq, Prod.mk.injEq] at hd
    obtain ⟨-, -, rfl, rfl⟩ := hd
    refine ⟨.of_eq (List.append_nil _), PathMap.sorted_empty, fun c hc' => ?_⟩
    exact nomatch hc.symm.trans hc'
  | some c =>
    obtain ⟨c', loaded, rfl, compared⟩ := diff_cached hc hd
    obtain ⟨served, lost, hall, hsize, counts⟩ :=
      Cache.collect_load_counts (distinct.filter _) compared.looked fun _ _ => nofun
    have split := compared.split distinct
    refine ⟨split, compared.sorted, ?_⟩
    have hserved : stored.size = served := by
      rw [compared.size, hsize]
      exact Nat.zero_add _
    have hfiles := split.length_eq
    have hchanged := (List.filter_append_perm (c.hasChanged t) files).length_eq
    rw [List.length_append] at hfiles hchanged
    rintro c₀ hc₀
    obtain rfl := Option.some.inj (hc.symm.trans hc₀)
    refine ⟨c', rfl, ?_, ?_⟩
    · rw [hserved]
      exact counts.hits
    · rw [counts.misses]
      rw [show stored.keys.length = stored.size from List.length_map _, hserved] at hfiles
      dsimp only [Function.comp_def] at *
      omega

theorem storeAll_counts (c : Cache) (t : Tree) (modules : PathMap Module) (edges : List Edge)
    (paths : List Path) : Counts 0 0 c (storeAll c t modules edges paths).1 := by
  induction paths generalizing c t with
  | nil => exact .refl c
  | cons p rest ih =>
    unfold storeAll
    cases modules.get? p with
    | none => exact ih c t
    | some m =>
      have stored := c.store_counts t p m (edges.filter fun e => m.path.same e.sourcePath) 0
      dsimp only
      rcases hs : c.store t p m (edges.filter fun e => m.path.same e.sourcePath) 0 with ⟨c₁, t₁, r⟩
      rw [hs] at stored
      exact stored.trans (ih c₁ t₁)

theorem persist_counts {parsed : List Path} {modules : PathMap Module} {edges : List Edge}
    {r : Except Failure Unit} (h : q.persist t parsed modules edges = (q', t', r)) :
    CacheCounts 0 0 q q' := by
  intro c hc
  have stored := storeAll_counts c t modules edges parsed
  unfold persist at h
  rw [hc] at h
  dsimp only at h
  rcases hs : storeAll c t modules edges parsed with ⟨c₁, t₁⟩
  rw [hs] at h stored
  have flushed := c₁.flush_counts t₁
  dsimp only at h
  rcases hf : c₁.flush t₁ with ⟨c₂, t₂, r₂⟩
  rw [hf] at h flushed
  obtain ⟨rfl, -⟩ := Prod.mk.inj h
  exact ⟨c₂, rfl, stored.trans flushed⟩

theorem parse_counts {parser : Parser} {files : List Path} {o : RunOutcome Float}
    (h : q.parse t parser files = (q', o)) : CacheCounts 0 0 q q' := by
  obtain ⟨-, -, hcache | hcache⟩ := parse_cases h
  · exact .of_eq hcache
  · intro c hc
    rw [hc] at hcache
    exact ⟨c.clearMemory, hcache, rfl, rfl⟩

/-- The stages before the storing: the files are split, those that were handed to the parser have
led to what becomes of them, and the cache has counted. -/
theorem prepare_split {parser : Parser} {roots : List Path} {g : Prepared}
    (hg : q.prepare t parser roots = g) :
    let w : Workplace := ⟨g.tree, q.processor.largeFiles, parser⟩
    let tasks := g.handed.map (Processor.taskFor g.tree q.processor.settings.maxRetries)
    (g.handed ++ g.stored.keys).Perm g.files ∧ g.stored.Sorted ∧
      g.outcome.modules = w.modulesOf tasks ∧
      (g.outcome.modules.keys ++ g.outcome.failures.map FailureRecord.path).Perm g.handed ∧
      g.outcome.metrics.processed = g.outcome.modules.size ∧
      g.outcome.metrics.failed = g.outcome.failures.length ∧
      g.outcome.metrics.processed + g.outcome.metrics.failed = g.handed.length ∧
      CacheCounts g.stored.size g.handed.length q g.pipeline := by
  intro w tasks
  obtain ⟨q₁, q₂, q₃, q₄, h₁, hdiff, h₂, hparse, h₃, hfiles, -, -⟩ := prepare_cases hg
  have distinct : (q.discovery.run t roots).Pairwise fun p q => p.same q = false :=
    Discovery.run_distinct _ _ _
  obtain ⟨split, sorted, counts⟩ := diff_split distinct hdiff
  have hdistinct : g.handed.Pairwise fun p q => p.same q = false :=
    (List.pairwise_append.mp
      ((split.pairwise_iff fun h => Path.not_same_symm h).mpr distinct)).1
  have setup := (h₁.toSameSetup.trans (diff_setup hdiff)).trans h₂.toSameSetup
  obtain ⟨ho, -, -⟩ := parse_cases hparse
  have finished := q₃.processor.processFiles_finishes g.tree parser g.handed
  rw [ho] at finished
  have workers := q₃.processor.one_le_workerCap g.handed.length
  obtain ⟨hparsed, -⟩ := finished.settled workers hdistinct
  rw [setup.largeFiles, setup.settings] at hparsed
  obtain ⟨processed, failed, total⟩ := finished.counts workers hdistinct
  refine ⟨hfiles ▸ split, sorted, hparsed, (finished.files workers hdistinct).1, processed, failed,
    total, ?_⟩
  have counted := ((CacheCounts.of_eq h₁.cache).trans counts).trans
    ((CacheCounts.of_eq h₂.cache).trans ((parse_counts hparse).trans (.of_eq h₃.cache)))
  simpa using counted

end Pipeline

/-! ## Reports -/

/-- What the report of a survey says agrees with the files that were discovered, the modules that
were served and those that the parser made. -/
structure Survey.Complete (s : Survey) (discovered : List Path) (served made : PathMap Module) :
    Prop where
  /-- The modules and the failures together are the files, each once. -/
  files : (s.modules.keys ++ s.failures.map FailureRecord.path).Perm discovered
  exclusive : ∀ p ∈ s.modules.keys, p ∉ s.failures.map FailureRecord.path
  /-- The modules are those that the parser made and those that were served. -/
  modules : s.modules.entries.Perm (made.entries ++ served.entries)
  parsed : s.parsed = made.keys
  sorted : s.parsed.Pairwise fun p q => p.order q = .lt
  apart : ∀ p ∈ s.parsed, p ∉ served.keys
  found : s.metrics.total = discovered.length
  processed : s.metrics.processed = made.size
  failed : s.metrics.failed = s.failures.length
  skipped : s.metrics.skipped = served.size
  total : s.metrics.total = s.metrics.processed + s.metrics.failed + s.metrics.skipped

namespace Pipeline

/-- Every survey that succeeds accounts for each file that it has discovered: the file has a module
or a failure and not both; it was handed to the parser or served and not both; and the counters of
the survey and of its cache say so, whatever the cache and its files are like. -/
theorem run_complete (q q' : Pipeline) (t t' : Tree) (parser : Parser) (roots : List Path)
    (s : Survey) (ran : q.run t parser roots = (q', t', .ok s)) :
    let g := q.prepare t parser roots
    let w : Workplace := ⟨g.tree, q.processor.largeFiles, parser⟩
    let tasks := g.handed.map (Processor.taskFor g.tree q.processor.settings.maxRetries)
    s.Complete (q.discovery.run t roots) g.stored (w.modulesOf tasks) ∧
      ∀ c, q.cache? = some c → ∃ c', q'.cache? = some c' ∧
        c'.hits = c.hits + s.metrics.skipped ∧
        c'.misses = c.misses + (s.metrics.processed + s.metrics.failed) := by
  obtain ⟨findings, -, q₅, q₆, hq₅, hq', hpersist⟩ := Course.run_prepared ran
  generalize hg : q.prepare t parser roots = g at findings hq₅ hpersist
  intro _ w tasks
  obtain ⟨-, -, -, -, -, -, -, -, -, hfiles, hmodules, -⟩ := prepare_cases hg
  obtain ⟨split, sorted, hmade, accounted, processed, failed, total, counts⟩ := prepare_split hg
  rw [hfiles] at split
  have distinct : (g.handed ++ g.stored.keys).Pairwise fun p q => p.same q = false :=
    (split.pairwise_iff fun h => Path.not_same_symm h).mpr (Discovery.run_distinct _ _ _)
  obtain ⟨hhanded, -, hcross⟩ := List.pairwise_append.mp distinct
  have hsettled := (accounted.pairwise_iff fun h => Path.not_same_symm h).mpr hhanded
  obtain ⟨hparsed, -, hapart⟩ := List.pairwise_append.mp hsettled
  have hmem : ∀ p ∈ g.outcome.modules.keys, p ∈ g.handed := fun p hp =>
    accounted.mem_iff.mp (List.mem_append_left _ hp)
  have hentries : g.modules.entries.Perm (g.outcome.modules.entries ++ g.stored.entries) := by
    rw [hmodules]
    refine PathMap.perm_foldl_insert (List.pairwise_map.mp hparsed) fun e he p hp => ?_
    exact hcross _ (hmem _ (List.mem_map_of_mem he)) p hp
  have hkeys : g.modules.keys.Perm (g.outcome.modules.keys ++ g.stored.keys) := by
    unfold PathMap.keys
    rw [← List.map_append]
    exact hentries.map _
  have hall : (g.modules.keys ++ g.outcome.failures.map FailureRecord.path).Perm
      (q.discovery.run t roots) := by
    refine (hkeys.append_right _).trans (.trans ?_ ((accounted.append_right _).trans split))
    rw [List.append_assoc, List.append_assoc]
    exact List.perm_append_comm.append_left _
  have hlength := split.length_eq
  rw [List.length_append, show g.stored.keys.length = g.stored.size from List.length_map _]
    at hlength
  have hnodup := hall.nodup_iff.mpr (Path.nodup_of_distinct (Discovery.run_distinct _ _ _))
  have hsorted : g.outcome.modules.Sorted := by
    rw [hmade]
    exact PathMap.sorted_ofList _
  have hm : s.modules = g.modules := congrArg Findings.modules findings
  have hf : s.failures = g.outcome.failures := congrArg Findings.failures findings
  have hp : s.parsed = g.outcome.modules.keys := congrArg Findings.parsed findings
  have hmetrics : s.metrics =
      { g.outcome.metrics with total := g.files.length, skipped := g.stored.size } :=
    congrArg Findings.metrics findings
  rw [hfiles] at hmetrics
  refine ⟨⟨?_, ?_, ?_, ?_, ?_, ?_, ?_, ?_, ?_, ?_, ?_⟩, ?_⟩
  · rw [hm, hf]
    exact hall
  · rw [hm, hf]
    exact fun p hk hf => List.disjoint_of_nodup_append hnodup hk hf
  · rw [hm, ← hmade]
    exact hentries
  · rw [hp, hmade]
  · rw [hp]
    exact List.pairwise_map.mpr hsorted
  · rw [hp]
    intro p hp hs
    have := hcross p (hmem p hp) p hs
    rw [Path.same_refl] at this
    exact nomatch this
  · rw [hmetrics]
  · rw [hmetrics, ← hmade]
    exact processed
  · rw [hmetrics, hf]
    exact failed
  · rw [hmetrics]
  · rw [hmetrics]
    show (q.discovery.run t roots).length = g.outcome.metrics.processed + g.outcome.metrics.failed +
      g.stored.size
    omega
  · have persisted := (CacheCounts.of_eq hq₅).trans ((persist_counts hpersist).trans (.of_eq hq'))
    intro c hc
    obtain ⟨c', hc', hits, misses⟩ := (counts.trans persisted) c hc
    refine ⟨c', hc', ?_, ?_⟩
    · rw [hits, hmetrics, Nat.add_zero]
    · rw [misses, hmetrics, ← total, Nat.add_zero]

/-- A survey of one file with a new cache, which is parsed and stored. -/
theorem run_complete_housed :
    let q := Course.pipelineWhole (.first .hashed "A")
    let parser := reader Course.whole.parse .housed
    let g := q.prepare .housed parser [⟨"/f"⟩]
    ∃ q' t' s, q.run .housed parser [⟨"/f"⟩] = (q', t', .ok s) ∧
      s.Complete (q.discovery.run .housed [⟨"/f"⟩]) g.stored
        (Workplace.modulesOf ⟨g.tree, q.processor.largeFiles, parser⟩
          (g.handed.map (Processor.taskFor g.tree q.processor.settings.maxRetries))) ∧
      ∃ c', q'.cache? = some c' ∧ c'.hits = s.metrics.skipped ∧
        c'.misses = s.metrics.processed + s.metrics.failed := by
  intro q parser g
  have hbare : ∀ e ∈ Tree.beside.nodes, ¬ Below ["c"] e.1 := by decide
  have vacant : Session.Vacant ["c"] .housed := by
    intro p hp hne
    unfold Tree.housed
    rw [Tree.find?_put _ (by decide)]
    exact (if_neg hne).trans (Tree.find?_of_bare hbare hp)
  have rooted : Tree.housed.Rooted ["c"] := ⟨by decide, by decide, by decide⟩
  have opened : Site.hashed.OpensUnder "A" .beside .housed (.first .hashed "A") :=
    ⟨1, Cache.openIn_beside "A"⟩
  have history : Course.whole.History q .housed [] :=
    .start ⟨rfl, rfl, rfl⟩ rfl ⟨"A", opened⟩ Tree.houses_housed vacant rooted
  have stands : Course.Stands .housed := Tree.locate_housed
  have hv : Course.Surveys [⟨.housed, [⟨"/f"⟩]⟩] := List.forall_mem_singleton.mpr ⟨rfl, stands⟩
  have law : Course.whole.Lawful [⟨.housed, [⟨"/f"⟩]⟩] :=
    (history.lawful nofun nofun).1.cons rooted stands.avoids nofun hv.unmixed
      hv.collisionFree_whole
  obtain ⟨fits, c, hc, working⟩ := history.working law nofun
  obtain rfl := Option.some.inj hc
  obtain ⟨q', t', s, ran, -⟩ := stands.run_ok law List.mem_cons_self fits rfl rfl working
    (Nat.zero_le 2) rfl
  obtain ⟨complete, counts⟩ := run_complete q q' .housed t' parser [⟨"/f"⟩] s ran
  obtain ⟨c', hc', hits, misses⟩ := counts _ rfl
  exact ⟨q', t', s, ran, complete, c', hc', hits.trans (Nat.zero_add _),
    misses.trans (Nat.zero_add _)⟩

end Pipeline
end SourceSurvey
