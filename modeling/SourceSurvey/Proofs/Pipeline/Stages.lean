import SourceSurvey.Pipeline.Basic
import SourceSurvey.Proofs.Pipeline.Visit

/-!
# The stages of a survey with a cache

A cache works on some visits (`Course.Working`) if whatever it keeps is genuine for them. Each stage
of a visit keeps it working and touches nothing but the files of the home.

* `Pipeline.diff_cached`: how files are compared with a cache (`Pipeline.Compared`), whatever the
  cache is like.
* `Course.diff_spec`: every discovered file is either parsed or its stored module is what becomes
  of it.
* `Course.merged`: what was parsed and what is stored are, together, what becomes of the discovered
  files.
* `Course.storeAll_spec`: what is stored afterwards is genuine.
-/

namespace SourceSurvey

open Cache (Keeps Follows)
open SourceSurvey.Tree (Houses Rewrites)

namespace Course

variable {course : Course} {V : List Visit} {v : Visit} {c c' : Cache} {t t' : Tree} {p : Path}

/-- A cache at the home of a course that keeps genuine entries. -/
structure Working (course : Course) (V : List Visit) (c : Cache) (t : Tree) : Prop where
  keeps : Keeps (course.Keys V) (course.Genuine V) course.site.home c t
  coherent : c.Coherent
  directory : c.directory = course.site.directory
  fingerprint : c.fingerprint = course.site.fingerprint

namespace Working

theorem houses (h : course.Working V c t) : t.Houses course.site.directory course.site.home := by
  rw [← h.directory]
  exact h.keeps.houses

theorem plainNames (h : course.Working V c t) : PlainNames c.fingerprint := by
  rw [h.fingerprint]
  exact course.site.plain

theorem blind (h : course.Working V c t) (law : course.Lawful V) :
    Cache.Blind c.fingerprint (course.Keys V) (course.Genuine V) := by
  rw [h.fingerprint]
  exact law.unambiguous.blind _

theorem follow (h : course.Working V c t)
    (hf : Follows (course.Keys V) (course.Genuine V) course.site.home c t c' t')
    (coherent : c'.Coherent) : course.Working V c' t' :=
  ⟨hf.keeps, coherent, hf.setup.directory.trans h.directory,
    hf.setup.fingerprint.trans h.fingerprint⟩

end Working

namespace Lawful

variable (law : course.Lawful V)

include law

theorem locate_eq (hv : v ∈ V) (hp : p ∈ course.files v)
    (houses : v.tree.Houses course.site.directory course.site.home)
    (hw : Rewrites course.site.home v.tree t) : t.locate p = v.tree.locate p :=
  Discovery.locate_rewrites (law.rooted v hv) (law.avoids v hv) hp houses hw

theorem key_eq (hv : v ∈ V) (hp : p ∈ course.files v)
    (houses : v.tree.Houses course.site.directory course.site.home)
    (hw : Rewrites course.site.home v.tree t) : t.key p = v.tree.key p :=
  Tree.key_congr (law.locate_eq hv hp houses hw) hw.current

theorem content_eq (hv : v ∈ V) (hp : p ∈ course.files v)
    (houses : v.tree.Houses course.site.directory course.site.home)
    (hw : Rewrites course.site.home v.tree t) : t.content p = v.tree.content p := by
  unfold Tree.content
  rw [law.locate_eq hv hp houses hw]

end Lawful

end Course

/-! ## Telling changed files from stored ones -/

namespace Pipeline

variable {q q' : Pipeline} {c c' : Cache} {t t' : Tree} {files todo : List Path}
  {stored : PathMap Module} {loaded : PathMap CacheEntry}

/-- How files are compared with a cache: those that have changed count as misses, the others are
looked up, and those of which no payload was found are parsed too. -/
structure Compared (c : Cache) (t : Tree) (files : List Path) (c' : Cache) (t' : Tree)
    (todo : List Path) (stored : PathMap Module) (loaded : PathMap CacheEntry) : Prop where
  looked : Cache.collect Cache.load
    { c with misses := c.misses + (files.filter (c.hasChanged t)).length } t .empty
      (files.filter (not ∘ c.hasChanged t)) = (c', t', loaded)
  todo : todo.Perm (files.filter (c.hasChanged t) ++
    (files.filter (not ∘ c.hasChanged t)).filter fun path => !loaded.contains path)
  stored : stored.entries = loaded.entries.map fun e => (e.1, e.2.module)

/-- With a cache the files are compared with it. -/
theorem diff_cached (hc : q.cache? = some c) (hd : q.diff t files = (q', t', todo, stored)) :
    ∃ c' loaded, q' = { q with cache? := some c' } ∧
      Compared c t files c' t' todo stored loaded := by
  unfold Pipeline.diff Cache.changedFiles Cache.bulkLoadUnchanged at hd
  rw [hc] at hd
  dsimp only at hd
  rw [List.partition_eq_filter_filter] at hd
  dsimp only at hd
  rcases hl : Cache.collect Cache.load
    { c with misses := c.misses + (files.filter (c.hasChanged t)).length } t .empty
      (files.filter (not ∘ c.hasChanged t)) with ⟨c', t₁, loaded⟩
  rw [hl] at hd
  dsimp only at hd
  rw [Prod.mk.injEq, Prod.mk.injEq, Prod.mk.injEq] at hd
  obtain ⟨rfl, rfl, rfl, rfl⟩ := hd
  exact ⟨c', loaded, rfl, hl, List.mergeSort_perm .., rfl⟩

/-- Without a cache all files are parsed. -/
theorem diff_uncached (hc : q.cache? = none) (t : Tree) (files : List Path) :
    q.diff t files = (q, t, files, .empty) := by
  unfold Pipeline.diff
  rw [hc]

namespace Compared

variable (h : Compared c t files c' t' todo stored loaded)

include h

theorem keys : stored.keys = loaded.keys := by
  unfold PathMap.keys
  rw [h.stored, List.map_map]
  rfl

theorem size : stored.size = loaded.size := by
  unfold PathMap.size
  rw [h.stored, List.length_map]

theorem sorted : stored.Sorted := by
  unfold PathMap.Sorted
  rw [h.stored]
  exact List.pairwise_map.mpr (Cache.collect_keys PathMap.sorted_empty h.looked).1

/-- The files are split into those to parse and those of which a module is stored. -/
theorem split (distinct : files.Pairwise fun p q => p.same q = false) :
    (todo ++ stored.keys).Perm files := by
  obtain ⟨sorted, among⟩ := Cache.collect_keys PathMap.sorted_empty h.looked
  have hlost := sorted.perm_lost (distinct.filter _) fun p hp => (among p hp).resolve_left nofun
  rw [h.keys]
  refine (h.todo.append_right _).trans ?_
  rw [List.append_assoc]
  exact (hlost.append_left _).trans (List.filter_append_perm _ _)

end Compared
end Pipeline

namespace Course

variable {course : Course} {V : List Visit} {v : Visit} {c c' : Cache} {t t' : Tree} {p : Path}

/-- Looking up a file that has not changed serves what becomes of it. -/
theorem load_spec (law : course.Lawful V) (hv : v ∈ V)
    (houses : v.tree.Houses course.site.directory course.site.home)
    {c₀ : Cache} (hfp₀ : c₀.fingerprint = course.site.fingerprint) (hp : p ∈ course.files v)
    (unchanged : ¬ c₀.hasChanged v.tree p = true)
    (working : course.Working V c t) (hw : Rewrites course.site.home v.tree t)
    (index : ∀ k record, c.index.get? k = some record → c₀.index.get? k = some record)
    {e? : Option CacheEntry} (hl : c.load t p = (c', t', e?)) :
    course.Working V c' t' ∧ Rewrites course.site.home v.tree t' ∧ c'.drafts = c.drafts ∧
      (∀ k record, c'.index.get? k = some record → c₀.index.get? k = some record) ∧
      ∀ e, e? = some e → course.verdict v.tree p = .ok e.module := by
  have hkey := law.key_eq hv hp houses hw
  have hk : course.Keys V (t.key p) := ⟨v, hv, p, hp, hkey⟩
  obtain ⟨follows, served⟩ := working.keeps.load (working.plainNames) (working.blind law)
    (genuine_respects V) hk hl
  refine ⟨working.follow follows (working.coherent.load hl), hw.trans follows.rewrites, ?_, ?_, ?_⟩
  · have := c.load_drafts t p
    rwa [hl] at this
  · intro k record hr
    refine index k record (Cache.load_index (t := t) (p := p) ?_)
    rwa [hl]
  · rintro e rfl
    have hgenuine := served e rfl
    rw [hkey] at hgenuine
    refine law.genuine hv hp hgenuine ?_
    obtain ⟨record, hi, hd⟩ := Cache.load_digest working.coherent hl
    rw [hkey] at hi
    obtain ⟨place, bytes, changed, hplace, hb⟩ := Cache.digest_of_hasChanged unchanged (index _ _ hi)
    exact ⟨place, bytes, changed, hplace, by rw [← hd, hb, hfp₀]⟩

/-- Looking up files that have not changed serves what becomes of them. -/
theorem collect_load (law : course.Lawful V)
    (hv : v ∈ V) (houses : v.tree.Houses course.site.directory course.site.home)
    {c₀ : Cache} (hfp₀ : c₀.fingerprint = course.site.fingerprint) {paths : List Path}
    (discovered : ∀ p ∈ paths, p ∈ course.files v)
    (unchanged : ∀ p ∈ paths, ¬ c₀.hasChanged v.tree p = true)
    (distinct : paths.Pairwise fun p q => p.same q = false)
    (working : course.Working V c t) (hw : Rewrites course.site.home v.tree t)
    (index : ∀ k record, c.index.get? k = some record → c₀.index.get? k = some record)
    {found loaded : PathMap CacheEntry}
    (hl : Cache.collect Cache.load c t found paths = (c', t', loaded))
    (fresh : ∀ p ∈ paths, ∀ q ∈ found.keys, p.same q = false) :
    course.Working V c' t' ∧ Rewrites course.site.home v.tree t' ∧ c'.drafts = c.drafts ∧
      ∀ r ∈ loaded.entries, r ∈ found.entries ∨ course.verdict v.tree r.1 = .ok r.2.module := by
  induction paths generalizing c t found with
  | nil =>
    obtain ⟨rfl, rfl, rfl⟩ := Cache.triple_inj rfl hl
    exact ⟨working, hw, rfl, fun r hr => .inl hr⟩
  | cons p rest ih =>
    obtain ⟨hp, discovered⟩ := List.forall_mem_cons.mp discovered
    obtain ⟨hunchanged, unchanged⟩ := List.forall_mem_cons.mp unchanged
    obtain ⟨hdistinct, distinct⟩ := List.pairwise_cons.mp distinct
    obtain ⟨hfresh, fresh⟩ := List.forall_mem_cons.mp fresh
    unfold Cache.collect at hl
    rcases hload : c.load t p with ⟨c₁, t₁, e?⟩
    rw [hload] at hl
    obtain ⟨working₁, hw₁, drafts₁, index₁, served⟩ :=
      load_spec law hv houses hfp₀ hp hunchanged working hw index hload
    cases e? with
    | none =>
      obtain ⟨working', hw', drafts, among⟩ :=
        ih discovered unchanged distinct working₁ hw₁ index₁ hl fresh
      exact ⟨working', hw', drafts.trans drafts₁, among⟩
    | some e =>
      obtain ⟨working', hw', drafts, among⟩ := ih discovered unchanged distinct working₁ hw₁ index₁
        hl (PathMap.fresh_insert e hdistinct fresh)
      refine ⟨working', hw', drafts.trans drafts₁, fun r hr => ?_⟩
      rcases among r hr with hr | hm
      · rcases List.mem_cons.mp ((PathMap.perm_insert hfresh).mem_iff.mp hr) with rfl | hr
        · exact .inr (served e rfl)
        · exact .inl hr
      · exact .inr hm

/-- The files of a visit: some that are parsed, and others of which a module is stored that tells
what becomes of them. -/
structure Split (course : Course) (v : Visit) (todo : List Path) (stored : PathMap Module) :
    Prop where
  sorted : stored.Sorted
  files : (todo ++ stored.keys).Perm (course.files v)
  verdict : ∀ r ∈ stored.entries, course.verdict v.tree r.1 = .ok r.2

/-- Without a cache all files are parsed. -/
theorem split_all (v : Visit) : course.Split v (course.files v) .empty where
  sorted := PathMap.sorted_empty
  files := .of_eq (List.append_nil _)
  verdict := nofun

/-- Every discovered file is either parsed or its stored module is what becomes of it. -/
theorem diff_spec (law : course.Lawful V) (hv : v ∈ V)
    {q q' : Pipeline} (hc : q.cache? = some c) (working : course.Working V c v.tree)
    {todo : List Path} {stored : PathMap Module}
    (hd : q.diff v.tree (course.files v) = (q', t', todo, stored)) :
    ∃ c', q' = { q with cache? := some c' } ∧ course.Working V c' t' ∧
      Rewrites course.site.home v.tree t' ∧ c'.drafts = c.drafts ∧ course.Split v todo stored := by
  have distinct : (course.files v).Pairwise fun p q => p.same q = false :=
    Discovery.run_distinct _ _ _
  have houses := working.houses
  have hfingerprint := working.fingerprint
  obtain ⟨c', loaded, rfl, compared⟩ := Pipeline.diff_cached hc hd
  have working₀ : course.Working V
      { c with misses := c.misses + ((course.files v).filter (c.hasChanged v.tree)).length }
      v.tree := by
    obtain ⟨⟨houses, stored, recent⟩, coherent, directory, fingerprint⟩ := working
    exact ⟨⟨houses, stored, recent⟩, coherent, directory, fingerprint⟩
  have unchanged : ∀ p ∈ (course.files v).filter (not ∘ c.hasChanged v.tree),
      ¬ c.hasChanged v.tree p = true := by
    intro p hp
    simpa using (List.mem_filter.mp hp).2
  obtain ⟨working', rewrites, drafts, served⟩ := collect_load law hv houses
    hfingerprint (fun _ => List.mem_of_mem_filter) unchanged (distinct.filter _) working₀
    (.refl _) (fun _ _ hr => hr) compared.looked nofun
  refine ⟨c', rfl, working', rewrites, drafts, compared.sorted, compared.split distinct,
    fun r hr => ?_⟩
  rw [compared.stored] at hr
  obtain ⟨e, he, rfl⟩ := List.mem_map.mp hr
  exact (served e he).resolve_left nofun

/-! ## Parsing and merging -/

/-- What is parsed where the files have the same content is what becomes of them. -/
theorem parsed {r : Processor Float Unit} (chunks : r.largeFiles = course.largeFiles)
    (retries : r.settings.maxRetries = course.maxRetries) {todo : List Path}
    (content : ∀ p ∈ todo, t'.content p = t.content p)
    (distinct : todo.Pairwise fun p q => p.same q = false) {o : RunOutcome Float}
    (ho : (r.processFiles t' (reader course.parse t) todo).2 = o) :
    o.modules = .ofList (course.records t todo) ∧ o.failures.Perm (course.losses t todo) := by
  subst ho
  obtain ⟨hm, hf, -⟩ := (r.processFiles_finishes t' (reader course.parse t) todo).settled
    (r.one_le_workerCap _) distinct
  have hfates : (todo.map (Processor.taskFor t' r.settings.maxRetries)).map
        (Workplace.fate
          { tree := t', largeFiles := r.largeFiles, parser := reader course.parse t }) =
      todo.map (course.fate t) := by
    rw [List.map_map]
    refine List.map_congr_left fun p hp => ?_
    have hcontent := content p hp
    have halike : Workplace.Alike
        { tree := t', largeFiles := r.largeFiles, parser := reader course.parse t }
        (course.workplace t) (course.task t p).path := ⟨hcontent, chunks, fun _ => rfl⟩
    have htask : Processor.taskFor t' r.settings.maxRetries p = course.task t p := by
      rw [retries]
      exact Processor.taskFor_congr hcontent _
    show Except.map _ (Workplace.verdict _ (Processor.taskFor t' r.settings.maxRetries p)).1 = _
    rw [htask, Workplace.verdict_congr halike]
    rfl
  unfold Workplace.modulesOf at hm
  unfold Workplace.failuresOf at hf
  rw [hfates] at hm hf
  exact ⟨hm, hf⟩

theorem mem_records {ps : List Path} {r : Path × Module} (h : r ∈ course.records t ps) :
    r.1 ∈ ps ∧ course.verdict t r.1 = .ok r.2 := by
  obtain ⟨f, hf, hr⟩ := List.mem_filterMap.mp h
  obtain ⟨p, hp, rfl⟩ := List.mem_map.mp hf
  unfold fate at hr
  cases hv : course.verdict t p with
  | error e =>
    rw [hv] at hr
    exact nomatch hr
  | ok m =>
    rw [hv] at hr
    obtain rfl := Option.some.inj hr
    exact ⟨hp, hv⟩

theorem records_distinct {ps : List Path} (h : ps.Pairwise fun p q => p.same q = false) :
    (course.records t ps).Pairwise fun a b => a.1.same b.1 = false := by
  induction ps with
  | nil => exact .nil
  | cons p rest ih =>
    obtain ⟨hp, h⟩ := List.pairwise_cons.mp h
    unfold records fate
    rw [List.map_cons, List.filterMap_cons]
    cases course.verdict t p with
    | error e => exact ih h
    | ok m => exact List.pairwise_cons.mpr ⟨fun r hr => hp r.1 (mem_records hr).1, ih h⟩

theorem Split.distinct {todo : List Path} {stored : PathMap Module}
    (h : course.Split v todo stored) :
    (todo ++ stored.keys).Pairwise fun p q => p.same q = false :=
  (h.files.pairwise_iff fun h => Path.not_same_symm h).mpr (Discovery.run_distinct _ _ _)

/-- The modules that are made of the files to parse are of discovered files, and there are at most
as many. -/
theorem Split.made {todo : List Path} {stored modules : PathMap Module}
    (h : course.Split v todo stored) (hm : modules = .ofList (course.records v.tree todo)) :
    (∀ p ∈ modules.keys, p ∈ course.files v) ∧
      modules.keys.length ≤ (course.files v).length := by
  have hentries : modules.entries.Perm (course.records v.tree todo) := by
    rw [hm]
    exact PathMap.perm_ofList (records_distinct (List.pairwise_append.mp h.distinct).1)
  constructor
  · intro p hp
    obtain ⟨r, hr, rfl⟩ := List.mem_map.mp hp
    exact h.files.mem_iff.mp
      (List.mem_append_left _ (mem_records (hentries.mem_iff.mp hr)).1)
  · have hrecords : (course.records v.tree todo).length ≤ todo.length := by
      refine (List.length_filterMap_le ..).trans ?_
      rw [List.length_map]
    have hfiles := h.files.length_eq
    rw [List.length_append] at hfiles
    unfold PathMap.keys
    rw [List.length_map, hentries.length_eq]
    omega

/-- The stored modules are what becomes of their files. -/
theorem Split.stored_eq {todo : List Path} {stored : PathMap Module}
    (h : course.Split v todo stored) :
    course.records v.tree stored.keys = stored.entries ∧ course.losses v.tree stored.keys = [] := by
  have hfates : stored.keys.map (course.fate v.tree) = stored.entries.map .ok := by
    unfold PathMap.keys
    rw [List.map_map]
    refine List.map_congr_left fun r hr => ?_
    show (course.verdict v.tree r.1).map _ = _
    rw [h.verdict r hr]
    rfl
  unfold records losses
  rw [hfates, List.filterMap_map, List.filterMap_map]
  refine ⟨List.filterMap_some, List.filterMap_eq_nil_iff.mpr fun _ _ => rfl⟩

/-- What a survey of all files finds: a module or a failure of each. -/
structure Finds (course : Course) (v : Visit) (modules : PathMap Module)
    (failures : List FailureRecord) : Prop where
  modules : modules = .ofList (course.records v.tree (course.files v))
  failures : failures.Perm (course.losses v.tree (course.files v))

/-- What was parsed and what is stored are, together, what becomes of the discovered files. -/
theorem Split.merged {todo : List Path} {stored modules : PathMap Module}
    (h : course.Split v todo stored) {failures : List FailureRecord}
    (hm : modules = .ofList (course.records v.tree todo))
    (hf : failures.Perm (course.losses v.tree todo)) :
    course.Finds v (Pipeline.merge stored modules) failures := by
  obtain ⟨htodo, -, hcross⟩ := List.pairwise_append.mp h.distinct
  obtain ⟨hrecords, hlosses⟩ := h.stored_eq
  have hperm : modules.entries.Perm (course.records v.tree todo) := by
    rw [hm]
    exact PathMap.perm_ofList (records_distinct htodo)
  have hfates := h.files.map (course.fate v.tree)
  constructor
  · refine (h.sorted.foldl_insert _).eq_ofList ?_
    have hentries := @PathMap.perm_foldl_insert _ stored modules.entries
      ((hperm.pairwise_iff fun h => Path.not_same_symm h).mpr (records_distinct htodo))
      fun r hr q hq => hcross r.1 (mem_records (hperm.mem_iff.mp hr)).1 q hq
    refine hentries.trans ((hperm.append_right _).trans ?_)
    have hall := hfates.filterMap Except.toOption
    rw [List.map_append, List.filterMap_append] at hall
    rwa [← hrecords]
  · have hall := hfates.filterMap Workplace.failure?
    rw [List.map_append, List.filterMap_append] at hall
    refine hf.trans (.trans (.of_eq ?_) hall)
    show _ = _ ++ course.losses v.tree stored.keys
    rw [hlosses, List.append_nil]
    rfl

/-- A module that a survey finds is what becomes of its file. -/
theorem Finds.verdict {modules : PathMap Module} {failures : List FailureRecord}
    (h : course.Finds v modules failures) (hp : p ∈ course.files v) {m : Module}
    (hm : modules.get? p = some m) : course.verdict v.tree p = .ok m := by
  have distinct : (course.files v).Pairwise fun p q => p.same q = false :=
    Discovery.run_distinct _ _ _
  rw [h.modules] at hm
  obtain ⟨q, hq, hsame⟩ := PathMap.exists_of_get? hm
  obtain ⟨hfile, hverdict⟩ :=
    mem_records ((PathMap.perm_ofList (records_distinct distinct)).mem_iff.mp hq)
  rwa [Path.eq_of_same distinct hp hfile hsame]

/-! ## Storing -/

/-- What is stored for a file is genuine. -/
theorem genuine_entryFor (law : course.Lawful V) (hv : v ∈ V) (hp : p ∈ course.files v)
    (houses : v.tree.Houses course.site.directory course.site.home)
    (hw : Rewrites course.site.home v.tree t) {m : Module}
    (hm : course.verdict v.tree p = .ok m) (hfp : c.fingerprint = course.site.fingerprint)
    {stamp : FileStamp} (hs : c.stamp? t p = some stamp) (edges : List Edge) (micros : Nat) :
    course.Genuine V (t.key p) (c.entryFor t stamp m edges micros) := by
  obtain ⟨-, place', bytes', changed', hk, hd, -⟩ := Cache.stamp?_some hs
  obtain ⟨place, bytes, changed, hout, hl⟩ := law.located hv hp (nameable_of_verdict_ok hm)
  have hl' := (law.locate_eq hv hp houses hw).trans hl
  obtain rfl := ((law.rooted v hv).within hw.toWithin).locate_key hl' hout hk
  refine ⟨v, hv, p, hp, law.key_eq hv hp houses hw, bytes', Tree.content_file hl, ?_, hm⟩
  rw [← hfp]
  exact hd

/-- Storing what becomes of a file keeps the cache working. -/
theorem store_spec (law : course.Lawful V) (hv : v ∈ V)
    (houses : v.tree.Houses course.site.directory course.site.home) (hp : p ∈ course.files v)
    {m : Module} (hm : course.verdict v.tree p = .ok m) (working : course.Working V c t)
    (hw : Rewrites course.site.home v.tree t) {edges : List Edge} {micros : Nat}
    {r : Except Failure FileStamp} (hs : c.store t p m edges micros = (c', t', r)) :
    course.Working V c' t' ∧ Rewrites course.site.home v.tree t' := by
  have hk : course.Keys V (t.key p) := ⟨v, hv, p, hp, law.key_eq hv hp houses hw⟩
  have follows : Follows (course.Keys V) (course.Genuine V) course.site.home c t c' t' := by
    rcases working.keeps.store (working.plainNames) (working.blind law) hk
      (fun _ _ _ _ he => he) (fun stamp hstamp => genuine_entryFor law hv hp houses hw hm
        working.fingerprint hstamp _ _) hs with
      ⟨-, follows⟩ | ⟨-, follows⟩
    · exact follows
    · exact follows
  exact ⟨working.follow follows (working.coherent.store hs), hw.trans follows.rewrites⟩

/-- What is stored after parsing is genuine. -/
theorem storeAll_spec (law : course.Lawful V)
    (hv : v ∈ V) (houses : v.tree.Houses course.site.directory course.site.home)
    {modules : PathMap Module} {failures : List FailureRecord}
    (finds : course.Finds v modules failures) {edges : List Edge} {paths : List Path}
    (discovered : ∀ p ∈ paths, p ∈ course.files v) (working : course.Working V c t)
    (hw : Rewrites course.site.home v.tree t)
    (hs : Pipeline.storeAll c t modules edges paths = (c', t')) :
    course.Working V c' t' ∧ Rewrites course.site.home v.tree t' := by
  induction paths generalizing c t with
  | nil =>
    obtain ⟨rfl, rfl⟩ := Prod.mk.inj hs
    exact ⟨working, hw⟩
  | cons p rest ih =>
    obtain ⟨hp, discovered⟩ := List.forall_mem_cons.mp discovered
    unfold Pipeline.storeAll at hs
    cases hm : modules.get? p with
    | none =>
      rw [hm] at hs
      exact ih discovered working hw hs
    | some m =>
      rw [hm] at hs
      dsimp only at hs
      generalize hst : c.store t p m (edges.filter fun e => m.path.same e.sourcePath) 0 = stored at hs
      obtain ⟨c₁, t₁, r⟩ := stored
      obtain ⟨working₁, hw₁⟩ :=
        store_spec law hv houses hp (finds.verdict hp hm) working hw hst
      exact ih discovered working₁ hw₁ hs

theorem storeAll_drafts (c : Cache) (t : Tree) (modules : PathMap Module) (edges : List Edge)
    (paths : List Path) :
    (Pipeline.storeAll c t modules edges paths).1.drafts ≤ c.drafts + paths.length := by
  induction paths generalizing c t with
  | nil => exact Nat.le_refl _
  | cons p rest ih =>
    unfold Pipeline.storeAll
    split
    · exact (ih c t).trans (by rw [List.length_cons]; omega)
    · rename_i m _
      dsimp only
      have hdrafts : (c.store t p m (edges.filter fun e => m.path.same e.sourcePath) 0).1.drafts ≤
          c.drafts + 1 := by
        rcases c.store_cases t p m (edges.filter fun e => m.path.same e.sourcePath) 0 with
          ⟨e, hs⟩ | ⟨stamp, t', -, ⟨e, -, hs⟩ | ⟨-, hs⟩⟩
        · rw [hs]
          exact Nat.le_succ _
        · rw [hs]
        · rw [hs]
          exact Nat.le_refl _
      refine (ih _ _).trans ?_
      rw [List.length_cons]
      omega

/-- Storing what was parsed and writing the index keeps the cache working. -/
theorem persist_spec (law : course.Lawful V)
    (hv : v ∈ V) (houses : v.tree.Houses course.site.directory course.site.home)
    {modules : PathMap Module} {failures : List FailureRecord}
    (finds : course.Finds v modules failures) {edges : List Edge} {paths : List Path}
    (discovered : ∀ p ∈ paths, p ∈ course.files v) (working : course.Working V c t)
    (hw : Rewrites course.site.home v.tree t) {q q' : Pipeline} (hc : q.cache? = some c)
    {r : Except Failure Unit} (hp : q.persist t paths modules edges = (q', t', r)) :
    ∃ c', q' = { q with cache? := some c' } ∧ course.Working V c' t' ∧
      Rewrites course.site.home v.tree t' ∧ c'.drafts ≤ c.drafts + paths.length + 1 := by
  unfold Pipeline.persist at hp
  rw [hc] at hp
  dsimp only at hp
  cases hs : Pipeline.storeAll c t modules edges paths with
  | mk c₁ t₁ =>
    obtain ⟨working₁, hw₁⟩ := storeAll_spec law hv houses finds discovered working hw hs
    rw [hs] at hp
    dsimp only at hp
    generalize hf : c₁.flush t₁ = flushed at hp
    obtain ⟨c₂, t₂, r₂⟩ := flushed
    obtain ⟨rfl, rfl, rfl⟩ := Cache.triple_inj rfl hp
    have follows := working₁.keeps.flush hf
    have coherent : c₂.Coherent := working₁.coherent.flush hf
    have hdrafts := storeAll_drafts c t modules edges paths
    rw [hs] at hdrafts
    have hdrafts' := c₁.flush_drafts t₁
    rw [hf] at hdrafts'
    exact ⟨c₂, rfl, working₁.follow follows coherent, hw₁.trans follows.rewrites,
      hdrafts'.trans (Nat.succ_le_succ hdrafts)⟩

/-- The system takes the paths of the index of a cache and of a number of further drafts. -/
structure Roomy (course : Course) (c : Cache) (t : Tree) (most : Nat) : Prop where
  made : t.find? (course.site.home ++ ["entries"]) = some .directory
  index : c.indexPath.Nameable
  drafts : ∀ n ≤ c.drafts + most, (c.directory.join ⟨Cache.draftName "index" n⟩).Nameable

theorem Roomy.mono {most most' : Nat} (h : course.Roomy c t most)
    (directory : c'.directory = c.directory) (drafts : c'.drafts + most' ≤ c.drafts + most) :
    course.Roomy c' t most' := by
  refine ⟨h.made, ?_, fun n hn => ?_⟩
  · unfold Cache.indexPath
    rw [directory]
    exact h.index
  · rw [directory]
    exact h.drafts n (hn.trans drafts)

/-- Storing what was parsed succeeds if there is room. -/
theorem persist_ok (law : course.Lawful V) (hv : v ∈ V)
    (houses : v.tree.Houses course.site.directory course.site.home)
    {modules : PathMap Module} {failures : List FailureRecord}
    (finds : course.Finds v modules failures) {edges : List Edge} {paths : List Path}
    (discovered : ∀ p ∈ paths, p ∈ course.files v) (working : course.Working V c t)
    (hw : Rewrites course.site.home v.tree t) (room : course.Roomy c v.tree paths.length)
    {q q' : Pipeline} (hc : q.cache? = some c) {r : Except Failure Unit}
    (hp : q.persist t paths modules edges = (q', t', r)) : r = .ok () := by
  unfold Pipeline.persist at hp
  rw [hc] at hp
  dsimp only at hp
  rcases hs : Pipeline.storeAll c t modules edges paths with ⟨c₁, t₁⟩
  obtain ⟨working₁, hw₁⟩ := storeAll_spec law hv houses finds discovered working hw hs
  have hdrafts := storeAll_drafts c t modules edges paths
  rw [hs] at hp hdrafts
  obtain ⟨-, -, rfl⟩ := Cache.triple_inj rfl hp
  have room₁ : course.Roomy c₁ v.tree 0 :=
    room.mono (working₁.directory.trans working.directory.symm) hdrafts
  exact c₁.flush_ok working₁.keeps.houses (hw₁.entries.trans room.made) room₁.index
    (room₁.drafts _ (Nat.le_refl _))

end Course
end SourceSurvey
