import SourceSurvey.Proofs.Cache.Index
import SourceSurvey.Proofs.Pipeline.Gather

/-!
# What a survey records

The stages of a survey before the storing change no record of the index and hand exactly those files
to the parser whose records do not fit them (`Pipeline.prepare_recorded`). Storing puts a record of
every parsed file into the index, which says the size, the time of the last change and the digest
that the file has (`Course.storeAll_recorded`).

All of this holds whatever the parser does; another survey may bring another one.
-/

namespace SourceSurvey

open Cache (Backed Unambiguous)
open SourceSurvey.Tree (Rewrites)

namespace Tree

variable {t : Tree} {home place : Place} {p : Path} {bytes : List UInt8} {changed : Instant}

/-- The bytes and the time of the last change of the file to which a path leads. -/
def state? (t : Tree) (p : Path) : Option (List UInt8 × Instant) :=
  match t.locate p with
  | .ok (_, .file bytes changed) => some (bytes, changed)
  | _ => none

theorem state?_of_locate (h : t.locate p = .ok (place, .file bytes changed)) :
    t.state? p = some (bytes, changed) := by
  unfold state?
  rw [h]

theorem locate_of_state? (h : t.state? p = some (bytes, changed)) :
    ∃ place, t.locate p = .ok (place, .file bytes changed) := by
  unfold state? at h
  split at h
  · rename_i place bytes' changed' hl
    obtain ⟨rfl, rfl⟩ := Prod.mk.inj (Option.some.inj h)
    exact ⟨place, hl⟩
  · exact nomatch h

/-- The path under which a file is remembered leads to it if the system takes that path. -/
theorem Rooted.locate_key_of_nameable (h : t.Rooted home)
    (hl : t.locate p = .ok (place, .file bytes changed)) (hout : ¬ Below home place)
    (hk : (t.key p).Nameable) : t.locate (t.key p) = .ok (place, .file bytes changed) := by
  rw [key_of_locate hl] at hk ⊢
  rcases h.locate_pathOf (find?_of_locate hl) hout with ⟨-, hr⟩ | ⟨hn, -⟩
  · exact hr
  · exact absurd hk hn

end Tree

theorem Cache.stamp?_eq {c : Cache} {t : Tree} {p : Path} {stamp : FileStamp}
    (h : c.stamp? t p = some stamp) :
    ∃ place bytes changed, t.locate (t.key p) = .ok (place, .file bytes changed) ∧
      stamp = { path := t.key p, digest := c.fingerprint bytes, size := bytes.length
                changed? := some changed, parsedAt := t.now } := by
  unfold Cache.stamp? at h
  split at h
  · rename_i place bytes changed hl
    exact ⟨place, bytes, changed, hl, (Option.some.inj h).symm⟩
  · exact nomatch h

/-! ## Before the storing -/

/-- The path of a file of which a module is made leads somewhere. -/
theorem Workplace.located_of_mem_modulesOf {w : Workplace} {tasks : List Task} {p : Path}
    (h : p ∈ (w.modulesOf tasks).keys) : ∃ x, w.tree.locate p = .ok x := by
  rcases PathMap.mem_keys_foldl_insert h with h | ⟨r, hr, rfl⟩
  · exact nomatch h
  · obtain ⟨fate, hf, hr⟩ := List.mem_filterMap.mp hr
    obtain ⟨task, -, rfl⟩ := List.mem_map.mp hf
    have hr : ((w.verdict task).1.map (task.path, ·)).toOption = some r := hr
    cases hl : w.tree.locate task.path with
    | error e =>
      obtain ⟨record, hv⟩ := Workplace.verdict_of_unreadable hl
      rw [hv] at hr
      exact nomatch hr
    | ok x =>
      cases hv : (w.verdict task).1 with
      | error e =>
        rw [hv] at hr
        exact nomatch hr
      | ok m =>
        rw [hv] at hr
        obtain rfl := Option.some.inj hr
        exact ⟨x, hl⟩

namespace Pipeline

variable {K : Path → Prop} {home : Place} {c : Cache} {t t' : Tree} {q q' : Pipeline} {p : Path}
  {discovered : List Path}

/-- Telling changed files from stored ones changes no record. The files that have changed are
parsed, and of each of the others a module is stored. -/
theorem diff_recorded (hc : q.cache? = some c) (backed : Backed K home c t)
    (hfp : PlainNames c.fingerprint) (distinct : discovered.Pairwise fun p q => p.same q = false)
    (keys : ∀ p ∈ discovered, K (t.key p)) {todo : List Path} {stored : PathMap Module}
    (hd : q.diff t discovered = (q', t', todo, stored)) :
    t' = t ∧ todo.Perm (discovered.filter (c.hasChanged t)) ∧
      (todo ++ stored.keys).Perm discovered ∧
      ∃ c', q'.cache? = some c' ∧ Cache.SameRecords c c' := by
  obtain ⟨c', loaded, rfl, compared⟩ := diff_cached hc hd
  set c₀ : Cache :=
    { c with misses := c.misses + (discovered.filter (c.hasChanged t)).length }
  have same₀ : Cache.SameRecords c c₀ := ⟨⟨rfl, rfl, rfl, rfl⟩, rfl, rfl, rfl⟩
  have known : ∀ p ∈ discovered.filter (not ∘ c.hasChanged t),
      K (t.key p) ∧ ∃ r, c₀.index.get? (t.key p) = some r := by
    intro p hp
    obtain ⟨hfile, hsame⟩ := List.mem_filter.mp hp
    refine ⟨keys p hfile, ?_⟩
    cases hi : c.index.get? (t.key p) with
    | some r => exact ⟨r, rfl⟩
    | none =>
      have hchanged : c.hasChanged t p = true := by
        unfold Cache.hasChanged
        rw [hi]
      simp [hchanged] at hsame
  obtain ⟨c'', loaded', hl, same', all⟩ := (backed.same same₀).collect_load hfp known .empty
  obtain ⟨rfl, htree, rfl⟩ := Cache.triple_inj compared.looked hl
  subst t'
  have hlost : ((discovered.filter (not ∘ c.hasChanged t)).filter
      fun path => !loaded.contains path) = [] := by
    rw [List.filter_eq_nil_iff]
    intro p hp
    simp [all p (.inr hp)]
  have htodo := compared.todo
  rw [hlost, List.append_nil] at htodo
  exact ⟨rfl, htodo, compared.split distinct, c', rfl, same₀.trans same'⟩

/-- What a survey has prepared: its files are split into those that were parsed and those of which
a module was stored, the outcome accounts for the former, and no record has changed. -/
structure Prepared.Recorded (g : Prepared) (c : Cache) (t : Tree) (discovered : List Path) :
    Prop where
  distinct : discovered.Pairwise fun p q => p.same q = false
  tree : g.tree = t
  handed : g.handed.Perm (discovered.filter (c.hasChanged t))
  split : (g.handed ++ g.stored.keys).Perm discovered
  accounted : (g.outcome.modules.keys ++ g.outcome.failures.map FailureRecord.path).Perm g.handed
  asked : ∀ p ∈ g.outcome.asked, p ∈ g.handed
  located : ∀ p ∈ g.outcome.modules.keys, ∃ x, t.locate p = .ok x
  modules : g.modules = merge g.stored g.outcome.modules
  edges : g.edges = g.modules.edges
  cache : ∃ c', g.pipeline.cache? = some c' ∧ Cache.SameRecords c c'

namespace Prepared.Recorded

variable {g : Prepared}

theorem handed_nodup (h : g.Recorded c t discovered) : g.handed.Nodup :=
  h.handed.nodup_iff.mpr (Path.nodup_of_distinct (h.distinct.filter _))

/-- A file that was parsed was discovered, and its module is among those of the survey. -/
theorem mem_parsed (h : g.Recorded c t discovered) (hp : p ∈ g.outcome.modules.keys) :
    p ∈ discovered ∧ ∃ m, g.modules.get? p = some m := by
  have hhanded := h.accounted.mem_iff.mp (List.mem_append_left _ hp)
  refine ⟨List.mem_of_mem_filter (h.handed.mem_iff.mp hhanded), ?_⟩
  obtain ⟨e, he, rfl⟩ := List.mem_map.mp hp
  have hcontains : g.modules.contains e.1 = true := by
    rw [h.modules]
    exact PathMap.contains_foldl_insert (.inr ⟨e, he, Path.same_refl _⟩)
  rw [PathMap.contains_eq_isSome] at hcontains
  exact Option.isSome_iff_exists.mp hcontains

/-- A module was stored of each discovered file that is not parsed. -/
theorem skipped (h : g.Recorded c t discovered) :
    g.stored.size = (discovered.filter fun p => p ∉ g.handed).length := by
  have distinct : (g.handed ++ g.stored.keys).Nodup :=
    h.split.nodup_iff.mpr (Path.nodup_of_distinct h.distinct)
  have hstored : ∀ p ∈ g.stored.keys, decide (p ∉ g.handed) = true := fun p hp =>
    decide_eq_true fun hhanded => List.disjoint_of_nodup_append distinct hhanded hp
  have hhanded : ∀ p ∈ g.handed, ¬ decide (p ∉ g.handed) = true := by simp
  rw [← (h.split.filter fun p => p ∉ g.handed).length_eq, List.filter_append,
    List.filter_eq_nil_iff.mpr hhanded, List.filter_eq_self.mpr hstored, List.nil_append]
  exact (List.length_map _).symm

end Prepared.Recorded

/-- The stages of a survey before the storing. -/
theorem prepare_recorded (hc : q.cache? = some c) (backed : Backed K home c t)
    (hfp : PlainNames c.fingerprint) {roots : List Path}
    (keys : ∀ p ∈ q.discovery.run t roots, K (t.key p)) (parser : Parser) :
    (q.prepare t parser roots).Recorded c t (q.discovery.run t roots) := by
  generalize hg : q.prepare t parser roots = g
  obtain ⟨q₁, q₂, q₃, q₄, h₁, hdiff, h₂, hparse, h₃, -, hmodules, hedges⟩ := prepare_cases hg
  have distinct : (q.discovery.run t roots).Pairwise fun p q => p.same q = false :=
    Discovery.run_distinct _ _ _
  obtain ⟨tree, handed, split, c₁, hc₁, same⟩ :=
    diff_recorded (h₁.cache.trans hc) backed hfp distinct keys hdiff
  obtain ⟨ho, -, hcache⟩ := parse_cases hparse
  rw [tree] at ho
  have finished := q₃.processor.processFiles_finishes t parser g.handed
  rw [ho] at finished
  have hdistinct : g.handed.Pairwise fun p q => p.same q = false :=
    (handed.pairwise_iff fun h => Path.not_same_symm h).mpr (distinct.filter _)
  have workers := q₃.processor.one_le_workerCap g.handed.length
  obtain ⟨accounted, asked⟩ := finished.files workers hdistinct
  obtain ⟨hparsed, -⟩ := finished.settled workers hdistinct
  refine ⟨distinct, tree, handed, split, accounted, asked, fun p hp => ?_, hmodules, hedges, ?_⟩
  · rw [hparsed] at hp
    exact Workplace.located_of_mem_modulesOf hp
  · rw [h₃.cache]
    rcases hcache with hcache | hcache
    · exact ⟨c₁, hcache.trans (h₂.cache.trans hc₁), same⟩
    · refine ⟨c₁.clearMemory, ?_, same.trans (.clearMemory c₁)⟩
      rw [hcache, h₂.cache, hc₁]
      rfl

/-- Storing the results of some files succeeds for each of them. -/
def AllStored (c : Cache) (t : Tree) (modules : PathMap Module) (edges : List Edge) :
    List Path → Prop
  | [] => True
  | p :: rest =>
    match modules.get? p with
    | none => AllStored c t modules edges rest
    | some m =>
      let result := c.store t p m (edges.filter fun e => m.path.same e.sourcePath) 0
      (∃ stamp, result.2.2 = .ok stamp) ∧ AllStored result.1 result.2.1 modules edges rest

end Pipeline

/-! ## Storing -/

namespace Course

variable {course : Course} {V : List Visit} {v : Visit} {f : Findings} {c c' : Cache} {t t' : Tree}
  {p k : Path} {x : Place × Node}

/-- A visit and what was found on it, of which the machine holds the numbers and instants: the sizes
and times of the files, the present time, the numbers of the modules and the number of the edges. -/
structure Fitting (course : Course) (v : Visit) (f : Findings) : Prop where
  now : v.tree.now.Dated
  files : ∀ p ∈ course.files v, ∀ bytes changed, v.tree.state? p = some (bytes, changed) →
    bytes.length < Json.wordLimit ∧ changed.Dated
  modules : ∀ e ∈ f.modules.entries, e.2.Sized
  edges : f.edges.length < Json.wordLimit

/-- A record was made under some settings and says what a file holds and when it was changed. -/
structure Describes (course : Course) (settingsDigest : String) (r : IndexRecord)
    (bytes : List UInt8) (changed : Instant) : Prop where
  settings : r.settingsDigest = settingsDigest
  size : r.stamp.size = bytes.length
  changed : r.stamp.changed? = some changed
  digest : r.stamp.digest = course.site.fingerprint bytes

/-- The stamp of a file after other files were stored. -/
theorem stamp_of_located (law : course.Lawful V) (hv : v ∈ V) (hp : p ∈ course.files v)
    (houses : v.tree.Houses course.site.directory course.site.home)
    (hw : Rewrites course.site.home v.tree t) (located : v.tree.locate p = .ok x)
    {stamp : FileStamp} (hs : c.stamp? t p = some stamp) :
    (v.tree.key p).Nameable ∧ ∃ bytes changed, v.tree.state? p = some (bytes, changed) ∧
      stamp = { path := v.tree.key p, digest := c.fingerprint bytes, size := bytes.length
                changed? := some changed, parsedAt := v.tree.now } := by
  obtain ⟨place, bytes, changed, hout, hl⟩ := law.located hv hp (Tree.nameable_of_locate located)
  have hkey := law.key_eq hv hp houses hw
  obtain ⟨place', bytes', changed', hk, hstamp⟩ := Cache.stamp?_eq hs
  have hl' := (law.locate_eq hv hp houses hw).trans hl
  have hnameable := Tree.nameable_of_locate hk
  have hk' := ((law.rooted v hv).within hw.toWithin).locate_key_of_nameable hl' hout hnameable
  obtain ⟨-, hnode⟩ := Prod.mk.inj (Except.ok.inj (hk.symm.trans hk'))
  obtain ⟨rfl, rfl⟩ := Node.file.inj hnode
  rw [hkey, hw.now] at hstamp
  rw [hkey] at hnameable
  exact ⟨hnameable, bytes', changed', Tree.state?_of_locate hl, hstamp⟩

/-- The entry for a parsed file of a visit fits the machine. -/
theorem Fitting.entryFor (fitting : course.Fitting v f) (hedges : f.edges = f.modules.edges)
    (version : c.formatVersion < 2 ^ 32) (hp : p ∈ course.files v) {m : Module}
    (hm : f.modules.get? p = some m) {bytes : List UInt8} {changed : Instant}
    (hs : v.tree.state? p = some (bytes, changed)) (now : t.now = v.tree.now) (own : Edge → Bool) :
    (c.entryFor t { path := k, digest := c.fingerprint bytes, size := bytes.length
                    changed? := some changed, parsedAt := v.tree.now } m
      (f.edges.filter own) 0).Sized := by
  obtain ⟨size, dated⟩ := fitting.files p hp bytes changed hs
  obtain ⟨q, hq, -⟩ := PathMap.exists_of_get? hm
  have hnow : t.now.Dated := by
    rw [now]
    exact fitting.now
  have hzero : 0 < Json.wordLimit := by decide
  refine ⟨⟨size, ?_, fitting.now, hzero, ?_⟩, fitting.modules (q, m) hq, ?_, hnow, version⟩
  · intro t ht
    rwa [← Option.some.inj ht]
  · exact Nat.lt_of_le_of_lt (List.length_filter_le own _) fitting.edges
  · intro e he
    have he := List.mem_of_mem_filter he
    rw [hedges] at he
    exact PathMap.edges_sized fitting.modules e he

/-- Storing the result of a file puts a record that describes it under its key. -/
theorem store_recorded (law : course.Lawful V) (hv : v ∈ V)
    (houses : v.tree.Houses course.site.directory course.site.home)
    (fitting : course.Fitting v f) (hedges : f.edges = f.modules.edges)
    (version : c.formatVersion < 2 ^ 32) (fingerprint : c.fingerprint = course.site.fingerprint)
    (hp : p ∈ course.files v) (located : v.tree.locate p = .ok x) {m : Module}
    (hm : f.modules.get? p = some m) (backed : Backed (course.Keys V) course.site.home c t)
    (hw : Rewrites course.site.home v.tree t) {own : Edge → Bool} {stamp : FileStamp}
    (hs : c.store t p m (f.edges.filter own) 0 = (c', t', .ok stamp)) :
    Backed (course.Keys V) course.site.home c' t' ∧ Rewrites course.site.home v.tree t' ∧
      Cache.SameSetup c c' ∧ (v.tree.key p).Nameable ∧ ∃ r bytes changed,
        c'.index = c.index.insert (v.tree.key p) r ∧ v.tree.state? p = some (bytes, changed) ∧
          course.Describes c.settingsDigest r bytes changed := by
  have hkey := law.key_eq hv hp houses hw
  have hk : course.Keys V (t.key p) := ⟨v, hv, p, hp, hkey⟩
  have sized : ∀ stamp, c.stamp? t p = some stamp →
      (c.entryFor t stamp m (f.edges.filter own) 0).Sized := by
    intro stamp hstamp
    obtain ⟨-, bytes, changed, hstate, rfl⟩ :=
      stamp_of_located law hv hp houses hw located hstamp
    exact fitting.entryFor hedges version hp hm hstate hw.now _
  have hplain : PlainNames c.fingerprint := by
    rw [fingerprint]
    exact course.site.plain
  have hunambiguous : Unambiguous c.fingerprint (course.Keys V) := by
    rw [fingerprint]
    exact law.unambiguous
  obtain ⟨backed', rewrites, setup, stamp', hstamp, index⟩ :=
    backed.store hplain hunambiguous hk sized hs
  obtain ⟨nameable, bytes, changed, hstate, rfl⟩ :=
    stamp_of_located law hv hp houses hw located hstamp
  rw [hkey] at index
  exact ⟨backed', hw.trans rewrites, setup, nameable, _, bytes, changed, index, hstate,
    ⟨rfl, rfl, rfl, congrFun fingerprint bytes⟩⟩

/-- No other file of a visit is remembered under the key of a file. -/
theorem key_apart (law : course.Lawful V) (hv : v ∈ V) (hp : p ∈ course.files v)
    {paths : List Path} (discovered : ∀ q ∈ paths, q ∈ course.files v) (hnot : p ∉ paths) :
    ∀ q ∈ paths, (v.tree.key p).same (v.tree.key q) = false := by
  intro q hq
  cases hsame : (v.tree.key p).same (v.tree.key q) with
  | false => rfl
  | true =>
    obtain rfl := law.unmixed v hv v hv p hp q (discovered q hq) hsame
    exact absurd hq hnot

/-- Storing the results of some files puts a record of each into the index and leaves the records of
all others. -/
theorem storeAll_recorded (law : course.Lawful V) (hv : v ∈ V)
    (houses : v.tree.Houses course.site.directory course.site.home)
    (fitting : course.Fitting v f) (hedges : f.edges = f.modules.edges)
    (version : c.formatVersion < 2 ^ 32) (fingerprint : c.fingerprint = course.site.fingerprint)
    {paths : List Path} (discovered : ∀ p ∈ paths, p ∈ course.files v)
    (located : ∀ p ∈ paths, ∃ x, v.tree.locate p = .ok x)
    (found : ∀ p ∈ paths, ∃ m, f.modules.get? p = some m)
    (backed : Backed (course.Keys V) course.site.home c t)
    (hw : Rewrites course.site.home v.tree t)
    (all : Pipeline.AllStored c t f.modules f.edges paths)
    (hs : Pipeline.storeAll c t f.modules f.edges paths = (c', t')) :
    Backed (course.Keys V) course.site.home c' t' ∧ Rewrites course.site.home v.tree t' ∧
      Cache.SameSetup c c' ∧
      (∀ p ∈ paths, (v.tree.key p).Nameable ∧ ∃ r bytes changed,
        c'.index.get? (v.tree.key p) = some r ∧ v.tree.state? p = some (bytes, changed) ∧
          course.Describes c.settingsDigest r bytes changed) ∧
      ∀ k, (∀ p ∈ paths, k.same (v.tree.key p) = false) → c'.index.get? k = c.index.get? k := by
  induction paths generalizing c t with
  | nil =>
    obtain ⟨rfl, rfl⟩ := Prod.mk.inj hs
    exact ⟨backed, hw, .refl c, nofun, fun _ _ => rfl⟩
  | cons p rest ih =>
    obtain ⟨hp, hdiscovered⟩ := List.forall_mem_cons.mp discovered
    obtain ⟨⟨x, hlocated⟩, located⟩ := List.forall_mem_cons.mp located
    obtain ⟨⟨m, hm⟩, found⟩ := List.forall_mem_cons.mp found
    unfold Pipeline.storeAll at hs
    unfold Pipeline.AllStored at all
    rw [hm] at hs all
    dsimp only at hs all
    generalize hst : c.store t p m (f.edges.filter fun e => m.path.same e.sourcePath) 0 = stored
      at hs all
    obtain ⟨c₁, t₁, r⟩ := stored
    obtain ⟨⟨stamp, hok⟩, all⟩ := all
    obtain rfl : r = .ok stamp := hok
    obtain ⟨backed₁, hw₁, setup₁, nameable, r, bytes, changed, index₁, hstate, describes⟩ :=
      store_recorded law hv houses fitting hedges version fingerprint hp hlocated hm backed hw hst
    obtain ⟨backed', hw', setup, recorded, kept⟩ := ih (by rwa [setup₁.formatVersion])
      (setup₁.fingerprint.trans fingerprint) hdiscovered located found backed₁ hw₁ all hs
    refine ⟨backed', hw', setup₁.trans setup, fun q hq => ?_, fun k hfresh => ?_⟩
    · by_cases hrest : q ∈ rest
      · rw [← setup₁.settingsDigest]
        exact recorded q hrest
      · obtain rfl : q = p := (List.mem_cons.mp hq).resolve_right hrest
        refine ⟨nameable, r, bytes, changed, ?_, hstate, describes⟩
        rw [kept _ (key_apart law hv hp hdiscovered hrest), index₁, PathMap.get?_insert,
          if_pos (Path.same_refl _)]
    · obtain ⟨hne, hfresh⟩ := List.forall_mem_cons.mp hfresh
      rw [kept k hfresh, index₁, PathMap.get?_insert, if_neg (by simp [hne])]

/-- Storing what was parsed and writing the index. -/
theorem persist_recorded (law : course.Lawful V) (hv : v ∈ V)
    (backed : Backed (course.Keys V) course.site.home c v.tree)
    (directory : c.directory = course.site.directory)
    (fingerprint : c.fingerprint = course.site.fingerprint) (version : c.formatVersion < 2 ^ 32)
    {g : Pipeline.Prepared} (h : g.Recorded c v.tree (course.files v))
    (fitting : course.Fitting v g.findings) {q q' : Pipeline} (hq : q.cache? = g.pipeline.cache?)
    (all : ∀ c, g.pipeline.cache? = some c →
      Pipeline.AllStored c g.tree g.modules g.edges g.outcome.modules.keys)
    (hp : q.persist g.tree g.outcome.modules.keys g.modules g.edges = (q', t', .ok ())) :
    ∃ c', q'.cache? = some c' ∧ Backed (course.Keys V) course.site.home c' t' ∧
      Rewrites course.site.home v.tree t' ∧ c'.dirty = false ∧ Cache.SameSetup c c' ∧
      (∀ p ∈ g.outcome.modules.keys, (v.tree.key p).Nameable ∧ ∃ r bytes changed,
        c'.index.get? (v.tree.key p) = some r ∧ v.tree.state? p = some (bytes, changed) ∧
          course.Describes c.settingsDigest r bytes changed) ∧
      ∀ k, (∀ p ∈ g.outcome.modules.keys, k.same (v.tree.key p) = false) →
        c'.index.get? k = c.index.get? k := by
  obtain ⟨c₀, hc, same⟩ := h.cache
  have all := all c₀ hc
  have houses := backed.houses
  rw [directory] at houses
  unfold Pipeline.persist at hp
  rw [hq, hc] at hp
  dsimp only at hp
  rw [h.tree] at hp all
  rcases hs : Pipeline.storeAll c₀ v.tree g.modules g.edges g.outcome.modules.keys with ⟨c₁, t₁⟩
  rw [hs] at hp
  dsimp only at hp
  rcases hf : c₁.flush t₁ with ⟨c₂, t₂, r₂⟩
  rw [hf] at hp
  obtain ⟨rfl, rfl, rfl⟩ := Cache.triple_inj rfl hp
  obtain ⟨backed₁, hw₁, setup₁, recorded, kept⟩ := storeAll_recorded law hv houses fitting h.edges
    (by rwa [same.formatVersion]) (same.fingerprint.trans fingerprint)
    (fun p hp => (h.mem_parsed hp).1) h.located (fun p hp => (h.mem_parsed hp).2)
    (backed.same same) (.refl _) all hs
  obtain ⟨backed₂, rewrites, setup₂, index₂, clean⟩ := backed₁.flush hf
  rw [← index₂, same.index] at kept
  rw [← index₂, same.settingsDigest] at recorded
  exact ⟨c₂, rfl, backed₂, hw₁.trans rewrites, clean,
    (same.toSameSetup.trans setup₁).trans setup₂, recorded, kept⟩

end Course
end SourceSurvey
