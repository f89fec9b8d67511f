import SourceSurvey.Proofs.Pipeline.Gather

/-!
# Surveys that follow one another

A history (`Course.History`) starts with a pipeline that opens a cache in a directory in which
nothing is stored. Surveys follow one another, and between them files outside of the directory are
edited. The pipeline may be closed or lost, and another one opened at the same directory.

* `History.working`: at every moment the cache keeps genuine entries only.
* `History.transparent`: a survey finds what a survey without a cache finds on the same tree.
-/

namespace SourceSurvey

open Cache (Stored Keeps)
open SourceSurvey.Tree (Within)
open Session (Vacant)

/-- A change of a tree that leaves the home of a cache as it is, the tree rooted and the current
directory where it is. -/
structure Site.Spares (site : Site) (t t' : Tree) : Prop where
  houses : t.Houses site.directory site.home → t'.Houses site.directory site.home
  rooted : t.Rooted site.home → t'.Rooted site.home
  current : t'.current = t.current
  same : ∀ q, Below site.home q → t'.find? q = t.find? q

theorem Site.Spares.refl (site : Site) (t : Tree) : site.Spares t t :=
  ⟨id, id, rfl, fun _ _ => rfl⟩

/-- A cache is opened at a site, under whatever settings. -/
def Site.Opens (site : Site) (t t' : Tree) (c : Cache) : Prop :=
  ∃ settingsDigest capacity, Cache.openIn t site.directory settingsDigest capacity
    site.formatVersion site.fingerprint = (t', .ok c)

namespace Course

variable {course : Course} {V W : List Visit} {v : Visit} {c : Cache} {t t' t'' : Tree}
  {p p' q : Pipeline} {roots : List Path}

/-- The surveys of a course, the latest first, that have led to a pipeline and a tree. Nothing but
the caches writes below the home, and the export of a survey spares it too. A pipeline that is
closed writes the index of its cache, one that is lost does not. -/
inductive History (course : Course) : Pipeline → Tree → List Visit → Prop
  | start {p : Pipeline} {c : Cache} {t₀ t : Tree} (fits : course.Fits p) (cached : p.cache? = some c)
      (opened : course.site.Opens t₀ t c) (houses : t.Houses course.site.directory course.site.home)
      (vacant : Vacant course.site.home t) (rooted : t.Rooted course.site.home) :
      History course p t []
  | edit {p : Pipeline} {t t' : Tree} {V : List Visit} (h : History course p t V)
      (spared : course.site.Spares t t') : History course p t' V
  | run {p p' : Pipeline} {t t₁ t' : Tree} {V : List Visit} {roots : List Path}
      {r : Except Failure Survey} (h : History course p t V)
      (avoids : course.discovery.Avoids course.site.home t roots)
      (gathered : (p.gather t (reader course.parse t) roots).2.1 = t₁)
      (ran : p.run t (reader course.parse t) roots = (p', t', r))
      (spared : course.site.Spares t₁ t') : History course p' t' (⟨t, roots⟩ :: V)
  | reopen {p p' : Pipeline} {c : Cache} {t t₁ t' : Tree} {V : List Visit}
      (h : History course p t V) (left : t₁ = t ∨ t₁ = p.close t) (fits : course.Fits p')
      (cached : p'.cache? = some c) (opened : course.site.Opens t₁ t' c) : History course p' t' V

namespace Working

theorem opened (houses : t.Houses course.site.directory course.site.home)
    (stored : Stored course.site.fingerprint (course.Keys V) (course.Genuine V) course.site.home t)
    {t₀ : Tree} (h : course.site.Opens t₀ t c) : course.Working V c t := by
  obtain ⟨settingsDigest, capacity, h⟩ := h
  obtain ⟨recent, directory, -, fingerprint, -⟩ := Cache.openIn_ok h
  exact ⟨.opened houses stored directory fingerprint recent, Cache.coherent_of_recent_nil recent,
    directory, fingerprint⟩

theorem stored (h : course.Working V c t) :
    Stored course.site.fingerprint (course.Keys V) (course.Genuine V) course.site.home t := by
  rw [← h.fingerprint]
  exact h.keeps.stored

/-- A cache works on when the tree has changed elsewhere. -/
theorem spared (h : course.Working V c t) (hs : course.site.Spares t t') :
    course.Working V c t' := by
  refine ⟨⟨?_, ?_, h.keeps.recent⟩, h.coherent, h.directory, h.fingerprint⟩
  · rw [h.directory]
    exact hs.houses h.houses
  · refine h.keeps.stored.mono fun k _ n hn => ?_
    rwa [hs.same _ (Cache.below_payloadPlace k)] at hn

/-- A cache that is opened where another one was closed or lost works on, and nothing but the home
has changed. -/
theorem reopened (h : course.Working V c t) (hc : p.cache? = some c) {t₁ : Tree} {c' : Cache}
    (left : t₁ = t ∨ t₁ = p.close t) (ho : course.site.Opens t₁ t' c') :
    course.Working V c' t' ∧ Within course.site.home t t' := by
  have closed : t₁.Houses course.site.directory course.site.home ∧
      Stored course.site.fingerprint (course.Keys V) (course.Genuine V) course.site.home t₁ ∧
      Within course.site.home t t₁ := by
    rcases left with rfl | rfl
    · exact ⟨h.houses, h.stored, .refl _⟩
    · unfold Pipeline.close
      rw [hc]
      dsimp only
      rcases hf : c.flush t with ⟨c₂, t₂, r⟩
      obtain ⟨⟨houses, stored, -⟩, rewrites, setup⟩ := h.keeps.flush hf
      rw [setup.directory, h.directory] at houses
      rw [setup.fingerprint, h.fingerprint] at stored
      exact ⟨houses, stored, rewrites.toWithin⟩
  obtain ⟨houses₁, stored₁, within₁⟩ := closed
  obtain ⟨settingsDigest, capacity, hopen⟩ := ho
  obtain ⟨houses, stored, within⟩ := stored₁.openIn houses₁ hopen
  exact ⟨.opened houses stored ⟨settingsDigest, capacity, hopen⟩, within₁.trans within⟩

end Working

theorem Occurs.mono (visited : ∀ v ∈ V, v ∈ W) {bytes : List UInt8} (h : course.Occurs V bytes) :
    course.Occurs W bytes := by
  cases h with
  | content hv hp hc => exact .content (visited _ hv) hp hc
  | key hv hp => exact .key (visited _ hv) hp

theorem Unmixed.of_cons (h : course.Unmixed (v :: V)) : course.Unmixed V :=
  fun a ha b hb => h a (List.mem_cons_of_mem _ ha) b (List.mem_cons_of_mem _ hb)

theorem CollisionFree.of_cons (h : course.CollisionFree (v :: V)) : course.CollisionFree V := by
  have visited : ∀ a ∈ V, a ∈ v :: V := fun a ha => List.mem_cons_of_mem _ ha
  exact fun b b' hb hb' => h b b' (hb.mono visited) (hb'.mono visited)

theorem Lawful.cons (law : course.Lawful V) (rooted : t.Rooted course.site.home)
    (avoids : course.discovery.Avoids course.site.home t roots)
    (current : ∀ v ∈ V, v.tree.current = t.current) (unmixed : course.Unmixed (⟨t, roots⟩ :: V))
    (collisionFree : course.CollisionFree (⟨t, roots⟩ :: V)) :
    course.Lawful (⟨t, roots⟩ :: V) where
  rooted := List.forall_mem_cons.mpr ⟨rooted, law.rooted⟩
  avoids := List.forall_mem_cons.mpr ⟨avoids, law.avoids⟩
  current := by
    have hall : ∀ v ∈ ⟨t, roots⟩ :: V, v.tree.current = t.current :=
      List.forall_mem_cons.mpr ⟨rfl, current⟩
    exact fun a ha b hb => (hall a ha).trans (hall b hb).symm
  unmixed := unmixed
  collisionFree := collisionFree

namespace History

/-- A survey gathers, and then exports what it has found. -/
theorem run_cases {parser : Parser} {r : Except Failure Survey}
    (h : p.run t parser roots = (p', t', r)) :
    ∃ p₁ t₁ g, p.gather t parser roots = (p₁, t₁, g) ∧ p'.cache? = p₁.cache? ∧
      Pipeline.SameSetup p₁ p' ∧ (∀ s, r = .ok s → g = .ok s.toFindings) ∧
      (p₁.exporter = .none → t' = t₁ ∧ ∀ found, g = .ok found → ∃ s, r = .ok s) := by
  unfold Pipeline.run at h
  rcases hg : p.gather t parser roots with ⟨p₁, t₁, g⟩
  rw [hg] at h
  refine ⟨p₁, t₁, g, rfl, ?_⟩
  cases g with
  | error e =>
    obtain ⟨rfl, rfl, rfl⟩ := Cache.triple_inj rfl h
    exact ⟨rfl, ⟨rfl, rfl, rfl, rfl⟩, nofun, fun _ => ⟨rfl, nofun⟩⟩
  | ok found =>
    dsimp only at h
    rcases he : p₁.during .export fun p => (p, p.exporter.run t₁ found.modules found.edges) with
      ⟨p₂, t₂, result⟩
    rw [he] at h
    obtain ⟨exported, b, hb, hrun⟩ := Pipeline.during_pure he
    cases result with
    | error e =>
      obtain ⟨rfl, rfl, rfl⟩ := Cache.triple_inj rfl h
      refine ⟨exported.cache, exported.toSameSetup, nofun, fun hnone => ?_⟩
      rw [hb.exporter, hnone] at hrun
      exact nomatch hrun
    | ok summary =>
      obtain ⟨rfl, rfl, rfl⟩ := Cache.triple_inj rfl h
      refine ⟨exported.cache, exported.toSameSetup, ?_, fun hnone => ⟨?_, fun _ _ => ⟨_, rfl⟩⟩⟩
      · intro s hs
        rw [← Except.ok.inj hs]
      · rw [hb.exporter, hnone] at hrun
        exact (Prod.mk.inj hrun).1.symm

/-- At every moment of a history the cache keeps genuine entries only. -/
theorem working (h : course.History p t V)
    (law : course.Lawful W) (visited : ∀ v ∈ V, v ∈ W) :
    course.Fits p ∧ ∃ c, p.cache? = some c ∧ course.Working W c t := by
  induction h with
  | start fits cached opened houses vacant rooted =>
    refine ⟨fits, _, cached, .opened houses ?_ opened⟩
    intro k hk bytes changed hf
    rw [vacant _ (Cache.below_payloadPlace k) (Cache.payloadPlace_ne_entries k)] at hf
    exact nomatch hf
  | edit h spared ih =>
    obtain ⟨fits, c, hc, working⟩ := ih visited
    exact ⟨fits, c, hc, working.spared spared⟩
  | run h avoids gathered ran spared ih =>
    obtain ⟨hv, visited⟩ := List.forall_mem_cons.mp visited
    obtain ⟨fits, c, hc, working⟩ := ih visited
    obtain ⟨p₁, t₁, g, hg, hcache, setup, -⟩ := run_cases ran
    rw [hg] at gathered
    subst gathered
    obtain ⟨⟨c₁, hc₁, working₁, -⟩, setup₁, -⟩ := gather_spec law hv fits hc working hg
    exact ⟨(fits.trans setup₁).trans setup, c₁, hcache.trans hc₁, working₁.spared spared⟩
  | reopen h left fits cached opened ih =>
    obtain ⟨-, c, hc, working⟩ := ih visited
    exact ⟨fits, _, cached, (working.reopened hc left opened).1⟩

/-- The visits of a history are lawful if no two of its paths stand for one file and the
fingerprint tells apart what it is asked for. -/
theorem lawful (h : course.History p t V)
    (unmixed : course.Unmixed V) (collisionFree : course.CollisionFree V) :
    course.Lawful V ∧ t.Rooted course.site.home ∧ ∀ v ∈ V, v.tree.current = t.current := by
  induction h with
  | start fits cached opened houses vacant rooted =>
    exact ⟨⟨nofun, nofun, nofun, unmixed, collisionFree⟩, rooted, nofun⟩
  | edit h spared ih =>
    obtain ⟨law, rooted, current⟩ := ih unmixed collisionFree
    exact ⟨law, spared.rooted rooted, fun v hv => (current v hv).trans spared.current.symm⟩
  | run h avoids gathered ran spared ih =>
    obtain ⟨law, rooted, current⟩ := ih unmixed.of_cons collisionFree.of_cons
    have law' := law.cons rooted avoids current unmixed collisionFree
    obtain ⟨fits, c, hc, working⟩ := h.working law' fun v hv => List.mem_cons_of_mem _ hv
    obtain ⟨p₁, t₁, g, hg, -⟩ := run_cases ran
    rw [hg] at gathered
    subst gathered
    obtain ⟨-, -, rewrites, -⟩ := gather_spec law' List.mem_cons_self fits hc working hg
    have hcurrent := spared.current.trans rewrites.current
    refine ⟨law', spared.rooted (rooted.within rewrites.toWithin), fun v hv => ?_⟩
    rcases List.mem_cons.mp hv with rfl | hv
    · exact hcurrent.symm
    · exact (current v hv).trans hcurrent.symm
  | reopen h left fits cached opened ih =>
    obtain ⟨law, rooted, current⟩ := ih unmixed collisionFree
    obtain ⟨-, c, hc, working⟩ := h.working law fun v hv => hv
    have within := (working.reopened hc left opened).2
    exact ⟨law, rooted.within within, fun v hv => (current v hv).trans within.current.symm⟩

/-- A survey of a history finds what a survey without a cache finds on the same tree: the same
modules, the same edges and, in whatever order, the same failures. -/
theorem transparent (h : course.History p t V)
    (avoids : course.discovery.Avoids course.site.home t roots)
    (unmixed : course.Unmixed (⟨t, roots⟩ :: V))
    (collisionFree : course.CollisionFree (⟨t, roots⟩ :: V)) {s : Survey}
    (ran : p.run t (reader course.parse t) roots = (p', t', .ok s)) (fits : course.Fits q)
    (uncached : q.cache? = none) :
    (∀ q' t'' s', q.run t (reader course.parse t) roots = (q', t'', .ok s') →
      s.modules = s'.modules ∧ s.edges = s'.edges ∧ s.failures.Perm s'.failures) ∧
    (q.exporter = .none → ∃ q' s', q.run t (reader course.parse t) roots = (q', t, .ok s')) := by
  obtain ⟨law, rooted, current⟩ := h.lawful unmixed.of_cons collisionFree.of_cons
  have law' := law.cons rooted avoids current unmixed collisionFree
  obtain ⟨fits', c, hc, working⟩ := h.working law' fun v hv => List.mem_cons_of_mem _ hv
  obtain ⟨p₁, t₁, g, hg, -, -, hok, -⟩ := run_cases ran
  obtain ⟨-, -, -, found, -⟩ := gather_spec law' List.mem_cons_self fits' hc working hg
  obtain ⟨finds, edges⟩ := found _ (hok s rfl)
  have readable : course.discovery.Readable t roots := by
    rw [hok s rfl] at hg
    exact fits'.discovery ▸ Pipeline.readable_of_gather hg
  obtain ⟨q₁, found', hg', setup, finds', edges'⟩ := gather_uncached ⟨t, roots⟩ readable fits uncached
  constructor
  · intro q' t'' s' ran'
    obtain ⟨q₂, t₂, g', hg₂, -, -, hok', -⟩ := run_cases ran'
    obtain ⟨-, -, hfound⟩ := Cache.triple_inj hg' hg₂
    obtain rfl := Except.ok.inj (hfound.trans (hok' s' rfl))
    have hmodules := finds.modules.trans finds'.modules.symm
    refine ⟨hmodules, ?_, finds.failures.trans finds'.failures.symm⟩
    rw [edges, edges', hmodules]
  · intro hnone
    rcases hr : q.run t (reader course.parse t) roots with ⟨q', t'', r⟩
    obtain ⟨q₂, t₂, g', hg₂, -, -, -, hexport⟩ := run_cases hr
    obtain ⟨rfl, rfl, hfound⟩ := Cache.triple_inj hg' hg₂
    obtain ⟨rfl, hs⟩ := hexport (setup.exporter.trans hnone)
    obtain ⟨s', rfl⟩ := hs found' hfound.symm
    exact ⟨q', s', rfl⟩

end History

/-! ## Two surveys that follow one another -/

/-- A course without patterns whose parser makes a module of each file. -/
def beside : Course where
  site := .hashed
  discovery := ⟨[], [], false⟩
  largeFiles := Processor.narrow.largeFiles
  maxRetries := Processor.narrow.settings.maxRetries
  parse p _ := .answered (.ok ⟨p, "f", [], [], [], [], 0, 1⟩)

/-- A pipeline of the course that exports nothing. -/
def pipelineBeside (cache? : Option Cache) : Pipeline :=
  { cache?, discovery := beside.discovery, processor := .narrow }

/-- A path leads to the file of the tree. -/
def Stands (t : Tree) : Prop := t.locate ⟨"/f"⟩ = .ok (["f"], .file [47, 102] ⟨0, 0⟩)

theorem Stands.rewrites (h : Stands t) (houses : t.Houses ⟨"/c"⟩ ["c"])
    (hw : Tree.Rewrites ["c"] t t') : Stands t' := by
  refine Tree.locate_mono h hw.current fun q n hq hk => hw.keep houses hq ?_
  rcases hk with hk | rfl
  · exact .inl hk
  · exact .inr (by decide)

theorem Stands.key (h : Stands t) : t.key ⟨"/f"⟩ = ⟨"/f"⟩ := by
  rw [Tree.key_of_locate h]
  decide

theorem Stands.files (h : Stands t) : beside.files ⟨t, [⟨"/f"⟩]⟩ = [⟨"/f"⟩] := by
  unfold Course.files Discovery.run Discovery.filesOf
  rw [List.flatMap_singleton, h]
  rfl

theorem Stands.readable (h : Stands t) : beside.discovery.Readable t [⟨"/f"⟩] := by
  refine List.forall_mem_singleton.mpr ?_
  unfold Discovery.unreadable?
  rw [h]

theorem Stands.avoids (h : Stands t) : beside.discovery.Avoids ["c"] t [⟨"/f"⟩] := by
  rintro root hroot p place (⟨hl, -⟩ | ⟨hl, -⟩)
  · rw [List.mem_singleton.mp hroot, h] at hl
    obtain ⟨rfl, -⟩ := Prod.mk.inj (Except.ok.inj hl)
    decide
  · rw [List.mem_singleton.mp hroot, h] at hl
    exact nomatch hl

/-- Surveys of the file of the tree. -/
def Surveys (V : List Visit) : Prop := ∀ v ∈ V, v.roots = [⟨"/f"⟩] ∧ Stands v.tree

theorem Surveys.mem_files (h : Surveys V) (hv : v ∈ V) {p : Path} (hp : p ∈ beside.files v) :
    p = ⟨"/f"⟩ := by
  obtain ⟨t, roots⟩ := v
  obtain ⟨rfl, stands⟩ := h _ hv
  rw [stands.files] at hp
  exact List.mem_singleton.mp hp

theorem Surveys.unmixed (h : Surveys V) : beside.Unmixed V :=
  fun _ hv _ hv' _ hp _ hp' _ => (h.mem_files hv hp).trans (h.mem_files hv' hp').symm

theorem Surveys.collisionFree (h : Surveys V) : beside.CollisionFree V := by
  have hall (b : List UInt8) (hb : beside.Occurs V b) : b = [47, 102] := by
    cases hb with
    | content hv hp hc =>
      rw [h.mem_files hv hp, Tree.content_file (h _ hv).2] at hc
      exact (Option.some.inj (Except.ok.inj hc)).symm
    | key hv hp =>
      rw [h.mem_files hv hp, (h _ hv).2.key, Text.toList_data]
      rfl
  exact fun b b' hb hb' _ => (hall b hb).trans (hall b' hb').symm

theorem roomy_beside {c : Cache} (directory : c.directory = ⟨"/c"⟩) (drafts : c.drafts ≤ 2)
    (made : t.find? ["c", "entries"] = some .directory) : beside.Roomy c t 1 := by
  have hpieces : (⟨"/c"⟩ : Path).pieces = ["", "c"] := by decide
  have hdir : (⟨"/c"⟩ : Path).Nameable := by
    refine ⟨⟨by decide, by decide⟩, ?_⟩
    rw [hpieces]
    decide
  refine ⟨made, ?_, fun n hn => ?_⟩
  · unfold Cache.indexPath
    rw [directory]
    exact hdir.join (by decide) (by decide) (by decide) (by decide)
  · rw [directory]
    obtain rfl | rfl | rfl | rfl : n = 0 ∨ n = 1 ∨ n = 2 ∨ n = 3 := by omega
    · exact hdir.join (by decide) (by decide) (by decide) (by decide)
    · exact hdir.join (by decide) (by decide) (by decide) (by decide)
    · exact hdir.join (by decide) (by decide) (by decide) (by decide)
    · exact hdir.join (by decide) (by decide) (by decide) (by decide)

/-- The second of two surveys finds what a survey without a cache finds. -/
theorem History.transparent_beside :
    ∃ (p p' q q' : Pipeline) (t t' : Tree) (v : Visit) (s s' : Survey), beside.History p t [v] ∧ q.cache? = none ∧
      p.run t (reader beside.parse t) [⟨"/f"⟩] = (p', t', .ok s) ∧
      q.run t (reader beside.parse t) [⟨"/f"⟩] = (q', t, .ok s') ∧
      s.modules = s'.modules ∧ s.edges = s'.edges ∧ s.failures.Perm s'.failures := by
  let c : Cache := .first .hashed "A"
  let p := pipelineBeside (some c)
  have fits : beside.Fits p := ⟨rfl, rfl, rfl⟩
  have hbare : ∀ e ∈ Tree.beside.nodes, ¬ Below ["c"] e.1 := by decide
  have vacant : Vacant ["c"] .housed := by
    intro q hq hne
    unfold Tree.housed
    rw [Tree.find?_put _ (by decide)]
    exact (if_neg hne).trans (Tree.find?_of_bare hbare hq)
  have rooted : Tree.housed.Rooted ["c"] := ⟨by decide, by decide, by decide⟩
  have hstart : beside.History p .housed [] :=
    .start fits rfl ⟨"A", 1, Cache.openIn_beside "A"⟩ Tree.houses_housed vacant rooted
  have hstands : Stands .housed := Tree.locate_housed
  -- The first survey.
  let v : Visit := ⟨.housed, [⟨"/f"⟩]⟩
  have hv : Surveys [v] := List.forall_mem_singleton.mpr ⟨rfl, hstands⟩
  have law : beside.Lawful [v] := (hstart.lawful nofun nofun).1.cons rooted hstands.avoids nofun
    hv.unmixed hv.collisionFree
  obtain ⟨-, c₀, hc, working⟩ := hstart.working law nofun
  obtain rfl : c = c₀ := Option.some.inj hc
  rcases hrun : p.run .housed (reader beside.parse .housed) [⟨"/f"⟩] with ⟨p', t, r⟩
  obtain ⟨p₁, t₁, g, hg, hcache, setup₁, -, hnone⟩ := History.run_cases hrun
  obtain ⟨⟨c', hc', working', drafts⟩, setup, rewrites, -⟩ :=
    gather_spec law List.mem_cons_self fits hc working hg
  obtain ⟨rfl, -⟩ := hnone setup.exporter
  have hsecond : beside.History p' t [v] :=
    hstart.run hstands.avoids (by rw [hg]) hrun (.refl _ _)
  -- The second survey.
  have hstands' : Stands t := hstands.rewrites Tree.houses_housed rewrites
  have hv' : Surveys [⟨t, [⟨"/f"⟩]⟩, v] := List.forall_mem_cons.mpr ⟨⟨rfl, hstands'⟩, hv⟩
  have law' : beside.Lawful [⟨t, [⟨"/f"⟩]⟩, v] :=
    (hsecond.lawful hv.unmixed hv.collisionFree).1.cons (rooted.within rewrites.toWithin)
      hstands'.avoids (List.forall_mem_singleton.mpr rewrites.current.symm) hv'.unmixed
      hv'.collisionFree
  obtain ⟨fits', c₂, hc₂, working₂⟩ := hsecond.working law' fun a ha => List.mem_cons_of_mem _ ha
  obtain rfl : c' = c₂ := Option.some.inj ((hcache.trans hc').symm.trans hc₂)
  rcases hrun' : p'.run t (reader beside.parse t) [⟨"/f"⟩] with ⟨p'', t', r'⟩
  obtain ⟨p₂, t₂, g', hg', -, -, -, hnone'⟩ := History.run_cases hrun'
  obtain ⟨-, setup₂, -, -, hok⟩ := gather_spec law' List.mem_cons_self fits' hc₂ working₂ hg'
  have room : beside.Roomy c' t (beside.files ⟨t, [⟨"/f"⟩]⟩).length := by
    rw [hstands.files] at drafts
    rw [hstands'.files]
    exact roomy_beside working'.directory drafts (rewrites.entries.trans rfl)
  obtain ⟨found, rfl⟩ := hok hstands'.readable room
  obtain ⟨s, rfl⟩ := (hnone' (setup₂.exporter.trans (setup₁.exporter.trans setup.exporter))).2
    found rfl
  obtain ⟨same, hq⟩ := hsecond.transparent (q := pipelineBeside none) hstands'.avoids hv'.unmixed
    hv'.collisionFree hrun' ⟨rfl, rfl, rfl⟩ rfl
  obtain ⟨q', s', hq⟩ := hq rfl
  exact ⟨p', p'', _, q', t, t', v, s, s', hsecond, rfl, hrun', hq, same q' t s' hq⟩

end Course
end SourceSurvey
