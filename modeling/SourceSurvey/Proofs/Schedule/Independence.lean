import SourceSurvey.Proofs.Schedule.Conservation

/-!
# The schedule does not change the result

What becomes of a file depends on the file alone when the file system is fixed and an attempt
depends on the path, the number of earlier retries and whether chunks are preferred.

* `Workplace.verdict`: the attempts at one task, one after the other, without queue, ledger or
  workers. `Item.verdict` is what will become of an item of a run.
* `Move.verdict_eq`: no move changes the verdict of its item, as long as the parser was asked as
  often as the task was retried (`Item.Fair`). So the verdicts of the items of a run are those of its
  tasks at every moment (`Steps.settling`), and in the end the items are their verdicts.
* `Processor.outcome_same`: any two finished runs have the same records, failures and number of
  retries, and so has the inline run.
-/

namespace SourceSurvey

variable {α Hook β Hook' : Type}

/-! ## Verdicts -/

namespace Workplace

variable (w : Workplace)

/-- What becomes of a task and how many retries that takes. -/
def verdict (task : Task) : Except FailureRecord Module × Nat :=
  match (w.attempt task task.retries).result with
  | .ok module => (.ok module, 0)
  | .error e =>
    if _h : task.goesOn e (w.tree.exists? task.path) = true then
      ((verdict (task.retried e.kind)).1, (verdict (task.retried e.kind)).2 + 1)
    else (.error (task.givenUp e), 0)
  termination_by task.maxRetries - task.retries
  decreasing_by
    all_goals
      have := Task.retries_lt_of_goesOn _h
      simp only [Task.retried]
      omega

/-- What becomes of a task after an attempt with some result. -/
def verdictAfter (task : Task) : Except Failure Module → Except FailureRecord Module × Nat
  | .ok module => (.ok module, 0)
  | .error e =>
    if task.goesOn e (w.tree.exists? task.path) then
      ((w.verdict (task.retried e.kind)).1, (w.verdict (task.retried e.kind)).2 + 1)
    else (.error (task.givenUp e), 0)

theorem verdict_eq (task : Task) :
    w.verdict task = w.verdictAfter task (w.attempt task task.retries).result := by
  rw [verdict]
  cases (w.attempt task task.retries).result with
  | ok module => rfl
  | error e => simp only [verdictAfter, dite_eq_ite]

/-- The parser is asked for a file that is not read in chunks. -/
def Asks (p : Path) : Prop := w.largeFiles.isLarge w.tree p = .ok false

variable {w}

theorem attempt_of_chunked {task : Task} (h : task.preferChunked = true) (m n : Nat) :
    w.attempt task m = w.attempt task n ∧ (w.attempt task m).asked = false := by
  simp [attempt, h]

theorem attempt_of_not_asks {task : Task} (h : ¬ w.Asks task.path) (m n : Nat) :
    w.attempt task m = w.attempt task n ∧ (w.attempt task m).asked = false := by
  unfold attempt
  unfold Asks at h
  split
  · exact ⟨rfl, rfl⟩
  · split
    · exact ⟨rfl, rfl⟩
    · exact ⟨rfl, rfl⟩
    · contradiction

theorem asked_attempt {task : Task} (hc : task.preferChunked = false) (h : w.Asks task.path)
    (n : Nat) : (w.attempt task n).asked = true := by
  unfold Asks at h
  simp [attempt, hc, h]

end Workplace

namespace Item

variable (w : Workplace)

/-- What will become of an item: a record for a path or a failure. -/
def verdict : Item → Except FailureRecord (Path × Module)
  | queued task | begun task => (w.verdict task).1.map (task.path, ·)
  | ended task result => (w.verdictAfter task result).1.map (task.path, ·)
  | kept path module => .ok (path, module)
  | lost record => .error record

/-- The retries that an item will be granted. -/
def retriesAhead : Item → Nat
  | queued task | begun task => (w.verdict task).2
  | ended task result => (w.verdictAfter task result).2
  | kept _ _ | lost _ => 0

/-- The parser was asked for the file of an item as often as the attempts at it tell. -/
def Fair (asked : List Path) : Item → Prop
  | queued task | begun task =>
    task.preferChunked = false → w.Asks task.path → asked.count task.path = task.retries
  | ended task _ =>
    task.preferChunked = false → w.Asks task.path → asked.count task.path = task.retries + 1
  | kept _ _ | lost _ => True

variable {w}

theorem Fair.of_count {asked asked' : List Path} {x : Item} (h : x.Fair w asked)
    (hc : asked'.count x.path = asked.count x.path) : x.Fair w asked' := by
  cases x <;> simp only [Fair, path] at * <;> rw [hc] <;> exact h

end Item

/-- With a fair count of the earlier calls an attempt depends on the task alone. -/
theorem Item.Fair.attempt_eq {w : Workplace} {asked : List Path} {task : Task}
    (h : (Item.begun task).Fair w asked) :
    w.attempt task (asked.count task.path) = w.attempt task task.retries := by
  by_cases hc : task.preferChunked = true
  · exact (Workplace.attempt_of_chunked hc _ _).1
  · by_cases ha : w.Asks task.path
    · rw [h (by simpa using hc) ha]
    · exact (Workplace.attempt_of_not_asks ha _ _).1

/-! ## Moves keep verdicts -/

section Moves

variable {w : Workplace} {t t' : Tally} {e : Event} {x y : Item}

theorem Move.verdict_eq (h : Move (.ofWorkplace w) t e x y t') (hf : x.Fair w t.asked) :
    y.verdict w = x.verdict w ∧
      t'.granted + y.retriesAhead w = t.granted + x.retriesAhead w := by
  cases h with
  | admission => exact ⟨rfl, rfl⟩
  | attempt task result =>
    have ha : _ = w.attempt task (t.asked.count task.path) := result
    rw [hf.attempt_eq] at ha
    subst ha
    simp only [Item.verdict, Item.retriesAhead, ← w.verdict_eq task, and_self]
  | keep => exact ⟨rfl, rfl⟩
  | retry task presence again =>
    subst presence
    simp only [Item.verdict, Item.retriesAhead, Workplace.verdictAfter, again, if_true]
    exact ⟨rfl, by omega⟩
  | giveUp task presence spent =>
    subst presence
    simp [Item.verdict, Item.retriesAhead, Workplace.verdictAfter, spent, Except.map]

theorem Move.fair (h : Move (.ofWorkplace w) t e x y t') (hf : x.Fair w t.asked) :
    y.Fair w t'.asked := by
  cases h with
  | admission => exact hf
  | attempt task result =>
    subst result
    intro hc ha
    rw [Workplace.asked_attempt hc ha, if_pos rfl, List.count_append, hf hc ha]
    simp
  | keep => trivial
  | retry task presence again =>
    intro hc ha
    have hc' : task.preferChunked = false := by
      simp only [Task.retried, Bool.or_eq_false_iff] at hc
      exact hc.1
    exact hf hc' ha
  | giveUp => trivial

/-- A move asks the parser for its own file only. -/
theorem Move.count_asked {c : Conduct} (h : Move c t e x y t') {p : Path}
    (hp : x.path ≠ p) : t'.asked.count p = t.asked.count p := by
  cases h with
  | @attempt task a result =>
    by_cases ha : a.asked = true
    · have : [task.path].count p = 0 := by
        refine List.count_eq_zero.mpr fun h => hp ?_
        exact (List.mem_singleton.mp h).symm
      simp only [ha, if_true, List.count_append, this, Nat.add_zero]
    · simp [ha]
  | _ => rfl

end Moves

/-! ## The verdicts of a run -/

namespace Workplace

variable (w : Workplace)

/-- What becomes of the file of a task. -/
def fate (task : Task) : Except FailureRecord (Path × Module) := (Item.queued task).verdict w

/-- The records that tasks lead to, by path. -/
def modulesOf (tasks : List Task) : PathMap Module :=
  .ofList <| (tasks.map w.fate).filterMap Except.toOption

/-- The failure that became of a file, if one did. -/
def failure? : Except FailureRecord (Path × Module) → Option FailureRecord
  | .ok _ => none
  | .error f => some f

/-- The failures that tasks lead to. -/
def failuresOf (tasks : List Task) : List FailureRecord := (tasks.map w.fate).filterMap failure?

/-- The number of retries that tasks take. -/
def retriesOf (tasks : List Task) : Nat := (tasks.map fun task => (w.verdict task).2).sum

end Workplace

/-- What holds at every moment of a run of some tasks, given the number of retries that had been
granted before: the verdicts of its items are those of the tasks. -/
structure Run.Settling (w : Workplace) (tasks : List Task) (granted : Nat) (s : Run α Hook) :
    Prop where
  fair : ∀ x ∈ s.items, x.Fair w s.asked
  verdicts : (s.items.map (Item.verdict w)).Perm (tasks.map w.fate)
  retries : s.recovery.granted + (s.items.map (Item.retriesAhead w)).sum =
    granted + w.retriesOf tasks
  sorted : s.modules.Sorted

variable [Amount α] {plan : RunPlan α} {w : Workplace}

theorem Step.sorted {c : Conduct} {s s' : Coordination α Hook} {e : Event}
    (h : Step plan c s e s') (hs : s.run.modules.Sorted) : s'.run.modules.Sorted := by
  cases h with
  | wait => exact hs
  | finish => exact hs
  | attempt => exact hs
  | admission hq ha =>
    obtain ⟨_, _, rfl⟩ := Run.admit?_cons hq ha
    exact hs
  | @receive s i job r present =>
    cases r with
    | ok module => exact hs.insert _ _
    | error e =>
      cases hg : job.task.goesOn e present with
      | true =>
        simp only [Run.concluded, Run.fail_of_goesOn hg]
        exact hs
      | false =>
        simp only [Run.concluded, Run.fail_of_over hg]
        exact hs

theorem Step.settling {tasks : List Task} {granted : Nat} {s s' : Coordination α Hook} {e : Event}
    (h : Step plan (.ofWorkplace w) s e s') (hd : s.run.Distinct)
    (hs : s.run.Settling w tasks granted) : s'.run.Settling w tasks granted := by
  rcases h.moves hd with ⟨-, heq⟩ | ⟨x, y, rest, hmove, hx, hy⟩
  · rw [heq]
    exact hs
  · have hfair : x.Fair w s.run.tally.asked := hs.fair x (hx.mem_iff.mpr (by simp))
    obtain ⟨hverdict, hretries⟩ := hmove.verdict_eq hfair
    refine ⟨?_, ?_, ?_, h.sorted hs.sorted⟩
    · intro z hz
      rcases List.mem_cons.mp (hy.mem_iff.mp hz) with rfl | hz
      · exact hmove.fair hfair
      · -- The parser was asked for the file of the item that moved, which is another one.
        refine (hs.fair z (hx.mem_iff.mpr (by simp [hz]))).of_count (hmove.count_asked ?_)
        intro hp
        have hne := hd.cons hx z hz
        rw [hp, Path.same_refl] at hne
        exact nomatch hne
    · refine (hy.map _).trans (.trans ?_ ((hx.map _).symm.trans hs.verdicts))
      simp [hverdict]
    · have hx' := (hx.map (Item.retriesAhead w)).sum_nat
      have hy' := (hy.map (Item.retriesAhead w)).sum_nat
      have hr := hs.retries
      simp only [List.map_cons, List.sum_cons, Run.tally] at *
      omega

/-- The verdicts of a run over distinct files stay those of its tasks. -/
theorem Steps.settling {paths : List Path} {retries granted : Nat} {tasks : List Task}
    (hp : paths.Pairwise fun p q => p.same q = false) {s s' : Coordination α Hook}
    {events : List Event} (h : Steps plan (.ofWorkplace w) s events s')
    (hc : s.run.Conserved paths retries granted []) (hs : s.run.Settling w tasks granted) :
    s'.run.Settling w tasks granted := by
  induction h with
  | refl => exact hs
  | snoc init last ih => exact last.settling ((init.conserved hp hc).distinct hp) ih

/-! ## Finished runs -/

omit [Amount α] in
/-- With nothing queued and nothing in flight the items of a run are their verdicts. -/
theorem Run.Settling.settled {granted : Nat} {tasks : List Task} {s : Run α Hook}
    (h : s.Settling w tasks granted) (hq : s.queue = []) (hi : s.inFlight = []) :
    s.modules = w.modulesOf tasks ∧ s.failures.Perm (w.failuresOf tasks) ∧
      s.recovery.granted = granted + w.retriesOf tasks := by
  have hitems : s.items =
      s.modules.entries.map (fun e => .kept e.1 e.2) ++ s.failures.map .lost := by
    simp [items, hq, hi]
  have hverdicts : (s.modules.entries.map Except.ok ++ s.failures.map Except.error).Perm
      (tasks.map w.fate) := by
    refine .trans (.of_eq ?_) h.verdicts
    simp [hitems, Item.verdict, Function.comp_def]
  refine ⟨h.sorted.eq_ofList ?_, ?_, ?_⟩
  · have := hverdicts.filterMap Except.toOption
    simp only [List.filterMap_append, List.filterMap_map] at this
    simpa [Except.toOption, Function.comp_def] using this
  · have := hverdicts.filterMap Workplace.failure?
    simp only [List.filterMap_append, List.filterMap_map] at this
    simpa [Workplace.failure?, Function.comp_def, Workplace.failuresOf] using this
  · have hahead : (s.items.map (Item.retriesAhead w)).sum = 0 := by
      simp [hitems, Item.retriesAhead, Function.comp_def]
    have := h.retries
    omega

/-! ## Outcomes -/

/-- Outcomes of the same records, the same failures in whatever order and the same number of
retries. -/
structure RunOutcome.Same (o : RunOutcome α) (o' : RunOutcome β) : Prop where
  modules : o.modules = o'.modules
  failures : o.failures.Perm o'.failures
  recoveries : o.metrics.recoveries = o'.metrics.recoveries

namespace Processor

/-- The coordinator of a processor has left the loop over some files, after whatever steps. -/
def Finishes (p : Processor α Hook) (plan : RunPlan α) (t : Tree) (parser : Parser)
    (paths : List Path) (o : RunOutcome α) : Prop :=
  let tasks := paths.map (taskFor t p.settings.maxRetries)
  ∃ events s, Steps plan (.ofWorkplace { tree := t, largeFiles := p.largeFiles, parser })
    ⟨p.start tasks, .admitting⟩ events ⟨s, .finished⟩ ∧ o = p.outcome t.now tasks s

theorem processFiles_finishes (p : Processor α Hook) (t : Tree) (parser : Parser)
    (paths : List Path) :
    p.Finishes (p.plan t parser paths.length) t parser paths
      (p.processFiles t parser paths).2 := by
  obtain ⟨events, s, steps, ho⟩ :=
    p.process_steps t parser (paths.map (taskFor t p.settings.maxRetries))
  rw [List.length_map] at steps
  exact ⟨events, s, steps, ho⟩

theorem settling_start (p : Processor α Hook) (w : Workplace) (t : Tree) (retries : Nat)
    (paths : List Path) :
    (p.start (paths.map (taskFor t retries))).Settling w (paths.map (taskFor t retries))
      p.recovery.granted := by
  have hitems := p.items_start (paths.map (taskFor t retries))
  refine ⟨?_, ?_, ?_, PathMap.sorted_empty⟩
  · intro x hx
    obtain ⟨task, ht, rfl⟩ := List.mem_map.mp (hitems.mem_iff.mp hx)
    obtain ⟨q, -, rfl⟩ := List.mem_map.mp ht
    exact fun _ _ => rfl
  · refine (hitems.map _).trans ?_
    rw [List.map_map]
    exact .refl _
  · rw [(hitems.map _).sum_nat, List.map_map]
    rfl

/-- A finished run over distinct files has led to what becomes of each file. -/
theorem Finishes.settled {p : Processor α Hook} {plan : RunPlan α} {t : Tree} {parser : Parser}
    {paths : List Path} {o : RunOutcome α} (h : p.Finishes plan t parser paths o)
    (workers : 1 ≤ plan.workers) (distinct : paths.Pairwise fun p q => p.same q = false) :
    let w : Workplace := { tree := t, largeFiles := p.largeFiles, parser }
    let tasks := paths.map (taskFor t p.settings.maxRetries)
    o.modules = w.modulesOf tasks ∧ o.failures.Perm (w.failuresOf tasks) ∧
      o.metrics.recoveries = w.retriesOf tasks := by
  obtain ⟨events, s, steps, rfl⟩ := h
  obtain ⟨hq, hi⟩ := (steps.sound workers ⟨nofun, nofun⟩).finished rfl
  obtain ⟨hm, hf, hg⟩ := (steps.settling distinct (p.conserved_start t _ paths)
    (p.settling_start _ t _ paths)).settled hq hi
  refine ⟨hm, hf, ?_⟩
  show s.recovery.granted - p.recovery.granted = _
  rw [show s.recovery.granted = _ from hg, Nat.add_sub_cancel_left]

/-- A finished run over distinct files makes a record or a failure of each, and asks the parser for
no other file. -/
theorem Finishes.files {p : Processor α Hook} {plan : RunPlan α} {t : Tree} {parser : Parser}
    {paths : List Path} {o : RunOutcome α} (h : p.Finishes plan t parser paths o)
    (workers : 1 ≤ plan.workers) (distinct : paths.Pairwise fun p q => p.same q = false) :
    (o.modules.keys ++ o.failures.map FailureRecord.path).Perm paths ∧ ∀ q ∈ o.asked, q ∈ paths := by
  obtain ⟨events, s, steps, rfl⟩ := h
  have hstart := p.conserved_start t p.settings.maxRetries paths
  obtain ⟨hq, hi⟩ := (steps.sound workers ⟨nofun, nofun⟩).finished rfl
  have accounted := (steps.conserved distinct hstart).outcome_accounted distinct hq hi t.now
    (paths.map (taskFor t p.settings.maxRetries))
  exact ⟨accounted.files, steps.asked_subset distinct hstart rfl⟩

/-- A finished run over distinct files counts its records and its failures. -/
theorem Finishes.counts {p : Processor α Hook} {plan : RunPlan α} {t : Tree} {parser : Parser}
    {paths : List Path} {o : RunOutcome α} (h : p.Finishes plan t parser paths o)
    (workers : 1 ≤ plan.workers) (distinct : paths.Pairwise fun p q => p.same q = false) :
    o.metrics.processed = o.modules.size ∧ o.metrics.failed = o.failures.length ∧
      o.metrics.processed + o.metrics.failed = paths.length := by
  obtain ⟨events, s, steps, rfl⟩ := h
  obtain ⟨hq, hi⟩ := (steps.sound workers ⟨nofun, nofun⟩).finished rfl
  have accounted := (steps.conserved distinct (p.conserved_start t _ paths)).outcome_accounted
    distinct hq hi t.now (paths.map (taskFor t p.settings.maxRetries))
  exact ⟨accounted.processed, accounted.failed, accounted.total⟩

/-- The processor that runs one task after the other. -/
def inline (p : Processor α Hook) : Processor α Hook :=
  { p with settings := { p.settings with parallel := false } }

/-- Two finished runs over the same distinct files at the same place lead to the same records,
failures and number of retries, whatever their workers, ledgers, estimates and orders of steps are;
and so does the inline run of either. -/
theorem outcome_same [Amount β] (p : Processor α Hook) (q : Processor β Hook') (plan : RunPlan α)
    (plan' : RunPlan β) (t : Tree) (parser : Parser) (paths : List Path)
    (retries : q.settings.maxRetries = p.settings.maxRetries) (chunks : q.largeFiles = p.largeFiles)
    (workers : 1 ≤ plan.workers) (workers' : 1 ≤ plan'.workers)
    (distinct : paths.Pairwise fun p q => p.same q = false) (o : RunOutcome α) (o' : RunOutcome β)
    (run : p.Finishes plan t parser paths o) (run' : q.Finishes plan' t parser paths o') :
    o.Same o' ∧ o.Same (p.inline.processFiles t parser paths).2 := by
  have alone := p.inline.processFiles_finishes t parser paths
  obtain ⟨hm, hf, hr⟩ := run.settled workers distinct
  obtain ⟨hm', hf', hr'⟩ := run'.settled workers' distinct
  obtain ⟨hm'', hf'', hr''⟩ := alone.settled (p.inline.one_le_workerCap paths.length) distinct
  rw [retries, chunks] at hm' hf' hr'
  exact ⟨⟨hm.trans hm'.symm, hf.trans hf'.symm, hr.trans hr'.symm⟩,
    hm.trans hm''.symm, hf.trans hf''.symm, hr.trans hr''.symm⟩

/-- A processor of three workers whose ledger has room for two tasks. -/
def wide : Processor Float Unit :=
  { narrow with settings := { parallel := true, maxWorkers := 3 }, cpus := 3, ledger := .ofLimit 2 }

theorem outcome_same_narrow_wide :
    (narrow.processFiles .twoFiles .failing [⟨"a.py"⟩, ⟨"b.py"⟩]).2.Same
        (wide.processFiles .twoFiles .failing [⟨"a.py"⟩, ⟨"b.py"⟩]).2 ∧
      (narrow.processFiles .twoFiles .failing [⟨"a.py"⟩, ⟨"b.py"⟩]).2.Same
        (narrow.inline.processFiles .twoFiles .failing [⟨"a.py"⟩, ⟨"b.py"⟩]).2 :=
  outcome_same narrow wide (narrow.plan .twoFiles .failing 2) (wide.plan .twoFiles .failing 2)
    .twoFiles .failing _ rfl rfl (narrow.one_le_workerCap 2) (wide.one_le_workerCap 2) (by decide)
    _ _ (narrow.processFiles_finishes .twoFiles .failing [⟨"a.py"⟩, ⟨"b.py"⟩])
    (wide.processFiles_finishes .twoFiles .failing [⟨"a.py"⟩, ⟨"b.py"⟩])

end Processor
end SourceSurvey
