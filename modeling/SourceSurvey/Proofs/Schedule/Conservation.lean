import Mathlib.Tactic.Ring
import SourceSurvey.Proofs.Schedule.Rounds

/-!
# No task is lost or counted twice

Whatever the attempts lead to and in whatever order the workers finish, a run over distinct paths
ends, and in the end every path has a record or a failure and not both.

* `Move.weight_lt`: every move lowers the weight of its item, so a run has finitely many steps
  (`Steps.length_le`). `Step.exists_next`: the coordinator gets stuck nowhere before it has left the
  loop.
* `Conserved`: the items of a run are the paths that it was started with; each item agrees with the
  attempts made at its path (`Item.Agrees`); retries and attempts balance; the counters count what
  they say. `Step.conserved` is the step lemma, `Steps.conserved` the run lemma.
* `Processor.accounted`: what follows for the outcome of a run.
-/

namespace SourceSurvey

variable {α Hook : Type}

/-! ## Weights: a run ends -/

namespace Item

/-- An upper bound of the moves that are left to an item. -/
def weight : Item → Nat
  | queued task => 3 * (task.maxRetries - task.retries) + 3
  | begun task => 3 * (task.maxRetries - task.retries) + 2
  | ended task _ => 3 * (task.maxRetries - task.retries) + 1
  | kept _ _ => 0
  | lost _ => 0

end Item

theorem Move.weight_lt {c : Conduct} {t t' : Tally} {e : Event} {x y : Item}
    (h : Move c t e x y t') : y.weight < x.weight := by
  cases h with
  | admission => simp [Item.weight]
  | attempt => simp [Item.weight]
  | keep => simp [Item.weight]
  | giveUp => simp [Item.weight]
  | retry task _ again =>
    have := Task.retries_lt_of_goesOn again
    simp only [Item.weight, Task.retried]
    omega

namespace Coordination

/-- The part of the coordinator in the weight. -/
def phaseWeight : Phase → Nat
  | .admitting => 1
  | .waiting => 0
  | .finished => 0

/-- An upper bound of the steps that are left. -/
def weight (s : Coordination α Hook) : Nat :=
  2 * (s.run.items.map Item.weight).sum + phaseWeight s.phase

end Coordination

variable [Amount α] {plan : RunPlan α} {c : Conduct}

theorem Step.weight_lt {s s' : Coordination α Hook} {e : Event} (h : Step plan c s e s')
    (hd : s.run.Distinct) : s'.weight < s.weight := by
  have hm := h.moves hd
  unfold Coordination.weight
  rcases hm with ⟨he, heq⟩ | ⟨x, y, rest, hmove, hx, hy⟩
  · cases h with
    | wait => simp [Coordination.phaseWeight]
    | finish => simp [Coordination.phaseWeight]
    | admission => simp at he
    | attempt => simp at he
    | receive => simp at he
  · have hlt := hmove.weight_lt
    have hx' := (hx.map Item.weight).sum_nat
    have hy' := (hy.map Item.weight).sum_nat
    simp only [List.map_cons, List.sum_cons] at hx' hy'
    have hp : Coordination.phaseWeight s'.phase ≤ Coordination.phaseWeight s.phase + 1 := by
      cases s'.phase <;> cases s.phase <;> simp [Coordination.phaseWeight]
    omega

/-! ## Items and attempts -/

namespace Item

/-- An item agrees with the attempts that were made: a task has as many retries as it had attempts
before the one that is to come or is over, and nothing had more attempts than its task allows. -/
def Agrees (retries : Nat) (attempts : List Path) : Item → Prop
  | queued task | begun task =>
    task.maxRetries = retries ∧ task.retries ≤ retries ∧ attempts.count task.path = task.retries
  | ended task _ =>
    task.maxRetries = retries ∧ task.retries ≤ retries ∧
      attempts.count task.path = task.retries + 1
  | kept path _ => attempts.count path ≤ retries + 1
  | lost record => record.attempts = attempts.count record.path ∧ record.attempts ≤ retries + 1

/-- The attempts of an item that have to come before anything else happens to it. -/
def pending : Item → Nat
  | queued _ | begun _ => 1
  | _ => 0

theorem Agrees.of_count {retries : Nat} {attempts attempts' : List Path} {x : Item}
    (h : x.Agrees retries attempts) (hc : attempts'.count x.path = attempts.count x.path) :
    x.Agrees retries attempts' := by
  cases x <;> simp only [Agrees, Item.path] at * <;> rw [hc] <;> exact h

end Item

/-- The attempts of one event. -/
def Event.attempts (e : Event) : List Path := e.attempted?.toList

theorem attemptsOf_append (events : List Event) (e : Event) :
    attemptsOf (events ++ [e]) = attemptsOf events ++ e.attempts := by
  unfold attemptsOf Event.attempts
  cases h : e.attempted? <;> simp [h]

theorem Move.attempts_subset {t t' : Tally} {e : Event} {x y : Item} (h : Move c t e x y t') :
    ∀ p ∈ e.attempts, p = x.path := by
  cases h <;> simp [Event.attempts, Event.attempted?, Item.path]

theorem Move.asked_subset {t t' : Tally} {e : Event} {x y : Item} (h : Move c t e x y t') :
    ∀ p ∈ t'.asked, p ∈ t.asked ∨ p = x.path := by
  cases h with
  | @attempt task a =>
    cases a.asked with
    | false => exact fun p hp => .inl hp
    | true => simp [Item.path]
  | _ => exact fun p hp => .inl hp

/-- An item that moves on agrees with the attempts after the move. -/
theorem Move.agrees {t t' : Tally} {e : Event} {x y : Item} (h : Move c t e x y t') {retries : Nat}
    {attempts : List Path} (hx : x.Agrees retries attempts) :
    y.Agrees retries (attempts ++ e.attempts) := by
  cases h with
  | admission => simpa [Item.Agrees, Event.attempts, Event.attempted?] using hx
  | attempt => simpa [Item.Agrees, Event.attempts, Event.attempted?] using hx
  | keep task =>
    obtain ⟨-, hr, hc⟩ := hx
    simp only [Item.Agrees, Event.attempts, Event.attempted?, Option.toList_none, List.append_nil]
    omega
  | retry task _ again =>
    obtain ⟨hm, -, hc⟩ := hx
    have := Task.retries_lt_of_goesOn again
    simp only [Item.Agrees, Event.attempts, Event.attempted?, Option.toList_none, List.append_nil,
      Task.retried]
    exact ⟨hm, by omega, hc⟩
  | giveUp task =>
    obtain ⟨-, hr, hc⟩ := hx
    simp only [Item.Agrees, Event.attempts, Event.attempted?, Option.toList_none, List.append_nil,
      Task.givenUp, Task.attempts]
    exact ⟨hc.symm, by omega⟩

/-- Retries are granted for attempts to come, and attempts are made of them. -/
theorem Move.pending {t t' : Tally} {e : Event} {x y : Item} (h : Move c t e x y t') :
    y.pending + e.attempts.length + t.granted = x.pending + t'.granted := by
  cases h with
  | retry => simp only [Item.pending, Event.attempts, Event.attempted?]; simp; omega
  | _ => simp [Item.pending, Event.attempts, Event.attempted?]

theorem Move.granted_le {t t' : Tally} {e : Event} {x y : Item} (h : Move c t e x y t') :
    t.granted ≤ t'.granted := by
  cases h <;> simp

/-! ## Counters -/

/-- The counters of a run count its records and failures, and each record has its time. -/
structure Run.Counted (s : Run α Hook) : Prop where
  timed : s.timed.keys = s.modules.keys
  processed : s.processed = s.modules.size
  failed : s.failed = s.failures.length
  completed : s.tracker.snapshot.completed = s.processed
  lost : s.tracker.snapshot.failed = s.failed

@[simp] theorem Tracker.snapshot_update (t : Tracker) (completed failed : Nat)
    (file? : Option Path) :
    (t.update completed failed file?).snapshot =
      { t.snapshot with
        completed := t.snapshot.completed + completed
        failed := t.snapshot.failed + failed
        currentFile? := file? <|> t.snapshot.currentFile? } := rfl

@[simp] theorem Tracker.snapshot_setCurrentFile (t : Tracker) (file : Path) :
    (t.setCurrentFile file).snapshot = { t.snapshot with currentFile? := some file } := rfl

theorem Step.counted {s s' : Coordination α Hook} {e : Event} (h : Step plan c s e s')
    (hd : s.run.Distinct) (hc : s.run.Counted) : s'.run.Counted := by
  obtain ⟨ht, hp, hf, hc, hl⟩ := hc
  cases h with
  | wait => exact ⟨ht, hp, hf, hc, hl⟩
  | finish => exact ⟨ht, hp, hf, hc, hl⟩
  | admission hq ha =>
    obtain ⟨_, _, rfl⟩ := Run.admit?_cons hq ha
    exact ⟨ht, hp, hf, hc, hl⟩
  | attempt => exact ⟨ht, hp, hf, hc, hl⟩
  | @receive s i job r present place ended hpres =>
    cases r with
    | ok module =>
      have hsize := (PathMap.perm_insert (a := module) (hd.new_key place)).length_eq
      refine ⟨PathMap.keys_insert_congr ht _ _ _, ?_, hf, ?_, hl⟩
      · show s.processed + 1 = (s.modules.insert _ _).entries.length
        rw [hsize, show s.processed = s.modules.entries.length from hp, List.length_cons]
      · exact congrArg (· + 1) hc
    | error e =>
      cases hg : job.task.goesOn e present with
      | true =>
        simp only [Run.concluded, Run.fail_of_goesOn hg]
        exact ⟨ht, hp, hf, hc, hl⟩
      | false =>
        simp only [Run.concluded, Run.fail_of_over hg]
        refine ⟨ht, hp, ?_, hc, congrArg (· + 1) hl⟩
        show s.failed + 1 = (s.failures ++ [job.task.givenUp e]).length
        rw [show s.failed = s.failures.length from hf, List.length_append, List.length_singleton]

/-! ## The invariant -/

/-- What holds at every moment of a run over some paths, given the attempts so far and the number
of retries that had been granted before. -/
structure Run.Conserved (paths : List Path) (retries granted : Nat) (attempts : List Path)
    (s : Run α Hook) : Prop where
  files : (s.items.map Item.path).Perm paths
  agrees : ∀ x ∈ s.items, x.Agrees retries attempts
  balance : attempts.length + (s.items.map Item.pending).sum + granted =
    paths.length + s.recovery.granted
  grown : granted ≤ s.recovery.granted
  counted : s.Counted

omit [Amount α] in
theorem Run.Conserved.distinct {paths attempts : List Path} {retries granted : Nat}
    {s : Run α Hook} (h : s.Conserved paths retries granted attempts)
    (hp : paths.Pairwise fun p q => p.same q = false) : s.Distinct :=
  (h.files.pairwise_iff Path.not_same_symm).mpr hp

theorem Step.conserved {paths attempts : List Path} {retries granted : Nat}
    (hp : paths.Pairwise fun p q => p.same q = false) {s s' : Coordination α Hook} {e : Event}
    (h : Step plan c s e s') (hs : s.run.Conserved paths retries granted attempts) :
    s'.run.Conserved paths retries granted (attempts ++ e.attempts) := by
  have hd := hs.distinct hp
  rcases h.moves hd with ⟨he, heq⟩ | ⟨x, y, rest, hmove, hx, hy⟩
  · have hnone : e.attempts = [] := by rcases he with rfl | rfl <;> rfl
    rw [heq, hnone, List.append_nil]
    exact hs
  · refine ⟨?_, ?_, ?_, hs.grown.trans hmove.granted_le, h.counted hd hs.counted⟩
    · refine (hy.map _).trans (.trans ?_ ((hx.map _).symm.trans hs.files))
      simp [hmove.path_eq]
    · intro z hz
      rcases List.mem_cons.mp (hy.mem_iff.mp hz) with rfl | hz
      · exact hmove.agrees (hs.agrees x (hx.mem_iff.mpr (by simp)))
      · -- The attempt was made at the path of the item that moved, which is another one.
        refine (hs.agrees z (hx.mem_iff.mpr (by simp [hz]))).of_count ?_
        have hne := hd.cons hx z hz
        rw [List.count_append, Nat.add_eq_left, List.count_eq_zero]
        intro hmem
        rw [hmove.attempts_subset _ hmem, Path.same_refl] at hne
        exact nomatch hne
    · have hpend := hmove.pending
      have hx' := (hx.map Item.pending).sum_nat
      have hy' := (hy.map Item.pending).sum_nat
      have hb := hs.balance
      simp only [List.map_cons, List.sum_cons, Run.tally, List.length_append] at *
      omega

/-- What holds at the beginning of a run holds at each of its moments. -/
theorem Steps.conserved {paths : List Path} {retries granted : Nat}
    (hp : paths.Pairwise fun p q => p.same q = false) {s s' : Coordination α Hook}
    {events : List Event} (h : Steps plan c s events s')
    (hs : s.run.Conserved paths retries granted []) :
    s'.run.Conserved paths retries granted (attemptsOf events) := by
  induction h with
  | refl => exact hs
  | snoc _ last ih => rw [attemptsOf_append]; exact last.conserved hp ih

/-- The parser is asked for the files of the run only. -/
theorem Steps.asked_subset {paths : List Path} {retries granted : Nat}
    (hp : paths.Pairwise fun p q => p.same q = false) {s s' : Coordination α Hook}
    {events : List Event} (h : Steps plan c s events s')
    (hs : s.run.Conserved paths retries granted []) (fresh : s.run.asked = []) :
    ∀ p ∈ s'.run.asked, p ∈ paths := by
  induction h with
  | refl =>
    rw [fresh]
    exact nofun
  | snoc init last ih =>
    have conserved := init.conserved hp hs
    intro p hmem
    rcases last.moves (conserved.distinct hp) with ⟨-, heq⟩ | ⟨x, y, rest, hmove, hx, -⟩
    · exact ih p (heq ▸ hmem)
    · rcases hmove.asked_subset p hmem with hmem | rfl
      · exact ih p hmem
      · refine conserved.files.mem_iff.mp (List.mem_map_of_mem ?_)
        exact hx.mem_iff.mpr List.mem_cons_self

theorem Steps.length_le {paths : List Path} {retries granted : Nat}
    (hp : paths.Pairwise fun p q => p.same q = false) {s s' : Coordination α Hook}
    {events : List Event} (h : Steps plan c s events s')
    (hs : s.run.Conserved paths retries granted []) :
    events.length + s'.weight ≤ s.weight := by
  induction h with
  | refl => simp
  | snoc init last ih =>
    have := last.weight_lt ((init.conserved hp hs).distinct hp)
    rw [List.length_append, List.length_singleton]
    omega

/-! ## The coordinator never gets stuck -/

/-- The coordinator waits only while a job is in flight, and has left the loop only with nothing
queued and nothing in flight. -/
structure Coordination.Sound (s : Coordination α Hook) : Prop where
  waiting : s.phase = .waiting → s.run.inFlight ≠ []
  finished : s.phase = .finished → s.run.queue = [] ∧ s.run.inFlight = []

theorem Step.sound (hw : 1 ≤ plan.workers) {s s' : Coordination α Hook} {e : Event}
    (h : Step plan c s e s') (hs : s.Sound) : s'.Sound := by
  cases h with
  | admission => exact ⟨nofun, nofun⟩
  | receive => exact ⟨nofun, nofun⟩
  | wait _ busy => exact ⟨fun _ => busy, nofun⟩
  | finish drained idle => exact ⟨nofun, fun _ => ⟨Run.queue_eq_nil hw drained idle, idle⟩⟩
  | @attempt s phase i job a place =>
    refine ⟨fun hp => ?_, fun hp => ?_⟩
    · simpa [Run.attempted] using hs.waiting hp
    · have := (hs.finished hp).2
      simp [show s.inFlight = [] from this] at place

theorem Steps.sound (hw : 1 ≤ plan.workers) {s s' : Coordination α Hook} {events : List Event}
    (h : Steps plan c s events s') (hs : s.Sound) : s'.Sound := by
  induction h with
  | refl => exact hs
  | snoc _ last ih => exact last.sound hw ih

theorem Step.exists_next (plan : RunPlan α) (hc : c.Total) {s : Coordination α Hook} (hs : s.Sound)
    (hp : s.phase ≠ .finished) : ∃ e s', Step plan c s e s' := by
  obtain ⟨s, phase⟩ := s
  cases phase with
  | finished => exact absurd rfl hp
  | admitting =>
    cases ha : s.admit? plan with
    | some s' =>
      obtain ⟨_, _, hq⟩ := Run.queue_ne_nil ha
      exact ⟨_, _, .admission hq ha⟩
    | none =>
      by_cases hi : s.inFlight = []
      · exact ⟨_, _, .finish ha hi⟩
      · exact ⟨_, _, .wait ha hi⟩
  | waiting =>
    obtain ⟨job, rest, hi⟩ := List.exists_cons_of_ne_nil (hs.waiting rfl)
    have place : s.inFlight[0]? = some job := by simp [show s.inFlight = job :: rest from hi]
    cases hr : job.result? with
    | none =>
      obtain ⟨a, ha⟩ := hc.1 job.task (s.asked.count job.task.path)
      exact ⟨_, _, .attempt place hr ha⟩
    | some r =>
      obtain ⟨b, hb⟩ := hc.2 job.task.path
      exact ⟨_, _, .receive place hr hb⟩

/-! ## Outcomes -/

/-- What an outcome says agrees with the files and with the attempts that were made. -/
structure RunOutcome.Accounted (o : RunOutcome α) (paths : List Path) (retries : Nat)
    (attempts : List Path) (progress : Snapshot) : Prop where
  /-- The records and the failures together are the files, each once. -/
  files : (o.modules.keys ++ o.failures.map FailureRecord.path).Perm paths
  /-- A file has a record or a failure and not both. -/
  exclusive : ∀ p ∈ paths, Xor (p ∈ o.modules.keys) (p ∈ o.failures.map FailureRecord.path)
  processed : o.metrics.processed = o.modules.size
  failed : o.metrics.failed = o.failures.length
  total : o.metrics.processed + o.metrics.failed = paths.length
  timed : o.timed.keys = o.modules.keys
  attempts_le : ∀ p ∈ paths, attempts.count p ≤ retries + 1
  attempts_eq : ∀ f ∈ o.failures, f.attempts = attempts.count f.path
  recoveries : o.metrics.recoveries + paths.length = attempts.length
  completed : progress.completed = o.metrics.processed
  lost : progress.failed = o.metrics.failed

namespace Processor

/-- A run begins with its tasks in the queue. -/
theorem items_start (p : Processor α Hook) (tasks : List Task) :
    (p.start tasks).items.Perm (tasks.map .queued) := by
  have hitems : (p.start tasks).items = (Task.sortByPriority tasks).map .queued := by
    simp [Run.items, start, PathMap.empty]
  rw [hitems]
  exact (Task.perm_sortByPriority tasks).map _

theorem conserved_start (p : Processor α Hook) (t : Tree) (retries : Nat) (paths : List Path) :
    (p.start (paths.map (taskFor t retries))).Conserved paths retries p.recovery.granted [] := by
  have hitems := p.items_start (paths.map (taskFor t retries))
  refine ⟨?_, ?_, ?_, Nat.le_refl _, ⟨rfl, rfl, rfl, rfl, rfl⟩⟩
  · refine (hitems.map _).trans ?_
    rw [List.map_map, List.map_map]
    exact .of_eq (List.map_id _)
  · intro x hx
    obtain ⟨task, ht, rfl⟩ := List.mem_map.mp (hitems.mem_iff.mp hx)
    obtain ⟨q, -, rfl⟩ := List.mem_map.mp ht
    exact ⟨rfl, Nat.zero_le _, rfl⟩
  · rw [(hitems.map _).sum_nat, List.map_map, List.map_map]
    rw [show (Item.pending ∘ Item.queued) ∘ taskFor t retries = fun _ => 1 from rfl]
    simp [start, Recovery.clear]

theorem weight_start (p : Processor α Hook) (t : Tree) (retries : Nat) (paths : List Path) :
    Coordination.weight ⟨p.start (paths.map (taskFor t retries)), .admitting⟩ =
      6 * (retries + 1) * paths.length + 1 := by
  have hweight : (Item.weight ∘ Item.queued) ∘ taskFor t retries = fun _ => 3 * retries + 3 := rfl
  unfold Coordination.weight
  rw [((p.items_start _).map _).sum_nat, List.map_map, List.map_map, hweight]
  simp only [List.map_const', List.sum_replicate_nat, Coordination.phaseWeight]
  ring

end Processor

/-- The outcome of a run that has left the loop. -/
theorem Run.Conserved.outcome_accounted {paths attempts : List Path} {retries : Nat} {s : Run α Hook}
    {p : Processor α Hook} (h : s.Conserved paths retries p.recovery.granted attempts)
    (hp : paths.Pairwise fun p q => p.same q = false) (hq : s.queue = []) (hi : s.inFlight = [])
    (now : Instant) (tasks : List Task) :
    (p.outcome now tasks s).Accounted paths retries attempts s.tracker.snapshot := by
  obtain ⟨hfiles, hagrees, hbalance, hgrown, htimed, hprocessed, hfailed, hcompleted, hlost⟩ := h
  have hitems : s.items =
      s.modules.entries.map (fun e => .kept e.1 e.2) ++ s.failures.map .lost := by
    simp [items, hq, hi]
  have hperm : (s.modules.keys ++ s.failures.map FailureRecord.path).Perm paths := by
    refine .trans (.of_eq ?_) hfiles
    simp [hitems, PathMap.keys, Item.path, Function.comp_def]
  have hnodup : (s.modules.keys ++ s.failures.map FailureRecord.path).Nodup := by
    refine hperm.nodup_iff.mpr (hp.imp fun hpq => ?_)
    rintro rfl
    simp at hpq
  have hpending : (s.items.map Item.pending).sum = 0 := by
    simp [hitems, Item.pending, Function.comp_def]
  refine ⟨hperm, ?_, hprocessed, hfailed, ?_, htimed, ?_, ?_, ?_, hcompleted, hlost⟩
  · intro q hq
    have hor := List.mem_append.mp (hperm.mem_iff.mpr hq)
    have hdisj := List.disjoint_of_nodup_append hnodup
    rcases hor with hk | hf
    · exact .inl ⟨hk, fun hf => hdisj hk hf⟩
    · exact .inr ⟨hf, fun hk => hdisj hk hf⟩
  · have := hperm.length_eq
    simpa [Processor.outcome, hprocessed, hfailed, PathMap.size, PathMap.keys] using this
  · intro q hq
    obtain ⟨x, hx, rfl⟩ := List.mem_map.mp (hfiles.mem_iff.mpr hq)
    have := hagrees x hx
    rw [hitems] at hx
    rcases List.mem_append.mp hx with hx | hx
    · obtain ⟨e, -, rfl⟩ := List.mem_map.mp hx
      exact this
    · obtain ⟨f, -, rfl⟩ := List.mem_map.mp hx
      exact this.1 ▸ this.2
  · intro f hf
    have hf : f ∈ s.failures := hf
    exact (hagrees (.lost f) (by simp [hitems, hf])).1
  · simp only [Processor.outcome]
    omega

/-- Whatever the attempts of a run over distinct paths lead to, and in whatever order the workers
finish: the run takes no more than a fixed number of steps, something can happen until the
coordinator has left the loop, and then its outcome accounts for every file. -/
theorem Processor.accounted (p : Processor α Hook) (plan : RunPlan α) (c : Conduct) (t : Tree)
    (paths : List Path) (workers : 1 ≤ plan.workers) (total : c.Total)
    (distinct : paths.Pairwise fun p q => p.same q = false) (events : List Event)
    (s : Coordination α Hook)
    (steps : Steps plan c ⟨p.start (paths.map (taskFor t p.settings.maxRetries)), .admitting⟩
      events s) :
    events.length ≤ 6 * (p.settings.maxRetries + 1) * paths.length + 1 ∧
      (s.phase ≠ .finished → ∃ e s', Step plan c s e s') ∧
      (s.phase = .finished →
        (p.outcome t.now (paths.map (taskFor t p.settings.maxRetries)) s.run).Accounted paths
          p.settings.maxRetries (attemptsOf events) s.run.tracker.snapshot) := by
  have hstart := p.conserved_start t p.settings.maxRetries paths
  have hsound : s.Sound := steps.sound workers ⟨nofun, nofun⟩
  refine ⟨?_, fun hp => Step.exists_next plan total hsound hp, fun hp => ?_⟩
  · have := steps.length_le distinct hstart
    rw [p.weight_start] at this
    omega
  · obtain ⟨hq, hi⟩ := hsound.finished hp
    exact (steps.conserved distinct hstart).outcome_accounted distinct hq hi _ _

/-- A processor of one worker whose ledger has no room, so that each task is admitted alone. -/
def Processor.narrow : Processor Float Unit :=
  { settings := {}, largeFiles := ⟨⟨0, 0, 0, false⟩, 0⟩, estimate := fun _ => 1, cpus := 1
    reading := 0, ledger := .ofLimit 0, tracker := .ofTotal 0, monitor := { threshold := 0 } }

/-- A tree of two empty files. -/
def Tree.twoFiles : Tree :=
  { nodes := [(["a.py"], .file [] ⟨0, 0⟩), (["b.py"], .file [] ⟨0, 0⟩)], now := ⟨0, 0⟩ }

/-- A parser that is slow at first and breaks down after that. -/
def Parser.failing : Parser := fun _ asked =>
  if asked = 0 then .answered (.error (.timeout "slow")) else .brokeDown none

theorem Processor.accounted_narrow :
    ∃ events s,
      Steps (Processor.narrow.plan .twoFiles .failing 2)
        (.ofWorkplace ⟨.twoFiles, Processor.narrow.largeFiles, .failing⟩)
        ⟨Processor.narrow.start ([⟨"a.py"⟩, ⟨"b.py"⟩].map (taskFor .twoFiles 3)), .admitting⟩ events
        ⟨s, .finished⟩ ∧
      1 ≤ (Processor.narrow.plan .twoFiles .failing 2).workers ∧
      (Conduct.ofWorkplace ⟨.twoFiles, Processor.narrow.largeFiles, .failing⟩).Total ∧
      [(⟨"a.py"⟩ : Path), ⟨"b.py"⟩].Pairwise (fun p q => p.same q = false) ∧
      events.length ≤ 49 ∧
      (Processor.narrow.outcome ⟨0, 0⟩ ([⟨"a.py"⟩, ⟨"b.py"⟩].map (taskFor .twoFiles 3)) s).Accounted
        [⟨"a.py"⟩, ⟨"b.py"⟩] 3 (attemptsOf events) s.tracker.snapshot := by
  obtain ⟨events, s, steps, -⟩ := Processor.narrow.process_steps .twoFiles .failing
    ([⟨"a.py"⟩, ⟨"b.py"⟩].map (taskFor .twoFiles 3))
  have workers := Processor.narrow.one_le_workerCap 2
  have total := Conduct.ofWorkplace_total ⟨.twoFiles, Processor.narrow.largeFiles, .failing⟩
  have distinct : [(⟨"a.py"⟩ : Path), ⟨"b.py"⟩].Pairwise (fun p q => p.same q = false) := by decide
  obtain ⟨hlen, -, hdone⟩ := Processor.narrow.accounted
    (Processor.narrow.plan .twoFiles .failing 2) _ .twoFiles _ workers total distinct events _ steps
  exact ⟨events, s, steps, workers, total, distinct, hlen, hdone rfl⟩

end SourceSurvey
