import Mathlib.Algebra.Order.BigOperators.Group.List
import Mathlib.Tactic.Linarith
import SourceSurvey.Proofs.Memory.Exact
import SourceSurvey.Proofs.Schedule.Conservation

/-!
# Admission respects the ledger

A run over a ledger of exact amounts that nobody else uses, whatever the attempts lead to and in
whatever order the workers finish. A worker gives the reservation of its job back when the attempt
is over (`Run.attempted`), which is before the coordinator takes the result (`Run.concluded`); in
between the job is in flight and holds nothing. `Run.held` are the jobs that still hold what was
reserved for them.

* `Run.Admitted`: no more jobs are in flight than there are workers, the ledger has booked what is
  held and no more, and the sum is within the limit unless a single job is held that is too large
  on its own. `Step.admitted` is the step lemma, `Steps.admitted` the run lemma.
* `Run.Peaked`: the peak of the ledger has reached the estimate of every task that was admitted,
  and exceeds the limit by no more than one task that is too large. `Step.peaked`, `Steps.peaked`.
* `Processor.admission_safe`: what follows for a processor.
-/

namespace SourceSurvey

variable {α Hook : Type}

/-! ## Reservations that are held -/

/-- The reservation of a job is held until its attempt is over. -/
def Job.holds (job : Job α) : Bool := job.result?.isNone

/-- The jobs whose reservation is held. -/
def Run.held (s : Run α Hook) : List (Job α) := s.inFlight.filter Job.holds

namespace Run

variable {s : Run α Hook} {i : Nat} {job : Job α}

/-- A job that is attempted holds its reservation, beside the others that do. -/
theorem held_perm (place : s.inFlight[i]? = some job) (fresh : job.result? = none) :
    s.held.Perm (job :: (s.inFlight.eraseIdx i).filter Job.holds) := by
  obtain ⟨hi, rfl⟩ := List.getElem?_eq_some_iff.mp place
  refine ((List.getElem_cons_eraseIdx_perm hi).symm.filter _).trans (.of_eq ?_)
  exact List.filter_cons_of_pos (by simp [Job.holds, fresh])

/-- A job whose attempt is over holds nothing. -/
theorem held_eraseIdx (place : s.inFlight[i]? = some job) {r : Except Failure Module}
    (ended : job.result? = some r) :
    ((s.inFlight.eraseIdx i).filter Job.holds).Perm s.held := by
  obtain ⟨hi, rfl⟩ := List.getElem?_eq_some_iff.mp place
  refine .trans (.of_eq ?_) ((List.getElem_cons_eraseIdx_perm hi).filter _)
  exact (List.filter_cons_of_neg (by simp [Job.holds, ended])).symm

variable [Amount α]

theorem held_attempted (place : s.inFlight[i]? = some job) (reading : Float) (a : AttemptResult) :
    (s.attempted reading i job a).held.Perm ((s.inFlight.eraseIdx i).filter Job.holds) := by
  obtain ⟨hi, -⟩ := List.getElem?_eq_some_iff.mp place
  refine ((List.set_perm_cons_eraseIdx hi { job with result? := some a.result }).filter _).trans
    (.of_eq ?_)
  exact List.filter_cons_of_neg (by simp [Job.holds])

/-! ## What admissions and results do to the ledger -/

/-- A task is admitted to a free worker; its amount is reserved, and fits unless nothing is in
flight. -/
theorem admit?_reserves {plan : RunPlan α} {s' : Run α Hook} {task : Task} {rest : List Task}
    (hq : s.queue = task :: rest) (h : s.admit? plan = some s') :
    s.inFlight.length < plan.workers ∧
      s' = { s with
        queue := rest
        ledger := s.ledger.reserve (plan.estimate task)
        inFlight := s.inFlight ++ [{ task, amount := plan.estimate task }] } ∧
      (Amount.exceeds (Amount.add s.ledger.allocated (plan.estimate task)) s.ledger.limit = false ∨
        s.inFlight = []) := by
  simp only [admit?, hq, Ledger.tryReserve] at h
  split at h
  · cases h
  · refine ⟨by omega, ?_⟩
    cases hx : Amount.exceeds (Amount.add s.ledger.allocated (plan.estimate task)) s.ledger.limit with
    | false =>
      simp only [hx, Bool.false_eq_true, if_false] at h
      exact ⟨(Option.some.inj h).symm, .inl rfl⟩
    | true =>
      simp only [hx, if_true] at h
      split at h
      case isTrue idle =>
        exact ⟨(Option.some.inj h).symm, .inr (List.isEmpty_iff.mp idle)⟩
      case isFalse => cases h

end Run

/-! ## The ledger agrees with what is held -/

/-- The exact estimate of a task in megabytes. -/
def Task.megabytes (task : Task) : ℚ := exactMegabytes task.size

theorem Task.megabytes_pos (task : Task) : 0 < task.megabytes :=
  lt_of_lt_of_le one_pos (one_le_exactMegabytes task.size)

@[simp] theorem Task.megabytes_retried (task : Task) (kind : FailureKind) :
    (task.retried kind).megabytes = task.megabytes := rfl

/-- The sum of the estimates of some jobs. -/
def Job.total (jobs : List (Job ℚ)) : ℚ := (jobs.map fun job => job.task.megabytes).sum

@[simp] theorem Job.total_nil : Job.total [] = 0 := rfl

@[simp] theorem Job.total_cons (job : Job ℚ) (jobs : List (Job ℚ)) :
    Job.total (job :: jobs) = job.task.megabytes + Job.total jobs := by
  simp [total]

theorem Job.total_nonneg (jobs : List (Job ℚ)) : 0 ≤ Job.total jobs := by
  refine List.sum_nonneg fun x hx => ?_
  obtain ⟨job, -, rfl⟩ := List.mem_map.mp hx
  exact job.task.megabytes_pos.le

theorem Job.total_perm {jobs jobs' : List (Job ℚ)} (h : jobs.Perm jobs') :
    Job.total jobs = Job.total jobs' :=
  (h.map _).sum_eq

/-- The amounts of a plan are the exact estimates. -/
def RunPlan.Exact (plan : RunPlan ℚ) : Prop := plan.estimate = Task.megabytes

/-- What holds at every moment of a run over a ledger that nobody else uses. A limit below zero is
exceeded even while nothing is held. -/
structure Run.Admitted (workers : Nat) (limit : ℚ) (s : Run ℚ Hook) : Prop where
  cap : s.inFlight.length ≤ workers
  bound : s.ledger.limit = limit
  amounts : ∀ job ∈ s.inFlight, job.amount = job.task.megabytes
  booked : s.ledger.allocated = Job.total s.held
  within : s.ledger.allocated ≤ limit ∨
    (∃ job, s.held = [job] ∧ limit < job.task.megabytes) ∨ (s.held = [] ∧ limit < 0)

variable {plan : RunPlan ℚ} {c : Conduct} {limit : ℚ}

theorem Run.Admitted.admission {s s' : Run ℚ Hook} (hs : s.Admitted plan.workers limit)
    (exact : plan.Exact) {task : Task} {rest : List Task} (hq : s.queue = task :: rest)
    (admitted : s.admit? plan = some s') : s'.Admitted plan.workers limit := by
  obtain ⟨free, rfl, room⟩ := Run.admit?_reserves hq admitted
  have hheld : (s.inFlight ++ [({ task, amount := plan.estimate task } : Job ℚ)]).filter Job.holds =
      s.held ++ [{ task, amount := plan.estimate task }] := by
    rw [List.filter_append]
    rfl
  refine ⟨?_, hs.bound, ?_, ?_, ?_⟩
  · simpa using Nat.succ_le_of_lt free
  · intro job hj
    rcases List.mem_append.mp hj with hj | hj
    · exact hs.amounts job hj
    · rw [List.mem_singleton.mp hj]
      exact congrFun exact task
  · show s.ledger.allocated + plan.estimate task = Job.total (List.filter Job.holds _)
    rw [hheld, Job.total_perm List.perm_append_comm, List.singleton_append, Job.total_cons,
      hs.booked, exact, add_comm]
  · rcases room with room | idle
    · exact .inl (hs.bound ▸ not_lt.mp (of_decide_eq_false room))
    · -- Nothing else is held, so the sum is the estimate of the task.
      have hnone : s.held = [] := by simp [Run.held, idle]
      have hsum : s.ledger.allocated + plan.estimate task = task.megabytes := by
        rw [hs.booked, hnone, exact, Job.total_nil, zero_add]
      by_cases hfits : task.megabytes ≤ limit
      · exact .inl (hsum.trans_le hfits)
      · rw [hnone, List.nil_append] at hheld
        exact .inr (.inl ⟨{ task, amount := plan.estimate task }, hheld, not_le.mp hfits⟩)

theorem Run.Admitted.attempt {s : Run ℚ Hook} (hs : s.Admitted plan.workers limit) {i : Nat}
    {job : Job ℚ} (place : s.inFlight[i]? = some job) (fresh : job.result? = none)
    (reading : Float) (a : AttemptResult) :
    (s.attempted reading i job a).Admitted plan.workers limit := by
  have hbefore := Run.held_perm place fresh
  have hafter := Run.held_attempted place reading a
  have hamount := hs.amounts job (List.mem_of_getElem? place)
  have hsum : s.ledger.allocated =
      job.task.megabytes + Job.total (s.attempted reading i job a).held := by
    rw [hs.booked, Job.total_perm hbefore, Job.total_cons, Job.total_perm hafter]
  have hrest := Job.total_nonneg (s.attempted reading i job a).held
  have hbooked : (s.attempted reading i job a).ledger.allocated =
      Job.total (s.attempted reading i job a).held := by
    show (s.ledger.release job.amount).allocated = _
    rw [Ledger.release_of_le _ _ (by linarith), hsum, hamount]
    ring
  refine ⟨by simpa [Run.attempted] using hs.cap, hs.bound, ?_, hbooked, ?_⟩
  · intro other hj
    rcases List.mem_or_eq_of_mem_set hj with hj | rfl
    · exact hs.amounts other hj
    · exact hamount
  · have hpos := job.task.megabytes_pos
    rcases hs.within with hle | ⟨only, hone, -⟩ | ⟨hnone, -⟩
    · exact .inl (by linarith)
    · -- The job that is too large was the only one, and it has given its amount back.
      have hnil : (s.attempted reading i job a).held = [] := by
        have hlen := hbefore.length_eq
        have hlen' := hafter.length_eq
        rw [hone, List.length_singleton, List.length_cons] at hlen
        exact List.eq_nil_of_length_eq_zero (by omega)
      by_cases hneg : limit < 0
      · exact .inr (.inr ⟨hnil, hneg⟩)
      · rw [hnil, Job.total_nil] at hbooked
        exact .inl (by linarith)
    · rw [hnone] at hbefore
      exact absurd hbefore.length_eq (by simp)

theorem Run.Admitted.receive {s : Run ℚ Hook} (hs : s.Admitted plan.workers limit) {i : Nat}
    {job : Job ℚ} (place : s.inFlight[i]? = some job) {r : Except Failure Module}
    (ended : job.result? = some r) (now : Instant) (present : Bool) :
    (s.concluded now present i job r).Admitted plan.workers limit := by
  obtain ⟨hjobs, hledger, -, -⟩ := s.concluded_spec now present i job r
  have hheld : (s.concluded now present i job r).held.Perm s.held := by
    unfold Run.held
    rw [hjobs]
    exact Run.held_eraseIdx place ended
  refine ⟨?_, hledger ▸ hs.bound, ?_, ?_, ?_⟩
  · rw [hjobs]
    exact (List.length_eraseIdx_le ..).trans hs.cap
  · rw [hjobs]
    exact fun other hj => hs.amounts other (List.mem_of_mem_eraseIdx hj)
  · rw [hledger, hs.booked, Job.total_perm hheld]
  · rw [hledger]
    rcases hs.within with hle | ⟨only, hone, hlarge⟩ | ⟨hnone, hneg⟩
    · exact .inl hle
    · exact .inr (.inl ⟨only, List.perm_singleton.mp (hone ▸ hheld), hlarge⟩)
    · exact .inr (.inr ⟨List.perm_nil.mp (hnone ▸ hheld), hneg⟩)

theorem Step.admitted (exact : plan.Exact) {s s' : Coordination ℚ Hook} {e : Event}
    (h : Step plan c s e s') (hs : s.run.Admitted plan.workers limit) :
    s'.run.Admitted plan.workers limit := by
  cases h with
  | admission hq admitted => exact hs.admission exact hq admitted
  | attempt place fresh => exact hs.attempt place fresh ..
  | wait => exact hs
  | receive place ended => exact hs.receive place ended ..
  | finish => exact hs

theorem Steps.admitted (exact : plan.Exact) {s s' : Coordination ℚ Hook} {events : List Event}
    (h : Steps plan c s events s') (hs : s.run.Admitted plan.workers limit) :
    s'.run.Admitted plan.workers limit := by
  induction h with
  | refl => exact hs
  | snoc _ last ih => exact last.admitted exact ih

/-! ## The peak of the ledger -/

/-- The largest estimate of some tasks; zero if there are none. -/
def Task.largest (tasks : List Task) : ℚ := (tasks.map megabytes).foldr max 0

theorem Task.le_largest {tasks : List Task} {task : Task} (h : task ∈ tasks) :
    task.megabytes ≤ largest tasks := by
  induction tasks with
  | nil => exact nomatch h
  | cons first rest ih =>
    rcases List.mem_cons.mp h with rfl | h
    · exact le_max_left ..
    · exact (ih h).trans (le_max_right ..)

theorem Task.largest_le {tasks : List Task} {bound : ℚ} (hb : 0 ≤ bound)
    (h : ∀ task ∈ tasks, task.megabytes ≤ bound) : largest tasks ≤ bound := by
  induction tasks with
  | nil => exact hb
  | cons first rest ih =>
    exact max_le (h first (by simp)) (ih fun task ht => h task (by simp [ht]))

theorem Task.largest_nonneg (tasks : List Task) : 0 ≤ largest tasks := by
  induction tasks with
  | nil => exact le_rfl
  | cons first rest ih => exact ih.trans (le_max_right ..)

/-- What holds of the peaks at every moment of a run of some tasks. -/
structure Run.Peaked (tasks : List Task) (limit : ℚ) (s : Run ℚ Hook) : Prop where
  queued : ∀ task ∈ s.queue, task.megabytes ≤ Task.largest tasks
  flying : ∀ job ∈ s.inFlight, job.task.megabytes ≤ Task.largest tasks
  reached : ∀ task ∈ tasks, task ∈ s.queue ∨ task.megabytes ≤ s.ledger.peak
  nonneg : 0 ≤ s.ledger.peak
  earlier : s.peak ≤ s.ledger.peak
  high : s.ledger.peak ≤ max limit (Task.largest tasks)

theorem Run.Peaked.admission {tasks : List Task} {s s' : Run ℚ Hook} (hp : s.Peaked tasks limit)
    (hs : s.Admitted plan.workers limit) (exact : plan.Exact) {task : Task} {rest : List Task}
    (hq : s.queue = task :: rest) (admitted : s.admit? plan = some s') : s'.Peaked tasks limit := by
  obtain ⟨-, rfl, room⟩ := Run.admit?_reserves hq admitted
  have hlargest := hp.queued task (by simp [hq])
  have hest : plan.estimate task = task.megabytes := congrFun exact task
  have hsum : 0 ≤ s.ledger.allocated := hs.booked ▸ Job.total_nonneg _
  refine ⟨?_, ?_, ?_, ?_, ?_, ?_⟩
  · exact fun other ho => hp.queued other (by simp [hq, show other ∈ rest from ho])
  · intro job hj
    rcases List.mem_append.mp hj with hj | hj
    · exact hp.flying job hj
    · rw [List.mem_singleton.mp hj]
      exact hlargest
  · intro other ho
    simp only [Ledger.reserve_peak, hest]
    rcases hp.reached other ho with hmem | hle
    · rcases List.mem_cons.mp (hq ▸ hmem) with rfl | hmem
      · exact .inr (le_max_of_le_right (by linarith))
      · exact .inl hmem
    · exact .inr (le_max_of_le_left hle)
  · exact le_max_of_le_left hp.nonneg
  · exact le_max_of_le_left hp.earlier
  · refine max_le hp.high ?_
    rcases room with room | idle
    · exact le_max_of_le_left (hs.bound ▸ not_lt.mp (of_decide_eq_false room))
    · have hnone : s.ledger.allocated = 0 := by simp [hs.booked, Run.held, idle]
      show s.ledger.allocated + plan.estimate task ≤ _
      rw [hnone, hest, zero_add]
      exact le_max_of_le_right hlargest

theorem Step.peaked {tasks : List Task} (exact : plan.Exact) {s s' : Coordination ℚ Hook}
    {e : Event} (h : Step plan c s e s') (hs : s.run.Admitted plan.workers limit)
    (hp : s.run.Peaked tasks limit) : s'.run.Peaked tasks limit := by
  cases h with
  | admission hq admitted => exact hp.admission hs exact hq admitted
  | wait => exact hp
  | finish => exact hp
  | @attempt s phase i job a place =>
    refine ⟨hp.queued, fun other hj => ?_, hp.reached, hp.nonneg, hp.earlier, hp.high⟩
    rcases List.mem_or_eq_of_mem_set hj with hj | rfl
    · exact hp.flying other hj
    · exact hp.flying job (List.mem_of_getElem? place)
  | @receive s i job r present place ended =>
    obtain ⟨hjobs, hledger, hpeak, hqueue⟩ := s.concluded_spec plan.now present i job r
    have hlargest := hp.flying job (List.mem_of_getElem? place)
    refine ⟨?_, ?_, ?_, hledger ▸ hp.nonneg, ?_, hledger ▸ hp.high⟩
    · intro task ht
      rcases hqueue with hq | ⟨e, -, hq⟩ <;> rw [hq] at ht
      · exact hp.queued task ht
      · rcases List.mem_append.mp ht with ht | ht
        · exact hp.queued task ht
        · rw [List.mem_singleton.mp ht]
          exact hlargest
    · rw [hjobs]
      exact fun other hj => hp.flying other (List.mem_of_mem_eraseIdx hj)
    · intro task ht
      rw [hledger]
      refine (hp.reached task ht).imp_left fun hmem => ?_
      rcases hqueue with hq | ⟨e, -, hq⟩ <;> rw [hq]
      · exact hmem
      · exact List.mem_append_left _ hmem
    · rw [hpeak, hledger]
      exact max_le hp.earlier le_rfl

theorem Steps.peaked {tasks : List Task} (exact : plan.Exact) {s s' : Coordination ℚ Hook}
    {events : List Event} (h : Steps plan c s events s')
    (hs : s.run.Admitted plan.workers limit) (hp : s.run.Peaked tasks limit) :
    s'.run.Peaked tasks limit := by
  induction h with
  | refl => exact hp
  | snoc init last ih => exact last.peaked exact (init.admitted exact hs) ih

/-! ## Processors -/

namespace Processor

variable (p : Processor ℚ Hook)

theorem admitted_start (alone : p.ledger.allocated = 0) (workers : Nat) (tasks : List Task) :
    (p.start tasks).Admitted workers p.ledger.limit where
  cap := Nat.zero_le _
  bound := rfl
  amounts := nofun
  booked := alone
  within := by
    by_cases h : p.ledger.limit < 0
    · exact .inr (.inr ⟨rfl, h⟩)
    · exact .inl (alone.trans_le (not_lt.mp h))

theorem peaked_start (alone : p.ledger.allocated = 0) (tasks : List Task) :
    (p.start tasks).Peaked tasks p.ledger.limit := by
  have hperm := Task.perm_sortByPriority tasks
  have hpeak : (p.start tasks).ledger.peak = 0 := alone
  refine ⟨fun task ht => Task.le_largest (hperm.mem_iff.mp ht), nofun,
    fun task ht => .inl (hperm.mem_iff.mpr ht), hpeak.ge, hpeak.ge, ?_⟩
  rw [hpeak]
  exact le_max_of_le_right (Task.largest_nonneg tasks)

/-- In every state that a run over a ledger of exact amounts can reach, whatever the attempts lead
to and in whatever order the workers finish: no more tasks are in flight than there are workers; the
ledger has booked the estimates of the tasks whose reservation is held; the sum is within the limit,
or a single reservation is held and exceeds the limit alone, or nothing is held and the limit is
below zero; the coordinator waits only while something is in flight and leaves the loop only with
an empty queue. Then nothing is booked, and the peak lies between the largest estimate and the
larger one of that and the limit. -/
theorem admission_safe (t : Tree) (parser : Parser) (c : Conduct) (paths : List Path)
    (exact : p.estimate = fun task => exactMegabytes task.size) (alone : p.ledger.allocated = 0)
    (events : List Event) (s : Coordination ℚ Hook)
    (steps : Steps (p.plan t parser paths.length) c
      ⟨p.start (paths.map (taskFor t p.settings.maxRetries)), .admitting⟩ events s) :
    s.run.Admitted (p.workerCap paths.length) p.ledger.limit ∧
      (s.phase = .waiting → s.run.inFlight ≠ []) ∧
      (s.phase = .finished → s.run.queue = [] ∧ s.run.ledger.allocated = 0 ∧
        let tasks := paths.map (taskFor t p.settings.maxRetries)
        let peak := (p.outcome t.now tasks s.run).metrics.peakMemory
        Task.largest tasks ≤ peak ∧ peak ≤ max p.ledger.limit (Task.largest tasks)) := by
  have hsound : s.Sound := steps.sound (p.one_le_workerCap _) ⟨nofun, nofun⟩
  have hexact : (p.plan t parser paths.length).Exact := exact
  have hstart := p.admitted_start alone (p.workerCap paths.length)
    (paths.map (taskFor t p.settings.maxRetries))
  have hadmitted := steps.admitted hexact hstart
  have hpeaked := steps.peaked hexact hstart (p.peaked_start alone _)
  refine ⟨hadmitted, hsound.waiting, fun hfinished => ?_⟩
  obtain ⟨hqueue, hidle⟩ := hsound.finished hfinished
  have hpeak : (p.outcome t.now (paths.map (taskFor t p.settings.maxRetries)) s.run).metrics.peakMemory
      = s.run.ledger.peak := max_eq_right hpeaked.earlier
  refine ⟨hqueue, by simp [hadmitted.booked, Run.held, hidle], ?_, ?_⟩
  · rw [hpeak]
    refine Task.largest_le hpeaked.nonneg fun task ht => ?_
    refine (hpeaked.reached task ht).resolve_left ?_
    rw [hqueue]
    exact List.not_mem_nil
  · rw [hpeak]
    exact hpeaked.high

/-- A processor whose ledger has room for one empty file at a time. -/
def tight : Processor ℚ Unit :=
  { settings := {}, largeFiles := ⟨⟨0, 0, 0, false⟩, 0⟩
    estimate := fun task => exactMegabytes task.size, cpus := 2
    reading := 0, ledger := .ofLimit 1, tracker := .ofTotal 0, monitor := { threshold := 0 } }

theorem admission_safe_tight :
    let tasks := [(⟨"a.py"⟩ : Path), ⟨"b.py"⟩].map (taskFor .twoFiles 3)
    ∃ events s,
      tight.estimate = (fun task => exactMegabytes task.size) ∧ tight.ledger.allocated = 0 ∧
      Steps (tight.plan .twoFiles .failing 2)
        (.ofWorkplace ⟨.twoFiles, tight.largeFiles, .failing⟩)
        ⟨tight.start tasks, .admitting⟩ events ⟨s, .finished⟩ ∧
      s.Admitted (tight.workerCap 2) 1 ∧ s.queue = [] ∧ s.ledger.allocated = 0 ∧
      Task.largest tasks ≤ (tight.outcome ⟨0, 0⟩ tasks s).metrics.peakMemory ∧
      (tight.outcome ⟨0, 0⟩ tasks s).metrics.peakMemory ≤ max 1 (Task.largest tasks) := by
  intro tasks
  obtain ⟨events, s, steps, -⟩ := tight.process_steps .twoFiles .failing tasks
  obtain ⟨hadmitted, -, hfinished⟩ := tight.admission_safe .twoFiles .failing _
    [⟨"a.py"⟩, ⟨"b.py"⟩] rfl rfl events _ steps
  obtain ⟨hqueue, hbooked, hlow, hhigh⟩ := hfinished rfl
  exact ⟨events, s, rfl, rfl, steps, hadmitted, hqueue, hbooked, hlow, hhigh⟩

/-- A processor whose ledger has a limit below zero. -/
def overdrawn : Processor ℚ Unit := { tight with ledger := .ofLimit (-1) }

/-- Before anything is admitted the sum of an overdrawn ledger is neither within its limit nor that
of a single reservation. -/
theorem admission_overdrawn :
    let s : Coordination ℚ Unit := ⟨overdrawn.start ([(⟨"a.py"⟩ : Path)].map (taskFor .twoFiles 3)),
      .admitting⟩
    overdrawn.estimate = (fun task => exactMegabytes task.size) ∧ overdrawn.ledger.allocated = 0 ∧
      Steps (overdrawn.plan .twoFiles .failing 1)
        (.ofWorkplace ⟨.twoFiles, overdrawn.largeFiles, .failing⟩) s [] s ∧
      ¬ (s.run.ledger.allocated ≤ overdrawn.ledger.limit ∨
        ∃ job, s.run.held = [job] ∧ overdrawn.ledger.limit < job.task.megabytes) := by
  intro s
  have hsum : ¬ s.run.ledger.allocated ≤ overdrawn.ledger.limit := by
    show ¬ (0 : ℚ) ≤ -1
    norm_num
  have hheld : s.run.held = [] := rfl
  refine ⟨rfl, rfl, .refl, ?_⟩
  rintro (hle | ⟨job, hone, -⟩)
  · exact hsum hle
  · rw [hheld] at hone
    exact nomatch hone

end Processor
end SourceSurvey
