import Mathlib.Algebra.GroupWithZero.Nat
import Mathlib.Algebra.Order.BigOperators.Group.List
import Mathlib.Algebra.Order.Group.Nat
import SourceSurvey.Proofs.Schedule.Step

/-!
# The run of one job after the other

`Run.rounds` admits what it can, attempts the job that was admitted first and receives its result,
again and again. It is one of the sequences of steps (`Run.rounds_steps`), and the number of rounds
that `Processor.process` allows is enough to leave the loop (`Processor.process_steps`).
-/

namespace SourceSurvey

variable {α Hook : Type} [Amount α] (plan : RunPlan α) {c : Conduct}

/-- The attempts that a task may still take. -/
def Task.attemptsLeft (task : Task) : Nat := task.maxRetries - task.retries + 1

/-! ## Admitting all that can be admitted -/

namespace Run

variable {plan} in
theorem queue_ne_nil {s s' : Run α Hook} (h : s.admit? plan = some s') :
    ∃ task rest, s.queue = task :: rest := by
  cases hq : s.queue with
  | nil => simp [admit?, hq] at h
  | cons task rest => exact ⟨task, rest, rfl⟩

theorem admitAll_steps (s : Run α Hook) (most : Nat) :
    ∃ events, Steps plan c ⟨s, .admitting⟩ events ⟨s.admitAll plan most, .admitting⟩ := by
  induction most generalizing s with
  | zero => exact ⟨[], .refl⟩
  | succ most ih =>
    unfold admitAll
    cases h : s.admit? plan with
    | none => exact ⟨[], .refl⟩
    | some s' =>
      obtain ⟨task, rest, hq⟩ := queue_ne_nil h
      obtain ⟨events, hs⟩ := ih s'
      exact ⟨_, (Steps.one (.admission hq h)).trans hs⟩

variable {plan} in
theorem admit?_of_full {s : Run α Hook} (h : plan.workers ≤ s.inFlight.length) :
    s.admit? plan = none := by
  unfold admit?
  cases s.queue with
  | nil => rfl
  | cons => simp [h]

variable {plan} in
/-- As many admissions as there are workers leave nothing to admit. -/
theorem admit?_admitAll {s : Run α Hook} {most : Nat}
    (h : plan.workers ≤ s.inFlight.length + most) : (s.admitAll plan most).admit? plan = none := by
  induction most generalizing s with
  | zero => exact admit?_of_full h
  | succ most ih =>
    unfold admitAll
    cases hs : s.admit? plan with
    | none => exact hs
    | some s' =>
      obtain ⟨task, rest, hq⟩ := queue_ne_nil hs
      obtain ⟨_, _, rfl⟩ := admit?_cons hq hs
      refine ih ?_
      simp only [List.length_append, List.length_singleton]
      omega

/-! ## Attempts that are left -/

/-- The attempts that the tasks of a run may still take. -/
def attemptsLeft (s : Run α Hook) : Nat :=
  (s.queue.map Task.attemptsLeft).sum + (s.inFlight.map fun j => j.task.attemptsLeft).sum

/-- No attempt at a job in flight is over. -/
def Fresh (s : Run α Hook) : Prop := ∀ job ∈ s.inFlight, job.result? = none

theorem admitAll_keeps {s : Run α Hook} (hf : s.Fresh) (most : Nat) :
    (s.admitAll plan most).Fresh ∧ (s.admitAll plan most).attemptsLeft = s.attemptsLeft := by
  induction most generalizing s with
  | zero => exact ⟨hf, rfl⟩
  | succ most ih =>
    unfold admitAll
    cases hs : s.admit? plan with
    | none => exact ⟨hf, rfl⟩
    | some s' =>
      obtain ⟨task, rest, hq⟩ := queue_ne_nil hs
      obtain ⟨ledger, amount, rfl⟩ := admit?_cons hq hs
      obtain ⟨h₁, h₂⟩ := ih (s := { s with
        queue := rest, ledger, inFlight := s.inFlight ++ [{ task, amount }] }) (by
          intro job hj
          rcases List.mem_append.mp hj with hj | hj
          · exact hf job hj
          · rw [List.mem_singleton.mp hj])
      refine ⟨h₁, h₂.trans ?_⟩
      simp only [attemptsLeft, hq, List.map_append, List.map_cons, List.map_nil, List.sum_append,
        List.sum_cons, List.sum_nil]
      omega

/-! ## One round -/

theorem work_head {s : Run α Hook} {job : Job α} {rest : List (Job α)}
    (h : s.inFlight = job :: rest) :
    s.work plan 0 = s.attempted plan.reading 0 job
      (plan.workplace.attempt job.task (s.asked.count job.task.path)) := by
  simp [work, h]

theorem receive_attempted {s : Run α Hook} {job : Job α} {rest : List (Job α)}
    (h : s.inFlight = job :: rest) (a : AttemptResult) :
    (s.attempted plan.reading 0 job a).receive plan 0 =
      (s.attempted plan.reading 0 job a).concluded plan.now
        (plan.workplace.tree.exists? job.task.path) 0 { job with result? := some a.result }
        a.result := by
  simp [receive, attempted, h]

/-- Taking a result leaves the ledger as it is, removes the job and may queue its task again. -/
theorem concluded_spec (s : Run α Hook) (now : Instant) (present : Bool) (i : Nat) (job : Job α)
    (r : Except Failure Module) :
    (s.concluded now present i job r).inFlight = s.inFlight.eraseIdx i ∧
      (s.concluded now present i job r).ledger = s.ledger ∧
      (s.concluded now present i job r).peak = Amount.larger s.peak s.ledger.peak ∧
      ((s.concluded now present i job r).queue = s.queue ∨
        ∃ e, job.task.goesOn e present = true ∧
          (s.concluded now present i job r).queue = s.queue ++ [job.task.retried e.kind]) := by
  cases r with
  | ok module => exact ⟨rfl, rfl, rfl, .inl rfl⟩
  | error e =>
    cases hg : job.task.goesOn e present with
    | true =>
      simp only [concluded, fail_of_goesOn hg]
      exact ⟨rfl, rfl, rfl, .inr ⟨e, hg, rfl⟩⟩
    | false =>
      simp only [concluded, fail_of_over hg]
      exact ⟨rfl, rfl, rfl, .inl rfl⟩

variable {plan} in
theorem round_steps {s : Run α Hook} (hf : s.Fresh) (full : s.admit? plan = none) {job : Job α}
    {rest : List (Job α)} (h : s.inFlight = job :: rest) :
    Steps plan (.ofWorkplace plan.workplace) ⟨s, .admitting⟩
      [.wait, .attempt job.task.path, .receipt job.task.path]
      ⟨(s.work plan 0).receive plan 0, .admitting⟩ := by
  have hwait : Step plan (.ofWorkplace plan.workplace) ⟨s, .admitting⟩ .wait ⟨s, .waiting⟩ :=
    .wait full (by simp [h])
  have hplace : s.inFlight[0]? = some job := by simp [h]
  rw [work_head plan h, receive_attempted plan h]
  refine .snoc (.snoc (.one hwait) (.attempt hplace (hf job (by simp [h])) rfl)) ?_
  have hresult (a : AttemptResult) : (s.attempted plan.reading 0 job a).inFlight[0]? =
      some { job with result? := some a.result } := by
    simp [attempted, h]
  exact @Step.receive _ _ _ plan _ _ 0 { job with result? := some _ } _ _ (hresult _) rfl rfl

/-- A round leaves no attempt that is over, and uses up one of those that are left. -/
theorem round_keeps {s : Run α Hook} (hf : s.Fresh) {job : Job α} {rest : List (Job α)}
    (h : s.inFlight = job :: rest) :
    ((s.work plan 0).receive plan 0).Fresh ∧
      ((s.work plan 0).receive plan 0).attemptsLeft + 1 ≤ s.attemptsLeft := by
  rw [work_head plan h, receive_attempted plan h]
  have hresult (a : AttemptResult) : (s.attempted plan.reading 0 job a).inFlight =
      { job with result? := some a.result } :: rest := by
    simp [attempted, h]
  let result := (plan.workplace.attempt job.task (s.asked.count job.task.path)).result
  obtain ⟨hr, -, -, hq⟩ := concluded_spec (s.attempted plan.reading 0 job
      (plan.workplace.attempt job.task (s.asked.count job.task.path))) plan.now
    (plan.workplace.tree.exists? job.task.path) 0 { job with result? := some result } result
  rw [hresult, List.eraseIdx_zero, List.tail_cons] at hr
  refine ⟨fun j hj => hf j (by rw [hr] at hj; simp [h, hj]), ?_⟩
  unfold attemptsLeft
  rw [hr, h, List.map_cons, List.sum_cons]
  rcases hq with hq | ⟨e, hg, hq⟩
  · rw [hq]
    simp only [attempted, Task.attemptsLeft]
    omega
  · have hlt : job.task.retries < job.task.maxRetries := Task.retries_lt_of_goesOn hg
    rw [hq, List.map_append, List.sum_append, List.map_singleton, List.sum_singleton]
    simp only [attempted, Task.attemptsLeft, Task.retried]
    omega

/-! ## All rounds -/

variable {plan} in
theorem finish_step {s : Run α Hook} (hd : s.admit? plan = none) (hi : s.inFlight = []) :
    Steps plan c ⟨s, .admitting⟩ [.finish] ⟨s, .finished⟩ :=
  .one (.finish hd hi)

theorem rounds_steps {s : Run α Hook} (hf : s.Fresh) {n : Nat}
    (hn : s.attemptsLeft ≤ n) :
    ∃ events, Steps plan (.ofWorkplace plan.workplace) ⟨s, .admitting⟩ events
      ⟨s.rounds plan n, .finished⟩ := by
  induction n generalizing s with
  | zero =>
    have hq : s.queue = [] := by
      cases hq : s.queue with
      | nil => rfl
      | cons => simp [attemptsLeft, hq, Task.attemptsLeft] at hn
    have hi : s.inFlight = [] := by
      cases hi : s.inFlight with
      | nil => rfl
      | cons => simp [attemptsLeft, hi, Task.attemptsLeft] at hn
    exact ⟨_, finish_step (by simp [admit?, hq]) hi⟩
  | succ n ih =>
    obtain ⟨events, hadmit⟩ := admitAll_steps plan
      (c := .ofWorkplace plan.workplace) s plan.workers
    obtain ⟨hf', hleft⟩ := admitAll_keeps plan hf plan.workers
    have hfull : (s.admitAll plan plan.workers).admit? plan = none := admit?_admitAll (by omega)
    unfold rounds
    cases hi : (s.admitAll plan plan.workers).inFlight with
    | nil =>
      simp only [hi, List.isEmpty_nil, if_true]
      exact ⟨_, hadmit.trans (finish_step hfull hi)⟩
    | cons job rest =>
      simp only [hi, List.isEmpty_cons, Bool.false_eq_true, if_false]
      obtain ⟨hf'', hleft'⟩ := round_keeps plan hf' hi
      obtain ⟨events', hrest⟩ := ih hf'' (by omega)
      exact ⟨_, hadmit.trans ((round_steps hf' hfull hi).trans hrest)⟩

end Run

theorem Task.perm_sortByPriority (tasks : List Task) : (sortByPriority tasks).Perm tasks :=
  List.mergeSort_perm ..

namespace Processor

omit [Amount α] in
theorem one_le_workerCap (p : Processor α Hook) (n : Nat) : 1 ≤ p.workerCap n := by
  unfold workerCap
  split <;> omega

theorem attemptsLeft_start (p : Processor α Hook) (tasks : List Task) :
    (p.start tasks).attemptsLeft ≤ Run.attemptLimit tasks := by
  simp only [Run.attemptsLeft, start, List.map_nil, List.sum_nil, Nat.add_zero,
    ((Task.perm_sortByPriority tasks).map Task.attemptsLeft).sum_nat, Run.attemptLimit]
  refine List.sum_le_sum fun t _ => ?_
  unfold Task.attemptsLeft
  omega

/-- The run of a processor is one of the sequences of steps, and it leaves the loop. -/
theorem process_steps (p : Processor α Hook) (t : Tree) (parser : Parser) (tasks : List Task) :
    ∃ events s, Steps (p.plan t parser tasks.length)
        (.ofWorkplace { tree := t, largeFiles := p.largeFiles, parser })
        ⟨p.start tasks, .admitting⟩ events ⟨s, .finished⟩ ∧
      (p.process t parser tasks).2 = p.outcome t.now tasks s := by
  obtain ⟨events, h⟩ := Run.rounds_steps (p.plan t parser tasks.length)
    (s := p.start tasks) (by simp [Run.Fresh, start]) (p.attemptsLeft_start tasks)
  exact ⟨events, _, h, rfl⟩

end Processor
end SourceSurvey
