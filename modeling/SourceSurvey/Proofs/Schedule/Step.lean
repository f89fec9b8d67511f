import Mathlib.Data.List.Perm.Basic
import SourceSurvey.Proofs.PathMap
import SourceSurvey.Schedule.Coordinator

/-!
# Steps of a run

The coordinator and its workers as a system of steps. `Conduct` says what may happen outside of the
coordinator: what an attempt may lead to and whether the file of a failed task may be there.
`Step` is one step of the coordinator or of a worker. Workers take their jobs in any order, finish
in any order and may do so between any two steps of the coordinator; `Steps` is a sequence of steps
with what was done. The inline run, in which each job is attempted as soon as it is admitted and
received before the next one, is one of these sequences.

An `Item` is what a run holds for one file: a task that is queued, begun or ended, a record that was
kept or a failure. `Step.moves` says all that a step can do: it moves one item on (`Move`) and
touches no other.
-/

namespace SourceSurvey

/-! ## What may happen -/

/-- What an attempt at a task may lead to, given how often the parser was asked for its path, and
whether the file at a path may be there. -/
structure Conduct where
  attempts : Task → Nat → AttemptResult → Prop
  presence : Path → Bool → Prop

namespace Conduct

/-- What happens at a workplace. -/
def ofWorkplace (w : Workplace) : Conduct :=
  ⟨fun task asked a => a = w.attempt task asked, fun p b => b = w.tree.exists? p⟩

/-- Every attempt leads to something, and every file is there or not. -/
def Total (c : Conduct) : Prop :=
  (∀ task asked, ∃ a, c.attempts task asked a) ∧ ∀ p, ∃ b, c.presence p b

theorem ofWorkplace_total (w : Workplace) : (ofWorkplace w).Total :=
  ⟨fun _ _ => ⟨_, rfl⟩, fun _ => ⟨_, rfl⟩⟩

end Conduct

variable {α Hook : Type}

/-! ## Events -/

/-- What is done in a step. -/
inductive Event where
  | admission (path : Path)
  | attempt (path : Path)
  | wait
  | receipt (path : Path)
  | finish
  deriving DecidableEq, Repr

/-- The path of an attempt. -/
def Event.attempted? : Event → Option Path
  | .attempt p => some p
  | _ => none

/-- The paths of the attempts, in order. -/
def attemptsOf (events : List Event) : List Path := events.filterMap Event.attempted?

/-! ## Items -/

/-- What a run holds for one file. -/
inductive Item where
  | queued (task : Task)
  | begun (task : Task)
  | ended (task : Task) (result : Except Failure Module)
  | kept (path : Path) (module : Module)
  | lost (record : FailureRecord)

namespace Item

/-- The path of the file. -/
def path : Item → Path
  | queued task => task.path
  | begun task => task.path
  | ended task _ => task.path
  | kept path _ => path
  | lost record => record.path

/-- The item for a job. -/
def ofJob (job : Job α) : Item :=
  match job.result? with
  | none => begun job.task
  | some r => ended job.task r

@[simp] theorem path_ofJob (job : Job α) : (ofJob job).path = job.task.path := by
  unfold ofJob; split <;> rfl

end Item

/-- What a run holds, file by file. -/
def Run.items (s : Run α Hook) : List Item :=
  s.queue.map .queued ++ s.inFlight.map .ofJob ++
    s.modules.entries.map (fun e => .kept e.1 e.2) ++ s.failures.map .lost

/-- The paths that the parser was asked for and the number of retries that were granted. -/
structure Tally where
  asked : List Path
  granted : Nat

/-- The tally of a run. -/
def Run.tally (s : Run α Hook) : Tally := ⟨s.asked, s.recovery.granted⟩

/-- How an item moves on in a step, with the tallies before and after it. -/
inductive Move (c : Conduct) : Tally → Event → Item → Item → Tally → Prop
  | admission (t : Tally) (task : Task) :
      Move c t (.admission task.path) (.queued task) (.begun task) t
  | attempt (t : Tally) (task : Task) {a : AttemptResult}
      (result : c.attempts task (t.asked.count task.path) a) :
      Move c t (.attempt task.path) (.begun task) (.ended task a.result)
        { t with asked := if a.asked then t.asked ++ [task.path] else t.asked }
  | keep (t : Tally) (task : Task) (module : Module) :
      Move c t (.receipt task.path) (.ended task (.ok module)) (.kept task.path module) t
  | retry (t : Tally) (task : Task) {e : Failure} {present : Bool}
      (presence : c.presence task.path present) (again : task.goesOn e present = true) :
      Move c t (.receipt task.path) (.ended task (.error e)) (.queued (task.retried e.kind))
        { t with granted := t.granted + 1 }
  | giveUp (t : Tally) (task : Task) {e : Failure} {present : Bool}
      (presence : c.presence task.path present) (spent : task.goesOn e present = false) :
      Move c t (.receipt task.path) (.ended task (.error e)) (.lost (task.givenUp e)) t

theorem Move.path_eq {c : Conduct} {t t' : Tally} {e : Event} {x y : Item}
    (h : Move c t e x y t') : y.path = x.path := by
  cases h <;> rfl

private theorem perm_split {α : Type} {l : List α} {i : Nat} {x : α} (h : l[i]? = some x) :
    l.Perm (x :: l.eraseIdx i) := by
  obtain ⟨hi, rfl⟩ := List.getElem?_eq_some_iff.mp h
  exact (List.getElem_cons_eraseIdx_perm hi).symm

private theorem perm_replace {α : Type} {l : List α} {i : Nat} {x : α} (h : l[i]? = some x)
    (y : α) : (l.set i y).Perm (y :: l.eraseIdx i) := by
  obtain ⟨hi, -⟩ := List.getElem?_eq_some_iff.mp h
  exact List.set_perm_cons_eraseIdx hi y

/-- What a run holds beside one of its jobs. -/
def Run.itemsBeside (s : Run α Hook) (i : Nat) : List Item :=
  s.queue.map .queued ++ (s.inFlight.eraseIdx i).map .ofJob ++
    s.modules.entries.map (fun e => .kept e.1 e.2) ++ s.failures.map .lost

theorem Run.items_perm {s : Run α Hook} {i : Nat} {job : Job α} (h : s.inFlight[i]? = some job) :
    s.items.Perm (.ofJob job :: s.itemsBeside i) := by
  have hj := (perm_split h).map (Item.ofJob (α := α))
  unfold items itemsBeside
  refine (((hj.append_left _).append_right _).append_right _).trans ?_
  simp only [List.map_cons, List.append_assoc, List.cons_append]
  exact List.perm_middle

/-- The record of a task whose file is new to the map of modules is a further item. -/
theorem Run.items_succeed {s : Run α Hook} {task : Task} (module : Module)
    (h : ∀ q ∈ s.modules.keys, task.path.same q = false) :
    (s.succeed task module).items.Perm (.kept task.path module :: s.items) := by
  have hm := (PathMap.perm_insert (a := module) h).map fun e => Item.kept e.1 e.2
  unfold items succeed
  refine ((hm.append_left _).append_right _).trans ?_
  simp only [List.map_cons, List.append_assoc, List.cons_append]
  rw [← List.append_assoc]
  exact List.perm_middle.trans (by simp)

/-- The paths of a run belong to different files. -/
def Run.Distinct (s : Run α Hook) : Prop :=
  (s.items.map Item.path).Pairwise fun p q => p.same q = false

theorem Run.Distinct.cons {s : Run α Hook} (hd : s.Distinct) {x : Item} {rest : List Item}
    (h : s.items.Perm (x :: rest)) : ∀ y ∈ rest, x.path.same y.path = false := by
  have hpair := ((h.map Item.path).pairwise_iff Path.not_same_symm).mp hd
  intro y hy
  exact (List.pairwise_cons.mp hpair).1 _ (List.mem_map_of_mem hy)

/-- The path of a job in flight is new to the map of modules. -/
theorem Run.Distinct.new_key {s : Run α Hook} (hd : s.Distinct) {i : Nat} {job : Job α}
    (h : s.inFlight[i]? = some job) : ∀ q ∈ s.modules.keys, job.task.path.same q = false := by
  intro q hq
  obtain ⟨e, he, rfl⟩ := List.mem_map.mp hq
  have := hd.cons (Run.items_perm h) (.kept e.1 e.2) ?_
  · rwa [Item.path_ofJob] at this
  · simp only [Run.itemsBeside, List.mem_append]
    exact .inl (.inr (List.mem_map_of_mem he))

/-! ## Failed tasks -/

theorem Task.retries_lt_of_goesOn {task : Task} {e : Failure} {present : Bool}
    (h : task.goesOn e present = true) : task.retries < task.maxRetries := by
  simp only [goesOn, canRetry, Bool.and_eq_true, decide_eq_true_eq] at h
  exact h.1

theorem Recovery.handle_eq (r : Recovery) (task : Task) (e : Failure) (present : Bool)
    (now : Instant) :
    r.handle task e present now =
      (task.goesOn e present, if task.goesOn e present then task.retried e.kind else task,
        { records := r.records ++ [(task.id, ⟨e.kind, e.message, now⟩)]
          granted := r.granted + (task.goesOn e present).toNat }) := by
  unfold handle
  cases task.goesOn e present <;> rfl

/-- A failed task that goes on is queued again. -/
theorem Run.fail_of_goesOn {task : Task} {e : Failure} {present : Bool}
    (h : task.goesOn e present = true) (now : Instant) (s : Run α Hook) :
    s.fail now present task e =
      { s with
        recovery := (s.recovery.handle task e present now).2.2
        queue := s.queue ++ [task.retried e.kind] } := by
  simp only [fail, Recovery.handle_eq, h, if_true]

/-- A failed task that does not go on is recorded as a failure. -/
theorem Run.fail_of_over {task : Task} {e : Failure} {present : Bool}
    (h : task.goesOn e present = false) (now : Instant) (s : Run α Hook) :
    s.fail now present task e =
      { s with
        recovery := (s.recovery.handle task e present now).2.2
        failures := s.failures ++ [task.givenUp e]
        failed := s.failed + 1
        tracker := s.tracker.update 0 1 none } := by
  simp only [fail, Recovery.handle_eq, h, Bool.false_eq_true, if_false]

/-! ## The coordinator -/

/-- What the coordinator is doing: it admits tasks, it waits for a result, or it has left the
loop. -/
inductive Phase where
  | admitting
  | waiting
  | finished
  deriving DecidableEq, Repr

/-- A run and what its coordinator is doing. -/
structure Coordination (α Hook : Type) where
  run : Run α Hook
  phase : Phase := .admitting

variable [Amount α]

/-- One step. The coordinator admits tasks until none can be admitted; then it leaves the loop if
no job is in flight and otherwise waits until it has received the result of one. -/
inductive Step (plan : RunPlan α) (c : Conduct) :
    Coordination α Hook → Event → Coordination α Hook → Prop
  | admission {s s' : Run α Hook} {task : Task} {rest : List Task} (queue : s.queue = task :: rest)
      (admitted : s.admit? plan = some s') :
      Step plan c ⟨s, .admitting⟩ (.admission task.path) ⟨s', .admitting⟩
  | attempt {s : Run α Hook} {phase : Phase} {i : Nat} {job : Job α} {a : AttemptResult}
      (place : s.inFlight[i]? = some job) (fresh : job.result? = none)
      (result : c.attempts job.task (s.asked.count job.task.path) a) :
      Step plan c ⟨s, phase⟩ (.attempt job.task.path) ⟨s.attempted plan.reading i job a, phase⟩
  | wait {s : Run α Hook} (full : s.admit? plan = none) (busy : s.inFlight ≠ []) :
      Step plan c ⟨s, .admitting⟩ .wait ⟨s, .waiting⟩
  | receive {s : Run α Hook} {i : Nat} {job : Job α} {r : Except Failure Module} {present : Bool}
      (place : s.inFlight[i]? = some job) (ended : job.result? = some r)
      (presence : c.presence job.task.path present) :
      Step plan c ⟨s, .waiting⟩ (.receipt job.task.path)
        ⟨s.concluded plan.now present i job r, .admitting⟩
  | finish {s : Run α Hook} (drained : s.admit? plan = none) (idle : s.inFlight = []) :
      Step plan c ⟨s, .admitting⟩ .finish ⟨s, .finished⟩

/-- A sequence of steps with what was done, in order. -/
inductive Steps (plan : RunPlan α) (c : Conduct) (s : Coordination α Hook) :
    List Event → Coordination α Hook → Prop
  | refl : Steps plan c s [] s
  | snoc {events : List Event} {e : Event} {s' s'' : Coordination α Hook}
      (init : Steps plan c s events s') (last : Step plan c s' e s'') :
      Steps plan c s (events ++ [e]) s''

theorem Steps.one {plan : RunPlan α} {c : Conduct} {s s' : Coordination α Hook} {e : Event}
    (h : Step plan c s e s') : Steps plan c s [e] s' :=
  .snoc .refl h

theorem Steps.trans {plan : RunPlan α} {c : Conduct} {s s' s'' : Coordination α Hook}
    {es es' : List Event} (h : Steps plan c s es s') (h' : Steps plan c s' es' s'') :
    Steps plan c s (es ++ es') s'' := by
  induction h' with
  | refl => simpa using h
  | snoc _ last ih => rw [← List.append_assoc]; exact .snoc ih last

/-! ## What a step does -/

namespace Run

theorem admit?_cons {plan : RunPlan α} {s s' : Run α Hook} {task : Task} {rest : List Task}
    (hq : s.queue = task :: rest) (h : s.admit? plan = some s') :
    ∃ ledger amount, s' =
      { s with queue := rest, ledger, inFlight := s.inFlight ++ [{ task, amount }] } := by
  simp only [admit?, hq] at h
  split at h
  · exact nomatch h
  · split at h
    · exact ⟨_, _, (Option.some.inj h).symm⟩
    · split at h
      · exact ⟨_, _, (Option.some.inj h).symm⟩
      · exact nomatch h

/-- Nothing is admitted although nothing is in flight: the queue is empty. -/
theorem queue_eq_nil {plan : RunPlan α} {s : Run α Hook} (hw : 1 ≤ plan.workers)
    (h : s.admit? plan = none) (hi : s.inFlight = []) : s.queue = [] := by
  cases hq : s.queue with
  | nil => rfl
  | cons task rest =>
    simp only [admit?, hq, hi, List.length_nil, List.isEmpty_nil] at h
    rw [if_neg (by omega)] at h
    split at h <;> simp at h

end Run

/-- The coordinator goes on without a change of the run, or one item moves on. -/
def Moves (c : Conduct) (s : Run α Hook) (e : Event) (s' : Run α Hook) : Prop :=
  (e = .wait ∨ e = .finish) ∧ s' = s ∨ ∃ x y rest, Move c s.tally e x y s'.tally ∧ s.items.Perm (x :: rest) ∧
    s'.items.Perm (y :: rest)

theorem Step.moves {plan : RunPlan α} {c : Conduct} {s s' : Coordination α Hook} {e : Event}
    (h : Step plan c s e s') (hd : s.run.Distinct) : Moves c s.run e s'.run := by
  cases h with
  | wait => exact .inl ⟨.inl rfl, rfl⟩
  | finish => exact .inl ⟨.inr rfl, rfl⟩
  | @admission s s' task rest hq ha =>
    obtain ⟨ledger, amount, rfl⟩ := Run.admit?_cons hq ha
    refine .inr ⟨_, _, rest.map .queued ++ s.inFlight.map .ofJob ++
      s.modules.entries.map (fun e => .kept e.1 e.2) ++ s.failures.map .lost,
      .admission _ task, ?_, ?_⟩
    · simp [Run.items, hq]
    · simp only [Run.items, List.map_append, List.map_cons, List.map_nil, List.append_assoc,
        List.cons_append, List.nil_append, Item.ofJob]
      rw [← List.append_assoc]
      exact List.perm_middle.trans (by simp)
  | @attempt s phase i job a hp hf hr =>
    refine .inr ⟨.begun job.task, .ended job.task a.result, s.itemsBeside i,
      .attempt _ job.task hr, ?_, ?_⟩
    · simpa [Item.ofJob, hf] using Run.items_perm hp
    · have hj := (perm_replace hp { job with result? := some a.result }).map Item.ofJob
      unfold Run.items Run.itemsBeside Run.attempted
      refine (((hj.append_left _).append_right _).append_right _).trans ?_
      simp only [List.map_cons, List.append_assoc, List.cons_append, Item.ofJob]
      exact List.perm_middle
  | @receive s i job r present hp he hpres =>
    have hitems : s.items.Perm (.ended job.task r :: s.itemsBeside i) := by
      simpa [Item.ofJob, he] using Run.items_perm hp
    have hdrop : (s.dropJob i).items = s.itemsBeside i := rfl
    cases r with
    | ok module =>
      refine .inr ⟨_, _, _, .keep _ job.task module, hitems, ?_⟩
      rw [← hdrop]
      exact Run.items_succeed module (hd.new_key hp)
    | error e =>
      cases hg : job.task.goesOn e present with
      | true =>
        refine .inr ⟨_, .queued (job.task.retried e.kind), _, ?_, hitems, ?_⟩
        · simp only [Run.concluded, Run.fail_of_goesOn hg, Recovery.handle_eq, hg]
          exact .retry s.tally job.task hpres hg
        · simp only [Run.concluded, Run.fail_of_goesOn hg, Run.items, Run.itemsBeside, Run.dropJob,
            List.map_append, List.map_cons, List.map_nil, List.append_assoc, List.cons_append,
            List.nil_append]
          exact List.perm_middle
      | false =>
        refine .inr ⟨_, .lost (job.task.givenUp e), _, ?_, hitems, ?_⟩
        · simp only [Run.concluded, Run.fail_of_over hg, Recovery.handle_eq, hg]
          exact .giveUp s.tally job.task hpres hg
        · simp only [Run.concluded, Run.fail_of_over hg, Run.items, Run.itemsBeside, Run.dropJob,
            List.map_append, List.map_cons, List.map_nil, ← List.append_assoc]
          exact List.perm_append_singleton ..

end SourceSurvey
