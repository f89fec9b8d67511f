import Mathlib.Algebra.BigOperators.Group.List.Basic
import Mathlib.Algebra.GroupWithZero.Nat
import SourceSurvey.Proofs.Schedule.Step
import SourceSurvey.Proofs.Tree.Walk

/-!
# The books of recovery

Recovery keeps a record of every failed attempt and counts the retries that it grants, and each task
counts its own. `Supervision` keeps beside them what recovery was asked and what it answered, for any
tasks, any failures in any order, and files that come and go. The history can be cleared in between,
which leaves all counters as they are.

* `Supervision.Sound`: tasks, counter and records agree with the answers. `Sound.perform` is the step
  lemma, `Sound.after` the run lemma.
* `Recovery.mem_summary_iff`, `Recovery.sum_summary`: what the summary counts.
* `Supervision.after_agrees`: what follows for a new recovery.
-/

namespace SourceSurvey

/-! ## Answers -/

/-- The task as recovery leaves it when it answers whether the task is tried again. -/
def Task.judged (task : Task) (kind : FailureKind) (again : Bool) : Task :=
  { task with
    retries := task.retries + again.toNat
    preferChunked := task.preferChunked || (again && kind = .memoryExhaustion) }

theorem Task.judged_eq (task : Task) (kind : FailureKind) (again : Bool) :
    task.judged kind again = if again then task.retried kind else task := by
  cases again with
  | true => simp [judged, retried]
  | false => simp [judged]

/-- Retries stay within their number, for another one is granted only below it. -/
theorem Task.retries_judged_le {task : Task} (h : task.retries ≤ task.maxRetries) (e : Failure)
    (present : Bool) : (task.judged e.kind (task.goesOn e present)).retries ≤ task.maxRetries := by
  cases hg : task.goesOn e present with
  | true => exact retries_lt_of_goesOn hg
  | false => exact h

/-- What recovery was asked and what it answered: the place of the task, the task as it was, the
failure of the attempt, and whether the task is tried again. -/
structure Verdict where
  place : Nat
  task : Task
  failure : Failure
  again : Bool

namespace Verdict

/-- The number of retries that were granted to the task at a place. -/
def grants (verdicts : List Verdict) (place : Nat) : Nat :=
  verdicts.countP fun v => v.place = place && v.again

/-- Whether the task at a place was tried again after running out of memory. -/
def exhausted (verdicts : List Verdict) (place : Nat) : Bool :=
  verdicts.any fun v => v.place = place && v.again && v.failure.kind = .memoryExhaustion

/-- The task at a place as some verdicts have left it. -/
def applied (verdicts : List Verdict) (place : Nat) (task : Task) : Task :=
  { task with
    retries := task.retries + grants verdicts place
    preferChunked := task.preferChunked || exhausted verdicts place }

/-- The class and the text of the failure. -/
def account (v : Verdict) : FailureKind × String := (v.failure.kind, v.failure.message)

theorem applied_concat_self (verdicts : List Verdict) (v : Verdict) (task : Task) :
    applied (verdicts ++ [v]) v.place task =
      (applied verdicts v.place task).judged v.failure.kind v.again := by
  simp [applied, Task.judged, grants, exhausted, List.countP_append, List.countP_singleton,
    Nat.add_assoc, Bool.or_assoc, Bool.toNat, Bool.cond_eq_ite]

theorem applied_concat_of_ne (verdicts : List Verdict) {v : Verdict} {place : Nat}
    (h : v.place ≠ place) : applied (verdicts ++ [v]) place = applied verdicts place := by
  funext task
  simp [applied, grants, exhausted, List.countP_append, h]

end Verdict

/-! ## Supervision -/

/-- What happens to tasks under supervision: an attempt at the task at a place fails, the history is
cleared, or files come and go. -/
inductive Incident where
  | failure (place : Nat) (e : Failure)
  | clearing
  | change (tree : Tree)

/-- Tasks with the recovery that they share and the tree of their files, all answers so far, and those
since the history was last cleared. -/
structure Supervision where
  tasks : List Task
  recovery : Recovery := {}
  tree : Tree
  verdicts : List Verdict := []
  recent : List Verdict := []

namespace Supervision

/-- What an incident leads to. -/
def perform (s : Supervision) : Incident → Supervision
  | .failure place e =>
    match s.tasks[place]? with
    | none => s
    | some task =>
      let (again, next, recovery) :=
        s.recovery.handle task e (s.tree.exists? task.path) s.tree.now
      let verdict : Verdict := ⟨place, task, e, again⟩
      { s with
        tasks := s.tasks.set place next
        recovery
        verdicts := s.verdicts ++ [verdict]
        recent := s.recent ++ [verdict] }
  | .clearing => { s with recovery := s.recovery.clear, recent := [] }
  | .change tree => { s with tree }

/-- The supervision after some incidents. -/
def after (s : Supervision) (incidents : List Incident) : Supervision := incidents.foldl perform s

/-- The verdict on a failure of a task. -/
def verdict (s : Supervision) (place : Nat) (task : Task) (e : Failure) : Verdict :=
  ⟨place, task, e, task.goesOn e (s.tree.exists? task.path)⟩

/-- What a failed attempt leads to, by the verdict on it. -/
theorem perform_failure {s : Supervision} {place : Nat} {task : Task}
    (h : s.tasks[place]? = some task) (e : Failure) :
    s.perform (.failure place e) =
      { s with
        tasks := s.tasks.set place (task.judged e.kind (s.verdict place task e).again)
        recovery :=
          { records := s.recovery.records ++ [(task.id, ⟨e.kind, e.message, s.tree.now⟩)]
            granted := s.recovery.granted + (s.verdict place task e).again.toNat }
        verdicts := s.verdicts ++ [s.verdict place task e]
        recent := s.recent ++ [s.verdict place task e] } := by
  simp only [perform, h, Recovery.handle_eq, Task.judged_eq]
  rfl

/-! ## The books agree with the answers -/

/-- What holds after any incidents to some tasks. -/
structure Sound (tasks : List Task) (s : Supervision) : Prop where
  judged : ∀ place, s.tasks[place]? = tasks[place]?.map (Verdict.applied s.verdicts place)
  within : ∀ task ∈ s.tasks, task.retries ≤ task.maxRetries
  granted : s.recovery.granted = s.verdicts.countP Verdict.again
  increase : (s.tasks.map Task.retries).sum = (tasks.map Task.retries).sum + s.recovery.granted
  records : s.recovery.records.map (fun e => (e.1, e.2.kind, e.2.message)) =
    s.recent.map fun v => (v.task.id, v.account)

namespace Sound

variable {tasks : List Task} {s : Supervision}

theorem start (h : ∀ task ∈ tasks, task.retries ≤ task.maxRetries) (tree : Tree) :
    Sound tasks { tasks, tree } where
  judged place := by
    cases tasks[place]? <;> simp [Verdict.applied, Verdict.grants, Verdict.exhausted]
  within := h
  granted := rfl
  increase := rfl
  records := rfl

theorem perform_failure (hs : s.Sound tasks) {place : Nat} {task : Task}
    (h : s.tasks[place]? = some task) (e : Failure) :
    (s.perform (.failure place e)).Sound tasks := by
  rw [Supervision.perform_failure h]
  generalize hv : s.verdict place task e = v
  obtain ⟨rfl, rfl, rfl⟩ : v.place = place ∧ v.task = task ∧ v.failure = e := by
    subst hv
    exact ⟨rfl, rfl, rfl⟩
  have hlt : v.place < s.tasks.length := (List.getElem?_eq_some_iff.mp h).1
  refine ⟨fun i => ?_, fun other ho => ?_, ?_, ?_, ?_⟩
  · by_cases hi : v.place = i
    · subst hi
      have hbefore := hs.judged v.place
      rw [h] at hbefore
      obtain ⟨first, hfirst, htask⟩ := Option.map_eq_some_iff.mp hbefore.symm
      rw [List.getElem?_set_self hlt, hfirst, Option.map_some, Verdict.applied_concat_self, htask]
    · rw [List.getElem?_set_ne hi, Verdict.applied_concat_of_ne _ hi]
      exact hs.judged i
  · rcases List.mem_or_eq_of_mem_set ho with ho | rfl
    · exact hs.within other ho
    · rw [← hv]
      exact Task.retries_judged_le (hs.within v.task (List.mem_of_getElem? h)) ..
  · simp [hs.granted, List.countP_append, List.countP_singleton, Bool.toNat, Bool.cond_eq_ite]
  · have hbefore := ((List.getElem_cons_eraseIdx_perm hlt).map Task.retries).sum_eq
    have hafter := ((List.set_perm_cons_eraseIdx hlt
      (v.task.judged v.failure.kind v.again)).map Task.retries).sum_eq
    have hsum := hs.increase
    rw [(List.getElem?_eq_some_iff.mp h).2] at hbefore
    simp only [List.map_cons, List.sum_cons, Task.judged] at hbefore hafter ⊢
    omega
  · simp [hs.records, Verdict.account]

theorem perform (hs : s.Sound tasks) (incident : Incident) : (s.perform incident).Sound tasks := by
  cases incident with
  | failure place e =>
    cases h : s.tasks[place]? with
    | none => simpa only [Supervision.perform, h] using hs
    | some task => exact hs.perform_failure h e
  | clearing => exact ⟨hs.judged, hs.within, hs.granted, hs.increase, rfl⟩
  | change tree => exact ⟨hs.judged, hs.within, hs.granted, hs.increase, hs.records⟩

theorem after (hs : s.Sound tasks) (incidents : List Incident) :
    (s.after incidents).Sound tasks := by
  induction incidents generalizing s with
  | nil => exact hs
  | cons incident rest ih => exact ih (hs.perform incident)

end Sound
end Supervision

/-! ## Histories and summaries -/

namespace Recovery

variable (r : Recovery)

/-- The summary has a number for each class that occurred. -/
theorem mem_summary_iff {kind : FailureKind} {n : Nat} :
    (kind, n) ∈ r.summary ↔ n ≠ 0 ∧ n = r.records.countP fun e => e.2.kind = kind := by
  have hall : kind ∈ FailureKind.all := by cases kind <;> decide
  simp only [summary, List.mem_mergeSort, List.mem_filter, List.mem_map, Prod.mk.injEq,
    decide_eq_true_eq]
  constructor
  · rintro ⟨⟨_, -, rfl, rfl⟩, hn⟩
    exact ⟨hn, rfl⟩
  · rintro ⟨hn, rfl⟩
    exact ⟨⟨kind, hall, rfl, rfl⟩, hn⟩

/-- The summary has no class twice. -/
theorem nodup_summary : (r.summary.map Prod.fst).Nodup := by
  have hall : FailureKind.all.Nodup := by decide
  refine ((List.mergeSort_perm ..).map Prod.fst).nodup_iff.mpr ?_
  refine List.Nodup.sublist (List.filter_sublist.map Prod.fst) ?_
  simpa [Function.comp_def] using hall

/-- Each record has one class, so the numbers of all classes add up to the number of records. -/
theorem sum_countP (records : List (TaskId × ErrorRecord)) :
    (FailureKind.all.map fun k => records.countP fun e => e.2.kind = k).sum = records.length := by
  induction records with
  | nil => simp
  | cons e records ih =>
    have hone : (FailureKind.all.map fun k => if e.2.kind = k then 1 else 0).sum = 1 := by
      cases e.2.kind <;> rfl
    simp only [List.countP_cons, decide_eq_true_eq, List.sum_map_add, ih, hone, List.length_cons]

/-- The numbers in the summary add up to the number of failed attempts. -/
theorem sum_summary : (r.summary.map Prod.snd).sum = r.records.length := by
  have hzero (counts : List (FailureKind × Nat)) :
      ((counts.filter fun e => e.2 ≠ 0).map Prod.snd).sum = (counts.map Prod.snd).sum := by
    induction counts with
    | nil => rfl
    | cons e counts ih => by_cases he : e.2 = 0 <;> simp_all
  rw [summary, ((List.mergeSort_perm ..).map Prod.snd).sum_eq, hzero, List.map_map]
  exact sum_countP r.records

end Recovery

namespace Supervision

variable {tasks : List Task} {s : Supervision}

/-- What recovery shows agrees with its answers about some tasks. -/
structure Agrees (tasks : List Task) (s : Supervision) : Prop where
  within : ∀ task ∈ s.tasks, task.retries ≤ task.maxRetries
  granted : s.recovery.granted = s.verdicts.countP Verdict.again
  increase : (s.tasks.map Task.retries).sum = (tasks.map Task.retries).sum + s.recovery.granted
  /-- A task is what it was but for the retries that were granted to it and for the flag that it is
  read in chunks, which was set if it was tried again after running out of memory. -/
  judged : ∀ place, s.tasks[place]? = tasks[place]?.map (Verdict.applied s.verdicts place)
  history : ∀ id, (s.recovery.history id).map (fun r => (r.kind, r.message)) =
    (s.recent.filter fun v => v.task.id == id).map Verdict.account
  summary : ∀ kind n, (kind, n) ∈ s.recovery.summary ↔
    n ≠ 0 ∧ n = s.recent.countP fun v => v.failure.kind = kind
  classes : (s.recovery.summary.map Prod.fst).Nodup
  total : (s.recovery.summary.map Prod.snd).sum = s.recent.length

theorem Sound.agrees (hs : s.Sound tasks) : s.Agrees tasks where
  within := hs.within
  granted := hs.granted
  increase := hs.increase
  judged := hs.judged
  history id := by
    have h := congrArg (fun es => (es.filter (·.1 == id)).map Prod.snd) hs.records
    simpa [List.filter_map, Function.comp_def, Recovery.history] using h
  summary kind n := by
    have h := congrArg (List.countP fun e => e.2.1 = kind) hs.records
    rw [List.countP_map, List.countP_map] at h
    rw [Recovery.mem_summary_iff]
    exact iff_of_eq (congrArg (fun count => n ≠ 0 ∧ n = count) h)
  classes := s.recovery.nodup_summary
  total := by
    rw [Recovery.sum_summary, ← List.length_map, hs.records, List.length_map]

/-- A task that is read in chunks stays so, and becomes so in an answer that grants a retry after
running out of memory. -/
theorem perform_preferChunked (s : Supervision) (incident : Incident) {place : Nat} {task : Task}
    (h : s.tasks[place]? = some task) :
    ∃ next, (s.perform incident).tasks[place]? = some next ∧
      (task.preferChunked = true → next.preferChunked = true) ∧
      (next.preferChunked = true → task.preferChunked = true ∨
        ∃ e, incident = .failure place e ∧ e.kind = .memoryExhaustion ∧
          (s.recovery.handle task e (s.tree.exists? task.path) s.tree.now).1 = true) := by
  cases incident with
  | clearing => exact ⟨task, h, id, .inl⟩
  | change tree => exact ⟨task, h, id, .inl⟩
  | failure i e =>
    cases hi : s.tasks[i]? with
    | none =>
      rw [show s.perform (.failure i e) = s by simp only [perform, hi]]
      exact ⟨task, h, id, .inl⟩
    | some other =>
      rw [perform_failure hi]
      by_cases hp : i = place
      · subst hp
        obtain rfl : task = other := Option.some.inj (h.symm.trans hi)
        have hlt : i < s.tasks.length := (List.getElem?_eq_some_iff.mp h).1
        refine ⟨_, List.getElem?_set_self hlt, fun hc => by simp [Task.judged, hc], fun hc => ?_⟩
        simp only [Task.judged, verdict, Bool.or_eq_true, Bool.and_eq_true, decide_eq_true_eq] at hc
        refine hc.imp_right fun ⟨hagain, hkind⟩ => ⟨e, rfl, hkind, ?_⟩
        rw [Recovery.handle_eq]
        exact hagain
      · exact ⟨task, (List.getElem?_set_ne hp).trans h, id, .inl⟩

/-- After any failures of attempts at some tasks, with the history cleared and files coming and going
in between: no task has more retries than it may have; the number of retries that recovery has
granted is the number of its answers to try again and the sum of what all tasks have gained; a task
changes in its retries and in the flag that it is read in chunks only; the history of an identifier
tells of the failures since the last clearing, in order, and the summary counts them by class. The
flag is never taken back, and set only when a task is tried again after running out of memory. -/
theorem after_agrees (tasks : List Task) (h : ∀ task ∈ tasks, task.retries ≤ task.maxRetries)
    (tree : Tree) (incidents : List Incident) :
    let s := after { tasks, tree } incidents
    s.Agrees tasks ∧
      ∀ incident place task, s.tasks[place]? = some task →
        ∃ next, (s.perform incident).tasks[place]? = some next ∧
          (task.preferChunked = true → next.preferChunked = true) ∧
          (next.preferChunked = true → task.preferChunked = true ∨
            ∃ e, incident = .failure place e ∧ e.kind = .memoryExhaustion ∧
              (s.recovery.handle task e (s.tree.exists? task.path) s.tree.now).1 = true) :=
  ⟨((Sound.start h tree).after incidents).agrees,
    fun incident _ _ hplace => perform_preferChunked _ incident hplace⟩

/-- Two files of which neither is there, and what happens to their tasks: one runs out of memory, the
other one is missing, twice, and appears in between. -/
def pair : List Task :=
  [{ id := ⟨['1']⟩, path := ⟨"a.py"⟩, size := 0, priority := 0, maxRetries := 1 },
    { id := ⟨['2']⟩, path := ⟨"b.py"⟩, size := 0, priority := 0, maxRetries := 1 }]

/-- What happens to the two tasks. -/
def pairStory : List Incident :=
  [.failure 0 (.memoryExhausted "large"), .failure 1 (.notFound "file" ⟨"b.py"⟩), .clearing,
    .change { nodes := [(["b.py"], .file [] ⟨0, 0⟩)], now := ⟨0, 0⟩ },
    .failure 1 (.notFound "file" ⟨"b.py"⟩), .failure 0 (.timeout "slow")]

theorem after_agrees_pair :
    (∀ task ∈ pair, task.retries ≤ task.maxRetries) ∧
      let s := after { tasks := pair, tree := { now := ⟨0, 0⟩ } } pairStory
      s.Agrees pair ∧ s.tasks.map (fun t => (t.retries, t.preferChunked)) = [(1, true), (1, false)] ∧
        s.recovery.granted = 2 ∧
        ∃ next, (s.perform .clearing).tasks[0]? = some next ∧ next.preferChunked = true := by
  have within : ∀ task ∈ pair, task.retries ≤ task.maxRetries := by decide
  obtain ⟨agrees, flags⟩ := after_agrees pair within { now := ⟨0, 0⟩ } pairStory
  have hwithin : (⟨"b.py"⟩ : Path).WithinLimits := ⟨by decide, by decide⟩
  have hpieces : (⟨"b.py"⟩ : Path).pieces = ["b.py"] := by decide
  have hname : Tree.Enters "b.py" := ⟨by decide, by decide, by decide⟩
  have hmissing : ({ now := ⟨0, 0⟩ } : Tree).exists? ⟨"b.py"⟩ = false := by
    unfold Tree.exists? Tree.locate
    rw [Tree.resolve_eq hwithin (by decide), hpieces, Tree.walk_none hname rfl]
    rfl
  have hpresent : ({ nodes := [(["b.py"], .file [] ⟨0, 0⟩)], now := ⟨0, 0⟩ } : Tree).exists?
      ⟨"b.py"⟩ = true := by
    unfold Tree.exists? Tree.locate
    rw [Tree.resolve_eq hwithin (by decide), hpieces, Tree.walk_file hname rfl]
    rfl
  have hend : (after { tasks := pair, tree := { now := ⟨0, 0⟩ } } pairStory).tasks.map
        (fun t => (t.retries, t.preferChunked)) = [(1, true), (1, false)] ∧
      (after { tasks := pair, tree := { now := ⟨0, 0⟩ } } pairStory).recovery.granted = 2 := by
    simp [after, pairStory, pair, perform, Recovery.handle, Task.goesOn, Task.canRetry,
      Recovery.isWorthRetry, Failure.kind, Task.retried, hmissing, hpresent, Recovery.clear]
  generalize after { tasks := pair, tree := { now := ⟨0, 0⟩ } } pairStory = s at *
  have hfirst : s.tasks[0]?.map (fun t => (t.retries, t.preferChunked)) = some (1, true) := by
    rw [← List.getElem?_map, hend.1]
    rfl
  obtain ⟨task, htask, hflags⟩ := Option.map_eq_some_iff.mp hfirst
  obtain ⟨next, hnext, hkept, -⟩ := flags .clearing 0 task htask
  exact ⟨within, agrees, hend.1, hend.2, next, hnext, hkept (Prod.mk.inj hflags).2⟩

end Supervision
end SourceSurvey
