import Mathlib.Data.List.Induction
import SourceSurvey.Proofs.Schedule.Conservation

/-!
# Nothing overtakes the queue

Tasks leave the queue at its front, one by one, and join it at its end. What left and what is still
there is therefore what was there and what joined, in one order (`Run.Advances`). Nothing else is
used of the coordinator: the order of the starts follows for every budget, whatever the attempts lead
to and in whatever order the workers finish. A task starts when it is handed to a worker; one that the
ledger refuses stays at the front.

* `Step.advances` is the step lemma, `Steps.advances` the run lemma.
* `Task.precedes_sortByPriority`: the order of the first starts.
* `Run.Advances.firsts_lead`, `Run.Advances.waiting_first`: what the order of the queue says about
  first starts and about tasks that are queued again.
-/

namespace SourceSurvey

variable {α Hook : Type}

/-! ## The order of tasks -/

namespace Task

/-- A task comes before another one: it has the higher priority, or the same and the lesser path. -/
def Precedes (a b : Task) : Prop :=
  b.priority < a.priority ∨ a.priority = b.priority ∧ a.path.order b.path = .lt

theorem runsBefore_iff {a b : Task} :
    a.runsBefore b = true ↔
      b.priority < a.priority ∨ a.priority = b.priority ∧ (a.path.order b.path).isLE = true := by
  simp [runsBefore]

theorem isLE_order_trans {p q r : Path} (h : (p.order q).isLE = true)
    (h' : (q.order r).isLE = true) : (p.order r).isLE = true := by
  have hle : (Path.orderComponents p.components r.components).isLE = true :=
    Std.TransCmp.isLE_trans h h'
  exact hle

theorem runsBefore_trans {a b c : Task} (h : a.runsBefore b = true) (h' : b.runsBefore c = true) :
    a.runsBefore c = true := by
  rw [runsBefore_iff] at *
  rcases h with h | ⟨h, hp⟩ <;> rcases h' with h' | ⟨h', hp'⟩
  · exact .inl (h'.trans h)
  · exact .inl (h' ▸ h)
  · exact .inl (h ▸ h')
  · exact .inr ⟨h.trans h', isLE_order_trans hp hp'⟩

theorem runsBefore_total (a b : Task) : (a.runsBefore b || b.runsBefore a) = true := by
  rw [Bool.or_eq_true, runsBefore_iff, runsBefore_iff]
  rcases lt_trichotomy a.priority b.priority with h | h | h
  · exact .inr (.inl h)
  · have horder : (a.path.order b.path).isLE = true ∨ (b.path.order a.path).isLE = true := by
      rw [Path.order_swap b.path]
      cases a.path.order b.path <;> simp
    exact horder.imp (fun hp => .inr ⟨h, hp⟩) (fun hp => .inr ⟨h.symm, hp⟩)
  · exact .inl (.inl h)

/-- Sorted tasks with different paths come one before the other. -/
theorem precedes_sortByPriority {tasks : List Task}
    (h : (tasks.map Task.path).Pairwise fun p q => p.same q = false) :
    (sortByPriority tasks).Pairwise Precedes := by
  have hsorted : (sortByPriority tasks).Pairwise fun a b => a.runsBefore b = true :=
    @List.pairwise_mergeSort _ runsBefore (fun _ _ _ => runsBefore_trans) runsBefore_total tasks
  have hdistinct := (((perm_sortByPriority tasks).map path).pairwise_iff Path.not_same_symm).mpr h
  refine (hsorted.and (List.pairwise_map.mp hdistinct)).imp fun {a b} hab => ?_
  refine (runsBefore_iff.mp hab.1).imp_right fun ⟨hp, hle⟩ => ⟨hp, ?_⟩
  cases hc : a.path.order b.path with
  | lt => rfl
  | eq => rw [Path.order_eq_iff.mp hc] at hab; exact nomatch hab.2
  | gt => rw [hc] at hle; exact nomatch hle

end Task

/-! ## Starts -/

/-- The path of the task that an event hands to a worker. -/
def Event.started? : Event → Option Path
  | .admission p => some p
  | _ => none

/-- The paths of the tasks that start, in order. -/
def startsOf (events : List Event) : List Path := events.filterMap Event.started?

theorem startsOf_append (xs ys : List Event) : startsOf (xs ++ ys) = startsOf xs ++ startsOf ys :=
  List.filterMap_append

theorem eraseDups_of_nodup {ps : List Path} (h : ps.Nodup) : ps.eraseDups = ps := by
  induction ps with
  | nil => rfl
  | cons p ps ih =>
    obtain ⟨hp, h⟩ := List.nodup_cons.mp h
    have hfilter : ps.filter (fun q => !q == p) = ps := by
      refine List.filter_eq_self.mpr fun q hq => ?_
      simpa using fun he : q = p => hp (he ▸ hq)
    rw [List.eraseDups_cons, hfilter, ih h]

/-- Paths that come again do not count among the first ones. -/
theorem eraseDups_append_of_subset {ps qs : List Path} (h : ps.Nodup) (hq : ∀ q ∈ qs, q ∈ ps) :
    (ps ++ qs).eraseDups = ps := by
  have hnone : qs.removeAll ps = [] := by
    rw [List.removeAll, List.filter_eq_nil_iff]
    simpa using hq
  rw [List.eraseDups_append, hnone, eraseDups_of_nodup h, List.eraseDups_nil, List.append_nil]

/-! ## The queue -/

/-- The files of a run. -/
def Run.files (s : Run α Hook) : List Path := s.items.map Item.path

/-- From one moment of a run to another one: tasks left the queue at its front when they started, and
joined it at its end, and the files stayed the same. -/
def Run.Advances (s : Run α Hook) (starts : List Path) (s' : Run α Hook) : Prop :=
  s'.files.Perm s.files ∧ ∃ left joined : List Task,
    left.map Task.path = starts ∧ s.queue ++ joined = left ++ s'.queue ∧
      ∀ task ∈ joined, task.path ∈ s.files

namespace Run

variable {s s' s'' : Run α Hook} {starts starts' : List Path}

theorem Advances.refl (s : Run α Hook) : s.Advances [] s :=
  ⟨.refl _, [], [], rfl, List.append_nil _, nofun⟩

theorem Advances.trans (h : s.Advances starts s') (h' : s'.Advances starts' s'') :
    s.Advances (starts ++ starts') s'' := by
  obtain ⟨hfiles, left, joined, rfl, hqueue, hjoined⟩ := h
  obtain ⟨hfiles', left', joined', rfl, hqueue', hjoined'⟩ := h'
  refine ⟨hfiles'.trans hfiles, left ++ left', joined ++ joined', List.map_append, ?_, ?_⟩
  · calc
      s.queue ++ (joined ++ joined') = left ++ (s'.queue ++ joined') := by
        rw [← List.append_assoc, hqueue, List.append_assoc]
      _ = left ++ left' ++ s''.queue := by rw [hqueue', List.append_assoc]
  · intro task ht
    rcases List.mem_append.mp ht with ht | ht
    · exact hjoined task ht
    · exact hfiles.mem_iff.mp (hjoined' task ht)

theorem path_mem_files {i : Nat} {job : Job α} (h : s.inFlight[i]? = some job) :
    job.task.path ∈ s.files := by
  refine List.mem_map.mpr ⟨.ofJob job, (items_perm h).mem_iff.mpr List.mem_cons_self, ?_⟩
  exact Item.path_ofJob job

/-- Tasks that start for the first time start in the order of the queue. -/
theorem Advances.firsts_lead (h : s.Advances starts s') (hd : s.Distinct)
    (hall : ∀ p ∈ s.files, p ∈ s.queue.map Task.path) :
    starts.eraseDups <+: s.queue.map Task.path ∧
      (s'.queue = [] → starts.eraseDups = s.queue.map Task.path) := by
  obtain ⟨-, left, joined, rfl, hqueue, hjoined⟩ := h
  have hnodup : (s.queue.map Task.path).Nodup := by
    refine List.Nodup.sublist ?_ (Path.nodup_of_distinct hd)
    have hqueued : s.queue.map Task.path = (s.queue.map Item.queued).map Item.path := by
      rw [List.map_map]
      rfl
    rw [hqueued]
    refine List.Sublist.map _ ?_
    unfold items
    rw [List.append_assoc, List.append_assoc]
    exact List.sublist_append_left ..
  rcases List.append_eq_append_iff.mp hqueue with ⟨again, rfl, rfl⟩ | ⟨rest, hleft, hrest⟩
  · -- The whole queue has started; what started after it had joined, and is none of the first.
    have hfirsts : ((s.queue ++ again).map Task.path).eraseDups = s.queue.map Task.path := by
      rw [List.map_append]
      refine eraseDups_append_of_subset hnodup fun p hp => ?_
      obtain ⟨task, ht, rfl⟩ := List.mem_map.mp hp
      exact hall _ (hjoined task (List.mem_append_left _ ht))
    exact ⟨hfirsts ▸ List.prefix_refl _, fun _ => hfirsts⟩
  · have hfirsts : (left.map Task.path).eraseDups = left.map Task.path := by
      refine eraseDups_of_nodup (hnodup.sublist ?_)
      rw [hleft]
      exact (List.sublist_append_left ..).map _
    refine ⟨?_, fun hnil => ?_⟩
    · rw [hfirsts, hleft, List.map_append]
      exact List.prefix_append ..
    · have hrest : rest = [] := (List.append_eq_nil_iff.mp (hrest.symm.trans hnil)).1
      rw [hfirsts, hleft, hrest, List.append_nil]

/-- Before a task at the end of the queue starts, all tasks before it have started. -/
theorem Advances.waiting_first (h : s.Advances starts s') (hd : s.Distinct) {waiting : List Task}
    {task next : Task} {rest : List Task} (hq : s.queue = waiting ++ [task])
    (hq' : s'.queue = next :: rest) (hp : next.path = task.path) :
    ∀ other ∈ waiting, other.path ∈ starts := by
  obtain ⟨-, left, joined, rfl, hqueue, -⟩ := h
  rw [hq, hq', List.append_assoc] at hqueue
  intro other ho
  rcases List.append_eq_append_iff.mp hqueue with ⟨more, rfl, -⟩ | ⟨more, hwaiting, hmore⟩
  · exact List.mem_map_of_mem (List.mem_append_left _ ho)
  · cases more with
    | nil =>
      rw [List.append_nil] at hwaiting
      exact List.mem_map_of_mem (hwaiting ▸ ho)
    | cons first more =>
      -- The next task would be one that waits before the task, and has the same path.
      obtain ⟨rfl, -⟩ := List.cons.inj hmore
      have hitems : s.items.Perm (.queued task :: (waiting.map .queued ++
          s.inFlight.map .ofJob ++ s.modules.entries.map (fun e => .kept e.1 e.2) ++
          s.failures.map .lost)) := by
        simp only [items, hq, List.map_append, List.map_cons, List.map_nil, List.append_assoc,
          List.cons_append, List.nil_append]
        exact List.perm_middle
      have hne := hd.cons hitems (.queued next) (by simp [hwaiting])
      rw [Item.path, Item.path, hp, Path.same_refl] at hne
      cases hne

end Run

/-! ## Steps -/

variable [Amount α] {plan : RunPlan α} {c : Conduct} {s s' s'' : Coordination α Hook}
  {e : Event} {events : List Event}

theorem Step.files_perm (h : Step plan c s e s') (hd : s.run.Distinct) :
    s'.run.files.Perm s.run.files := by
  rcases h.moves hd with ⟨-, heq⟩ | ⟨x, y, rest, hmove, hx, hy⟩
  · rw [heq]
  · have hfiles := (hx.map Item.path).symm
    rw [List.map_cons, ← hmove.path_eq] at hfiles
    exact (hy.map Item.path).trans hfiles

/-- A task that starts leaves the queue at its front, and a task joins the queue at its end. -/
theorem Step.advances (h : Step plan c s e s') (hd : s.run.Distinct) :
    s.run.Advances (startsOf [e]) s'.run := by
  refine ⟨h.files_perm hd, ?_⟩
  cases h with
  | wait => exact ⟨[], [], rfl, List.append_nil _, nofun⟩
  | finish => exact ⟨[], [], rfl, List.append_nil _, nofun⟩
  | attempt => exact ⟨[], [], rfl, List.append_nil _, nofun⟩
  | @admission s s' task rest hq ha =>
    obtain ⟨_, _, rfl⟩ := Run.admit?_cons hq ha
    exact ⟨[task], [], rfl, by simp [hq], nofun⟩
  | @receive s i job r present place =>
    obtain ⟨-, -, -, hqueue | ⟨e, -, hqueue⟩⟩ := s.concluded_spec plan.now present i job r
    · exact ⟨[], [], rfl, by simp [hqueue], nofun⟩
    · refine ⟨[], [job.task.retried e.kind], rfl, by simp [hqueue], fun task ht => ?_⟩
      rw [List.mem_singleton.mp ht]
      exact Run.path_mem_files place

/-- What the queue does in a step it does in a sequence of steps. -/
theorem Steps.advances (h : Steps plan c s events s') (hd : s.run.Distinct) :
    s.run.Advances (startsOf events) s'.run := by
  induction h with
  | refl => exact .refl _
  | snoc init last ih =>
    rw [startsOf_append]
    exact ih.trans (last.advances ((ih.1.pairwise_iff Path.not_same_symm).mpr hd))

theorem Steps.distinct (h : Steps plan c s events s') (hd : s.run.Distinct) : s'.run.Distinct :=
  ((h.advances hd).1.pairwise_iff Path.not_same_symm).mpr hd

theorem Steps.eq_of_nil (h : Steps plan c s [] s') : s' = s := by
  generalize hes : ([] : List Event) = es at h
  cases h with
  | refl => rfl
  | snoc => simp at hes

/-- The last one of some steps. -/
theorem Steps.concat_inv (h : Steps plan c s (events ++ [e]) s'') :
    ∃ s', Steps plan c s events s' ∧ Step plan c s' e s'' := by
  generalize hes : events ++ [e] = es at h
  cases h with
  | refl => simp at hes
  | snoc init last =>
    obtain ⟨rfl, he⟩ := List.append_inj' hes rfl
    obtain rfl := List.singleton_inj.mp he
    exact ⟨_, init, last⟩

/-- Steps can be taken apart at each event. -/
theorem Steps.append_inv {later : List Event} (h : Steps plan c s (events ++ later) s'') :
    ∃ s', Steps plan c s events s' ∧ Steps plan c s' later s'' := by
  induction later using List.reverseRecOn generalizing s'' with
  | nil => exact ⟨s'', by rwa [List.append_nil] at h, .refl⟩
  | append_singleton later e ih =>
    rw [← List.append_assoc] at h
    obtain ⟨t, init, last⟩ := h.concat_inv
    obtain ⟨s', first, rest⟩ := ih init
    exact ⟨s', first, rest.snoc last⟩

/-- A task that starts is the first one of the queue. -/
theorem Steps.queue_of_start {path : Path} (h : Steps plan c s (.admission path :: events) s'') :
    ∃ task rest, s.run.queue = task :: rest ∧ task.path = path := by
  have hevents : Steps plan c s (([] ++ [.admission path]) ++ events) s'' := h
  obtain ⟨s', first, -⟩ := hevents.append_inv
  obtain ⟨t, init, last⟩ := first.concat_inv
  rw [init.eq_of_nil] at last
  cases last with
  | admission hq => exact ⟨_, _, hq, rfl⟩

/-- Before a task that joined the queue starts, all tasks that waited then have started. -/
theorem Steps.waiting_first {task : Task} {waiting : List Task} {before later : List Event}
    (h : Steps plan c s (before ++ .admission task.path :: later) s'') (hd : s.run.Distinct)
    (hq : s.run.queue = waiting ++ [task]) : ∀ other ∈ waiting, other.path ∈ startsOf before := by
  obtain ⟨s', first, second⟩ := h.append_inv
  obtain ⟨next, rest, hnext, hpath⟩ := second.queue_of_start
  exact (first.advances hd).waiting_first hd hq hnext hpath

/-! ## Processors -/

namespace Processor

theorem files_start (p : Processor α Hook) (tasks : List Task) :
    (p.start tasks).files = (p.start tasks).queue.map Task.path := by
  simp [Run.files, Run.items, start, PathMap.empty, Function.comp_def, Item.path]

theorem distinct_start (p : Processor α Hook) {tasks : List Task}
    (h : (tasks.map Task.path).Pairwise fun p q => p.same q = false) :
    (p.start tasks).Distinct := by
  show (p.start tasks).files.Pairwise _
  rw [p.files_start]
  exact (((Task.perm_sortByPriority tasks).map Task.path).pairwise_iff Path.not_same_symm).mpr h

/-- The tasks of a run have one order, by descending priority and then by path. Whatever the budget
is, whatever the attempts lead to and in whatever order the workers finish, they start for the first
time in that order, and all of them until the coordinator leaves the loop. A task that is queued again
after a failure starts only after every task that was waiting then has started. -/
theorem started_in_order (p : Processor α Hook) (plan : RunPlan α) (c : Conduct) (tasks : List Task)
    (workers : 1 ≤ plan.workers)
    (distinct : (tasks.map Task.path).Pairwise fun p q => p.same q = false) :
    ∃ order : List Task, order.Perm tasks ∧ order.Pairwise Task.Precedes ∧
      ∀ events s, Steps plan c ⟨p.start tasks, .admitting⟩ events s →
        (startsOf events).eraseDups <+: order.map Task.path ∧
        (s.phase = .finished → (startsOf events).eraseDups = order.map Task.path) ∧
        ∀ path s' task, Step plan c s (.receipt path) s' →
          s'.run.queue = s.run.queue ++ [task] →
          ∀ before later s'', Steps plan c s' (before ++ .admission task.path :: later) s'' →
            ∀ waiting ∈ s.run.queue, waiting.path ∈ startsOf before := by
  have hstart := p.distinct_start distinct
  refine ⟨Task.sortByPriority tasks, List.mergeSort_perm .., Task.precedes_sortByPriority distinct,
    fun events s steps => ?_⟩
  have hall : ∀ q ∈ (p.start tasks).files, q ∈ (p.start tasks).queue.map Task.path := fun q hq => by
    rwa [p.files_start] at hq
  obtain ⟨hfirsts, hdone⟩ := (steps.advances hstart).firsts_lead hstart hall
  have hsound : s.Sound := steps.sound workers ⟨nofun, nofun⟩
  refine ⟨hfirsts, fun hp => hdone (hsound.finished hp).1, ?_⟩
  intro path s' task receipt hq before later s'' continued
  have hd : s'.run.Distinct := (steps.snoc receipt).distinct hstart
  exact continued.waiting_first hd hq

/-- The tasks for a test and for a program of two empty files, in no order. -/
def unordered : List Task :=
  [{ id := ⟨['1']⟩, path := ⟨"a.py"⟩, size := 0, priority := 5, maxRetries := 1 },
    { id := ⟨['2']⟩, path := ⟨"b.py"⟩, size := 0, priority := 80, maxRetries := 1 }]

theorem started_in_order_narrow :
    1 ≤ (narrow.plan .twoFiles .failing 2).workers ∧
      ((unordered.map Task.path).Pairwise fun p q => p.same q = false) ∧
      ∃ events s,
        Steps (narrow.plan .twoFiles .failing 2)
          (.ofWorkplace ⟨.twoFiles, narrow.largeFiles, .failing⟩)
          ⟨narrow.start unordered, .admitting⟩ events ⟨s, .finished⟩ ∧
        (startsOf events).eraseDups = [⟨"b.py"⟩, ⟨"a.py"⟩] := by
  have workers := narrow.one_le_workerCap 2
  have distinct : (unordered.map Task.path).Pairwise fun p q => p.same q = false := by decide
  obtain ⟨events, s, steps, -⟩ := narrow.process_steps .twoFiles .failing unordered
  obtain ⟨order, hperm, hsorted, hruns⟩ := narrow.started_in_order
    (narrow.plan .twoFiles .failing 2) (.ofWorkplace ⟨.twoFiles, narrow.largeFiles, .failing⟩)
    unordered workers distinct
  obtain ⟨-, hdone, -⟩ := hruns events _ steps
  refine ⟨workers, distinct, events, s, steps, (hdone rfl).trans ?_⟩
  obtain ⟨first, second, rfl⟩ := List.length_eq_two.mp hperm.length_eq
  rcases List.mem_pair.mp (hperm.mem_iff.mp List.mem_cons_self) with rfl | rfl
  · obtain rfl := List.singleton_inj.mp (List.perm_singleton.mp hperm.cons_inv)
    exact absurd (List.pairwise_pair.mp hsorted) (by simp [Task.Precedes])
  · have hswapped := hperm.trans (List.Perm.swap ..)
    obtain rfl := List.singleton_inj.mp (List.perm_singleton.mp hswapped.cons_inv)
    rfl

end Processor
end SourceSurvey
