import SourceSurvey.Proofs.Schedule.Independence

/-!
# What becomes of a file depends on its content

A parser sees of a path the bytes of the file to which it leads, that it leads to a directory, or
why it leads nowhere (`Tree.content`). Where these agree, so do the attempts at a task and what
becomes of it (`Workplace.verdict_congr`), wherever the file stands and whenever it was changed. A
file that cannot be read becomes a failure (`Workplace.verdict_of_unreadable`).
-/

namespace SourceSurvey
namespace Tree

/-- What a path leads to, as a parser sees it: the bytes of a file or a directory. -/
def content (t : Tree) (p : Path) : Except IoFailure (Option (List UInt8)) :=
  (t.locate p).map fun x =>
    match x.2 with
    | .file bytes _ => some bytes
    | _ => none

variable {t t' : Tree} {p : Path}

theorem content_file {place : Place} {bytes : List UInt8} {changed : Instant}
    (h : t.locate p = .ok (place, .file bytes changed)) : t.content p = .ok (some bytes) := by
  unfold content
  rw [h]
  rfl

theorem read_congr (h : t.content p = t'.content p) : t.read p = t'.read p := by
  have read_eq (t : Tree) : t.read p = (t.content p).bind fun bytes? =>
      match bytes? with
      | some bytes => .ok bytes
      | none => .error (.system .isDirectory) := by
    unfold content read
    cases t.locate p with
    | error e => rfl
    | ok x =>
      obtain ⟨place, node⟩ := x
      cases node with
      | file => rfl
      | directory => rfl
      | link => rfl
  rw [read_eq, read_eq, h]

theorem size_congr (h : t.content p = t'.content p) :
    (t.metadata p).map Prod.fst = (t'.metadata p).map Prod.fst := by
  have size_eq (t : Tree) : (t.metadata p).map Prod.fst = (t.content p).map fun bytes? =>
      match bytes? with
      | some bytes => bytes.length
      | none => 4096 := by
    unfold content metadata
    cases t.locate p with
    | error e => rfl
    | ok x =>
      obtain ⟨place, node⟩ := x
      cases node with
      | file => rfl
      | directory => rfl
      | link => rfl
  rw [size_eq, size_eq, h]

theorem exists_congr (h : t.content p = t'.content p) : t.exists? p = t'.exists? p := by
  have exists_eq (t : Tree) : t.exists? p = (t.content p).isOk := by
    unfold content exists?
    cases t.locate p with
    | error e => rfl
    | ok x => rfl
  rw [exists_eq, exists_eq, h]

end Tree

/-- A parser that sees of a file its path and what can be read of it. -/
def reader (f : Path → Except IoFailure (List UInt8) → Parse) (t : Tree) : Parser :=
  fun p _ => f p (t.read p)

namespace Workplace

variable {w w' : Workplace} {task : Task} {p : Path}

/-- Workplaces at which a path has the same content and is parsed in the same way. -/
structure Alike (w w' : Workplace) (p : Path) : Prop where
  content : w.tree.content p = w'.tree.content p
  largeFiles : w.largeFiles = w'.largeFiles
  parser : ∀ n, w.parser p n = w'.parser p n

theorem isLarge_congr (l : LargeFiles) {t t' : Tree} (h : t.content p = t'.content p) :
    l.isLarge t p = l.isLarge t' p := by
  have isLarge_eq (t : Tree) : l.isLarge t p = ((t.metadata p).map Prod.fst).map l.applies := by
    unfold LargeFiles.isLarge
    cases t.metadata p with
    | error e => rfl
    | ok x => rfl
  rw [isLarge_eq, isLarge_eq, Tree.size_congr h]

theorem attempt_congr (h : Alike w w' task.path) (n : Nat) : w.attempt task n = w'.attempt task n := by
  have hparse : w.largeFiles.parseFile w.tree task.path =
      w'.largeFiles.parseFile w'.tree task.path := by
    unfold LargeFiles.parseFile
    rw [Tree.read_congr h.content, h.largeFiles]
  unfold attempt
  rw [hparse, h.largeFiles, isLarge_congr _ h.content, h.parser n]

/-- What becomes of a task depends on the content of its file only. -/
theorem verdict_congr (h : Alike w w' task.path) : w.verdict task = w'.verdict task := by
  induction hn : task.maxRetries - task.retries using Nat.strong_induction_on generalizing task with
  | _ n ih =>
    rw [verdict_eq, verdict_eq, attempt_congr h]
    cases (w'.attempt task task.retries).result with
    | ok module => rfl
    | error e =>
      unfold verdictAfter
      rw [Tree.exists_congr h.content]
      dsimp only
      by_cases hg : task.goesOn e (w'.tree.exists? task.path) = true
      · have hlt := Task.retries_lt_of_goesOn hg
        have hless : (task.retried e.kind).maxRetries - (task.retried e.kind).retries < n := by
          simp only [Task.retried]
          omega
        have hagain : Alike w w' (task.retried e.kind).path := h
        rw [if_pos hg, if_pos hg, ih _ hless hagain rfl]
      · rw [if_neg hg, if_neg hg]

theorem attempt_of_unreadable {e : IoFailure} (h : w.tree.locate task.path = .error e) (n : Nat) :
    (w.attempt task n).result = .error (.io e) := by
  have hread : w.tree.read task.path = .error e := by
    unfold Tree.read
    rw [h]
    rfl
  have hlarge : w.largeFiles.isLarge w.tree task.path = .error e := by
    unfold LargeFiles.isLarge Tree.metadata
    rw [h]
    rfl
  have hparse : (w.largeFiles.parseFile w.tree task.path).1 = .error (.io e) := by
    unfold LargeFiles.parseFile
    rw [hread]
  unfold attempt
  rw [hlarge]
  dsimp only
  split
  · exact hparse
  · rfl

/-- A file that cannot be read becomes a failure. -/
theorem verdict_of_unreadable {e : IoFailure} (h : w.tree.locate task.path = .error e) :
    ∃ record, (w.verdict task).1 = .error record := by
  induction hn : task.maxRetries - task.retries using Nat.strong_induction_on generalizing task with
  | _ n ih =>
    rw [verdict_eq, attempt_of_unreadable h]
    unfold verdictAfter
    dsimp only
    by_cases hg : task.goesOn (.io e) (w.tree.exists? task.path) = true
    · have hlt := Task.retries_lt_of_goesOn hg
      have hless : (task.retried (Failure.io e).kind).maxRetries -
          (task.retried (Failure.io e).kind).retries < n := by
        simp only [Task.retried]
        omega
      rw [if_pos hg]
      have hagain : w.tree.locate (task.retried (Failure.io e).kind).path = .error e := h
      exact ih _ hless hagain rfl
    · rw [if_neg hg]
      exact ⟨_, rfl⟩

end Workplace

namespace Processor

theorem taskFor_congr {t t' : Tree} {p : Path} (h : t.content p = t'.content p) (maxRetries : Nat) :
    taskFor t maxRetries p = taskFor t' maxRetries p := by
  unfold taskFor
  rw [Tree.size_congr h]

end Processor
end SourceSurvey
