import SourceSurvey.Recovery

/-!
# Wrapped failures

A failure can be put into a report, a report gets contexts and becomes a failure again, any number of
times. `Failure.origin` is what remains when all of this is taken off, and it alone decides about the
class of the failure (`Failure.kind_origin`).

* `Failure.Rewraps`: failures that differ in contexts and layers only, wherever these stand. They are
  those with one origin (`Failure.rewraps_iff`).
* `Failure.kind_wrapped`: what the class of a wrapped failure is, and that wrapping changes neither
  it nor anything that recovery decides.
-/

namespace SourceSurvey

/-- What is at the bottom of all contexts and layers: a text, a failed operation of the system, or a
failure that wraps no report. -/
inductive Origin where
  | message (text : String)
  | io (failure : IoFailure)
  | failure (failure : Failure)

/-- The class that an origin gives to whatever wraps it. -/
def Origin.kind : Origin → FailureKind
  | message _ => .unknown
  | io e => .ofIo e.kind
  | failure e => e.kind

mutual

/-- The origin of a failure. -/
def Failure.origin : Failure → Origin
  | .other report => report.origin
  | e => .failure e

/-- The origin of a report. -/
def Report.origin : Report → Origin
  | .message text => .message text
  | .io e => .io e
  | .failure e => e.origin
  | .context _ inner => inner.origin

end

/-! ## The class of the origin -/

mutual

/-- The class of a failure is that of its origin. -/
theorem Failure.kind_origin : (e : Failure) → e.origin.kind = e.kind
  | .other report => by
    rw [Failure.origin, Failure.kind]
    exact report.kind_origin
  | .io _ | .serialization _ | .configuration _ | .notFound _ _ | .permissionDenied _
  | .syntaxError _ _ _ | .memoryExhausted _ | .timeout _ | .cacheCorruption _ | .scheduler _
  | .internal _ => rfl

/-- The class of a report is that of its origin. -/
theorem Report.kind_origin : (r : Report) → r.origin.kind = r.firstKind?.getD .unknown
  | .message _ => rfl
  | .io _ => rfl
  | .failure e => by
    rw [Report.origin, Report.firstKind?, Option.getD_some]
    exact e.kind_origin
  | .context _ inner => by
    rw [Report.origin, Report.firstKind?]
    exact inner.kind_origin

end

theorem Report.origin_withContexts (r : Report) (contexts : List String) :
    (r.withContexts contexts).origin = r.origin := by
  induction contexts generalizing r with
  | nil => rfl
  | cons text rest ih =>
    calc (r.withContexts (text :: rest)).origin
      _ = ((Report.context text r).withContexts rest).origin := rfl
      _ = (Report.context text r).origin := ih _
      _ = r.origin := by rw [Report.origin]

/-- The class of a report with contexts that is a failure again. -/
theorem Failure.kind_other (r : Report) (contexts : List String) :
    (Failure.other (r.withContexts contexts)).kind = r.origin.kind := by
  rw [← kind_origin, origin, Report.origin_withContexts]

/-! ## Wrapping in other ways -/

mutual

/-- Failures that differ in contexts and layers only. -/
inductive Failure.Rewraps : Failure → Failure → Prop
  | refl (e : Failure) : Failure.Rewraps e e
  | symm {e e' : Failure} (h : Failure.Rewraps e e') : Failure.Rewraps e' e
  | trans {e e' e'' : Failure} (h : Failure.Rewraps e e') (h' : Failure.Rewraps e' e'') :
      Failure.Rewraps e e''
  | layer (e : Failure) : Failure.Rewraps e (.other (.failure e))
  | report {r r' : Report} (h : Report.Rewraps r r') : Failure.Rewraps (.other r) (.other r')

/-- Reports of which the second one has another context, or that differ inside only. -/
inductive Report.Rewraps : Report → Report → Prop
  | context (text : String) (r : Report) : Report.Rewraps r (.context text r)
  | inside (text : String) {r r' : Report} (h : Report.Rewraps r r') :
      Report.Rewraps (.context text r) (.context text r')
  | failure {e e' : Failure} (h : Failure.Rewraps e e') :
      Report.Rewraps (.failure e) (.failure e')

end

mutual

theorem Failure.Rewraps.origin_eq {e e' : Failure} : e.Rewraps e' → e'.origin = e.origin
  | .refl _ => rfl
  | .symm h => h.origin_eq.symm
  | .trans h h' => h'.origin_eq.trans h.origin_eq
  | .layer e => by rw [Failure.origin, Report.origin]
  | .report h => by
    rw [Failure.origin, Failure.origin]
    exact h.origin_eq

theorem Report.Rewraps.origin_eq {r r' : Report} : r.Rewraps r' → r'.origin = r.origin
  | .context text r => by rw [Report.origin]
  | .inside text h => by
    rw [Report.origin, Report.origin]
    exact h.origin_eq
  | .failure h => by
    rw [Report.origin, Report.origin]
    exact h.origin_eq

end

/-- The failure of an origin, without any context or layer that can be taken off. -/
def Origin.bare : Origin → Failure
  | message text => .other (.message text)
  | io e => .other (.io e)
  | failure e => e

mutual

/-- All contexts and layers can be taken off. -/
theorem Failure.rewraps_bare : (e : Failure) → e.origin.bare.Rewraps e
  | .other report => by
    rw [Failure.origin]
    exact report.rewraps_bare
  | .io _ | .serialization _ | .configuration _ | .notFound _ _ | .permissionDenied _
  | .syntaxError _ _ _ | .memoryExhausted _ | .timeout _ | .cacheCorruption _ | .scheduler _
  | .internal _ => .refl _

theorem Report.rewraps_bare : (r : Report) → r.origin.bare.Rewraps (.other r)
  | .message _ => .refl _
  | .io _ => .refl _
  | .failure e => by
    rw [Report.origin]
    exact e.rewraps_bare.trans (.layer e)
  | .context text inner => by
    rw [Report.origin]
    exact inner.rewraps_bare.trans (.report (.context text inner))

end

namespace Failure

/-- Failures differ in contexts and layers only if and only if they have one origin. -/
theorem rewraps_iff {e e' : Failure} : e.Rewraps e' ↔ e.origin = e'.origin := by
  constructor
  · exact fun h => h.origin_eq.symm
  · intro h
    have hbare := e.rewraps_bare
    rw [h] at hbare
    exact hbare.symm.trans e'.rewraps_bare

/-- What recovery decides about a failed task depends on the class of the failure only. -/
theorem handle_congr {e e' : Failure} (h : e'.kind = e.kind) (r : Recovery) (task : Task)
    (present : Bool) (now : Instant) :
    (r.handle task e' present now).1 = (r.handle task e present now).1 ∧
      (r.handle task e' present now).2.1 = (r.handle task e present now).2.1 := by
  unfold Recovery.handle Task.goesOn
  rw [h]
  split <;> exact ⟨rfl, rfl⟩

/-- The class of a failure that wraps a report with contexts is unknown for a text, that of the
operation for a failed operation of the system, and that of the failure for a failure, however deep it
is wrapped itself. So failures that differ in contexts and layers only have one class, are missing files
alike, and lead recovery to the same decision and the same task. -/
theorem kind_wrapped :
    (∀ contexts : List String,
      (∀ text, (other ((Report.message text).withContexts contexts)).kind = .unknown) ∧
      (∀ e, (other ((Report.io e).withContexts contexts)).kind = .ofIo e.kind) ∧
      ∀ e, (other ((Report.failure e).withContexts contexts)).kind = e.kind) ∧
    ∀ e e' : Failure, e.Rewraps e' →
      e'.kind = e.kind ∧ e'.isNotFound = e.isNotFound ∧
        ∀ (r : Recovery) (task : Task) (present : Bool) (now : Instant),
          (r.handle task e' present now).1 = (r.handle task e present now).1 ∧
            (r.handle task e' present now).2.1 = (r.handle task e present now).2.1 := by
  refine ⟨fun contexts => ⟨fun text => kind_other _ _, fun e => kind_other _ _, fun e => ?_⟩,
    fun e e' h => ?_⟩
  · rw [kind_other, Report.origin, kind_origin]
  · have hkind : e'.kind = e.kind := by rw [← e'.kind_origin, ← e.kind_origin, h.origin_eq]
    refine ⟨hkind, ?_, handle_congr hkind⟩
    unfold isNotFound
    rw [hkind]

/-- A missing file that was wrapped twice, with contexts on either layer. -/
def wrappedTwice : Failure :=
  .other (.context "third" (.failure (.other (.context "second" (.context "first"
    (.failure (.notFound "file" ⟨"a.py"⟩)))))))

theorem kind_wrapped_twice :
    (notFound "file" ⟨"a.py"⟩).Rewraps wrappedTwice ∧ wrappedTwice.kind = .fileNotFound ∧
      wrappedTwice.isNotFound = true := by
  have h : (notFound "file" ⟨"a.py"⟩).Rewraps wrappedTwice := rewraps_iff.mpr (by rfl)
  obtain ⟨hkind, hmissing, -⟩ := kind_wrapped.2 _ _ h
  exact ⟨h, hkind, hmissing⟩

end Failure
end SourceSurvey
