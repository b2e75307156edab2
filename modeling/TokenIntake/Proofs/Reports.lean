import Mathlib.Logic.Basic
import TokenIntake.Rpc.FieldReport

/-!
# Reports step by step

A report grows with every step by what this step adds and by nothing else: one refused field for a
check that refuses, and for a nested record its refused fields under longer names. So the answer
after any number of steps tells what these steps add, one behind the other.
-/

namespace TokenIntake

/-- The refused fields that an answer tells. -/
def refusedFields : Except (List FieldError) Unit → List FieldError
  | .ok () => []
  | .error errors => errors

theorem refusedFields_ite (errors : List FieldError) :
    refusedFields (if errors = [] then .ok () else .error errors) = errors := by
  split
  next silent => rw [refusedFields, silent]
  next => rfl

namespace FieldReport

theorem errors_nested (report : FieldReport) (outer : String)
    (review : Logged (Except (List FieldError) Unit)) :
    (report.nested outer review).errors =
      report.errors ++ (refusedFields review.answer).map (·.within outer) := by
  obtain ⟨events, answer⟩ := review
  cases answer with
  | ok => simp [nested, refusedFields]
  | error errors => rfl

theorem events_nested (report : FieldReport) (outer : String)
    (review : Logged (Except (List FieldError) Unit)) :
    (report.nested outer review).events = report.events ++ review.events := by
  obtain ⟨events, answer⟩ := review
  cases answer <;> rfl

theorem finish_answer (report : FieldReport) :
    report.finish.answer = if report.errors = [] then .ok () else .error report.errors := by
  simp [finish]

theorem finish_eq_ok_iff (report : FieldReport) :
    report.finish.answer = .ok () ↔ report.errors = [] := by
  rw [finish_answer]
  split
  next silent => simp [silent]
  next refused => simp [refused]

theorem finish_eq_error_iff (report : FieldReport) (errors : List FieldError) :
    report.finish.answer = .error errors ↔ report.errors ≠ [] ∧ errors = report.errors := by
  rw [finish_answer]
  split
  next silent => simp [silent]
  next refused => simp [refused, eq_comm]

theorem refusedFields_finish (report : FieldReport) :
    refusedFields report.finish.answer = report.errors := by
  rw [finish_answer, refusedFields_ite]

/-! ## Steps -/

/-- What can be added to a report: the outcome of a check, or that of the review of a nested
record. -/
inductive Step where
  | check (field : String) (verdict : Verdict)
  | nested (outer : String) (review : Logged (Except (List FieldError) Unit))

namespace Step

/-- The report with the outcome added to it. -/
def addTo (report : FieldReport) : Step → FieldReport
  | check field verdict => report.check field verdict
  | nested outer review => report.nested outer review

/-- The check refuses its field, or the nested record has a refused field. -/
def Fails : Step → Prop
  | check _ verdict => ∃ rejection, verdict = .error rejection
  | nested _ review => ∃ errors, review.answer = .error errors ∧ errors ≠ []

/-- The refused fields of a step. A check that refuses has one, with the words of the refusal;
those of a nested record have its name in front of their own. -/
def errors : Step → List FieldError
  | check _ (.ok ()) => []
  | check field (.error rejection) => [⟨field, rejection.message⟩]
  | nested outer review =>
    (refusedFields review.answer).map fun error => ⟨outer ++ "." ++ error.field, error.message⟩

/-- The events of a step. A nested record has left its own, whether it has refused fields or not. -/
def events : Step → List Event
  | check _ (.ok ()) => []
  | check field (.error rejection) => [.fieldRejected field rejection.message]
  | nested _ review => review.events

theorem errors_eq_nil_iff (step : Step) : step.errors = [] ↔ ¬ step.Fails := by
  cases step with
  | check field verdict => cases verdict <;> simp [errors, Fails]
  | nested outer review =>
    obtain ⟨events, answer⟩ := review
    cases answer <;> simp [errors, Fails, refusedFields]

/-- A step adds its errors and its events behind those that are there. -/
theorem addTo_eq (report : FieldReport) (step : Step) :
    step.addTo report = ⟨report.errors ++ step.errors, report.events ++ step.events⟩ := by
  cases step with
  | check field verdict => cases verdict <;> simp [addTo, FieldReport.check, errors, events]
  | nested outer review =>
    exact congrArg₂ FieldReport.mk (errors_nested report outer review)
      (events_nested report outer review)

end Step

/-! ## Runs -/

/-- The report after some steps. -/
def after (steps : List Step) : FieldReport := steps.foldl Step.addTo empty

/-- A run adds what its steps add, in their order. -/
theorem foldl_addTo (report : FieldReport) (steps : List Step) :
    steps.foldl Step.addTo report =
      ⟨report.errors ++ steps.flatMap Step.errors, report.events ++ steps.flatMap Step.events⟩ := by
  -- The report in front of the rest is the one behind the first step.
  induction steps generalizing report with
  | nil => simp
  | cons step rest ih => simp [ih, Step.addTo_eq]

theorem errors_after (steps : List Step) : (after steps).errors = steps.flatMap Step.errors := by
  simp [after, foldl_addTo, empty]

theorem refusedFields_after (steps : List Step) :
    refusedFields (after steps).finish.answer = steps.flatMap Step.errors := by
  rw [refusedFields_finish, errors_after]

theorem flatMap_errors_eq_nil_iff (steps : List Step) :
    steps.flatMap Step.errors = [] ↔ ∀ step ∈ steps, ¬ step.Fails := by
  simp only [List.flatMap_eq_nil_iff, Step.errors_eq_nil_iff]

/-- What a nested record adds if it was reviewed step by step itself. -/
theorem Step.errors_nested_after (outer : String) (steps : List Step) :
    (nested outer (after steps).finish).errors =
      (steps.flatMap Step.errors).map (·.within outer) := by
  rw [Step.errors, refusedFields_after]
  rfl

/-- A name within two records has both of their names in front of it, the outer one first. -/
private theorem map_within_within (outer inner : String) (errors : List FieldError) :
    (errors.map fun error => (⟨inner ++ "." ++ error.field, error.message⟩ : FieldError)).map
        (·.within outer) =
      errors.map fun error => ⟨outer ++ "." ++ inner ++ "." ++ error.field, error.message⟩ := by
  simp [FieldError.within, String.append_assoc]

/-- The answer after the first steps of a review accepts exactly if none of them failed, and
otherwise tells what each of them adds, in their order. Further steps only add to it. Within two
nested records a field has the names of both in front of its own, and the other fields of the inner
review are told around it. -/
theorem finish_tells_steps (steps : List Step) (n : Nat) :
    ((after (steps.take n)).finish.answer = .ok () ↔ ∀ step ∈ steps.take n, ¬ step.Fails) ∧
    (∀ errors, (after (steps.take n)).finish.answer = .error errors ↔
      (∃ step ∈ steps.take n, step.Fails) ∧ errors = (steps.take n).flatMap Step.errors) ∧
    (∀ step : Step, step.errors = [] ↔ ¬ step.Fails) ∧
    (∀ m, refusedFields (after (steps.take n)).finish.answer <+:
      refusedFields (after (steps.take (n + m))).finish.answer) ∧
    ∀ outer inner before review behind,
      (Step.nested outer (after (before ++ .nested inner review :: behind)).finish).errors =
        (before.flatMap Step.errors).map (·.within outer) ++
          (refusedFields review.answer).map (fun error =>
            ⟨outer ++ "." ++ inner ++ "." ++ error.field, error.message⟩) ++
          (behind.flatMap Step.errors).map (·.within outer) := by
  have silent_iff := flatMap_errors_eq_nil_iff (steps.take n)
  refine ⟨?_, ?_, Step.errors_eq_nil_iff, ?_, ?_⟩
  · rw [finish_eq_ok_iff, errors_after, silent_iff]
  · intro errors
    have some_fails : (steps.take n).flatMap Step.errors ≠ [] ↔
        ∃ step ∈ steps.take n, step.Fails := by
      rw [ne_eq, silent_iff]
      simp
    rw [finish_eq_error_iff, errors_after, some_fails]
  · intro m
    -- The later run begins with the earlier one.
    rw [refusedFields_after, refusedFields_after, List.take_add, List.flatMap_append]
    exact List.prefix_append _ _
  · intro outer inner before review behind
    -- What is told around the inner record is renamed once, and what is told in it twice.
    rw [Step.errors_nested_after, List.flatMap_append, List.flatMap_cons, List.map_append,
      List.map_append, ← List.append_assoc, Step.errors, map_within_within]

end FieldReport

end TokenIntake
