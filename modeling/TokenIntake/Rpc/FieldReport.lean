import TokenIntake.Field.Rejection
import TokenIntake.Log.Event

/-!
# Field reports

A request is checked field by field, and every refused field is reported. A report
keeps the refused fields in the order of the checks, and the events that went with
them.
-/

namespace TokenIntake

structure FieldError where
  field : String
  message : String
  deriving DecidableEq, Repr

namespace FieldError

/-- The field as part of an outer record. -/
def within (outer : String) (error : FieldError) : FieldError :=
  { error with field := outer ++ "." ++ error.field }

end FieldError

/-- The refused fields so far, and the events so far. -/
structure FieldReport where
  errors : List FieldError
  events : List Event

namespace FieldReport

def empty : FieldReport := ⟨[], []⟩

/-- Adds the outcome of one check. -/
def check (report : FieldReport) (field : String) : Verdict → FieldReport
  | .ok () => report
  | .error rejection =>
    ⟨report.errors ++ [⟨field, rejection.message⟩],
      report.events ++ [.fieldRejected field rejection.message]⟩

/-- Adds the outcome of the checks of a nested record. -/
def nested (report : FieldReport) (outer : String) :
    Logged (Except (List FieldError) Unit) → FieldReport
  | ⟨events, .ok ()⟩ => { report with events := report.events ++ events }
  | ⟨events, .error errors⟩ =>
    ⟨report.errors ++ errors.map (·.within outer), report.events ++ events⟩

def finish (report : FieldReport) : Logged (Except (List FieldError) Unit) :=
  ⟨report.events, if report.errors.isEmpty then .ok () else .error report.errors⟩

end FieldReport

end TokenIntake
