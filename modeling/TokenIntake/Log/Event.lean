import TokenIntake.Log.Level

/-!
# Log events

What the request layer reports while it works. Every event is of the level `DEBUG`.
Events are values, and a function that logs returns them beside its answer.
-/

namespace TokenIntake

inductive Event where
  | fieldRejected (field error : String)
  | bodyRejected (error : String)
  | bodyNotObject
  | requestRejected (count : Nat)
  | queryRejected (field error : String)
  deriving DecidableEq, Repr

/-- The value of an event's field. -/
inductive EventValue where
  | text (value : String)
  | count (value : Nat)
  deriving DecidableEq, Repr

namespace Event

def message : Event → String
  | fieldRejected _ _ => "field rejected"
  | bodyRejected _ => "request body rejected"
  | bodyNotObject => "request body is not a JSON object"
  | requestRejected _ => "request failed validation"
  | queryRejected _ _ => "query parameter rejected"

def target : Event → String
  | queryRejected _ _ => "fractal_validation::rpc::query"
  | _ => "fractal_validation::rpc::requests"

def fields : Event → List (String × EventValue)
  | fieldRejected field error => [("field", .text field), ("error", .text error)]
  | bodyRejected error => [("error", .text error)]
  | bodyNotObject => []
  | requestRejected count => [("count", .count count)]
  | queryRejected field error => [("field", .text field), ("error", .text error)]

def level (_ : Event) : LogLevel := .debug

end Event

/-- An answer and the events on the way to it, the earliest first. -/
structure Logged (α : Type) where
  events : List Event
  answer : α

namespace Logged

variable {α β : Type}

def silent (answer : α) : Logged α := ⟨[], answer⟩

def report (event : Event) (answer : α) : Logged α := ⟨[event], answer⟩

/-- Goes on from an answer; the events of both parts follow each other. -/
def andThen (logged : Logged α) (next : α → Logged β) : Logged β :=
  let rest := next logged.answer
  ⟨logged.events ++ rest.events, rest.answer⟩

end Logged

end TokenIntake
