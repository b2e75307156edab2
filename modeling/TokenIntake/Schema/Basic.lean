import TokenIntake.Json.Basic

/-!
# Shapes

The shape of a record as data: its fields in the order of their declaration, each
with a name, a shape and whether it has to be present. The values of a shape form a
type. Every way to read or write records is defined once, on shapes.
-/

namespace TokenIntake

mutual

/-- What a value looks like. -/
inductive Shape where
  | text
  | integer
  | word
  | flag
  | json
  | list (item : Shape)
  | option (inner : Shape)
  | record (name : String) (fields : Fields)

/-- The fields of a record. A field that is not required may be absent. -/
inductive Fields where
  | nil
  | cons (name : String) (shape : Shape) (required : Bool) (rest : Fields)

end

mutual

/-- The values of a shape. Integers have 64 bits with a sign, words have none. -/
@[reducible] def Shape.Value : Shape → Type
  | .text => String
  | .integer => Int64
  | .word => UInt64
  | .flag => Bool
  | .json => Json
  | .list item => List item.Value
  | .option inner => Option inner.Value
  | .record _ fields => fields.Row

@[reducible] def Fields.Row : Fields → Type
  | .nil => Unit
  | .cons _ shape _ rest => shape.Value × rest.Row

end

/-- The fields that were met so far. -/
@[reducible] def Fields.Partial : Fields → Type
  | .nil => Unit
  | .cons _ shape _ rest => Option shape.Value × rest.Partial

mutual

/-- The value of a field that is absent and need not be present. -/
def Shape.absent : (shape : Shape) → shape.Value
  | .text => ""
  | .integer => 0
  | .word => 0
  | .flag => false
  | .json => .null
  | .list _ => []
  | .option _ => none
  | .record _ fields => fields.absent

/-- The row of all absent fields. -/
def Fields.absent : (fields : Fields) → fields.Row
  | .nil => ()
  | .cons _ shape _ rest => (shape.absent, rest.absent)

end

namespace Fields

def arity : Fields → Nat
  | nil => 0
  | cons _ _ _ rest => rest.arity + 1

def names : Fields → List String
  | nil => []
  | cons name _ _ rest => name :: rest.names

def unmet : (fields : Fields) → fields.Partial
  | nil => ()
  | cons _ _ _ rest => (none, rest.unmet)

/-- The row of the fields met, with the absent value for those that need not be
present; else the name of the first field that is missing. -/
def complete : (fields : Fields) → fields.Partial → Except String fields.Row
  | nil, () => .ok ()
  | cons name shape required rest, (met, others) =>
    match met with
    | some value => (rest.complete others).map fun row => (value, row)
    | none =>
      if required then .error name
      else (rest.complete others).map fun row => (shape.absent, row)

end Fields

namespace Shape

/-- What is expected where the shape is read. -/
def expected : Shape → String
  | text => "a string"
  | integer => "i64"
  | word => "usize"
  | flag => "a boolean"
  | json => "any valid JSON value"
  | list _ => "a sequence"
  | option inner => inner.expected
  | record name _ => s!"struct {name}"

end Shape

end TokenIntake
