import TokenIntake.Schema.Basic

/-!
# Records as documents

A record is written as an object with all its fields in the order of their
declaration; an absent option is written as `null`.
-/

namespace TokenIntake

mutual

def Shape.toJson : (shape : Shape) → shape.Value → Json
  | .text, text => .string text
  | .integer, value => .integer value.toInt
  | .word, value => .integer value.toNat
  | .flag, flag => .bool flag
  | .json, value => value
  | .list item, values => .array (values.map item.toJson)
  | .option inner, value =>
    match value with
    | none => .null
    | some value => inner.toJson value
  | .record _ fields, row => .object (fields.toMembers row)

def Fields.toMembers : (fields : Fields) → fields.Row → List (String × Json)
  | .nil, () => []
  | .cons name shape _ rest, (value, row) => (name, shape.toJson value) :: rest.toMembers row

end

end TokenIntake
