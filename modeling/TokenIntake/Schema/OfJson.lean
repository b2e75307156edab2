import TokenIntake.Json.Fault
import TokenIntake.Number.Word
import TokenIntake.Schema.Basic

/-!
# Records from documents

A record is read from an object by the names of its fields, or from an array by their
order. The members of an object are read as they stand there, and the first misfit is
reported. Whether a field is missing shows only behind the last member. Members under
other names do not matter.
-/

namespace TokenIntake

open Json (Misfit Found)

/-- The members of an object, each taken into the fields met. -/
def Fields.takeMembers {fields : Fields}
    (take : String → Json → fields.Partial → Except Misfit fields.Partial)
    (members : List (String × Json)) : Except Misfit fields.Partial :=
  members.foldlM (fun met member => take member.1 member.2 met) fields.unmet

/-- The row of the fields met, if none is missing. -/
def Fields.rowOfMet (fields : Fields) (met : fields.Partial) : Except Misfit fields.Row :=
  match fields.complete met with
  | .ok row => .ok row
  | .error field => .error (.missingField field)

def integerOfJson (value : Json) : Except Misfit Int64 :=
  match value with
  | .number (.integer n) =>
    if Word.fitsSigned n then .ok (Int64.ofInt n)
    else .error (.wrongValue (Found.ofJson value) Shape.integer.expected)
  | _ => .error (.wrongType (Found.ofJson value) Shape.integer.expected)

def wordOfJson (value : Json) : Except Misfit UInt64 :=
  match value with
  | .number (.integer n) =>
    if Word.fitsUnsigned n then .ok (UInt64.ofNat n.toNat)
    else .error (.wrongValue (Found.ofJson value) Shape.word.expected)
  | _ => .error (.wrongType (Found.ofJson value) Shape.word.expected)

mutual

def Shape.ofJson : (shape : Shape) → Json → Except Misfit shape.Value
  | .text, value =>
    match value with
    | .string text => .ok text
    | _ => .error (.wrongType (Found.ofJson value) Shape.text.expected)
  | .integer, value => integerOfJson value
  | .word, value => wordOfJson value
  | .flag, value =>
    match value with
    | .bool flag => .ok flag
    | _ => .error (.wrongType (Found.ofJson value) Shape.flag.expected)
  | .json, value => .ok value
  | .list item, value =>
    match value with
    | .array items => items.mapM item.ofJson
    | _ => .error (.wrongType (Found.ofJson value) (Shape.list item).expected)
  | .option inner, value =>
    match value with
    | .null => .ok none
    | _ => (inner.ofJson value).map some
  | .record name fields, value =>
    match value with
    | .object members => Fields.takeMembers fields.takeMember members >>= fields.rowOfMet
    | .array items =>
      match Fields.ofItems name fields.arity fields 0 items with
      | .ok row =>
        -- Items past the last field are noticed only if those before them fit.
        if fields.arity < items.length then .error (.tooManyItems items.length) else .ok row
      | .error misfit => .error misfit
    | _ => .error (.wrongType (Found.ofJson value) (Shape.record name fields).expected)

/-- The member of a name, taken into the fields met. -/
def Fields.takeMember : (fields : Fields) → String → Json → fields.Partial →
    Except Misfit fields.Partial
  -- No field has the name.
  | .nil, _, _, () => .ok ()
  | .cons name shape _ rest, key, value, (met, others) =>
    if key = name then
      match met with
      | some _ => .error (.duplicateField name)
      | none => do
        let value ← shape.ofJson value
        return (some value, others)
    else do
      let others ← rest.takeMember key value others
      return (met, others)

/-- A row from the items of an array, of which `index` were read before. -/
def Fields.ofItems (record : String) (arity : Nat) :
    (fields : Fields) → (index : Nat) → List Json → Except Misfit fields.Row
  | .nil, _, _ => .ok ()
  | .cons _ shape required rest, index, [] => do
    if required then throw (.tooFewItems index record arity)
    let row ← Fields.ofItems record arity rest (index + 1) []
    return (shape.absent, row)
  | .cons _ shape _ rest, index, item :: items => do
    let value ← shape.ofJson item
    let row ← Fields.ofItems record arity rest (index + 1) items
    return (value, row)

end

end TokenIntake
