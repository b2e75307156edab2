import TokenIntake.Number.Word
import TokenIntake.Schema.Basic
import TokenIntake.Toml.Basic

/-!
# Records from TOML

A record is read from a table by the names of its fields, or from an array by their
order. Neither members under other names nor items past the last field matter. A date
has no members. No value is absent as an option, and none is a JSON value.
-/

namespace TokenIntake

/-- The elements of an array of tables as values. -/
def Toml.elementTables (elements : List Toml.Members) : List Toml :=
  elements.map fun members => .table .header members

mutual

def Shape.ofToml : (shape : Shape) → Toml → Option shape.Value
  | .text, value =>
    match value with
    | .text text => some text
    | _ => none
  | .integer, value =>
    match value with
    | .integer n => if Word.fitsSigned n then some (Int64.ofInt n) else none
    | _ => none
  | .word, value =>
    match value with
    | .integer n => if Word.fitsUnsigned n then some (UInt64.ofNat n.toNat) else none
    | _ => none
  | .flag, value =>
    match value with
    | .boolean flag => some flag
    | _ => none
  | .json, _ => none
  | .list item, value =>
    match value with
    | .array items => items.mapM item.ofToml
    | .tables elements => (Toml.elementTables elements).mapM item.ofToml
    | _ => none
  | .option inner, value => (inner.ofToml value).map some
  | .record _ fields, value =>
    match value with
    | .table _ members => fields.ofTable members
    | .inline _ members => fields.ofTable members
    | .dateTime _ => fields.ofTable []
    | .array items => fields.ofTomlItems items
    | .tables elements => fields.ofTomlItems (Toml.elementTables elements)
    | _ => none

def Fields.ofTable : (fields : Fields) → Toml.Members → Option fields.Row
  | .nil, _ => some ()
  | .cons name shape required rest, members => do
    let value ← match Toml.lookup name members with
      | some value => shape.ofToml value
      | none => if required then none else some shape.absent
    let row ← rest.ofTable members
    some (value, row)

def Fields.ofTomlItems : (fields : Fields) → List Toml → Option fields.Row
  | .nil, _ => some ()
  | .cons _ shape required rest, [] =>
    if required then none
    else (rest.ofTomlItems []).map fun row => (shape.absent, row)
  | .cons _ shape _ rest, item :: items => do
    let value ← shape.ofToml item
    let row ← rest.ofTomlItems items
    some (value, row)

end

end TokenIntake
