import TokenIntake.Rpc.Error
import TokenIntake.Schema.OfJson
import TokenIntake.Schema.ToJson

/-!
# Refused fields in JSON

A refused field is a record of its name and of the message on it, and the data of an error is an
array of such records. Whoever gets the error reads the refused fields from it.
-/

namespace TokenIntake.FieldError

def fields : Fields := .cons "field" .text true (.cons "message" .text true .nil)

def shape : Shape := .record "FieldError" fields

def ofRow : fields.Row → FieldError
  | (field, message, ()) => ⟨field, message⟩

def toRow (error : FieldError) : fields.Row := (error.field, error.message, ())

@[simp] theorem ofRow_toRow (error : FieldError) : ofRow error.toRow = error := rfl

/-- An error writes a refused field as the record that it is. -/
theorem fieldErrorJson_eq (error : FieldError) :
    RpcError.fieldErrorJson error = shape.toJson error.toRow := rfl

/-- The refused fields that a document lists. -/
def listOfJson (document : Json) : Except Json.Misfit (List FieldError) :=
  ((Shape.list shape).ofJson document).map (List.map ofRow)

end TokenIntake.FieldError
