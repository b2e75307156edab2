import TokenIntake.Json.Basic
import TokenIntake.Rpc.FieldReport

/-!
# Errors of the remote interface

An error has one of three codes, a message of its own and sometimes data. All three
codes blame the sender.
-/

namespace TokenIntake

inductive RpcCode where
  | parseError
  | invalidRequest
  | invalidParams
  deriving DecidableEq, Repr

namespace RpcCode

def number : RpcCode → Int
  | parseError => -32700
  | invalidRequest => -32600
  | invalidParams => -32602

/-- The status with which a web server answers. -/
def httpStatus : RpcCode → Nat
  | parseError => 400
  | invalidRequest => 400
  | invalidParams => 400

def title : RpcCode → String
  | parseError => "Parse error"
  | invalidRequest => "Invalid Request"
  | invalidParams => "Invalid params"

end RpcCode

structure RpcError where
  code : RpcCode
  message : String
  data : Option Json

namespace RpcError

/-- The text is not what it has to be. -/
def parseError (message : String) : RpcError := ⟨.parseError, message, none⟩

/-- The text is JSON but no request. -/
def invalidRequest (message : String) : RpcError := ⟨.invalidRequest, message, none⟩

/-- The request holds what it must not hold. -/
def invalidParams (message : String) : RpcError := ⟨.invalidParams, message, none⟩

def ofRejection (rejection : Rejection) : RpcError := invalidParams rejection.message

def fieldErrorJson (error : FieldError) : Json :=
  .object [("field", .string error.field), ("message", .string error.message)]

/-- The message over refused fields: a single one is named, several are counted. -/
def fieldsMessage : List FieldError → String
  | [error] => s!"{error.field}: {error.message}"
  | errors => s!"Validation failed for {errors.length} fields"

/-- Refused fields, all of which are in the data. -/
def invalidFields (errors : List FieldError) : RpcError :=
  ⟨.invalidParams, fieldsMessage errors, some (.array (errors.map fieldErrorJson))⟩

/-- The error in one line. -/
def display (error : RpcError) : String :=
  s!"RPC Error {error.code.number}: {error.message}"

/-- The document that answers a request of the given identity. Data is a member of it
only if there is any. -/
def toJson (error : RpcError) (id : Option Json) : Json :=
  let data := match error.data with
    | some data => [("data", data)]
    | none => []
  .object [
    ("error", .object (("code", .integer error.code.number) :: (data ++
      [("message", .string error.message)]))),
    ("id", id.getD .null),
    ("jsonrpc", .string "2.0")]

end RpcError

end TokenIntake
