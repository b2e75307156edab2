import TokenIntake.Json.Reader
import TokenIntake.Request.Review
import TokenIntake.Rpc.Error
import TokenIntake.Schema.OfJson
import TokenIntake.Schema.ToJson

/-!
# Request bodies

A body is read in four steps, each with an error of its own: it has to be JSON, an
object, of the shape of the request, and every field has to be accepted.
-/

namespace TokenIntake.RequestKind

def write (kind : RequestKind) (request : kind.Request) : String :=
  (kind.shape.toJson (kind.toValue request)).compact

/-- The request that an object holds, reviewed. -/
def accept (kind : RequestKind) (request : kind.Request) : Logged (Except RpcError kind.Request) :=
  (kind.review request).andThen fun
    | .ok () => .silent (.ok request)
    | .error errors => .report (.requestRejected errors.length) (.error (.invalidFields errors))

def ofJson (kind : RequestKind) (document : Json) : Logged (Except RpcError kind.Request) :=
  match document with
  | .object _ =>
    match kind.shape.ofJson document with
    | .ok value => kind.accept (kind.ofValue value)
    | .error misfit =>
      .report (.bodyRejected misfit.message)
        (.error (.parseError s!"Invalid request body: {misfit.message}"))
  | _ =>
    .report .bodyNotObject (.error (.invalidRequest "request body must be a JSON object"))

def parse (kind : RequestKind) (body : List UInt8) : Logged (Except RpcError kind.Request) :=
  match Json.parse body with
  | .ok document => kind.ofJson document
  | .error fault =>
    let error := fault.message body
    .report (.bodyRejected error) (.error (.parseError s!"Invalid JSON: {error}"))

end TokenIntake.RequestKind
