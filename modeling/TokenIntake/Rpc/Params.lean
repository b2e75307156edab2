import TokenIntake.Field.Message
import TokenIntake.Number.Word
import TokenIntake.Rpc.Error
import TokenIntake.Text.Numeral

/-!
# Positional parameters

The parameters of a call stand in an array. One of the wrong kind, or none at its
place, counts as missing.
-/

namespace TokenIntake.Params

def maxTextSize : Nat := 10000

/-- No parameter of the right kind stands at the place. -/
def missing (name : String) : RpcError :=
  .invalidParams s!"Missing {name} parameter"

/-- A text of bounded size. -/
def text (params : Json) (index : Nat) (name : String) : Except RpcError String :=
  match (params.item? index).bind Json.string? with
  | none => .error (missing name)
  | some value =>
    if maxTextSize < value.utf8ByteSize then
      .error (.invalidParams
        s!"{name} parameter too long: {value.utf8ByteSize} bytes (max: {maxTextSize})")
    else .ok value

/-- A text that a check accepts. -/
def checkedText (check : String → Verdict) (params : Json) (index : Nat) (name : String) :
    Except RpcError String :=
  match text params index name with
  | .error error => .error error
  | .ok value =>
    match check value with
    | .ok () => .ok value
    | .error rejection => .error (.ofRejection rejection)

def hash : Json → Nat → String → Except RpcError String := checkedText Hash.check

def address : Json → Nat → String → Except RpcError String := checkedText Address.check

def publicKey : Json → Nat → String → Except RpcError String := checkedText PublicKey.check

/-- A quantity, which is refused under the name of the parameter. -/
def quantity (params : Json) (index : Nat) (name : String) : Except RpcError Int64 :=
  match (params.item? index).bind (Json.integer? Word.fitsSigned) with
  | none => .error (missing name)
  | some n =>
    match Quantity.check name (Int64.ofInt n) with
    | .ok () => .ok (Int64.ofInt n)
    | .error rejection => .error (.ofRejection rejection)

def action (params : Json) (index : Nat) (name : String) : Except RpcError Action :=
  match (params.item? index).bind (Json.integer? Word.fitsUnsigned) with
  | none => .error (missing name)
  | some n =>
    if (Word.shortLimit : Int) ≤ n then
      .error (.invalidParams s!"Invalid {name}: {n} ({Numeral.Fault.tooLarge.message})")
    else
      match Action.ofCode (UInt32.ofNat n.toNat) with
      | .ok action => .ok action
      | .error rejection => .error (.ofRejection rejection)

end TokenIntake.Params
