import TokenIntake.Field.Address
import TokenIntake.Field.Amount
import TokenIntake.Field.Digest

/-!
# Fields of on-chain messages

The envelope of an on-chain message names its action by a number. Its quantities are
narrower than those of a request and are only refused when zero or too large.
-/

namespace TokenIntake

inductive Action where
  | mint
  | invoice
  | payment
  deriving DecidableEq, Repr

namespace Action

def name : Action → String
  | mint => "mint"
  | invoice => "invoice"
  | payment => "payment"

/-- The number by which an envelope names an action. -/
def code : Action → UInt32
  | mint => 1
  | invoice => 2
  | payment => 3

def ofCode (code : UInt32) : Except Rejection Action :=
  match code.toNat with
  | 1 => .ok mint
  | 2 => .ok invoice
  | 3 => .ok payment
  | _ => .error (.unknownAction code)

theorem ofCode_code (action : Action) : ofCode action.code = .ok action := by
  cases action <;> rfl

end Action

namespace Message

/-- Accepts the numbers that name an action. -/
def checkAction (code : UInt32) : Verdict :=
  (Action.ofCode code).map fun _ => ()

/-- Accepts every quantity but zero and those above the largest amount. -/
def checkQuantity (value : Int32) : Verdict :=
  if value.toInt = 0 then .error (.notPositive "quantity")
  else Verdict.ensure (value.toInt ≤ Amount.maximum.toInt)
    (.exceedsMaximum "quantity" Amount.maximum)

/-- Accepts what is accepted as a hash elsewhere. -/
def checkHash (text : String) : Verdict :=
  Hash.check text

/-- Accepts what is accepted as an address elsewhere. -/
def checkAddress (text : String) : Verdict :=
  Address.check text

end Message

end TokenIntake
