/-!
# Rejections

Why a field's value is refused. Every cause has one wording, which may be shown to
the sender as it stands.
-/

namespace TokenIntake

inductive Rejection where
  | required (field : String)
  | addressLength
  | addressFormat
  | hashLength
  | publicKeyLength
  | notHex (field : String)
  | undecodableKey (detail : String)
  | notUtf8 (field : String)
  | tooLong (field : String) (max : Nat)
  | unsafeCharacters (field : String)
  | notUrl (field : String)
  | notPositive (field : String)
  | exceedsMaximum (field : String) (max : Int64)
  | tooManyTags (max : Nat)
  | emptyTag (position : Nat)
  | tooLarge (field : String) (max : Nat)
  | unknownAction (code : UInt32)
  deriving DecidableEq, Repr

/-- The least length of an address, in bytes. -/
def minAddressLength : Nat := 26

/-- The greatest length of an address, in bytes. -/
def maxAddressLength : Nat := 62

def hashLength : Nat := 64

def publicKeyLength : Nat := 66

namespace Rejection

def message : Rejection → String
  | required field => s!"{field} is required"
  | addressLength =>
    s!"address length must be between {minAddressLength} and {maxAddressLength} characters"
  | addressFormat => "invalid Dogecoin address format"
  | Rejection.hashLength => s!"hash must be exactly {TokenIntake.hashLength} characters"
  | Rejection.publicKeyLength =>
    s!"public key must be exactly {TokenIntake.publicKeyLength} characters (compressed format)"
  | notHex field => s!"{field} must be a valid hexadecimal string"
  | undecodableKey detail => s!"public key is not valid hexadecimal: {detail}"
  | notUtf8 field => s!"{field} contains invalid UTF-8 characters"
  | tooLong field max => s!"{field} exceeds maximum length of {max} characters"
  | unsafeCharacters field => s!"{field} contains invalid characters"
  | notUrl field => s!"{field} must be a valid HTTP/HTTPS URL"
  | notPositive field => s!"{field} must be greater than 0"
  | exceedsMaximum field max => s!"{field} exceeds maximum value of {max.toInt}"
  | tooManyTags max => s!"too many tags (maximum {max} allowed)"
  | emptyTag position => s!"tag {position} is empty"
  | tooLarge field max => s!"{field} exceeds maximum size of {max} bytes"
  | unknownAction code => s!"invalid action type: {code.toNat}"

end Rejection

/-- A check has no result but its success. -/
abbrev Verdict : Type := Except Rejection Unit

namespace Verdict

def ensure (condition : Bool) (rejection : Rejection) : Verdict :=
  if condition then .ok () else .error rejection

/-- Accepts if the condition holds; the cause is only made for a refusal. -/
def ensureWith (condition : Bool) (rejection : Unit → Rejection) : Verdict :=
  if condition then .ok () else .error (rejection ())

theorem ensure_eq_ok_iff (condition : Bool) (rejection : Rejection) :
    ensure condition rejection = .ok () ↔ condition = true := by
  cases condition <;> simp [ensure]

end Verdict

end TokenIntake
