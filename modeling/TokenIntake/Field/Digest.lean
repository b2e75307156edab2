import TokenIntake.Field.Rejection
import TokenIntake.Text.Hex
import TokenIntake.Text.Utf8

/-!
# Hashes and public keys

Both are hexadecimal texts of one length, 32 and 33 bytes. Neither the leading byte of a public key
nor its place on the curve is looked at.
-/

namespace TokenIntake

def isHexOfLength (count : Nat) (text : String) : Bool :=
  text.toList.length == count && text.toList.all Hex.isDigit

namespace Hash

/-- Accepts 64 hexadecimal digits of either case. -/
def check (text : String) : Verdict :=
  if text.isEmpty then .error (.required "hash")
  else if text.utf8ByteSize ≠ hashLength then .error .hashLength
  else if isHexOfLength hashLength text then .ok ()
  else .error (.notHex "hash")

def decode (text : String) : Except Rejection (List UInt8) :=
  match check text with
  | .error rejection => .error rejection
  | .ok () =>
    match Hex.decodeToSlice 32 (Utf8.ofString text) with
    | .ok bytes => .ok bytes
    | .error _ => .error (.notHex "hash")

end Hash

namespace PublicKey

def decode (text : String) : Except Rejection (List UInt8) :=
  if text.isEmpty then .error (.required "public key")
  else if text.utf8ByteSize ≠ publicKeyLength then .error .publicKeyLength
  else if isHexOfLength publicKeyLength text then
    match Hex.decodeToSlice 33 (Utf8.ofString text) with
    | .ok bytes => .ok bytes
    | .error fault => .error (.undecodableKey fault.message)
  else .error (.notHex "public key")

/-- Accepts 66 hexadecimal digits of either case. -/
def check (text : String) : Verdict :=
  (decode text).map fun _ => ()

end PublicKey

end TokenIntake
