import TokenIntake.Field.Rejection

/-!
# Addresses

An address is a leading character, which tells the network, and a body of 25 to 34
characters of the Base58 alphabet. The checksum is not looked at.
-/

namespace TokenIntake

inductive Network where
  | mainnet
  | testnet
  deriving DecidableEq, Repr

def Network.name : Network → String
  | .mainnet => "mainnet"
  | .testnet => "testnet"

namespace Address

/-- Digits without zero and ASCII letters without `I`, `O` and `l`. -/
def isBase58 (c : Char) : Bool :=
  ('1' ≤ c && c ≤ '9') || ('A' ≤ c && c ≤ 'H') || ('J' ≤ c && c ≤ 'N') ||
    ('P' ≤ c && c ≤ 'Z') || ('a' ≤ c && c ≤ 'k') || ('m' ≤ c && c ≤ 'z')

/-- The network that a leading character announces. -/
def leading? (c : Char) : Option Network :=
  if c = 'D' ∨ c = 'A' then some .mainnet
  else if c = 'm' ∨ c = 'n' ∨ c = '2' then some .testnet
  else none

/-- The characters after the leading one. -/
def isBody (body : List Char) : Bool :=
  25 ≤ body.length && body.length ≤ 34 && body.all isBase58

def network? : List Char → Option Network
  | [] => none
  | c :: body => if isBody body then leading? c else none

/-- The network of an address. Its presence is looked at first, then its length in
bytes, then its form. -/
def network (text : String) : Except Rejection Network :=
  if text.isEmpty then .error (.required "address")
  else if text.utf8ByteSize < minAddressLength ∨ maxAddressLength < text.utf8ByteSize then
    .error .addressLength
  else
    match network? text.toList with
    | some network => .ok network
    | none => .error .addressFormat

def check (text : String) : Verdict :=
  (network text).map fun _ => ()

end Address

end TokenIntake
