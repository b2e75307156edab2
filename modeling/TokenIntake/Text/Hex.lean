import TokenIntake.Text.Quoted

/-!
# Hexadecimal text

Two digits to the byte, the high half first. Both letter cases are read and the
lower case is written. A text is read into a slice of a fixed size, which it has to fill.
-/

namespace TokenIntake.Hex

def digit? (c : Char) : Option Nat :=
  let n := c.toNat
  if 0x30 ≤ n ∧ n ≤ 0x39 then some (n - 0x30)
  else if 0x61 ≤ n ∧ n ≤ 0x66 then some (n - 0x61 + 10)
  else if 0x41 ≤ n ∧ n ≤ 0x46 then some (n - 0x41 + 10)
  else none

def isDigit (c : Char) : Bool :=
  (digit? c).isSome

/-- Why a text is not read. A character is called by its place. -/
inductive Fault where
  | invalidCharacter (c : Char) (place : Nat)
  | oddLength
  | invalidLength
  deriving DecidableEq, Repr

def Fault.message : Fault → String
  | invalidCharacter c place => s!"Invalid character {Quoted.ofChar c} at position {place}"
  | oddLength => "Odd number of digits"
  | invalidLength => "Invalid string length"

def digitAt (place : Nat) (c : Char) : Except Fault Nat :=
  match digit? c with
  | some value => .ok value
  | none => .error (.invalidCharacter c place)

/-- The bytes that digit pairs stand for, from a place of the text on. -/
def pairs (place : Nat) : List Char → Except Fault (List UInt8)
  | high :: low :: rest => do
    let high ← digitAt place high
    let low ← digitAt (place + 1) low
    return UInt8.ofNat (16 * high + low) :: (← pairs (place + 2) rest)
  | _ => return []

/-- The bytes of a slice of the size. Of the text every byte is looked at as a character. -/
def decodeToSlice (size : Nat) (text : List UInt8) : Except Fault (List UInt8) :=
  if text.length % 2 ≠ 0 then .error .oddLength
  else if text.length / 2 ≠ size then .error .invalidLength
  else pairs 0 (text.map fun byte => Char.ofNat byte.toNat)

/-- The bytes of a text, however many there are. -/
def decode (text : List Char) : Option (List UInt8) :=
  if text.length % 2 ≠ 0 then none else (pairs 0 text).toOption

/-- The two lower-case digits of a byte. -/
def pair (byte : UInt8) : List Char :=
  [Nat.digitChar (byte.toNat / 16), Nat.digitChar (byte.toNat % 16)]

/-- The digit pairs of a byte list, in lower case. -/
def encode (bytes : List UInt8) : List Char :=
  bytes.flatMap pair

end TokenIntake.Hex
