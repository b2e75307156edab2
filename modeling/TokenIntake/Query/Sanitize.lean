import TokenIntake.Text.Blank
import TokenIntake.Text.Utf8

/-!
# Cleaning of query values

A raw value loses its line ends, tabs and zero characters, then the blanks at both
ends, and is then cut to a hundred bytes. The cut comes last, so its result may end
in a blank.
-/

namespace TokenIntake.QueryValue

def maxSize : Nat := 100

def isStripped (c : Char) : Bool :=
  c == '\n' || c == '\r' || c == '\t' || c == '\x00'

/-- A value without stripped characters and without blanks at its ends. -/
def stripAndTrim (raw : List Char) : List Char :=
  trim (raw.filter fun c => !isStripped c)

/-- A character starts at the byte, or the text ends in front of it. -/
def isBoundary (bytes : List UInt8) (place : Nat) : Bool :=
  match bytes[place]? with
  | none => place == bytes.length
  | some byte => !(Utf8.continuation? byte).isSome

/-- The search for a place between two characters, backwards from a byte. There is no result if
the search passes the first byte. -/
def cutBack (bytes : List UInt8) : Nat → Option Nat
  | 0 => if isBoundary bytes 0 then some 0 else none
  | place + 1 => if isBoundary bytes (place + 1) then some (place + 1) else cutBack bytes place

/-- The text up to the place where the search from the cap ends, or from its own end if that
comes first. -/
def cut? (max : Nat) (text : List Char) : Option String := do
  let bytes := Utf8.encode text
  let place ← cutBack bytes (min bytes.length max)
  Utf8.decodeString (bytes.take place)

def sanitize (raw : String) : String :=
  (cut? maxSize (stripAndTrim raw.toList)).getD ""

end TokenIntake.QueryValue
