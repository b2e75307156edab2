import TokenIntake.Number.Word

/-!
# Decimal numerals

Whole numbers as decimal text. A reader takes one optional sign and then ASCII
digits only, and stops at the first character that is no digit or that carries the
value past the limit of its target: of the two faults the one further left wins.
-/

namespace TokenIntake.Numeral

inductive Fault where
  | empty
  | invalidDigit
  | tooLarge
  | tooSmall
  deriving DecidableEq, Repr

def Fault.message : Fault → String
  | .empty => "cannot parse integer from empty string"
  | .invalidDigit => "invalid digit found in string"
  | .tooLarge => "number too large to fit in target type"
  | .tooSmall => "number too small to fit in target type"

def digit? (c : Char) : Option Nat :=
  if 0x30 ≤ c.toNat ∧ c.toNat ≤ 0x39 then some (c.toNat - 0x30) else none

/-- Reads digits onto a value that may not pass `limit`. -/
def digits (limit : Nat) (beyond : Fault) : Nat → List Char → Except Fault Nat
  | value, [] => .ok value
  | value, c :: rest =>
    match digit? c with
    | none => .error .invalidDigit
    | some d =>
      if value * 10 + d ≤ limit then digits limit beyond (value * 10 + d) rest
      else .error beyond

def magnitude (limit : Nat) (beyond : Fault) (text : List Char) : Except Fault Nat :=
  if text.isEmpty then .error .invalidDigit else digits limit beyond 0 text

/-- A natural number up to `limit`, with an optional plus sign. -/
def natural (limit : Nat) : List Char → Except Fault Nat
  | [] => .error .empty
  | c :: rest =>
    if c = '+' then magnitude limit .tooLarge rest else magnitude limit .tooLarge (c :: rest)

/-- A signed number of 64 bits, with an optional sign. -/
def signed64 : List Char → Except Fault Int64
  | [] => .error .empty
  | c :: rest =>
    if c = '-' then (magnitude Word.signedLimit .tooSmall rest).map fun n => Int64.ofInt (-(n : Int))
    else (natural (Word.signedLimit - 1) (c :: rest)).map fun n => Int64.ofInt n

/-- The digits of a natural number, without leading zeros. -/
def ofNat (n : Nat) : List Char :=
  Nat.toDigits 10 n

/-- The digits of a whole number, with a minus sign if it is negative. -/
def ofInt : Int → List Char
  | .ofNat n => ofNat n
  | .negSucc n => '-' :: ofNat (n + 1)

end TokenIntake.Numeral
