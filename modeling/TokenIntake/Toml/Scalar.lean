import TokenIntake.Number.Word
import TokenIntake.Text.Numeral
import TokenIntake.Toml.Text

/-!
# Numbers and dates of TOML

Whole numbers in four bases within 64 bits, numbers with a fraction or an exponent,
and dates, times and both together. Underscores may stand between digits.
-/

namespace TokenIntake.Toml.Lexer

def isDigit (c : Char) : Bool := '0' ≤ c && c ≤ '9'

/-- Digits of a class with single underscores between them; the underscores are dropped. -/
def digitRun (accept : Char → Bool) : Lexer (List Char) := do
  let first ← satisfy accept
  let rest ← many ((do char '_'; satisfy accept) <|> satisfy accept)
  pure (first :: rest)

def sign : Lexer (Option Char) := maybe (satisfy fun c => c == '+' || c == '-')

/-- The digits of a whole number: a zero stands alone. -/
def wholeDigits : Lexer (List Char) := do
  match ← peek with
  | some '0' => do
    char '0'
    pure ['0']
  | _ => digitRun isDigit

def ofDigits (base : Nat) (digits : List Char) : Nat :=
  digits.foldl (fun value c => value * base + (hexDigit? c).getD 0) 0

/-- A number of 64 bits with a sign. -/
def inRange (value : Int) : Lexer Toml :=
  if Word.fitsSigned value then pure (.integer value) else failure

/-- A whole number after the prefix of its base. -/
def based (letter : Char) (base : Nat) (accept : Char → Bool) : Lexer Toml := do
  char '0'
  char letter
  let digits ← digitRun accept
  inRange (ofDigits base digits)

def decimal : Lexer Toml := do
  let sign ← sign
  let digits ← wholeDigits
  let value : Int := ofDigits 10 digits
  inRange (if sign = some '-' then -value else value)

def integer : Lexer Toml :=
  based 'x' 16 (fun c => (hexDigit? c).isSome) <|> based 'o' 8 (fun c => '0' ≤ c && c ≤ '7') <|>
    based 'b' 2 (fun c => c == '0' || c == '1') <|> decimal

def exponentPart : Lexer (Option Char × List Char) := do
  let _ ← satisfy fun c => c == 'e' || c == 'E'
  let sign ← sign
  let digits ← digitRun isDigit
  pure (sign, digits)

/-- The decimal `digits * 10 ^ exponent` is too large for a double: it is at least half
a unit of the last place above the greatest one. -/
def isBeyondDouble (digits : Nat) (exponent : Int) : Bool :=
  let limit := Nat.pow 2 1024 - Nat.pow 2 970
  let places : Int := (Numeral.ofNat digits).length + exponent
  if digits = 0 ∨ places ≤ 308 then false
  else if 309 < places then true
  else if exponent < 0 then limit * Nat.pow 10 exponent.natAbs ≤ digits
  else limit ≤ digits * Nat.pow 10 exponent.natAbs

/-- The text that a part takes. -/
def taken {α : Type} (part : Lexer α) : Lexer String := fun unread =>
  match part unread with
  | none => none
  | some (_, rest) => some (String.ofList (unread.take (unread.length - rest.length)), rest)

/-- A number with a fraction or an exponent. A positive one must not be too large. -/
def fractionalNumber : Lexer Unit := do
  let sign ← sign
  let whole ← wholeDigits
  let fraction ← maybe (do char '.'; digitRun isDigit)
  let exponent ← maybe exponentPart
  if fraction.isNone && exponent.isNone then failure
  let fraction := fraction.getD []
  let (exponentSign, exponentDigits) := exponent.getD (none, [])
  let shift : Int := ofDigits 10 exponentDigits
  let shift := (if exponentSign = some '-' then -shift else shift) - fraction.length
  if sign ≠ some '-' && isBeyondDouble (ofDigits 10 (whole ++ fraction)) shift then failure

/-- Infinity, or no number at all. -/
def specialNumber : Lexer Unit := do
  let _ ← sign
  word "inf".toList <|> word "nan".toList

def float : Lexer Toml := .float <$> taken (fractionalNumber <|> specialNumber)

/-- A number of exactly so many digits between two bounds. -/
def field (count least greatest : Nat) : Lexer Nat := do
  let digits ← upTo (satisfy isDigit) count
  let value := ofDigits 10 digits
  if digits.length = count ∧ least ≤ value ∧ value ≤ greatest then pure value else failure

def daysOf (year month : Nat) : Nat :=
  if month = 2 then
    if year % 4 = 0 ∧ (year % 100 ≠ 0 ∨ year % 400 = 0) then 29 else 28
  else if month = 4 ∨ month = 6 ∨ month = 9 ∨ month = 11 then 30
  else 31

def date : Lexer Unit := do
  let year ← field 4 0 9999
  char '-'
  let month ← field 2 1 12
  char '-'
  let _ ← field 2 1 (daysOf year month)

/-- A time of the day, to a second or finer. -/
def time : Lexer Unit := do
  let _ ← field 2 0 23
  char ':'
  let _ ← field 2 0 59
  char ':'
  -- A minute may have a leap second.
  let _ ← field 2 0 60
  let _ ← maybe (do char '.'; run1 isDigit)

/-- The distance from universal time. -/
def offset : Lexer Unit :=
  (do let _ ← satisfy fun c => c == 'Z' || c == 'z') <|> do
    let _ ← satisfy fun c => c == '+' || c == '-'
    let _ ← field 2 0 23
    char ':'
    let _ ← field 2 0 59

def dateAndTime : Lexer Unit := do
  date
  let _ ← maybe (do
    let _ ← satisfy fun c => c == 'T' || c == 't' || c == ' '
    time
    maybe offset)

def dateTime : Lexer Toml := .dateTime <$> taken (dateAndTime <|> time)

def boolean : Lexer Toml :=
  (do word "true".toList; pure (.boolean true)) <|> (do word "false".toList; pure (.boolean false))

/-- A value that is neither a string nor made of other values. -/
def scalarValue : Lexer Toml :=
  dateTime <|> float <|> integer <|> boolean

end TokenIntake.Toml.Lexer
