import TokenIntake.Json.Basic
import TokenIntake.Number.Shortest
import TokenIntake.Text.Quoted

/-!
# Faults of JSON text

A text fails to be read for one of two reasons: it is not JSON, or it is JSON of
another shape than the record that is read from it. A fault keeps the bytes not read
when it arose, and these give its line and column.
-/

namespace TokenIntake.Json

inductive Malformed where
  | endInValue
  | endInArray
  | endInObject
  | endInString
  | noColon
  | noCommaOrBracket
  | noCommaOrBrace
  | noLiteral
  | noValue
  | noKey
  | trailingComma
  | trailingCharacters
  | invalidEscape
  | invalidNumber
  | numberOutOfRange
  | invalidCodePoint
  | controlCharacter
  | loneSurrogate
  | endOfHexEscape
  | tooDeep
  deriving DecidableEq, Repr

def Malformed.message : Malformed → String
  | endInValue => "EOF while parsing a value"
  | endInArray => "EOF while parsing a list"
  | endInObject => "EOF while parsing an object"
  | endInString => "EOF while parsing a string"
  | noColon => "expected `:`"
  | noCommaOrBracket => "expected `,` or `]`"
  | noCommaOrBrace => "expected `,` or `\x7d`"
  | noLiteral => "expected ident"
  | noValue => "expected value"
  | noKey => "key must be a string"
  | trailingComma => "trailing comma"
  | trailingCharacters => "trailing characters"
  | invalidEscape => "invalid escape"
  | invalidNumber => "invalid number"
  | numberOutOfRange => "number out of range"
  | invalidCodePoint => "invalid unicode code point"
  | controlCharacter =>
    "control character (\\u0000-\\u001F) found while parsing a string"
  | loneSurrogate => "lone leading surrogate in hex escape"
  | endOfHexEscape => "unexpected end of hex escape"
  | tooDeep => "recursion limit exceeded"

/-- What stands where something else was expected. -/
inductive Found where
  | null
  | boolean (value : Bool)
  | number (value : JsonNumber)
  | text (value : String)
  | sequence
  | map
  deriving Repr

namespace Found

def ofJson : Json → Found
  | .null => null
  | .bool value => boolean value
  | .number value => number value
  | .string value => text value
  | .array _ => sequence
  | .object _ => map

/-- What was found, in words. A double is shown without an exponent. -/
def describe : Found → String
  | null => "null"
  | boolean value => s!"boolean `{value}`"
  | number (.integer value) => s!"integer `{String.ofList (Numeral.ofInt value)}`"
  | number (.double value) => s!"floating point `{String.ofList value.plain}`"
  | text value => "string " ++ Quoted.write value
  | sequence => "sequence"
  | map => "map"

end Found

inductive Misfit where
  | wrongType (found : Found) (expected : String)
  | wrongValue (found : Found) (expected : String)
  | missingField (field : String)
  | duplicateField (field : String)
  | tooFewItems (count : Nat) (record : String) (arity : Nat)
  | tooManyItems (count : Nat)
  | unknownVariant (name : String) (known : List String)
  deriving Repr

namespace Misfit

/-- Names between backquotes: one, one or the other, or one of several. -/
def alternatives : List String → String
  | [name] => s!"`{name}`"
  | [first, second] => s!"`{first}` or `{second}`"
  | names => "one of " ++ ", ".intercalate (names.map fun name => s!"`{name}`")

def message : Misfit → String
  | wrongType found expected => s!"invalid type: {found.describe}, expected {expected}"
  | wrongValue found expected => s!"invalid value: {found.describe}, expected {expected}"
  | missingField field => s!"missing field `{field}`"
  | duplicateField field => s!"duplicate field `{field}`"
  | tooFewItems count record arity =>
    let plural := if arity = 1 then "" else "s"
    s!"invalid length {count}, expected struct {record} with {arity} element{plural}"
  | tooManyItems count => s!"invalid length {count}, expected fewer elements in array"
  | unknownVariant name known => s!"unknown variant `{name}`, expected {alternatives known}"

end Misfit

inductive Cause where
  | malformed (reason : Malformed)
  | misfit (reason : Misfit)
  deriving Repr

def Cause.message : Cause → String
  | malformed reason => reason.message
  | misfit reason => reason.message

/-- A cause and the bytes that were not read when it arose. -/
structure Fault where
  cause : Cause
  unread : List UInt8
  deriving Repr

/-- A place in a text: lines count from one, columns are the bytes since the line began. -/
structure Position where
  line : Nat
  column : Nat
  deriving DecidableEq, Repr

/-- The place after some bytes. -/
def Position.after (bytes : List UInt8) : Position :=
  bytes.foldl
    (fun place byte =>
      if byte = 0x0A then ⟨place.line + 1, 0⟩ else ⟨place.line, place.column + 1⟩)
    ⟨1, 0⟩

/-- The place of a fault in the text that was read. -/
def Fault.position (text : List UInt8) (fault : Fault) : Position :=
  Position.after (text.take (text.length - fault.unread.length))

def Fault.message (text : List UInt8) (fault : Fault) : String :=
  let place := fault.position text
  s!"{fault.cause.message} at line {place.line} column {place.column}"

end TokenIntake.Json
