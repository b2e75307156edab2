import TokenIntake.Json.Scan
import TokenIntake.Number.Word
import TokenIntake.Text.Utf8

/-!
# Reading JSON

Scanners for strings, numbers and values, and the reader of a whole text. Of two
members with one name the later is kept. Brackets nest at most 127 deep.
-/

namespace TokenIntake.Json

namespace Scan

/-! ## Strings -/

def hexDigit? (byte : UInt8) : Option Nat :=
  let n := byte.toNat
  if 0x30 ≤ n ∧ n ≤ 0x39 then some (n - 0x30)
  else if 0x61 ≤ n ∧ n ≤ 0x66 then some (n - 0x61 + 10)
  else if 0x41 ≤ n ∧ n ≤ 0x46 then some (n - 0x41 + 10)
  else none

def hexDigits : Nat → Nat → Scan Nat
  | 0, value => pure value
  | count + 1, value => do
    match ← next with
    | none => fail .endInString
    | some byte =>
      match hexDigit? byte with
      | none => fail .invalidEscape
      | some digit => hexDigits count (16 * value + digit)

/-- The four digits of an escape. If the text ends before them, they are not looked at. -/
def hexUnit : Scan Nat := fun unread =>
  if (unread.take 4).length < 4 then .error ⟨.malformed .endInString, []⟩ else hexDigits 4 0 unread

/-- A byte that has to follow the first half of a surrogate pair. -/
def pairByte (expected : UInt8) : Scan Unit := do
  match ← peek with
  | none => fail .endInString
  | some byte => if byte = expected then advance else failAtNext .endOfHexEscape

/-- The character of a `\u` escape, or of two that make up a surrogate pair. -/
def unicodeEscape : Scan Char := do
  let unit ← hexUnit
  if 0xDC00 ≤ unit ∧ unit ≤ 0xDFFF then fail .loneSurrogate
  else if 0xD800 ≤ unit ∧ unit ≤ 0xDBFF then do
    pairByte 0x5C
    pairByte 0x75
    let low ← hexUnit
    if 0xDC00 ≤ low ∧ low ≤ 0xDFFF then
      pure (Char.ofNat (0x10000 + (unit - 0xD800) * 0x400 + (low - 0xDC00)))
    else fail .loneSurrogate
  else pure (Char.ofNat unit)

def shortEscape? (byte : UInt8) : Option UInt8 :=
  match byte.toNat with
  | 0x22 => some 0x22
  | 0x5C => some 0x5C
  | 0x2F => some 0x2F
  | 0x62 => some 0x08
  | 0x66 => some 0x0C
  | 0x6E => some 0x0A
  | 0x72 => some 0x0D
  | 0x74 => some 0x09
  | _ => none

def escape : Scan (List UInt8) := do
  match ← next with
  | none => fail .endInString
  | some byte =>
    match shortEscape? byte with
    | some plain => pure [plain]
    | none =>
      if byte = 0x75 then do
        let c ← unicodeEscape
        pure (String.utf8EncodeChar c)
      else fail .invalidEscape

/-- The bytes of a string up to its closing quote, in reverse on top of `done`. -/
def stringBytes : Nat → List UInt8 → Scan (List UInt8)
  | 0, _ => fail .endInString
  | fuel + 1, done => do
    match ← next with
    | none => fail .endInString
    | some byte =>
      if byte = 0x22 then pure done.reverse
      -- An escape yields a whole character, while other bytes are taken as they are.
      else if byte = 0x5C then do
        let bytes ← escape
        stringBytes fuel (bytes.reverse ++ done)
      else if byte < 0x20 then fail .controlCharacter
      else stringBytes fuel (byte :: done)

/-- A string, after its opening quote. Its bytes are looked at as a whole once the
closing quote is found. -/
def string : Scan String := do
  let bytes ← bounded fun fuel => stringBytes fuel []
  match Utf8.decodeString bytes with
  | some text => pure text
  | none => fail .invalidCodePoint

/-! ## Numbers -/

def digit? (byte : UInt8) : Option Nat :=
  if 0x30 ≤ byte.toNat ∧ byte.toNat ≤ 0x39 then some (byte.toNat - 0x30) else none

def isDigit (byte : UInt8) : Bool := (digit? byte).isSome

def digits : Scan (List Nat) :=
  fun unread => .ok ((unread.takeWhile isDigit).filterMap digit?, unread.dropWhile isDigit)

/-- Takes digits onto a value as long as it fits a word of 64 bits, and returns those
left over. -/
def absorb (value : Nat) : List Nat → Nat × List Nat
  | [] => (value, [])
  | d :: rest =>
    if value * 10 + d < Word.limit then absorb (value * 10 + d) rest else (value, d :: rest)

/-- The significand of a number and its decimal exponent. Digits before the point that
do not fit the significand only count, those behind the point are dropped. -/
def significand (whole fraction : List Nat) : Nat × Int :=
  let (value, uncounted) := absorb 0 whole
  let (value, dropped) := absorb value fraction
  (value, (uncounted.length : Int) - ((fraction.length - dropped.length : Nat) : Int))

def double (negative : Bool) (parts : Nat × Int) : Scan JsonNumber :=
  match Binary64.ofDecimal? parts.1 parts.2 with
  | some value => pure (.double (value.withSign negative))
  | none => fail .numberOutOfRange

/-- The digits of an exponent at the front of a text, read onto a value of at most 31
bits. Past that the value is `none` and the digits behind stay unread. -/
def exponentValue (value : Nat) : List UInt8 → Option Nat × List UInt8
  | [] => (some value, [])
  | byte :: rest =>
    match digit? byte with
    | none => (some value, byte :: rest)
    | some d =>
      if value * 10 + d < Word.shortSignedLimit then exponentValue (value * 10 + d) rest
      else (none, rest)

def exponent (negative : Bool) (parts : Nat × Int) : Scan JsonNumber := do
  advance
  let sign ← peek
  if sign = some 0x2B ∨ sign = some 0x2D then advance
  match ← next with
  | none => fail .endInValue
  | some byte =>
    match digit? byte with
    | none => fail .invalidNumber
    | some d =>
      match ← (fun unread => .ok (exponentValue d unread) : Scan (Option Nat)) with
      | some value =>
        let shift : Int := if sign = some 0x2D then -(value : Int) else value
        double negative (parts.1, parts.2 + shift)
      | none =>
        -- Past 31 bits only a zero and numbers that vanish have a double, and both are zero.
        if parts.1 ≠ 0 ∧ sign ≠ some 0x2D then fail .numberOutOfRange
        else do
          let _ ← digits
          pure (.double (Binary64.zero negative))

def isExponentLetter (byte : Option UInt8) : Bool :=
  byte == some 0x65 || byte == some 0x45

/-- A number without fraction and exponent: whole if it is in range, else a double.
The negative zero is a double as well. -/
def whole (negative : Bool) (digits : List Nat) : Scan JsonNumber :=
  let (value, uncounted) := absorb 0 digits
  if uncounted.isEmpty && !negative then pure (.integer value)
  else if uncounted.isEmpty && 0 < value && value ≤ Word.signedLimit then
    pure (.integer (-(value : Int)))
  else double negative (value, uncounted.length)

/-- What follows the digits before the point. -/
def afterWhole (negative : Bool) (before : List Nat) : Scan JsonNumber := do
  let byte ← peek
  if byte = some 0x2E then
    advance
    let fraction ← digits
    -- A point needs a digit behind it, and the fault is placed at what stands there instead.
    if fraction.isEmpty then
      match ← peek with
      | none => fail .endInValue
      | some _ => failAtNext .invalidNumber
    else if isExponentLetter (← peek) then exponent negative (significand before fraction)
    else double negative (significand before fraction)
  else if isExponentLetter byte then exponent negative (significand before [])
  else whole negative before

/-- A number, after its minus sign if it has one. A zero in front stands alone. -/
def number (negative : Bool) : Scan JsonNumber := do
  match ← next with
  | none => fail .endInValue
  | some byte =>
    match digit? byte with
    | none => fail .invalidNumber
    | some 0 =>
      -- No digit may follow a leading zero.
      match ← peek with
      | some byte => if isDigit byte then failAtNext .invalidNumber else afterWhole negative [0]
      | none => afterWhole negative [0]
    | some d => do
      let rest ← digits
      afterWhole negative (d :: rest)

/-! ## Values -/

/-- The members of an object after its opening brace, up to the closing one. -/
def members (value : Scan Json) : Nat → Bool → Scan (List (String × Json))
  | 0, _ => fail .endInObject
  | fuel + 1, first => do
    if ← nextMember first then
      advance
      let name ← string
      colon
      let value' ← value
      let rest ← members value fuel false
      pure ((name, value') :: rest)
    else pure []

/-- A value, given the scanner of the values nested in it, if there may be any. -/
def valueAround (nested : Option (Scan Json)) : Scan Json := do
  match ← peekToken with
  | none => fail .endInValue
  | some byte =>
    if byte = 0x6E then do advance; nullTail; pure .null
    else if byte = 0x74 then do advance; trueTail; pure (.bool true)
    else if byte = 0x66 then do advance; falseTail; pure (.bool false)
    else if byte = 0x2D then do advance; return .number (← number true)
    else if isDigit byte then return .number (← number false)
    else if byte = 0x22 then do advance; return .string (← string)
    else if byte = 0x5B then
      -- On the innermost level no bracket may open.
      match nested with
      | none => failAtNext .tooDeep
      | some value => do
        advance
        let list ← bounded fun fuel => items value fuel true
        closeArray
        pure (.array list)
    else if byte = 0x7B then
      match nested with
      | none => failAtNext .tooDeep
      | some value => do
        advance
        let list ← bounded fun fuel => members value fuel true
        closeObject
        pure (.object (sortMembers list))
    else failAtNext .noValue

/-- A value with at most `depth` brackets around any part of it. -/
def value : Nat → Scan Json
  | 0 => valueAround none
  | depth + 1 => valueAround (some (value depth))

end Scan

/-- How deep brackets may nest. -/
def maxDepth : Nat := 127

def parse (text : List UInt8) : Except Fault Json :=
  (Scan.value maxDepth).run text

end TokenIntake.Json
