import TokenIntake.Json.Fault

/-!
# Scanning

A scanner consumes bytes from the front of a text and yields a value, or stops with a
fault. A fault is placed either where the scanner stands or behind the next byte,
which is then the one that is out of place.
-/

namespace TokenIntake.Json

abbrev Scan (α : Type) : Type := StateT (List UInt8) (Except Fault) α

namespace Scan

variable {α : Type}

/-- Stops where the scanner stands. -/
def failWith (cause : Cause) : Scan α := fun unread => .error ⟨cause, unread⟩

/-- Stops because the bytes already consumed are not JSON. -/
def fail (reason : Malformed) : Scan α := failWith (.malformed reason)

/-- Stops because the next byte is not as it has to be. -/
def failAtNext (reason : Malformed) : Scan α :=
  fun unread => .error ⟨.malformed reason, unread.drop 1⟩

/-- The next byte, which stays unread. -/
def peek : Scan (Option UInt8) := fun unread => .ok (unread.head?, unread)

def advance : Scan Unit := fun unread => .ok ((), unread.drop 1)

/-- The next byte, which is consumed. -/
def next : Scan (Option UInt8) := fun unread => .ok (unread.head?, unread.drop 1)

def isBlank (byte : UInt8) : Bool :=
  byte == 0x20 || byte == 0x09 || byte == 0x0A || byte == 0x0D

def skipBlanks : Scan Unit := fun unread => .ok ((), unread.dropWhile isBlank)

/-- The first byte of the next token, which stays unread. -/
def peekToken : Scan (Option UInt8) := do
  skipBlanks
  peek

/-- Runs a scanner with one step for every byte left and one for the end. -/
def bounded (loop : Nat → Scan α) : Scan α := fun unread => loop (unread.length + 1) unread

def literal : List UInt8 → Scan Unit
  | [] => pure ()
  | expected :: rest => do
    match ← next with
    | none => fail .endInValue
    | some byte => if byte = expected then literal rest else fail .noLiteral

/-- `null` without its first letter. -/
def nullTail : Scan Unit := literal [0x75, 0x6C, 0x6C]

/-- `true` without its first letter. -/
def trueTail : Scan Unit := literal [0x72, 0x75, 0x65]

/-- `false` without its first letter. -/
def falseTail : Scan Unit := literal [0x61, 0x6C, 0x73, 0x65]

/-- What stands before the next item of an array: `true` if an item follows, `false`
at the closing bracket, which stays unread. -/
def nextItem (first : Bool) : Scan Bool := do
  match ← peekToken with
  | none => fail .endInArray
  | some byte =>
    if byte = 0x5D then pure false
    else if first then pure true
    else if byte = 0x2C then do
      advance
      match ← peekToken with
      | none => fail .endInValue
      | some byte => if byte = 0x5D then failAtNext .trailingComma else pure true
    else failAtNext .noCommaOrBracket

def closeArray : Scan Unit := do
  match ← peekToken with
  | none => fail .endInArray
  | some byte =>
    if byte = 0x5D then advance
    else if byte = 0x2C then do
      advance
      match ← peekToken with
      | none => fail .trailingCharacters
      | some byte =>
        if byte = 0x5D then failAtNext .trailingComma else failAtNext .trailingCharacters
    else failAtNext .trailingCharacters

/-- What stands before the next member of an object: `true` if a name follows, whose
quote stays unread, `false` at the closing brace, which stays unread as well. -/
def nextMember (first : Bool) : Scan Bool := do
  match ← peekToken with
  | none => fail .endInObject
  | some byte =>
    if byte = 0x7D then pure false
    else if first then nameStart (some byte)
    else if byte = 0x2C then do
      advance
      nameStart (← peekToken)
    else failAtNext .noCommaOrBrace
where
  /-- A name has to follow. -/
  nameStart : Option UInt8 → Scan Bool
    | none => fail .endInValue
    | some byte =>
      if byte = 0x22 then pure true
      else if byte = 0x7D then failAtNext .trailingComma
      else failAtNext .noKey

def closeObject : Scan Unit := do
  match ← peekToken with
  | none => fail .endInObject
  | some byte =>
    if byte = 0x7D then advance
    else if byte = 0x2C then failAtNext .trailingComma
    else failAtNext .trailingCharacters

def colon : Scan Unit := do
  match ← peekToken with
  | none => fail .endInObject
  | some byte => if byte = 0x3A then advance else failAtNext .noColon

/-- The end of the text, behind the last value. -/
def finish : Scan Unit := do
  match ← peekToken with
  | none => pure ()
  | some _ => failAtNext .trailingCharacters

/-- The items of an array after its opening bracket, up to the closing one. -/
def items (item : Scan α) : Nat → Bool → Scan (List α)
  | 0, _ => fail .endInArray
  | fuel + 1, first => do
    if ← nextItem first then
      let value ← item
      let rest ← items item fuel false
      pure (value :: rest)
    else pure []

/-- Reads a whole text: a value, and nothing but blanks behind it. -/
def run (scan : Scan α) (text : List UInt8) : Except Fault α :=
  match (do let value ← scan; finish; pure value : Scan α) text with
  | .ok (value, _) => .ok value
  | .error fault => .error fault

end Scan

end TokenIntake.Json
