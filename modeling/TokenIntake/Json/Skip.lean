import TokenIntake.Json.Reader

/-!
# Skipping values

A value that nobody asked for is only passed over. It has to be JSON, but its strings
may hold unpaired surrogates, its numbers may be as large as they like, and its
brackets may nest to any depth.
-/

namespace TokenIntake.Json.Scan

def skipEscape : Scan Unit := do
  match ← next with
  | none => fail .endInString
  | some byte =>
    if (shortEscape? byte).isSome then pure ()
    else if byte = 0x75 then do
      let _ ← hexUnit
    else fail .invalidEscape

/-- A string up to its closing quote. A control character stays unread. -/
def skipStringBytes : Nat → Scan Unit
  | 0 => fail .endInString
  | fuel + 1 => do
    match ← peek with
    | none => fail .endInString
    | some byte =>
      if byte = 0x22 then advance
      else if byte = 0x5C then do
        advance
        skipEscape
        skipStringBytes fuel
      else if byte < 0x20 then fail .controlCharacter
      else do
        advance
        skipStringBytes fuel

def skipString : Scan Unit := bounded skipStringBytes

def skipExponent : Scan Unit := do
  advance
  let sign ← peek
  if sign = some 0x2B ∨ sign = some 0x2D then advance
  match ← next with
  | none => fail .invalidNumber
  | some byte =>
    if isDigit byte then do
      let _ ← digits
    else fail .invalidNumber

def skipFraction : Scan Unit := do
  advance
  let fraction ← digits
  if fraction.isEmpty then failAtNext .invalidNumber
  else if isExponentLetter (← peek) then skipExponent
  else pure ()

/-- A number, after its minus sign if it has one. -/
def skipNumber : Scan Unit := do
  match ← next with
  | none => fail .invalidNumber
  | some byte =>
    match digit? byte with
    | none => fail .invalidNumber
    | some d => do
      let more ← if d = 0 then peek else (do let _ ← digits; pure none)
      if more.any isDigit then failAtNext .invalidNumber
      else
        let byte ← peek
        if byte = some 0x2E then skipFraction
        else if isExponentLetter byte then skipExponent
        else pure ()

/-- A bracket that is open. -/
inductive Frame where
  | array
  | object
  deriving DecidableEq, Repr

namespace Frame

def closing : Frame → UInt8
  | array => 0x5D
  | object => 0x7D

/-- The text ended before the bracket was closed. -/
def unfinished : Frame → Malformed
  | array => .endInArray
  | object => .endInObject

/-- Neither a comma nor the closing byte follows a part. -/
def unseparated : Frame → Malformed
  | array => .noCommaOrBracket
  | object => .noCommaOrBrace

end Frame

/-- A scalar, or an opening bracket, which is returned. -/
def skipToken : Scan (Option Frame) := do
  match ← peekToken with
  | none => fail .endInValue
  | some byte =>
    if byte = 0x6E then do advance; nullTail; pure none
    else if byte = 0x74 then do advance; trueTail; pure none
    else if byte = 0x66 then do advance; falseTail; pure none
    else if byte = 0x2D then do advance; skipNumber; pure none
    else if isDigit byte then do skipNumber; pure none
    else if byte = 0x22 then do advance; skipString; pure none
    else if byte = 0x5B then do advance; pure (some .array)
    else if byte = 0x7B then do advance; pure (some .object)
    else failAtNext .noValue

/-- Closes brackets until a part follows, and returns those still open; `none` if all
are closed. A comma may stand only behind a part. -/
def resume (behindPart : Bool) : List Frame → Scan (Option (List Frame))
  | [] => pure none
  | frame :: rest => do
    match ← peekToken with
    | none => fail frame.unfinished
    | some byte =>
      if byte = 0x2C ∧ behindPart then do advance; pure (some (frame :: rest))
      else if byte = frame.closing then do advance; resume true rest
      else if behindPart then failAtNext frame.unseparated
      else pure (some (frame :: rest))

def skipName : Scan Unit := do
  match ← peekToken with
  | none => fail .endInObject
  | some byte =>
    if byte = 0x22 then do
      advance
      skipString
      colon
    else failAtNext .noKey

/-- A value and what is left of the brackets around it. -/
def skipParts : Nat → List Frame → Scan Unit
  | 0, _ => fail .endInValue
  | fuel + 1, enclosing => do
    -- A scalar is a part by itself; behind an opening bracket the first part is still to come.
    let opened ← skipToken
    match ← resume opened.isNone (opened.toList ++ enclosing) with
    | none => pure ()
    | some [] => pure ()
    | some (frame :: rest) => do
      if frame = .object then skipName
      skipParts fuel (frame :: rest)

def skipValue : Scan Unit := bounded fun fuel => skipParts fuel []

end TokenIntake.Json.Scan
