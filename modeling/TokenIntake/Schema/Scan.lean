import TokenIntake.Json.Skip
import TokenIntake.Number.Word
import TokenIntake.Schema.Basic

/-!
# Records from text

A record is read from text as it comes: the first fault in the order of the text is
reported, be it a misfit or no JSON at all. A field that occurs twice is a fault, and
so is an array that is too long or lacks a required field. The value of a member
under another name is passed over.
-/

namespace TokenIntake

open Json

namespace Json.Scan

variable {α : Type}

/-- Stops because what was read does not fit. -/
def misfit (reason : Misfit) : Scan α := failWith (.misfit reason)

/-- Stops because a record does not fit as a whole. Its closing bracket still counts
as read if it is the next token. -/
def misfitOfRecord (closing : UInt8) (reason : Misfit) : Scan α := fun unread =>
  let rest := unread.dropWhile isBlank
  let rest := if rest.head? = some closing then rest.drop 1 else rest
  .error ⟨.misfit reason, rest⟩

/-- Stops at a value of another type than expected. A scalar is read first and has to
be JSON; a bracket stays unread. -/
def wrongType (expected : String) : Scan α := do
  match ← peek with
  | none => fail .endInValue
  | some byte =>
    if byte = 0x6E then do
      advance
      nullTail
      misfit (.wrongType .null expected)
    else if byte = 0x74 then do
      advance
      trueTail
      misfit (.wrongType (.boolean true) expected)
    else if byte = 0x66 then do
      advance
      falseTail
      misfit (.wrongType (.boolean false) expected)
    else if byte = 0x2D then do
      advance
      let value ← number true
      misfit (.wrongType (.number value) expected)
    else if isDigit byte then do
      let value ← number false
      misfit (.wrongType (.number value) expected)
    else if byte = 0x22 then do
      advance
      let text ← string
      misfit (.wrongType (.text text) expected)
    else if byte = 0x5B then misfit (.wrongType .sequence expected)
    else if byte = 0x7B then misfit (.wrongType .map expected)
    else failAtNext .noValue

/-- The first byte of a value, which has to follow. -/
def valueStart : Scan UInt8 := do
  match ← peekToken with
  | none => fail .endInValue
  | some byte => pure byte

def text (expected : String) : Scan String := do
  let byte ← valueStart
  if byte = 0x22 then do
    advance
    string
  else wrongType expected

def anyNumber (expected : String) : Scan JsonNumber := do
  let byte ← valueStart
  if byte = 0x2D then do
    advance
    number true
  else if isDigit byte then number false
  else wrongType expected

def integer (fits : Int → Bool) (expected : String) : Scan Int := do
  match ← anyNumber expected with
  | .integer value =>
    if fits value then pure value
    else misfit (.wrongValue (.number (.integer value)) expected)
  | value => misfit (.wrongType (.number value) expected)

def flag : Scan Bool := do
  let byte ← valueStart
  if byte = 0x74 then do
    advance
    trueTail
    pure true
  else if byte = 0x66 then do
    advance
    falseTail
    pure false
  else wrongType Shape.flag.expected

def option (inner : Scan α) : Scan (Option α) := do
  if (← peekToken) = some 0x6E then do
    advance
    nullTail
    pure none
  else do
    let value ← inner
    pure (some value)

/-- The items of an array between its brackets. -/
def list (item : Scan α) : Scan (List α) := do
  advance
  let values ← bounded fun fuel => items item fuel true
  closeArray
  pure values

/-- The members of an object after its opening brace, each taken into `met`. -/
def membersInto (take : String → α → Scan α) : Nat → Bool → α → Scan α
  | 0, _, _ => fail .endInObject
  | fuel + 1, first, met => do
    if ← nextMember first then
      advance
      let name ← string
      let met ← take name met
      membersInto take fuel false met
    else pure met

end Json.Scan

mutual

/-- The value of a shape at the front of a text, with at most `depth` brackets around
any part of it. -/
def Shape.scan : (shape : Shape) → (depth : Nat) → Scan shape.Value
  | .text, _ => Scan.text Shape.text.expected
  | .integer, _ => do
    let value ← Scan.integer Word.fitsSigned Shape.integer.expected
    pure (Int64.ofInt value)
  | .word, _ => do
    let value ← Scan.integer Word.fitsUnsigned Shape.word.expected
    pure (UInt64.ofNat value.toNat)
  | .flag, _ => Scan.flag
  | .json, depth => Scan.value depth
  | .list item, depth => do
    let byte ← Scan.valueStart
    if byte ≠ 0x5B then Scan.wrongType (Shape.list item).expected
    else if depth = 0 then Scan.failAtNext .tooDeep
    else Scan.list (item.scan (depth - 1))
  | .option inner, depth => Scan.option (inner.scan depth)
  | .record name fields, depth => do
    let byte ← Scan.valueStart
    if byte ≠ 0x5B ∧ byte ≠ 0x7B then Scan.wrongType (Shape.record name fields).expected
    else if depth = 0 then Scan.failAtNext .tooDeep
    else if byte = 0x5B then do
      Scan.advance
      let row ← fields.scanItems name fields.arity (depth - 1) 0
      Scan.closeArray
      pure row
    else do
      Scan.advance
      let met ← Scan.bounded fun fuel =>
        Scan.membersInto (fields.scanMember (depth - 1)) fuel true fields.unmet
      -- Whether a required field is missing shows only behind the last member.
      match fields.complete met with
      | .error field => Scan.misfitOfRecord 0x7D (.missingField field)
      | .ok row => do
        Scan.closeObject
        pure row

/-- The items of an array as a row, after the opening bracket. -/
def Fields.scanItems : (fields : Fields) → (record : String) → (arity depth index : Nat) →
    Scan fields.Row
  | .nil, _, _, _, _ => pure ()
  | .cons _ shape required rest, record, arity, depth, index => do
    if ← Scan.nextItem (index == 0) then
      let value ← shape.scan depth
      let row ← rest.scanItems record arity depth (index + 1)
      pure (value, row)
    else if required then Scan.misfitOfRecord 0x5D (.tooFewItems index record arity)
    else do
      let row ← rest.scanItems record arity depth (index + 1)
      pure (shape.absent, row)

/-- The member of a name, at its colon, taken into the fields met. -/
def Fields.scanMember : (fields : Fields) → (depth : Nat) → String → fields.Partial →
    Scan fields.Partial
  -- No field has the name.
  | .nil, _, _, () => do
    Scan.colon
    Scan.skipValue
  | .cons name shape _ rest, depth, key, (met, others) =>
    if key = name then
      match met with
      | some _ => Scan.misfitOfRecord 0x7D (.duplicateField name)
      | none => do
        Scan.colon
        let value ← shape.scan depth
        pure (some value, others)
    else do
      let others ← rest.scanMember depth key others
      pure (met, others)

end

def Shape.parse (shape : Shape) (text : List UInt8) : Except Fault shape.Value :=
  Scan.run (shape.scan maxDepth) text

end TokenIntake
