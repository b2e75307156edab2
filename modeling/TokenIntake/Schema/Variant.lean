import TokenIntake.Schema.Scan

/-!
# Names out of a list

A choice between known names is written as a string, or as an object whose only
member has the name and the value `null`.
-/

namespace TokenIntake.Json.Scan

def knownName (known : List String) : Scan String := do
  let name ← text "variant identifier"
  if name ∈ known then pure name else misfit (.unknownVariant name known)

/-- `null`, where nothing else has a meaning. -/
def unit : Scan Unit := do
  let byte ← valueStart
  if byte = 0x6E then do
    advance
    nullTail
  else wrongType "unit"

def variant (known : List String) : Scan String := do
  let byte ← valueStart
  if byte = 0x22 then knownName known
  else if byte = 0x7B then do
    advance
    let name ← knownName known
    colon
    unit
    match ← peekToken with
    | none => fail .endInObject
    | some byte => if byte = 0x7D then do advance; pure name else fail .noValue
  else failAtNext .noValue

end TokenIntake.Json.Scan

namespace TokenIntake

open Json

/-- The one of some named values whose name a text holds. -/
def parseNamed {α : Type} (values : List (String × α)) (text : List UInt8) : Except Fault α :=
  match Scan.run (Scan.variant (values.map (·.1))) text with
  | .error fault => .error fault
  | .ok name =>
    match values.find? (·.1 == name) with
    | some (_, value) => .ok value
    | none => .error ⟨.misfit (.unknownVariant name (values.map (·.1))), []⟩

end TokenIntake
