import TokenIntake.Toml.Scalar

/-!
# Values of TOML

Keys, arrays and inline tables. Brackets nest less than 128 deep, and a dotted key has
less than 128 parts.
-/

namespace TokenIntake.Toml

/-- How deep brackets and dotted keys may go. -/
def maxDepth : Nat := 127

namespace Lexer

/-- A character of a bare name. -/
def isBare (c : Char) : Bool := c.isAlphanum || c == '-' || c == '_'

def name : Lexer String :=
  quotedName <|> (String.ofList <$> run1 isBare)

/-- One part of a key with the blanks around it. -/
def spacedName : Lexer String := do
  blanks
  let found ← name
  blanks
  pure found

def key : Lexer (List String) := do
  let first ← spacedName
  let rest ← many (do char '.'; spacedName)
  if rest.length < maxDepth then pure (first :: rest) else failure

/-- An item of an array with what may stand around it. -/
def spacedItem (value : Lexer Toml) : Lexer Toml := do
  gap
  let found ← value
  gap
  pure found

/-- The items of an array: commas between them, and perhaps one behind the last. -/
def arrayItems (value : Lexer Toml) : Lexer (List Toml) := do
  match ← maybe (spacedItem value) with
  | none => pure []
  | some first => do
    let rest ← many (do char ','; spacedItem value)
    let _ ← maybe (char ',')
    pure (first :: rest)

def array (value : Lexer Toml) : Lexer Toml := do
  char '['
  let items ← arrayItems value
  gap
  char ']'
  pure (.array items)

def entry (value : Lexer Toml) : Lexer (List String × Toml) := do
  let path ← key
  char '='
  blanks
  let found ← value
  blanks
  pure (path, found)

def inlineEntries (value : Lexer Toml) : Lexer (List (List String × Toml)) := do
  match ← maybe (entry value) with
  | none => pure []
  | some first => do
    let rest ← many (do char ','; entry value)
    pure (first :: rest)

end Lexer

/-- Adds an entry to the members of an inline table. The tables on the way are made if
they are not there, and the way leads only through tables made like that: one in braces
of its own is complete. -/
def insertInline (value : Toml) : List String → Members → Option Members
  | [], _ => none
  | [name], members => insertNew? name value members
  | name :: rest, members =>
    match lookup name members with
    | none => do
      let inner ← insertInline value rest []
      some (set name (.inline true inner) members)
    | some (.inline true inner) => do
      let inner ← insertInline value rest inner
      some (set name (.inline true inner) members)
    | some _ => none

def ofEntries (entries : List (List String × Toml)) : Option Toml := do
  let members ← entries.foldlM (fun members (path, value) => insertInline value path members) []
  some (.inline false members)

namespace Lexer

def inlineTable (value : Lexer Toml) : Lexer Toml := do
  char '\x7b'
  let entries ← inlineEntries value
  blanks
  char '\x7d'
  match ofEntries entries with
  | some found => pure found
  | none => failure

/-- A value without nested values. -/
def flatValue : Lexer Toml := (.text <$> anyText) <|> scalarValue

/-- A value with at most `depth` brackets around any part of it. -/
def value : Nat → Lexer Toml
  | 0 => flatValue
  | depth + 1 => flatValue <|> array (value depth) <|> inlineTable (value depth)

end Lexer

end TokenIntake.Toml
