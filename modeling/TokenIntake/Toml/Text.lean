import TokenIntake.Toml.Lexer

/-!
# Strings of TOML

Four kinds: with or without escapes, on one line or on several. A string on several
lines drops a line end right after its opening quotes and writes every line end as a
line feed.
-/

namespace TokenIntake.Toml.Lexer

/-- The quote of strings with escapes. -/
def quote : Char := '"'

/-- The quote of strings without escapes. -/
def apostrophe : Char := '\''

/-- A character that stands for itself in a string with escapes. -/
def isPlain (c : Char) : Bool := isPrintable c && c != quote && c != '\\'

/-- A character that stands for itself in a string without escapes. -/
def isLiteral (c : Char) : Bool := isPrintable c && c != apostrophe

def hexDigit? (c : Char) : Option Nat :=
  let n := c.toNat
  if 0x30 ≤ n ∧ n ≤ 0x39 then some (n - 0x30)
  else if 0x61 ≤ n ∧ n ≤ 0x66 then some (n - 0x61 + 10)
  else if 0x41 ≤ n ∧ n ≤ 0x46 then some (n - 0x41 + 10)
  else none

def hexNumber : Nat → Nat → Lexer Nat
  | 0, value => pure value
  | count + 1, value => do
    let c ← satisfy fun c => (hexDigit? c).isSome
    hexNumber count (16 * value + (hexDigit? c).getD 0)

def scalar (value : Nat) : Lexer Char :=
  if value.isValidChar then pure (Char.ofNat value) else failure

/-- An escape, after its backslash. -/
def escaped : Lexer Char := do
  match ← satisfy fun _ => true with
  | 'b' => pure '\x08'
  | 't' => pure '\t'
  | 'n' => pure '\n'
  | 'f' => pure '\x0c'
  | 'r' => pure '\r'
  | 'u' => do
    let value ← hexNumber 4 0
    scalar value
  | 'U' => do
    let value ← hexNumber 8 0
    scalar value
  | c => if c = quote ∨ c = '\\' then pure c else failure

/-- A part of a string with escapes. -/
def plainPart : Lexer (List Char) :=
  run1 isPlain <|> (do
    char '\\'
    let c ← escaped
    pure [c])

def basicText : Lexer (List Char) := do
  char quote
  let parts ← many plainPart
  char quote
  pure parts.flatten

def literalText : Lexer (List Char) := do
  char apostrophe
  let text ← run isLiteral
  char apostrophe
  pure text

/-- A backslash at the end of a line drops the blanks and line ends behind it. -/
def lineJoin : Lexer (List Char) := do
  char '\\'
  blanks
  newline
  let _ ← many ((do let _ ← run1 isBlank) <|> newline)
  pure []

/-- A line end inside a string. -/
def innerNewline : Lexer (List Char) := do
  newline
  pure ['\n']

/-- The text of a string on several lines, after its opening quotes, and with the
closing ones. Up to two quotes in a row belong to the text, also in front of the
closing ones. -/
def untilClosed (delimiter : Char) (part : Lexer (List Char)) : Nat → Lexer (List Char)
  | 0 => failure
  | fuel + 1 => do
    let quotes ← run (· == delimiter)
    if 3 ≤ quotes.length then
      -- Three quotes close the string, those in front of them belong to the text.
      if quotes.length ≤ 5 then pure (quotes.drop 3) else failure
    else do
      let text ← part
      let rest ← untilClosed delimiter part fuel
      pure (quotes ++ text ++ rest)

def blockText (delimiter : Char) (part : Lexer (List Char)) : Lexer (List Char) := do
  word (List.replicate 3 delimiter)
  let _ ← maybe newline
  fun unread => untilClosed delimiter part (unread.length + 1) unread

def basicBlock : Lexer (List Char) :=
  blockText quote (run1 isPlain <|> lineJoin <|> plainPart <|> innerNewline)

def literalBlock : Lexer (List Char) :=
  blockText apostrophe (run1 isLiteral <|> innerNewline)

def anyText : Lexer String := do
  let found ← basicBlock <|> basicText <|> literalBlock <|> literalText
  pure (String.ofList found)

/-- A string on one line, as it may stand for a name. -/
def quotedName : Lexer String := do
  let found ← basicText <|> literalText
  pure (String.ofList found)

end TokenIntake.Toml.Lexer
