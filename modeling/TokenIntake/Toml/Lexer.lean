import TokenIntake.Toml.Basic

/-!
# Lexical parts of TOML

A lexer takes characters from the front of a text, or does not apply. Here are the
parts that stand between values: blanks, line ends and comments.
-/

namespace TokenIntake.Toml

abbrev Lexer (α : Type) : Type := StateT (List Char) Option α

namespace Lexer

variable {α : Type}

def satisfy (accept : Char → Bool) : Lexer Char
  | [] => none
  | c :: rest => if accept c then some (c, rest) else none

def char (expected : Char) : Lexer Unit := do
  let _ ← satisfy (· == expected)

def word : List Char → Lexer Unit
  | [] => pure ()
  | c :: rest => do
    char c
    word rest

def peek : Lexer (Option Char) := fun unread => some (unread.head?, unread)

/-- Takes the longest run of a class, which may be empty. -/
def run (accept : Char → Bool) : Lexer (List Char) :=
  fun unread => some (unread.takeWhile accept, unread.dropWhile accept)

/-- Takes the longest run of a class, which must not be empty. -/
def run1 (accept : Char → Bool) : Lexer (List Char) := do
  let found ← run accept
  if found.isEmpty then failure else pure found

/-- Takes a part if it applies. -/
def maybe (part : Lexer α) : Lexer (Option α) :=
  (some <$> part) <|> pure none

/-- Takes a part as often as it applies, at most a number of times. -/
def upTo (part : Lexer α) : Nat → Lexer (List α)
  | 0 => pure []
  | fuel + 1 => do
    match ← maybe part with
    | none => pure []
    | some value => do
      let rest ← upTo part fuel
      pure (value :: rest)

/-- Takes a part as often as it applies. The part must not be empty. -/
def many (part : Lexer α) : Lexer (List α) :=
  fun unread => upTo part unread.length unread

def atEnd : Lexer Unit := fun unread => if unread.isEmpty then some ((), []) else none

def isBlank (c : Char) : Bool := c == ' ' || c == '\t'

/-- Any character that is no control character, or a tab. -/
def isPrintable (c : Char) : Bool := c == '\t' || (0x20 ≤ c.toNat && c.toNat ≠ 0x7F)

def blanks : Lexer Unit := do
  let _ ← run isBlank

/-- A line feed, with or without a carriage return in front. -/
def newline : Lexer Unit := char '\n' <|> (do char '\r'; char '\n')

/-- A comment, up to the end of its line. -/
def comment : Lexer Unit := do
  char '#'
  let _ ← run isPrintable

def lineEnd : Lexer Unit := newline <|> atEnd

/-- What may follow an entry on its line. -/
def lineRest : Lexer Unit := do
  blanks
  let _ ← maybe comment
  lineEnd

/-- Blanks, comments and line ends between the items of an array. -/
def gap : Lexer Unit := do
  let _ ← many ((do let _ ← run1 isBlank) <|> newline <|> comment)

end Lexer

end TokenIntake.Toml
