import TokenIntake.Text.Hidden

/-!
# Quoted text

A text or a character between quotes, in one line and with nothing hidden: six characters
have a short escape, of the quotes only those around it, and a hidden character is written
by its number.
-/

namespace TokenIntake.Quoted

/-- A character by its number, in lower-case hexadecimal without leading zeros. -/
def byNumber (c : Char) : List Char :=
  "\\u\x7b".toList ++ Nat.toDigits 16 c.toNat ++ ['\x7d']

def writeChar (quote c : Char) : List Char :=
  if c = '\x00' then ['\\', '0']
  else if c = '\t' then ['\\', 't']
  else if c = '\n' then ['\\', 'n']
  else if c = '\r' then ['\\', 'r']
  else if c = '\\' ∨ c = quote then ['\\', c]
  else if isHidden c then byNumber c
  else [c]

def write (text : String) : String :=
  String.ofList ('"' :: (text.toList.flatMap (writeChar '"') ++ ['"']))

def ofChar (c : Char) : String :=
  String.ofList ('\x27' :: (writeChar '\x27' c ++ ['\x27']))

end TokenIntake.Quoted
