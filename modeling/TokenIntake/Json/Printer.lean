import TokenIntake.Json.Basic
import TokenIntake.Number.Shortest
import TokenIntake.Text.Utf8

/-!
# Written JSON

Two layouts of one tree: a compact one without any blank, and an indented one with
two spaces to the level. Members are written in the order in which they stand.
-/

namespace TokenIntake.Json

/-- The escape of a character inside a string, for the characters that have one:
the quote, the backslash and the control characters below `0x20`. -/
def escape? (c : Char) : Option (List Char) :=
  match c.toNat with
  | 0x22 => some ['\\', '"']
  | 0x5C => some ['\\', '\\']
  | 0x08 => some ['\\', 'b']
  | 0x09 => some ['\\', 't']
  | 0x0A => some ['\\', 'n']
  | 0x0C => some ['\\', 'f']
  | 0x0D => some ['\\', 'r']
  | n =>
    if n < 0x20 then some ['\\', 'u', '0', '0', Nat.digitChar (n / 16), Nat.digitChar (n % 16)]
    else none

def writeChar (c : Char) : List Char :=
  (escape? c).getD [c]

def writeString (text : String) : List Char :=
  '"' :: (text.toList.flatMap writeChar ++ ['"'])

def writeNumber : JsonNumber → List Char
  | .integer value => Numeral.ofInt value
  | .double value => value.compact

def writeBool : Bool → List Char
  | true => "true".toList
  | false => "false".toList

mutual

def write : Json → List Char
  | .null => "null".toList
  | .bool value => writeBool value
  | .number value => writeNumber value
  | .string text => writeString text
  | .array items => '[' :: (writeItems items ++ [']'])
  | .object members => '\x7b' :: (writeMembers members ++ ['\x7d'])

def writeItems : List Json → List Char
  | [] => []
  | item :: rest => write item ++ writeItemsAfter rest

/-- A comma in front of every item. -/
def writeItemsAfter : List Json → List Char
  | [] => []
  | item :: rest => ',' :: (write item ++ writeItemsAfter rest)

def writeMembers : List (String × Json) → List Char
  | [] => []
  | (name, value) :: rest => writeString name ++ ':' :: (write value ++ writeMembersAfter rest)

/-- A comma in front of every member. -/
def writeMembersAfter : List (String × Json) → List Char
  | [] => []
  | (name, value) :: rest =>
    ',' :: (writeString name ++ ':' :: (write value ++ writeMembersAfter rest))

end

/-- The start of a line at a level of nesting. -/
def newLine (level : Nat) : List Char :=
  '\n' :: List.replicate (2 * level) ' '

mutual

/-- The document with every item and member on a line of its own. -/
def writeIndented (level : Nat) : Json → List Char
  | .null => "null".toList
  | .bool value => writeBool value
  | .number value => writeNumber value
  | .string text => writeString text
  | .array [] => ['[', ']']
  | .array (item :: rest) =>
    '[' :: (newLine (level + 1) ++ writeIndented (level + 1) item ++
      indentedItems (level + 1) rest ++ newLine level ++ [']'])
  | .object [] => ['\x7b', '\x7d']
  | .object ((name, value) :: rest) =>
    '\x7b' :: (newLine (level + 1) ++ writeString name ++ ':' :: ' ' ::
      writeIndented (level + 1) value ++ indentedMembers (level + 1) rest ++ newLine level ++
      ['\x7d'])

/-- A comma and a new line in front of every item. -/
def indentedItems (level : Nat) : List Json → List Char
  | [] => []
  | item :: rest =>
    ',' :: (newLine level ++ writeIndented level item ++ indentedItems level rest)

/-- A comma and a new line in front of every member. -/
def indentedMembers (level : Nat) : List (String × Json) → List Char
  | [] => []
  | (name, value) :: rest =>
    ',' :: (newLine level ++ writeString name ++ ':' :: ' ' :: writeIndented level value ++
      indentedMembers level rest)

end

def compact (document : Json) : String :=
  String.ofList (write document)

def pretty (document : Json) : String :=
  String.ofList (writeIndented 0 document)

/-- The size of the compact text, in bytes. -/
def compactSize (document : Json) : Nat :=
  document.compact.utf8ByteSize

end TokenIntake.Json
