/-!
# Text without control sequences

What remains of a text that is written where no terminal interprets it. Control
sequences are left out from the escape that begins them to their end, and so is every
control character but the blank ones. A sequence that is not over when the text ends
takes the rest of it along.
-/

namespace TokenIntake.Terminal

/-- Where a reader of the text stands: in plain text or within a sequence. Behind an
escape come a command with or without characters in the middle, a control with its
parameters up to a letter, a device string with a header, or a string of another kind. -/
inductive Position where
  | text
  | escape
  | escapeMiddle
  | control
  | device
  | deviceParameters
  | deviceMiddle
  | string
  | command
  deriving DecidableEq, Repr

/-- A control character that moves on like a blank: tab, line feed, form feed, return. -/
def isBlankControl (c : Char) : Bool :=
  c == '\t' || c == '\n' || c == '\x0c' || c == '\r'

def isPlain (c : Char) : Bool :=
  (0x20 ≤ c.toNat && c.toNat ≠ 0x7F) || isBlankControl c

/-- A string ends where the byte `9C` comes, also within the bytes of a character. -/
def endsString (c : Char) : Bool :=
  (String.utf8EncodeChar c).contains 0x9C

namespace Position

/-- The character is seen from here. Blank controls are obeyed within a sequence too, as
long as it is not a string. -/
def shows (c : Char) : Position → Bool
  | text => isPlain c
  | escape => isBlankControl c
  | escapeMiddle => isBlankControl c
  | control => isBlankControl c
  | _ => false

/-- The position behind a character that begins no sequence and cancels none. -/
def advance (c : Char) (position : Position) : Position :=
  let among (low high : Char) : Bool := low ≤ c && c ≤ high
  match position with
  | text => text
  | escape =>
    if among ' ' '/' then escapeMiddle
    else if c = '[' then control
    else if c = ']' then command
    else if c = 'P' then device
    else if c = 'X' ∨ c = '^' ∨ c = '_' then string
    else if among '0' '~' then text
    else escape
  | escapeMiddle => if among '0' '~' then text else escapeMiddle
  | control => if among '@' '~' then text else control
  | device =>
    if among ' ' '/' then deviceMiddle
    else if among '0' '?' then deviceParameters
    else if among '@' '~' then string
    else device
  | deviceParameters =>
    if among ' ' '/' then deviceMiddle
    else if among '<' '~' then string
    else deviceParameters
  | deviceMiddle => if among '0' '~' then string else deviceMiddle
  | string => if endsString c then text else string
  | command => if c = '\x07' then text else command

/-- The position behind a character. An escape begins anew, and two controls cancel
whatever is under way. -/
def next (c : Char) (position : Position) : Position :=
  if c = '\x1b' then escape
  else if c = '\x18' ∨ c = '\x1a' then text
  else position.advance c

end Position

/-- The characters that are seen. A blank control within a sequence interrupts it: plain
text is seen again up to the next control, where the sequence goes on unless a character
outside ASCII came in between. -/
def strip (position : Position) (running : Bool) : List Char → List Char
  | [] => []
  | c :: rest =>
    if running && isPlain c then
      c :: strip (if c.toNat < 0x80 then position else .text) true rest
    else if position.shows c then c :: strip (position.next c) true rest
    else strip (position.next c) false rest

def plain (text : String) : String :=
  String.ofList (strip .text true text.toList)

end TokenIntake.Terminal
