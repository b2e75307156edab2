import TokenIntake.Json.Reader

/-!
# The grammar of JSON text

What a JSON text is, said without the reader: which byte lists spell a string, a number
and a value, and which value a text denotes. A text spells a tree whose members stand as
they are written, equal names included; the value that it denotes has the members in
order and only the last of equal names.
-/

namespace TokenIntake.Json

/-- Any number of spaces, tabs, line feeds and carriage returns. -/
def Blanks (text : List UInt8) : Prop :=
  ∀ byte ∈ text, byte = 0x20 ∨ byte = 0x09 ∨ byte = 0x0A ∨ byte = 0x0D

@[simp] theorem Blanks.nil : Blanks [] := by simp [Blanks]

theorem Blanks.append {first second : List UInt8} (h : Blanks first) (h' : Blanks second) :
    Blanks (first ++ second) := by
  intro byte member
  rcases List.mem_append.mp member with member | member
  · exact h byte member
  · exact h' byte member

/-! ## Strings -/

/-- A hexadecimal digit of either case and its value. -/
def HexDigit (byte : UInt8) (value : Nat) : Prop :=
  value < 16 ∧ (byte.toNat = (Nat.digitChar value).toNat ∨
    byte.toNat = (Nat.digitChar value).toUpper.toNat)

instance (byte : UInt8) (value : Nat) : Decidable (HexDigit byte value) :=
  inferInstanceAs (Decidable (_ ∧ _))

/-- Four hexadecimal digits, the highest first, and their value. -/
inductive HexUnit : Nat → List UInt8 → Prop
  | mk {a b c d : UInt8} {w x y z : Nat} (first : HexDigit a w) (second : HexDigit b x)
      (third : HexDigit c y) (fourth : HexDigit d z) :
      HexUnit (16 * (16 * (16 * w + x) + y) + z) [a, b, c, d]

/-- The letters of the short escapes and what they stand for. -/
def shortEscapes : List (UInt8 × Char) :=
  [(0x22, '"'), (0x5C, '\\'), (0x2F, '/'), (0x62, '\x08'), (0x66, '\x0c'), (0x6E, '\n'),
    (0x72, '\r'), (0x74, '\t')]

/-- The escapes of a character: a short one, its number, or the two halves of its
surrogate pair. No character has the number of a surrogate. -/
inductive Escape : Char → List UInt8 → Prop
  | short {letter : UInt8} {c : Char} (known : (letter, c) ∈ shortEscapes) : Escape c [0x5C, letter]
  | unit {c : Char} {digits : List UInt8} (number : HexUnit c.toNat digits) :
      Escape c (0x5C :: 0x75 :: digits)
  | pair {c : Char} {high low : Nat} {digits digits' : List UInt8} (first : HexUnit high digits)
      (second : HexUnit low digits') (highHalf : 0xD800 ≤ high ∧ high < 0xDC00)
      (lowHalf : 0xDC00 ≤ low ∧ low < 0xE000)
      (number : c.toNat = 0x10000 + (high - 0xD800) * 0x400 + (low - 0xDC00)) :
      Escape c (0x5C :: 0x75 :: digits ++ 0x5C :: 0x75 :: digits')

/-- A character inside a string: itself in UTF-8, unless it is a quote, a backslash or a
control character, or one of its escapes. -/
inductive CharSpelling : Char → List UInt8 → Prop
  | plain {c : Char} (noControl : 0x20 ≤ c.toNat) (noQuote : c ≠ '"') (noBackslash : c ≠ '\\') :
      CharSpelling c (String.utf8EncodeChar c)
  | escaped {c : Char} {text : List UInt8} (escape : Escape c text) : CharSpelling c text

/-- Characters one behind the other. -/
inductive TextSpelling : List Char → List UInt8 → Prop
  | nil : TextSpelling [] []
  | cons {c : Char} {cs : List Char} {text more : List UInt8} (head : CharSpelling c text)
      (tail : TextSpelling cs more) : TextSpelling (c :: cs) (text ++ more)

/-- A string between its quotes. -/
inductive StringSpelling : String → List UInt8 → Prop
  | mk {content : String} {text : List UInt8} (inside : TextSpelling content.toList text) :
      StringSpelling content (0x22 :: text ++ [0x22])

/-! ## Numbers -/

/-- Decimal digits. -/
def Digits (text : List UInt8) : Prop := ∀ byte ∈ text, 0x30 ≤ byte.toNat ∧ byte.toNat ≤ 0x39

theorem Digits.nil : Digits [] := by simp [Digits]

theorem Digits.tail {byte : UInt8} {text : List UInt8} (h : Digits (byte :: text)) : Digits text :=
  fun b member => h b (by simp [member])

/-- The natural number that decimal digits stand for. -/
def natural (digits : List UInt8) : Nat :=
  digits.foldl (fun value digit => value * 10 + (digit.toNat - 0x30)) 0

/-- The values of decimal digits, one by one. -/
def digitValues (digits : List UInt8) : List Nat := digits.map (·.toNat - 0x30)

/-- The exponent of a number: its letter in either case, a sign or none, and digits. -/
structure ExponentLiteral where
  letter : UInt8
  sign : List UInt8
  digits : List UInt8
  isLetter : letter = 0x65 ∨ letter = 0x45
  isSign : sign = [] ∨ sign = [0x2B] ∨ sign = [0x2D]
  isDigits : Digits digits
  someDigit : digits ≠ []

/-- The parts of a number. The whole part has no zero in front unless it is zero, and a
number without a point has no digits behind it. -/
structure NumberLiteral where
  negative : Bool
  whole : List UInt8
  fraction : List UInt8
  exponent : Option ExponentLiteral
  wholeDigits : Digits whole
  someDigit : whole ≠ []
  noLeadingZero : whole = [0x30] ∨ whole.head? ≠ some 0x30
  fractionDigits : Digits fraction

namespace ExponentLiteral

/-- The exponent as it is written. -/
def text (e : ExponentLiteral) : List UInt8 := e.letter :: (e.sign ++ e.digits)

/-- The exponent has a minus sign. -/
def negative (e : ExponentLiteral) : Bool := e.sign == [0x2D]

/-- The exponent as a number. -/
def value (e : ExponentLiteral) : Int :=
  if e.negative then -(natural e.digits : Int) else natural e.digits

/-- The double of a significand under an exponent. An exponent past 31 bits is not looked at:
the number is too large, unless its significand is zero or the exponent is negative. -/
def scale? (e : ExponentLiteral) (parts : Nat × Int) : Option Binary64 :=
  if natural e.digits < Word.shortSignedLimit then Binary64.ofDecimal? parts.1 (parts.2 + e.value)
  else if parts.1 = 0 ∨ e.negative = true then some (Binary64.zero false)
  else none

end ExponentLiteral

namespace NumberLiteral

/-- The point and the digits behind it, if there are any. -/
def fractionText (literal : NumberLiteral) : List UInt8 :=
  if literal.fraction = [] then [] else 0x2E :: literal.fraction

/-- The exponent, if there is one. -/
def exponentText (literal : NumberLiteral) : List UInt8 :=
  match literal.exponent with
  | none => []
  | some e => e.text

/-- The number without its sign. -/
def magnitude (literal : NumberLiteral) : List UInt8 :=
  literal.whole ++ literal.fractionText ++ literal.exponentText

/-- The number as it is written. -/
def text (literal : NumberLiteral) : List UInt8 :=
  if literal.negative then 0x2D :: literal.magnitude else literal.magnitude

/-- The number is written without a point and without an exponent. -/
def IsWhole (literal : NumberLiteral) : Prop := literal.fraction = [] ∧ literal.exponent = none

instance (literal : NumberLiteral) : Decidable literal.IsWhole :=
  inferInstanceAs (Decidable (_ ∧ _))

/-- The whole number of a literal, if it fits a word of 64 bits: with a sign if it is
negative, without one otherwise. A negative zero is not a whole number. -/
def integer? (literal : NumberLiteral) : Option Int :=
  let n := natural literal.whole
  if literal.IsWhole then
    if literal.negative then if 0 < n ∧ n ≤ 0x8000000000000000 then some (-(n : Int)) else none
    else if n < 0x10000000000000000 then some n else none
  else none

/-- The conversion of a literal to a double, as far as its magnitude goes. It may fail
because the number is too large. -/
def magnitude? (literal : NumberLiteral) : Option Binary64 :=
  let parts := Scan.significand (digitValues literal.whole) (digitValues literal.fraction)
  match literal.exponent with
  | none => Binary64.ofDecimal? parts.1 parts.2
  | some e => e.scale? parts

/-- The number that a literal stands for: whole if it fits, else a double if there is one. -/
def value? (literal : NumberLiteral) : Option JsonNumber :=
  match literal.integer? with
  | some n => some (.integer n)
  | none => literal.magnitude?.map fun x => .double (x.withSign literal.negative)

/-- The conversion to a double reports the literal as out of range. -/
def OutOfRange (literal : NumberLiteral) : Prop := literal.value? = none

end NumberLiteral

/-! ## Values -/

/-- Entries with a comma in front of each, and blanks around them. -/
inductive MoreEntries {α : Type} (Entry : α → List UInt8 → Prop) : List α → List UInt8 → Prop
  | nil : MoreEntries Entry [] []
  | cons {entry : α} {rest : List α} {before core after more : List UInt8} (front : Blanks before)
      (head : Entry entry core) (back : Blanks after) (tail : MoreEntries Entry rest more) :
      MoreEntries Entry (entry :: rest) (0x2C :: (before ++ core ++ after ++ more))

/-- Entries with commas between them and blanks around them, or only blanks. -/
inductive Entries {α : Type} (Entry : α → List UInt8 → Prop) : List α → List UInt8 → Prop
  | none {text : List UInt8} (blanks : Blanks text) : Entries Entry [] text
  | some {entry : α} {rest : List α} {before core after more : List UInt8} (front : Blanks before)
      (head : Entry entry core) (back : Blanks after) (tail : MoreEntries Entry rest more) :
      Entries Entry (entry :: rest) (before ++ core ++ after ++ more)

mutual

/-- The spellings of a tree. -/
inductive Value : Json → List UInt8 → Prop
  | null : Value .null [0x6E, 0x75, 0x6C, 0x6C]
  | true : Value (.bool true) [0x74, 0x72, 0x75, 0x65]
  | false : Value (.bool false) [0x66, 0x61, 0x6C, 0x73, 0x65]
  | number {literal : NumberLiteral} {n : JsonNumber} (inRange : literal.value? = some n) :
      Value (.number n) literal.text
  | string {content : String} {text : List UInt8} (spelled : StringSpelling content text) :
      Value (.string content) text
  | array {items : List Json} {text : List UInt8} (inside : Entries Value items text) :
      Value (.array items) (0x5B :: (text ++ [0x5D]))
  | object {members : List (String × Json)} {text : List UInt8}
      (inside : Entries Member members text) : Value (.object members) (0x7B :: (text ++ [0x7D]))

/-- The spellings of a member: its name, a colon and its value. -/
inductive Member : String × Json → List UInt8 → Prop
  | mk {name : String} {tree : Json} {text after before core : List UInt8}
      (key : StringSpelling name text) (back : Blanks after) (front : Blanks before)
      (value : Value tree core) : Member (name, tree) (text ++ after ++ 0x3A :: (before ++ core))

end

mutual

/-- The number of brackets around the innermost part of a tree. -/
def nesting : Json → Nat
  | .array items => nestingItems items + 1
  | .object members => nestingMembers members + 1
  | _ => 0

/-- The deepest nesting of some trees. -/
def nestingItems : List Json → Nat
  | [] => 0
  | item :: rest => max item.nesting (nestingItems rest)

/-- The deepest nesting of the values of some members. -/
def nestingMembers : List (String × Json) → Nat
  | [] => 0
  | (_, value) :: rest => max value.nesting (nestingMembers rest)

end

mutual

/-- The value that a tree stands for: members in order, and of equal names the last. -/
def normal : Json → Json
  | .array items => .array (normalItems items)
  | .object members => .object (sortMembers (normalMembers members))
  | tree => tree

/-- The values of some trees. -/
def normalItems : List Json → List Json
  | [] => []
  | item :: rest => item.normal :: normalItems rest

/-- Members with their values in normal form, in the order in which they are written. -/
def normalMembers : List (String × Json) → List (String × Json)
  | [] => []
  | (name, value) :: rest => (name, value.normal) :: normalMembers rest

end

/-- A whole text: one tree whose brackets nest at most 127 deep, and blanks around it. -/
inductive Document : Json → List UInt8 → Prop
  | mk {tree : Json} {before core after : List UInt8} (front : Blanks before)
      (spelled : Value tree core) (back : Blanks after) (shallow : tree.nesting ≤ 127) :
      Document tree (before ++ core ++ after)

/-- The text denotes the value. -/
def Denotes (text : List UInt8) (value : Json) : Prop :=
  ∃ tree, Document tree text ∧ tree.normal = value

/-! ## The recursions as folds over lists -/

theorem nestingItems_le_iff {items : List Json} {depth : Nat} :
    nestingItems items ≤ depth ↔ ∀ item ∈ items, item.nesting ≤ depth := by
  induction items with
  | nil => simp [nestingItems]
  | cons item rest ih => rw [nestingItems, Nat.max_le, ih, List.forall_mem_cons]

theorem nestingMembers_le_iff {members : List (String × Json)} {depth : Nat} :
    nestingMembers members ≤ depth ↔ ∀ member ∈ members, member.2.nesting ≤ depth := by
  induction members with
  | nil => simp [nestingMembers]
  | cons member rest ih => rw [nestingMembers, Nat.max_le, ih, List.forall_mem_cons]

theorem normalItems_eq_map (items : List Json) : normalItems items = items.map normal := by
  induction items with
  | nil => rfl
  | cons item rest ih => rw [normalItems, ih, List.map_cons]

theorem normalMembers_eq_map (members : List (String × Json)) :
    normalMembers members = members.map fun member => (member.1, member.2.normal) := by
  induction members with
  | nil => rfl
  | cons member rest ih => rw [normalMembers, ih, List.map_cons]

end TokenIntake.Json
