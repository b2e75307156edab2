import TokenIntake.Json.Printer
import TokenIntake.Proofs.Grammar
import TokenIntake.Proofs.Objects
import TokenIntake.Proofs.Utf8

/-!
# What the writer writes

The compact text of a tree whose numbers are whole is one of its spellings, and so is the
indented one. Escapes are written only where a character cannot stand for itself, and whole
numbers have no leading zeros.
-/

namespace TokenIntake

namespace Json

/-! ## Whole numbers -/

private theorem natural_append_digit {text : List UInt8} {byte : UInt8} :
    natural (text ++ [byte]) = natural text * 10 + (byte.toNat - 0x30) := by
  simp [natural]

/-- The digits of a number as they are written. -/
structure IsNumeral (n : Nat) (text : List UInt8) : Prop where
  digits : Digits text
  someDigit : text ≠ []
  noLeadingZero : text = [0x30] ∨ text.head? ≠ some 0x30
  value : natural text = n

private theorem encode_digitChar {d : Nat} (h : d < 10) :
    Utf8.encode [Nat.digitChar d] = [UInt8.ofNat (0x30 + d)] := by
  have value : (Nat.digitChar d).toNat = 48 + d := Nat.toNat_digitChar_of_lt_ten h
  rw [Utf8.encode_cons, Utf8.encodeChar_of_lt (by omega), value]
  rfl

private theorem isNumeral_digit {d : Nat} (h : d < 10) :
    IsNumeral d (Utf8.encode [Nat.digitChar d]) := by
  have byte : (UInt8.ofNat (0x30 + d)).toNat = 0x30 + d := by
    rw [UInt8.toNat_ofNat']
    omega
  rw [encode_digitChar h]
  refine ⟨?_, by simp, ?_, ?_⟩
  · rintro _ (_ | ⟨_, ⟨⟩⟩)
    omega
  · by_cases zero : d = 0
    · exact .inl (by rw [zero]; rfl)
    · refine .inr fun same => zero ?_
      have same := congrArg UInt8.toNat (Option.some.inj same)
      rw [byte] at same
      exact Nat.add_left_cancel same
  · simp only [natural, List.foldl_cons, List.foldl_nil, byte]
    omega

private theorem isNumeral_ofNat (n : Nat) : IsNumeral n (Utf8.encode (Numeral.ofNat n)) := by
  induction n using Nat.strongRecOn with
  | ind n ih =>
    unfold Numeral.ofNat
    -- The last digit is split off, and the digits in front are those of a tenth.
    by_cases small : n < 10
    · rw [Nat.toDigits_of_lt_base small]
      exact isNumeral_digit small
    · have front := ih (n / 10) (by omega)
      have last := isNumeral_digit (Nat.mod_lt n (by decide : 0 < 10))
      rw [encode_digitChar (Nat.mod_lt n (by decide))] at last
      rw [Nat.toDigits_of_base_le (by decide) (Nat.not_lt.mp small), Utf8.encode_append,
        encode_digitChar (Nat.mod_lt n (by decide))]
      refine ⟨?_, by simp, ?_, ?_⟩
      · intro byte member
        exact (List.mem_append.mp member).elim (front.digits byte) (last.digits byte)
      · obtain ⟨first, more, cons⟩ := List.exists_cons_of_ne_nil front.someDigit
        -- Only the number zero is written with a zero in front.
        obtain zero | noZero := front.noLeadingZero
        · have value := front.value
          change Utf8.encode (Nat.toDigits 10 (n / 10)) = _ at zero
          unfold Numeral.ofNat at value
          rw [zero] at value
          have nothing : 0 = n / 10 := value
          omega
        · unfold Numeral.ofNat at cons noZero
          rw [cons] at noZero ⊢
          exact .inr noZero
      · have digit : natural [UInt8.ofNat (0x30 + n % 10)] = n % 10 := last.value
        have whole : natural (Utf8.encode (Nat.toDigits 10 (n / 10))) = n / 10 := front.value
        rw [natural_append_digit, whole]
        simp only [natural, List.foldl_cons, List.foldl_nil] at digit
        omega

/-! ## Documents with whole numbers -/

mutual

/-- The numbers of a tree are whole, and each fits 64 bits with a sign or without one. -/
def Whole : Json → Prop
  | .number (.integer n) => Word.fitsSigned n = true ∨ Word.fitsUnsigned n = true
  | .number (.double _) => False
  | .array items => WholeItems items
  | .object members => WholeMembers members
  | _ => True

/-- The numbers of some trees are whole. -/
def WholeItems : List Json → Prop
  | [] => True
  | item :: rest => item.Whole ∧ WholeItems rest

/-- The numbers in the values of some members are whole. -/
def WholeMembers : List (String × Json) → Prop
  | [] => True
  | (_, value) :: rest => value.Whole ∧ WholeMembers rest

end

theorem wholeItems_iff {items : List Json} :
    WholeItems items ↔ ∀ item ∈ items, item.Whole := by
  induction items with
  | nil => simp [WholeItems]
  | cons item rest ih => simp [WholeItems, ih]

/-- Digits and perhaps a sign as a literal. -/
def IsNumeral.literal {n : Nat} {text : List UInt8} (h : IsNumeral n text) (negative : Bool) :
    NumberLiteral :=
  ⟨negative, text, [], none, h.digits, h.someDigit, h.noLeadingZero, .nil⟩

theorem IsNumeral.literal_text {n : Nat} {text : List UInt8} (h : IsNumeral n text)
    (negative : Bool) : (h.literal negative).text = if negative then 0x2D :: text else text := by
  simp [literal, NumberLiteral.text, NumberLiteral.magnitude, NumberLiteral.fractionText,
    NumberLiteral.exponentText]

/-- The plain decimal of a whole number as a literal. -/
def plain (n : Int) : NumberLiteral := (isNumeral_ofNat n.natAbs).literal (n < 0)

theorem plain_text (n : Int) : (plain n).text = Utf8.encode (Numeral.ofInt n) := by
  rw [plain, IsNumeral.literal_text]
  cases n with
  | ofNat n => simp [Numeral.ofInt]
  | negSucc n =>
    rw [if_pos (decide_eq_true (Int.negSucc_lt_zero n))]
    rfl

/-- A plain decimal is read as a whole number if a word has room for it. -/
theorem plain_integer? (n : Int) : (plain n).integer? =
    if Word.fitsSigned n = true ∨ Word.fitsUnsigned n = true then some n else none := by
  simp only [plain, IsNumeral.literal, NumberLiteral.integer?, NumberLiteral.IsWhole, and_self,
    if_true, (isNumeral_ofNat n.natAbs).value, Word.fitsSigned_iff, Word.fitsUnsigned_iff,
    decide_eq_true_eq]
  split
  next negative =>
    have value : -(n.natAbs : Int) = n := by omega
    rw [value]
    exact ite_congr (propext (by omega)) (fun _ => rfl) fun _ => rfl
  next positive =>
    have value : (n.natAbs : Int) = n := by omega
    rw [value]
    exact ite_congr (propext (by omega)) (fun _ => rfl) fun _ => rfl

theorem value_writeNumber {n : Int}
    (fits : Word.fitsSigned n = true ∨ Word.fitsUnsigned n = true) :
    Value (.number (.integer n)) (Utf8.encode (writeNumber (.integer n))) := by
  have value : (plain n).value? = some (.integer n) := by
    rw [NumberLiteral.value?, plain_integer?, if_pos fits]
  have spelled := Value.number value
  rwa [plain_text] at spelled

/-! ## Strings -/

private theorem hexDigit_digitChar : ∀ value < 16, (Nat.digitChar value).toNat < 0x80 ∧
    HexDigit (UInt8.ofNat (Nat.digitChar value).toNat) value := by
  decide

/-- A control character without a short escape is written by its number. -/
private theorem escape_control {c : Char} (control : c.toNat < 0x20) :
    Escape c (Utf8.encode ['\\', 'u', '0', '0', Nat.digitChar (c.toNat / 16),
      Nat.digitChar (c.toNat % 16)]) := by
  obtain ⟨ascii, high⟩ := hexDigit_digitChar (c.toNat / 16) (by omega)
  obtain ⟨ascii', low⟩ := hexDigit_digitChar (c.toNat % 16) (by omega)
  have zero : HexDigit 0x30 0 := (hexDigit_digitChar 0 (by decide)).2
  have number : HexUnit (16 * (16 * (16 * 0 + 0) + c.toNat / 16) + c.toNat % 16) _ :=
    .mk zero zero high low
  have total : 16 * (16 * (16 * 0 + 0) + c.toNat / 16) + c.toNat % 16 = c.toNat := by omega
  rw [total] at number
  have text : Utf8.encode ['\\', 'u', '0', '0', Nat.digitChar (c.toNat / 16),
      Nat.digitChar (c.toNat % 16)] =
      0x5C :: 0x75 :: 0x30 :: 0x30 :: (String.utf8EncodeChar (Nat.digitChar (c.toNat / 16)) ++
        String.utf8EncodeChar (Nat.digitChar (c.toNat % 16))) := by
    simp only [Utf8.encode, List.flatMap_cons, List.flatMap_nil, List.append_nil]
    rfl
  rw [text, Utf8.encodeChar_of_lt ascii, Utf8.encodeChar_of_lt ascii']
  exact .unit number

private theorem charSpelling_writeChar (c : Char) : CharSpelling c (Utf8.encode (writeChar c)) := by
  have short {d : Char} {letter : UInt8} (same : c.toNat = d.toNat)
      (known : (letter, d) ∈ shortEscapes) : CharSpelling c [0x5C, letter] := by
    obtain rfl : c = d := Char.ext (UInt32.toNat_inj.mp same)
    exact .escaped (.short known)
  unfold writeChar escape?
  -- Seven characters have an escape of their own.
  split
  next h => exact short (d := '"') h (by decide)
  next h => exact short (d := '\\') h (by decide)
  next h => exact short (d := '\x08') h (by decide)
  next h => exact short (d := '\t') h (by decide)
  next h => exact short (d := '\n') h (by decide)
  next h => exact short (d := '\x0c') h (by decide)
  next h => exact short (d := '\r') h (by decide)
  next noQuote noBackslash _ _ _ _ _ =>
    split
    next control => exact .escaped (escape_control control)
    next noControl =>
      have plain : Utf8.encode [c] = String.utf8EncodeChar c := by
        simp [Utf8.encode]
      rw [Option.getD_none, plain]
      refine .plain (Nat.not_lt.mp noControl) ?_ ?_
      · rintro rfl
        exact noQuote rfl
      · rintro rfl
        exact noBackslash rfl

theorem textSpelling_write (text : List Char) :
    TextSpelling text (Utf8.encode (text.flatMap writeChar)) := by
  induction text with
  | nil => exact .nil
  | cons c text ih =>
    rw [List.flatMap_cons, Utf8.encode_append]
    exact .cons (charSpelling_writeChar c) ih

theorem stringSpelling_writeString (text : String) :
    StringSpelling text (Utf8.encode (writeString text)) := by
  have written : Utf8.encode (writeString text) =
      0x22 :: Utf8.encode (text.toList.flatMap writeChar) ++ [0x22] := by
    unfold writeString
    rw [Utf8.encode_cons, Utf8.encode_append]
    rfl
  rw [written]
  exact .mk (textSpelling_write text.toList)

/-! ## Trees -/

private theorem encode_comma (text : List Char) :
    Utf8.encode (',' :: text) = 0x2C :: Utf8.encode text :=
  rfl

private theorem encode_colon (text : List Char) :
    Utf8.encode (':' :: text) = 0x3A :: Utf8.encode text :=
  rfl

private theorem member_write (name : String) {value : Json}
    (spelled : Value value (Utf8.encode (write value))) : Member (name, value)
      (Utf8.encode (writeString name) ++ 0x3A :: Utf8.encode (write value)) := by
  have member := Member.mk (stringSpelling_writeString name) .nil .nil spelled
  simpa using member

mutual

/-- What is written spells what it was written from. -/
theorem value_write : (tree : Json) → tree.Whole → Value tree (Utf8.encode (write tree))
  | .null, _ => .null
  | .bool true, _ => .true
  | .bool false, _ => .false
  | .number (.integer n), fits => value_writeNumber fits
  | .string text, _ => .string (stringSpelling_writeString text)
  | .array items, whole => by
    have written : Utf8.encode (write (.array items)) =
        0x5B :: (Utf8.encode (writeItems items) ++ [0x5D]) := by
      rw [write, Utf8.encode_cons, Utf8.encode_append]
      rfl
    rw [written]
    exact .array (entries_writeItems items whole)
  | .object members, whole => by
    have written : Utf8.encode (write (.object members)) =
        0x7B :: (Utf8.encode (writeMembers members) ++ [0x7D]) := by
      rw [write, Utf8.encode_cons, Utf8.encode_append]
      rfl
    rw [written]
    exact .object (entries_writeMembers members whole)

theorem entries_writeItems : (items : List Json) → WholeItems items →
    Entries Value items (Utf8.encode (writeItems items))
  | [], _ => .none .nil
  | item :: rest, ⟨whole, wholeRest⟩ => by
    have spelled := Entries.some .nil (value_write item whole) .nil
      (moreEntries_writeItemsAfter rest wholeRest)
    rw [writeItems, Utf8.encode_append]
    simpa using spelled

theorem moreEntries_writeItemsAfter : (items : List Json) → WholeItems items →
    MoreEntries Value items (Utf8.encode (writeItemsAfter items))
  | [], _ => .nil
  | item :: rest, ⟨whole, wholeRest⟩ => by
    have spelled := MoreEntries.cons .nil (value_write item whole) .nil
      (moreEntries_writeItemsAfter rest wholeRest)
    rw [writeItemsAfter, encode_comma, Utf8.encode_append]
    simpa using spelled

theorem entries_writeMembers : (members : List (String × Json)) → WholeMembers members →
    Entries Member members (Utf8.encode (writeMembers members))
  | [], _ => .none .nil
  | (name, value) :: rest, ⟨whole, wholeRest⟩ => by
    have spelled := Entries.some .nil (member_write name (value_write value whole)) .nil
      (moreEntries_writeMembersAfter rest wholeRest)
    rw [writeMembers, Utf8.encode_append, encode_colon, Utf8.encode_append]
    simpa using spelled

theorem moreEntries_writeMembersAfter : (members : List (String × Json)) → WholeMembers members →
    MoreEntries Member members (Utf8.encode (writeMembersAfter members))
  | [], _ => .nil
  | (name, value) :: rest, ⟨whole, wholeRest⟩ => by
    have spelled := MoreEntries.cons .nil (member_write name (value_write value whole)) .nil
      (moreEntries_writeMembersAfter rest wholeRest)
    rw [writeMembersAfter, encode_comma, Utf8.encode_append, encode_colon, Utf8.encode_append]
    simpa using spelled

end

/-- A tree with whole numbers, nested at most 127 deep, is written as a document. -/
theorem document_compact {tree : Json} (whole : tree.Whole) (shallow : tree.nesting ≤ 127) :
    Document tree (Utf8.ofString tree.compact) := by
  have spelled := Document.mk .nil (value_write tree whole) .nil shallow
  rw [compact, Utf8.ofString, String.toList_ofList]
  simpa using spelled

/-! ## Indented trees -/

private theorem blanks_newLine (level : Nat) : Blanks (Utf8.encode (newLine level)) := by
  have spaces : Utf8.encode (List.replicate (2 * level) ' ') = List.replicate (2 * level) 0x20 := by
    induction 2 * level with
    | zero => rfl
    | succ count ih => rw [List.replicate_succ, List.replicate_succ, Utf8.encode_cons, ih]; rfl
  have line : Utf8.encode (newLine level) = 0x0A :: List.replicate (2 * level) 0x20 := by
    rw [newLine, Utf8.encode_cons, spaces]
    rfl
  rw [line]
  rintro byte (_ | ⟨_, found⟩)
  · exact .inr (.inr (.inl rfl))
  · exact .inl (List.eq_of_mem_replicate found)

/-- The text goes on with more entries behind some blanks, which end the line. -/
def GoesOn {α : Type} (Entry : α → List UInt8 → Prop) (entries : List α) (text : List UInt8) :
    Prop :=
  ∃ after more, Blanks after ∧ MoreEntries Entry entries more ∧ text = after ++ more

theorem GoesOn.nil {α : Type} {Entry : α → List UInt8 → Prop} {closing : List UInt8}
    (blanks : Blanks closing) : GoesOn Entry [] closing :=
  ⟨closing, [], blanks, .nil, (List.append_nil _).symm⟩

theorem GoesOn.cons {α : Type} {Entry : α → List UInt8 → Prop} {entry : α} {entries : List α}
    {before core text : List UInt8} (front : Blanks before) (head : Entry entry core)
    (rest : GoesOn Entry entries text) :
    GoesOn Entry (entry :: entries) (0x2C :: (before ++ core ++ text)) := by
  obtain ⟨after, more, blanks, spelled, rfl⟩ := rest
  refine ⟨[], _, .nil, .cons front head blanks spelled, ?_⟩
  simp

theorem GoesOn.entries {α : Type} {Entry : α → List UInt8 → Prop} {entry : α} {entries : List α}
    {before core text : List UInt8} (front : Blanks before) (head : Entry entry core)
    (rest : GoesOn Entry entries text) :
    Entries Entry (entry :: entries) (before ++ core ++ text) := by
  obtain ⟨after, more, blanks, spelled, rfl⟩ := rest
  simpa using Entries.some front head blanks spelled

private theorem member_writeIndented (name : String) {value : Json} {core : List UInt8}
    (spelled : Value value core) :
    Member (name, value) (Utf8.encode (writeString name) ++ 0x3A :: 0x20 :: core) := by
  have blank : Blanks [0x20] := by simp [Blanks]
  simpa using Member.mk (stringSpelling_writeString name) .nil blank spelled

mutual

/-- What is written with indents spells what it was written from. -/
theorem value_writeIndented : (level : Nat) → (tree : Json) → tree.Whole →
    Value tree (Utf8.encode (writeIndented level tree))
  | _, .null, _ => .null
  | _, .bool true, _ => .true
  | _, .bool false, _ => .false
  | _, .number (.integer n), fits => value_writeNumber fits
  | _, .string text, _ => .string (stringSpelling_writeString text)
  | _, .array [], _ => .array (.none .nil)
  | level, .array (item :: rest), ⟨whole, wholeRest⟩ => by
    have spelled := GoesOn.entries (blanks_newLine (level + 1))
      (value_writeIndented (level + 1) item whole)
      (goesOn_indentedItems (level + 1) rest wholeRest (blanks_newLine level))
    have written : Utf8.encode (writeIndented level (.array (item :: rest))) =
        0x5B :: (Utf8.encode (newLine (level + 1)) ++
          Utf8.encode (writeIndented (level + 1) item) ++
            (Utf8.encode (indentedItems (level + 1) rest) ++ Utf8.encode (newLine level)) ++
              [0x5D]) := by
      simp only [writeIndented, Utf8.encode_cons, Utf8.encode_append, List.append_assoc]
      rfl
    rw [written]
    exact .array spelled
  | _, .object [], _ => .object (.none .nil)
  | level, .object ((name, value) :: rest), ⟨whole, wholeRest⟩ => by
    have spelled := GoesOn.entries (blanks_newLine (level + 1))
      (member_writeIndented name (value_writeIndented (level + 1) value whole))
      (goesOn_indentedMembers (level + 1) rest wholeRest (blanks_newLine level))
    have written : Utf8.encode (writeIndented level (.object ((name, value) :: rest))) =
        0x7B :: (Utf8.encode (newLine (level + 1)) ++ (Utf8.encode (writeString name) ++
          0x3A :: 0x20 :: Utf8.encode (writeIndented (level + 1) value)) ++
            (Utf8.encode (indentedMembers (level + 1) rest) ++ Utf8.encode (newLine level)) ++
              [0x7D]) := by
      simp only [writeIndented, Utf8.encode_cons, Utf8.encode_append, List.append_assoc]
      rfl
    rw [written]
    exact .object spelled

theorem goesOn_indentedItems : (level : Nat) → (items : List Json) → WholeItems items →
    {closing : List UInt8} → Blanks closing →
    GoesOn Value items (Utf8.encode (indentedItems level items) ++ closing)
  | _, [], _, _, blanks => .nil blanks
  | level, item :: rest, ⟨whole, wholeRest⟩, _, blanks => by
    have spelled := GoesOn.cons (blanks_newLine level) (value_writeIndented level item whole)
      (goesOn_indentedItems level rest wholeRest blanks)
    rw [indentedItems, encode_comma, Utf8.encode_append, Utf8.encode_append]
    simpa using spelled

theorem goesOn_indentedMembers : (level : Nat) → (members : List (String × Json)) →
    WholeMembers members → {closing : List UInt8} → Blanks closing →
    GoesOn Member members (Utf8.encode (indentedMembers level members) ++ closing)
  | _, [], _, _, blanks => .nil blanks
  | level, (name, value) :: rest, ⟨whole, wholeRest⟩, _, blanks => by
    have spelled := GoesOn.cons (blanks_newLine level)
      (member_writeIndented name (value_writeIndented level value whole))
      (goesOn_indentedMembers level rest wholeRest blanks)
    have written : Utf8.encode (indentedMembers level ((name, value) :: rest)) =
        0x2C :: (Utf8.encode (newLine level) ++ (Utf8.encode (writeString name) ++
          0x3A :: 0x20 :: Utf8.encode (writeIndented level value)) ++
            Utf8.encode (indentedMembers level rest)) := by
      simp only [indentedMembers, Utf8.encode_cons, Utf8.encode_append, List.append_assoc]
      rfl
    rw [written]
    simpa using spelled

end

/-- With indents a tree is written as a document, too. -/
theorem document_pretty {tree : Json} (whole : tree.Whole) (shallow : tree.nesting ≤ 127) :
    Document tree (Utf8.ofString tree.pretty) := by
  have spelled := Document.mk .nil (value_writeIndented 0 tree whole) .nil shallow
  rw [pretty, Utf8.ofString, String.toList_ofList]
  simpa using spelled

end Json

end TokenIntake
