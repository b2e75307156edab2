import Mathlib.Data.List.TakeWhile
import TokenIntake.Proofs.Numbers
import TokenIntake.Proofs.Written
import TokenIntake.Text.Blank

/-!
# Plain decimals

What the two readers of numbers make of a whole number in plain decimal. The reader of
numerals stops at the first digit that goes past its limit, and since the value only grows
it refuses exactly the numbers past the limit. The reader of documents falls back to doubles,
none of which is taken for a whole number.
-/

namespace TokenIntake

namespace Numeral

/-! ## Digits -/

theorem toNat_of_isDigit {c : Char} (digit : c.isDigit = true) :
    0x30 ≤ c.toNat ∧ c.toNat ≤ 0x39 := by
  simpa [Char.isDigit, UInt32.le_iff_toNat_le] using digit

private theorem digit?_of_isDigit {c : Char} (digit : c.isDigit = true) :
    digit? c = some (c.toNat - 0x30) := by
  rw [digit?, if_pos (toNat_of_isDigit digit)]

private theorem le_ofDigitChars (text : List Char) (value : Nat) :
    value ≤ Nat.ofDigitChars 10 text value := by
  rw [Nat.ofDigitChars_eq_ofDigitChars_zero]
  exact Nat.le_add_right_of_le (Nat.le_mul_of_pos_left value (Nat.pow_pos (by decide)))

/-- Digits are read as the number they stand for, unless it is past the limit. -/
theorem digits_of_isDigit {limit value : Nat} {beyond : Fault} {text : List Char}
    (all : ∀ c ∈ text, c.isDigit = true) (start : value ≤ limit) :
    digits limit beyond value text =
      if Nat.ofDigitChars 10 text value ≤ limit then .ok (Nat.ofDigitChars 10 text value)
      else .error beyond := by
  induction text generalizing value with
  | nil => rw [digits, Nat.ofDigitChars_nil, if_pos start]
  | cons c text ih =>
    obtain ⟨digit, all⟩ := List.forall_mem_cons.mp all
    have next : 10 * value + (c.toNat - '0'.toNat) = value * 10 + (c.toNat - 0x30) := by
      rw [Nat.mul_comm]
      rfl
    rw [digits, digit?_of_isDigit digit, Nat.ofDigitChars_cons, next]
    dsimp only
    by_cases fits : value * 10 + (c.toNat - 0x30) ≤ limit
    · rw [if_pos fits, ih all fits]
    · -- The digits behind the first one that is too much do not make the number smaller.
      have past := le_ofDigitChars text (value * 10 + (c.toNat - 0x30))
      rw [if_neg fits, if_neg (by omega)]

theorem isDigit_of_mem_ofNat {n : Nat} {c : Char} (found : c ∈ ofNat n) : c.isDigit = true :=
  Nat.isDigit_of_mem_toDigits (by decide) (by decide) found

private theorem ascii_of_mem_ofNat {n : Nat} {c : Char} (found : c ∈ ofNat n) : c.toNat < 0x80 :=
  Nat.lt_of_le_of_lt (toNat_of_isDigit (isDigit_of_mem_ofNat found)).2 (by decide)

/-- A number below a power of ten has no more digits than that power has zeros. -/
theorem size_ofNat_le {n digits : Nat} (small : n < 10 ^ digits) (positive : 0 < digits) :
    (Utf8.encode (ofNat n)).length ≤ digits := by
  rw [Utf8.length_encode_of_lt fun c found => ascii_of_mem_ofNat found]
  exact (Nat.length_toDigits_le_iff (by decide) positive).mpr small

private theorem magnitude_ofNat (limit : Nat) (beyond : Fault) (n : Nat) :
    magnitude limit beyond (ofNat n) = if n ≤ limit then .ok n else .error beyond := by
  have present : ¬ (ofNat n).isEmpty = true := by simp [ofNat]
  have value : Nat.ofDigitChars 10 (ofNat n) 0 = n := Nat.ofDigitChars_ten_toDigits
  rw [magnitude, if_neg present,
    digits_of_isDigit (fun c found => isDigit_of_mem_ofNat found) (Nat.zero_le limit), value]

/-! ## Signs -/

/-- A plain decimal starts with a digit, which is no sign. -/
private theorem exists_cons_ofNat (n : Nat) :
    ∃ c rest, ofNat n = c :: rest ∧ c ≠ '+' ∧ c ≠ '-' := by
  obtain ⟨c, rest, text⟩ := List.exists_cons_of_ne_nil (Nat.toDigits_ne_nil (b := 10) (n := n))
  have digit : c.isDigit = true := isDigit_of_mem_ofNat (n := n) (by simp [ofNat, text])
  refine ⟨c, rest, text, ?_, ?_⟩
  · rintro rfl
    cases digit
  · rintro rfl
    cases digit

private theorem natural_ofNat (limit n : Nat) :
    natural limit (ofNat n) = if n ≤ limit then .ok n else .error .tooLarge := by
  obtain ⟨c, rest, text, noPlus, -⟩ := exists_cons_ofNat n
  rw [← magnitude_ofNat, text, natural, if_neg noPlus]

/-- A plain decimal is read as its number if 64 bits with a sign have room for it. -/
theorem signed64_ofInt (n : Int) : signed64 (ofInt n) =
    if Word.fitsSigned n = true then .ok (Int64.ofInt n)
    else .error (if n < 0 then .tooSmall else .tooLarge) := by
  cases n with
  | ofNat n =>
    have room : n ≤ Word.signedLimit - 1 ↔ Word.fitsSigned (Int.ofNat n) = true := by
      rw [Word.fitsSigned_iff, Int.ofNat_eq_natCast, Word.signedLimit]
      omega
    have positive : ¬ Int.ofNat n < 0 := Int.not_lt.mpr (Int.natCast_nonneg n)
    have read := natural_ofNat (Word.signedLimit - 1) n
    obtain ⟨c, rest, text, -, noMinus⟩ := exists_cons_ofNat n
    rw [text] at read
    rw [ofInt, text, signed64, if_neg noMinus, read, if_neg positive]
    by_cases fits : n ≤ Word.signedLimit - 1
    · rw [if_pos fits, if_pos (room.mp fits)]
      rfl
    · rw [if_neg fits, if_neg (mt room.mpr fits)]
      rfl
  | negSucc n =>
    have room : n + 1 ≤ Word.signedLimit ↔ Word.fitsSigned (Int.negSucc n) = true := by
      rw [Word.fitsSigned_iff, Word.signedLimit]
      omega
    rw [ofInt, signed64, if_pos rfl, magnitude_ofNat, if_pos (Int.negSucc_lt_zero n)]
    by_cases fits : n + 1 ≤ Word.signedLimit
    · rw [if_pos fits, if_pos (room.mp fits)]
      rfl
    · rw [if_neg fits, if_neg (mt room.mpr fits)]
      rfl

/-! ## Blanks -/

theorem isBlank_of_isDigit {c : Char} (digit : c.isDigit = true) : isBlank c = false := by
  have range := toNat_of_isDigit digit
  simp only [isBlank, Bool.or_eq_false_iff, Bool.and_eq_false_iff, decide_eq_false_iff_not,
    beq_eq_false_iff_ne]
  omega

theorem isBlank_of_mem_ofInt {n : Int} {c : Char} (found : c ∈ ofInt n) : isBlank c = false := by
  cases n with
  | ofNat n => exact isBlank_of_isDigit (isDigit_of_mem_ofNat found)
  | negSucc n =>
    obtain rfl | found := List.mem_cons.mp found
    · rfl
    · exact isBlank_of_isDigit (isDigit_of_mem_ofNat found)

end Numeral

/-- Blanks around a text without blanks are trimmed. -/
theorem trim_append {front text back : List Char} (blank : ∀ c ∈ front, isBlank c = true)
    (solid : ∀ c ∈ text, isBlank c = false) (blank' : ∀ c ∈ back, isBlank c = true) :
    trim (front ++ text ++ back) = text := by
  have kept {chars : List Char} (solid : ∀ c ∈ chars, isBlank c = false) :
      chars.dropWhile isBlank = chars := by
    cases chars with
    | nil => rfl
    | cons c rest => rw [List.dropWhile_cons_of_neg (by simp [solid c])]
  cases text with
  | nil =>
    rw [List.append_nil, trim, trimStart, List.dropWhile_append_of_pos blank,
      List.dropWhile_eq_nil_iff.mpr blank']
    rfl
  | cons c rest =>
    have start : trimStart (front ++ (c :: rest) ++ back) = (c :: rest) ++ back := by
      rw [trimStart, List.append_assoc, List.dropWhile_append_of_pos blank, List.cons_append,
        List.dropWhile_cons_of_neg (by simp [solid c])]
    rw [trim, start, trimEnd, List.reverse_append,
      List.dropWhile_append_of_pos (by simpa using blank'),
      kept fun c found => solid c (List.mem_reverse.mp found), List.reverse_reverse]

theorem trim_eq_self {text : List Char} (solid : ∀ c ∈ text, isBlank c = false) :
    trim text = text := by
  have bare : ∀ c ∈ ([] : List Char), isBlank c = true := nofun
  simpa using trim_append bare solid bare

namespace Json

/-! ## Numbers of documents -/

/-- A plain decimal of fewer than 300 digits spells a number, which is read as the words that
are equal to it: as one word, or as none if no word is. -/
theorem exists_value_ofInt {n : Int} (short : (Numeral.ofNat n.natAbs).length < 300) :
    ∃ number, Value (.number number) (Utf8.encode (Numeral.ofInt n)) ∧
      ∀ word : Int64, number = .integer word.toInt ↔ word.toInt = n := by
  by_cases fits : Word.fitsSigned n = true ∨ Word.fitsUnsigned n = true
  · exact ⟨.integer n, value_writeNumber fits, fun word => by simp [eq_comm]⟩
  · -- What has no room in a word is read as a double, which is not equal to any word.
    have size : (plain n).whole.length < 300 := by
      rwa [plain, IsNumeral.literal,
        Utf8.length_encode_of_lt fun c found => Numeral.ascii_of_mem_ofNat found]
    have integer : (plain n).integer? = none := by
      rw [plain_integer?, if_neg fits]
    have inRange : ¬ (plain n).OutOfRange := Scan.not_outOfRange_of_short ⟨rfl, rfl⟩ size
    rw [NumberLiteral.OutOfRange, NumberLiteral.value?, integer] at inRange
    obtain ⟨x, double⟩ : ∃ x, (plain n).magnitude? = some x := by
      simpa [Option.eq_none_iff_forall_not_mem] using inRange
    have value : (plain n).value? = some (.double (x.withSign (plain n).negative)) := by
      rw [NumberLiteral.value?, integer, double]
      rfl
    refine ⟨_, plain_text n ▸ Value.number value, fun word => ?_⟩
    simp only [reduceCtorEq, false_iff]
    exact fun same => fits (.inl (same ▸ Word.fitsSigned_toInt word))

end Json

end TokenIntake
