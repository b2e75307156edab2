import TokenIntake.Proofs.Cleaning
import TokenIntake.Proofs.Decimals

/-!
# Numerals

Which texts are numerals: one or more ASCII digits behind an optional sign, with leading zeros or
without. The readers take exactly the numerals of the numbers that their target has room for,
and blanks around a numeral do not matter.
-/

namespace TokenIntake

namespace Numeral

/-- One or more digits stand for the number. -/
structure Digits (text : List Char) (n : Nat) : Prop where
  present : text ≠ []
  digit : ∀ c ∈ text, c.isDigit = true
  value : Nat.ofDigitChars 10 text 0 = n

/-- A numeral of a natural number. -/
inductive Unsigned : List Char → Nat → Prop
  | bare {text : List Char} {n : Nat} (digits : Digits text n) : Unsigned text n
  | plus {text : List Char} {n : Nat} (digits : Digits text n) : Unsigned ('+' :: text) n

/-- A numeral of a whole number. -/
inductive Signed : List Char → Int → Prop
  | unsigned {text : List Char} {n : Nat} (numeral : Unsigned text n) : Signed text n
  | minus {text : List Char} {n : Nat} (digits : Digits text n) : Signed ('-' :: text) (-n)

/-! ## Readers -/

private theorem isDigit_of_digit? {c : Char} {d : Nat} (read : digit? c = some d) :
    c.isDigit = true := by
  rw [digit?, Option.ite_none_right_eq_some] at read
  simpa [Char.isDigit, UInt32.le_iff_toNat_le] using read.1

/-- What is read is made of digits. -/
private theorem isDigit_of_digits {limit value n : Nat} {beyond : Fault} {text : List Char}
    (read : digits limit beyond value text = .ok n) : ∀ c ∈ text, c.isDigit = true := by
  induction text generalizing value with
  | nil => simp
  | cons c text ih =>
    rw [digits] at read
    split at read
    next => cases read
    next d found =>
      split at read
      next => exact List.forall_mem_cons.mpr ⟨isDigit_of_digit? found, ih read⟩
      next => cases read

theorem magnitude_eq_ok_iff {limit n : Nat} {beyond : Fault} {text : List Char} :
    magnitude limit beyond text = .ok n ↔ Digits text n ∧ n ≤ limit := by
  rw [magnitude]
  split
  next empty =>
    exact iff_of_false (by simp) fun both => both.1.present (List.isEmpty_iff.mp empty)
  next present =>
    constructor
    · intro read
      have all := isDigit_of_digits read
      rw [digits_of_isDigit all (Nat.zero_le limit)] at read
      split at read
      next fits =>
        obtain rfl := Except.ok.inj read
        exact ⟨⟨fun empty => present (List.isEmpty_iff.mpr empty), all, rfl⟩, fits⟩
      next => cases read
    · rintro ⟨⟨-, all, rfl⟩, fits⟩
      rw [digits_of_isDigit all (Nat.zero_le limit), if_pos fits]

/-- A sign is no digit. -/
theorem Digits.head_ne {c sign : Char} {text : List Char} {n : Nat} (digits : Digits (c :: text) n)
    (noDigit : sign.isDigit = false) : c ≠ sign := by
  rintro rfl
  have digit := digits.digit c List.mem_cons_self
  rw [noDigit] at digit
  cases digit

theorem natural_eq_ok_iff {limit n : Nat} {text : List Char} :
    natural limit text = .ok n ↔ Unsigned text n ∧ n ≤ limit := by
  cases text with
  | nil =>
    refine iff_of_false (by simp [natural]) fun ⟨numeral, _⟩ => ?_
    cases numeral with
    | bare digits => exact digits.present rfl
  | cons c text =>
    rw [natural]
    split
    next plus =>
      subst plus
      rw [magnitude_eq_ok_iff]
      refine and_congr_left' ⟨.plus, fun numeral => ?_⟩
      cases numeral with
      | bare digits => exact absurd rfl (digits.head_ne rfl)
      | plus digits => exact digits
    next noPlus =>
      rw [magnitude_eq_ok_iff]
      refine and_congr_left' ⟨.bare, fun numeral => ?_⟩
      cases numeral with
      | bare digits => exact digits
      | plus digits => exact absurd rfl noPlus

/-- A minus sign is read as one. -/
theorem Signed.minus_iff {text : List Char} {n : Int} :
    Signed ('-' :: text) n ↔ ∃ m, Digits text m ∧ -(m : Int) = n := by
  constructor
  · intro numeral
    cases numeral with
    | unsigned numeral =>
      cases numeral with
      | bare digits => exact absurd rfl (digits.head_ne rfl)
    | minus digits => exact ⟨_, digits, rfl⟩
  · rintro ⟨m, digits, rfl⟩
    exact .minus digits

theorem Signed.unsigned_iff {c : Char} {text : List Char} {n : Int} (noMinus : c ≠ '-') :
    Signed (c :: text) n ↔ ∃ m, Unsigned (c :: text) m ∧ (m : Int) = n := by
  constructor
  · intro numeral
    cases numeral with
    | unsigned numeral => exact ⟨_, numeral, rfl⟩
    | minus digits => exact absurd rfl noMinus
  · rintro ⟨m, numeral, rfl⟩
    exact .unsigned numeral

/-- A word is the one of a number that has room in it. -/
theorem ofInt_eq_iff {n : Int} {word : Int64} (fits : Word.fitsSigned n = true) :
    Int64.ofInt n = word ↔ n = word.toInt := by
  constructor
  · rintro rfl
    exact (Word.toInt_ofInt_of_fitsSigned fits).symm
  · rintro rfl
    exact Int64.ofInt_toInt word

/-- A number is a word if it has room in it. -/
theorem room_and_ofInt_eq_iff {n : Int} {word : Int64} {room : Prop}
    (isRoom : room ↔ Word.fitsSigned n = true) :
    room ∧ Int64.ofInt n = word ↔ n = word.toInt := by
  rw [isRoom]
  constructor
  · rintro ⟨fits, same⟩
    exact (ofInt_eq_iff fits).mp same
  · rintro rfl
    exact ⟨Word.fitsSigned_toInt word, Int64.ofInt_toInt word⟩

/-- A natural number is read as a whole one. -/
theorem map_natCast_eq_ok_iff {α : Type} {x : Except Fault Nat} {f : Int → α} {b : α} :
    (do let n ← x; pure (n : Int) : Except Fault Int).map f = .ok b ↔
      ∃ n : Nat, x = .ok n ∧ f n = b := by
  cases x with
  | error fault => simp [bind, Except.bind, Except.map]
  | ok n => simp [bind, Except.bind, Except.map, pure, Except.pure]

theorem signed64_eq_ok_iff {text : List Char} {word : Int64} :
    signed64 text = .ok word ↔ Signed text word.toInt := by
  cases text with
  | nil =>
    refine iff_of_false (by simp [signed64]) fun numeral => ?_
    generalize word.toInt = n at numeral
    cases numeral with
    | unsigned numeral =>
      cases numeral with
      | bare digits => exact digits.present rfl
  | cons c text =>
    rw [signed64]
    split
    next minus =>
      subst minus
      rw [map_natCast_eq_ok_iff, Signed.minus_iff]
      refine exists_congr fun m => ?_
      rw [magnitude_eq_ok_iff, and_assoc]
      refine and_congr_right' (room_and_ofInt_eq_iff ?_)
      rw [Word.fitsSigned_iff, Word.signedLimit]
      omega
    next noMinus =>
      rw [map_natCast_eq_ok_iff, Signed.unsigned_iff noMinus]
      refine exists_congr fun m => ?_
      rw [natural_eq_ok_iff, and_assoc]
      refine and_congr_right' (room_and_ofInt_eq_iff ?_)
      rw [Word.fitsSigned_iff, Word.signedLimit]
      omega

/-- A numeral stands for one number only. -/
theorem Unsigned.unique {text : List Char} {n m : Nat} (numeral : Unsigned text n)
    (numeral' : Unsigned text m) : n = m := by
  have read : natural (max n m) text = .ok n :=
    natural_eq_ok_iff.mpr ⟨numeral, Nat.le_max_left n m⟩
  have read' : natural (max n m) text = .ok m :=
    natural_eq_ok_iff.mpr ⟨numeral', Nat.le_max_right n m⟩
  exact Except.ok.inj (read.symm.trans read')

theorem Unsigned.lt_of_mem {text : List Char} {n : Nat} (numeral : Unsigned text n) :
    ∀ c ∈ text, c.toNat < 128 := by
  have digits_lt {text : List Char} {n : Nat} (digits : Digits text n) :
      ∀ c ∈ text, c.toNat < 128 := fun c found =>
    Nat.lt_of_le_of_lt (toNat_of_isDigit (digits.digit c found)).2 (by decide)
  cases numeral with
  | bare digits => exact digits_lt digits
  | plus digits => exact List.forall_mem_cons.mpr ⟨by decide, digits_lt digits⟩

theorem digits_ofNat (n : Nat) : Digits (ofNat n) n where
  present := Nat.toDigits_ne_nil
  digit _ found := isDigit_of_mem_ofNat found
  value := Nat.ofDigitChars_ten_toDigits

/-! ## Numerals cut short -/

private theorem ofDigitChars_lt_pow {text : List Char} (all : ∀ c ∈ text, c.isDigit = true) :
    Nat.ofDigitChars 10 text 0 < 10 ^ text.length := by
  induction text with
  | nil => decide
  | cons c text ih =>
    obtain ⟨digit, all⟩ := List.forall_mem_cons.mp all
    have lead : c.toNat - '0'.toNat + 1 ≤ 10 := by
      have small := (toNat_of_isDigit digit).2
      have zero : '0'.toNat = 0x30 := rfl
      omega
    rw [Nat.ofDigitChars_cons, Nat.mul_zero, Nat.zero_add, Nat.ofDigitChars_eq_ofDigitChars_zero,
      List.length_cons, Nat.pow_succ]
    calc 10 ^ text.length * (c.toNat - '0'.toNat) + Nat.ofDigitChars 10 text 0
      _ < 10 ^ text.length * (c.toNat - '0'.toNat) + 10 ^ text.length :=
        Nat.add_lt_add_left (ih all) _
      _ = 10 ^ text.length * (c.toNat - '0'.toNat + 1) := (Nat.mul_succ ..).symm
      _ ≤ 10 ^ text.length * 10 := Nat.mul_le_mul_left _ lead

/-- The first digits stand for the number without its last ones. -/
theorem Digits.take {text : List Char} {n count : Nat} (digits : Digits text n)
    (positive : 0 < count) : Digits (text.take count) (n / 10 ^ (text.length - count)) where
  present := by
    rw [Ne, List.take_eq_nil_iff]
    exact fun nothing => nothing.elim (Nat.ne_of_gt positive) digits.present
  digit c found := digits.digit c (List.mem_of_mem_take found)
  value := by
    -- What is cut off is less than one unit of the last digit that stays.
    have last : Nat.ofDigitChars 10 (text.drop count) 0 < 10 ^ (text.length - count) := by
      rw [← List.length_drop]
      exact ofDigitChars_lt_pow fun c found => digits.digit c (List.mem_of_mem_drop found)
    have whole : 10 ^ (text.length - count) * Nat.ofDigitChars 10 (text.take count) 0 +
        Nat.ofDigitChars 10 (text.drop count) 0 = n := by
      rw [← List.length_drop, ← Nat.ofDigitChars_eq_ofDigitChars_zero, ← Nat.ofDigitChars_append,
        List.take_append_drop]
      exact digits.value
    rw [← whole, Nat.mul_add_div (Nat.pow_pos (by decide)), Nat.div_eq_of_lt last, Nat.add_zero]

/-- A plus sign takes one of the characters that are left. -/
theorem Unsigned.take {text : List Char} {n count : Nat} (numeral : Unsigned text n)
    (room : 1 < count) : Unsigned (text.take count) (n / 10 ^ (text.length - count)) := by
  cases numeral with
  | bare digits => exact .bare (digits.take (Nat.zero_lt_of_lt room))
  | @plus text n digits =>
    obtain ⟨count, rfl⟩ := Nat.exists_eq_add_of_lt room
    rw [List.take_succ_cons, List.length_cons, Nat.add_sub_add_right]
    exact .plus (digits.take (by omega))

/-! ## Blanks around numerals -/

theorem Digits.isBlank_of_mem {text : List Char} {n : Nat} (digits : Digits text n) :
    ∀ c ∈ text, isBlank c = false :=
  fun c found => isBlank_of_isDigit (digits.digit c found)

theorem Unsigned.isBlank_of_mem {text : List Char} {n : Nat} (numeral : Unsigned text n) :
    ∀ c ∈ text, isBlank c = false := by
  cases numeral with
  | bare digits => exact digits.isBlank_of_mem
  | plus digits => exact List.forall_mem_cons.mpr ⟨rfl, digits.isBlank_of_mem⟩

theorem Signed.isBlank_of_mem {text : List Char} {n : Int} (numeral : Signed text n) :
    ∀ c ∈ text, isBlank c = false := by
  cases numeral with
  | unsigned numeral => exact numeral.isBlank_of_mem
  | minus digits => exact List.forall_mem_cons.mpr ⟨rfl, digits.isBlank_of_mem⟩

/-- The value is such a text with blanks around it, or with none. -/
def Among (numeral : List Char → Prop) (value : List Char) : Prop :=
  ∃ front text back, value = front ++ text ++ back ∧ (∀ c ∈ front, isBlank c = true) ∧
    numeral text ∧ ∀ c ∈ back, isBlank c = true

/-- A text without blanks is found by trimming. -/
theorem among_iff {numeral : List Char → Prop}
    (solid : ∀ text, numeral text → ∀ c ∈ text, isBlank c = false) {value : List Char} :
    Among numeral value ↔ numeral (trim value) := by
  constructor
  · rintro ⟨front, text, back, rfl, blank, isNumeral, blank'⟩
    rwa [trim_append blank (solid text isNumeral) blank']
  · intro isNumeral
    obtain ⟨front, split, blank⟩ := QueryValue.exists_trimStart value
    obtain ⟨back, split', blank'⟩ := QueryValue.exists_trimEnd (trimStart value)
    refine ⟨front, trim value, back, ?_, blank, isNumeral, blank'⟩
    rw [List.append_assoc, trim, ← split', ← split]

end Numeral

end TokenIntake
