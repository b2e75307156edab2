/-!
# Words

The whole numbers that fit a machine word of 64 bits, with and without a sign, and the
bounds of these words as natural numbers.
-/

namespace TokenIntake.Word

def shortLimit : Nat := 0x100000000

/-- Half the number of words of 32 bits: the first natural number that does not fit one
with a sign. -/
def shortSignedLimit : Nat := 0x80000000

def limit : Nat := 0x10000000000000000

/-- Half the number of words of 64 bits: the first natural number that does not fit one
with a sign. -/
def signedLimit : Nat := 0x8000000000000000

def fitsSigned (n : Int) : Bool :=
  -(signedLimit : Int) ≤ n && n < signedLimit

def fitsUnsigned (n : Int) : Bool :=
  0 ≤ n && n < limit

theorem fitsSigned_iff (n : Int) :
    fitsSigned n = true ↔ -9223372036854775808 ≤ n ∧ n < 9223372036854775808 := by
  rw [fitsSigned, Bool.and_eq_true, decide_eq_true_iff, decide_eq_true_iff]
  exact Iff.rfl

theorem fitsUnsigned_iff (n : Int) :
    fitsUnsigned n = true ↔ 0 ≤ n ∧ n < 18446744073709551616 := by
  rw [fitsUnsigned, Bool.and_eq_true, decide_eq_true_iff, decide_eq_true_iff]
  exact Iff.rfl

theorem fitsSigned_toInt (word : Int64) : fitsSigned word.toInt = true :=
  (fitsSigned_iff _).mpr ⟨word.le_toInt, word.toInt_lt⟩

/-- A number that fits keeps its value as a word with a sign. -/
theorem toInt_ofInt_of_fitsSigned {n : Int} (fits : fitsSigned n = true) :
    (Int64.ofInt n).toInt = n := by
  rw [fitsSigned_iff] at fits
  exact Int64.toInt_ofInt_of_le (by omega) (by omega)

end TokenIntake.Word
