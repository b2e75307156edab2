import Mathlib.Algebra.Group.Nat.Defs
import TokenIntake.Number.Binary64

/-!
# Doubles in range

Rounding at most doubles a number, and a ratio below `2 ^ 1000` has a double. So a whole
number that is far enough below the largest double is never out of range, although its
conversion rounds up to three times.
-/

namespace TokenIntake.Binary64

private theorem divideToEven_mul_le (num den : Nat) : divideToEven num den * den ≤ 2 * num := by
  have split : den * (num / den) + num % den = num := Nat.div_add_mod num den
  have parity : num / den % 2 < 2 := Nat.mod_lt _ (by decide)
  rw [Nat.mul_comm] at split
  unfold divideToEven
  dsimp only
  split
  -- Rounding down is harmless; rounding up needs a remainder of at least half of `den`.
  next => omega
  next notBelow =>
    have above : (num / den + 1) * den ≤ 2 * num := by
      rw [Nat.add_mul, Nat.one_mul]
      omega
    split
    next => exact above
    next => exact Nat.le_trans (Nat.mul_le_mul_right den (by omega)) above

private theorem ratio_pos (x : Binary64) : 0 < x.ratio.2 := by
  unfold ratio
  dsimp only
  split
  · exact Nat.pow_pos (by decide)
  · exact Nat.one_pos

/-- The double is at most twice the ratio. -/
def AtMostTwice (x : Binary64) (num den : Nat) : Prop :=
  x.ratio.1 * den ≤ 2 * num * x.ratio.2

private theorem atMostTwice_of_scaled {negative : Bool} {num den mantissa : Nat} {exponent : Int}
    (h : mantissa * (scaled num den exponent).2 ≤ 2 * (scaled num den exponent).1) :
    AtMostTwice ⟨negative, mantissa, exponent⟩ num den := by
  unfold scaled at h
  unfold AtMostTwice ratio
  dsimp only at h ⊢
  by_cases below : exponent < 0
  · rw [if_pos below] at h ⊢
    rw [Nat.mul_assoc]
    exact h
  · rw [if_neg below] at h ⊢
    rw [Nat.mul_one, Nat.mul_assoc, Nat.mul_comm _ den]
    exact h

/-- Halving the mantissa and raising the exponent leaves a double as it is. -/
private theorem atMostTwice_succ {negative : Bool} {num den mantissa : Nat} {exponent : Int}
    (bound : AtMostTwice ⟨negative, 2 * mantissa, exponent⟩ num den) :
    AtMostTwice ⟨negative, mantissa, exponent + 1⟩ num den := by
  unfold AtMostTwice ratio at bound ⊢
  dsimp only [Nat.pow_eq] at bound ⊢
  -- The power stands below the mantissa for a negative exponent, and above it otherwise.
  by_cases below : exponent < 0
  · have power : 2 ^ exponent.natAbs = 2 * 2 ^ (exponent + 1).natAbs := by
      have step : exponent.natAbs = (exponent + 1).natAbs + 1 := by omega
      rw [step, Nat.pow_succ, Nat.mul_comm]
    have half : mantissa * den ≤ 2 * num * 2 ^ (exponent + 1).natAbs := by
      rw [if_pos below, power, Nat.mul_assoc 2 mantissa, Nat.mul_left_comm (2 * num)] at bound
      exact Nat.le_of_mul_le_mul_left bound (by decide)
    split
    next => exact half
    next notBelow =>
      have zero : (exponent + 1).natAbs = 0 := by omega
      rw [zero] at half ⊢
      simpa using half
  · have power : 2 ^ (exponent + 1).natAbs = 2 * 2 ^ exponent.natAbs := by
      have step : (exponent + 1).natAbs = exponent.natAbs + 1 := by omega
      rw [step, Nat.pow_succ, Nat.mul_comm]
    rw [if_neg below] at bound
    rw [if_neg (by omega), power, Nat.mul_left_comm, ← Nat.mul_assoc 2]
    exact bound

section

variable {num den power : Nat} (small : num < den * 2 ^ power)

include small

private theorem exponentFor_le (positive : num ≠ 0) : exponentFor num den + 52 ≤ power := by
  have below : num.log2 < den.log2 + 1 + power := by
    have upper : den < 2 ^ (den.log2 + 1) := Nat.lt_log2_self
    rw [Nat.log2_lt positive, Nat.pow_add]
    exact Nat.lt_of_lt_of_le small (Nat.mul_le_mul_right _ (Nat.le_of_lt upper))
  unfold exponentFor
  dsimp only
  split <;> omega

theorem ofRatio?_of_lt (notLarge : power ≤ 1000) :
    ∃ x, ofRatio? num den = some x ∧ AtMostTwice x num den := by
  by_cases zeroRatio : num = 0
  · refine ⟨zero false, by rw [ofRatio?, if_pos zeroRatio], ?_⟩
    have nothing : (zero false).ratio.1 = 0 := rfl
    rw [AtMostTwice, nothing, Nat.zero_mul]
    exact Nat.zero_le _
  · have low := exponentFor_le small zeroRatio
    have bound : AtMostTwice ⟨false, _, exponentFor num den⟩ num den :=
      atMostTwice_of_scaled (divideToEven_mul_le (scaled num den (exponentFor num den)).1 _)
    unfold ofRatio?
    rw [if_neg zeroRatio]
    dsimp only
    -- A mantissa rounded up to the next power of two is halved, which does not change the double.
    split
    next top =>
      rw [top] at bound
      rw [if_neg (by omega)]
      exact ⟨_, rfl, atMostTwice_succ bound⟩
    next =>
      rw [if_neg (by omega)]
      exact ⟨_, rfl, bound⟩

end

theorem mul?_of_lt {x y : Binary64} {m n power : Nat} (first : AtMostTwice x m 1)
    (second : AtMostTwice y n 1) (small : m * n < 2 ^ power) (notLarge : power ≤ 998) :
    ∃ z, x.mul? y = some z := by
  -- Each factor may have doubled by rounding, so the product has two more bits.
  have denominator : 0 < x.ratio.2 * y.ratio.2 := Nat.mul_pos (ratio_pos x) (ratio_pos y)
  have product : x.ratio.1 * y.ratio.1 < x.ratio.2 * y.ratio.2 * 2 ^ (power + 2) :=
    calc x.ratio.1 * y.ratio.1
      _ = (x.ratio.1 * 1) * (y.ratio.1 * 1) := by rw [Nat.mul_one, Nat.mul_one]
      _ ≤ (2 * m * x.ratio.2) * (2 * n * y.ratio.2) := Nat.mul_le_mul first second
      _ = x.ratio.2 * y.ratio.2 * (m * n * 4) := by grind
      _ < x.ratio.2 * y.ratio.2 * (2 ^ power * 4) :=
        Nat.mul_lt_mul_of_pos_left (Nat.mul_lt_mul_of_pos_right small (by decide)) denominator
      _ = x.ratio.2 * y.ratio.2 * 2 ^ (power + 2) := by rw [Nat.pow_add]
  obtain ⟨z, found, -⟩ := ofRatio?_of_lt product (by omega)
  exact ⟨z, found⟩

/-- A whole number below `2 ^ 998`, given as a significand and zeros behind it, has a double. -/
theorem ofDecimal?_of_lt {significand zeros power : Nat} (few : zeros ≤ 308)
    (smallPower : 10 ^ zeros < 2 ^ power) (small : significand * 10 ^ zeros < 2 ^ power)
    (notLarge : power ≤ 998) : ∃ x, ofDecimal? significand zeros = some x := by
  have below : significand < 1 * 2 ^ power := by
    rw [Nat.one_mul]
    exact Nat.lt_of_le_of_lt (Nat.le_mul_of_pos_right _ (Nat.pow_pos (by decide))) small
  obtain ⟨x, found, bound⟩ := ofRatio?_of_lt below (by omega)
  obtain ⟨y, found', bound'⟩ : ∃ y, ofRatio? (10 ^ zeros) 1 = some y ∧ AtMostTwice y _ 1 :=
    ofRatio?_of_lt (by rwa [Nat.one_mul]) (by omega)
  obtain ⟨z, found''⟩ := mul?_of_lt bound bound' small notLarge
  have notNegative : ¬ (zeros : Int) < 0 := by omega
  refine ⟨z, ?_⟩
  simp [ofDecimal?, found, notNegative, few, powerOfTen?, found', found'']

theorem powerOfTen_lt {n : Nat} (h : n < 300) : 10 ^ n < 2 ^ 998 := by
  have fewer : n ≤ 299 := Nat.le_of_lt_succ h
  calc 10 ^ n
    _ ≤ 10 ^ 299 := Nat.pow_le_pow_right (by decide) fewer
    _ < 2 ^ 998 := by decide +kernel

end TokenIntake.Binary64
