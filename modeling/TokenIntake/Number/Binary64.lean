/-!
# Doubles

The finite double-precision numbers as exact values `± mantissa * 2 ^ exponent`, and
rounding into them. A result is the nearest double, of two equally near ones that
with the even mantissa. All arithmetic is on natural numbers, so what a rounding does
can be reasoned about.
-/

namespace TokenIntake

/-- A finite double. In the form that rounding yields, the mantissa is below
`2 ^ 53`, the exponent at least `-1074`, and the mantissa at least `2 ^ 52` unless the
exponent is `-1074`. -/
structure Binary64 where
  negative : Bool
  mantissa : Nat
  exponent : Int
  deriving DecidableEq, Repr

namespace Binary64

def leastMantissa : Nat := 0x10000000000000

def zero (negative : Bool) : Binary64 := ⟨negative, 0, -1074⟩

def isZero (x : Binary64) : Bool := x.mantissa == 0

def withSign (x : Binary64) (negative : Bool) : Binary64 := { x with negative }

/-- The quotient of two natural numbers, rounded to the nearest and at a tie to the
even natural number. -/
def divideToEven (num den : Nat) : Nat :=
  let quotient := num / den
  let twice := 2 * (num % den)
  if twice < den then quotient
  else if den < twice then quotient + 1
  else quotient + quotient % 2

/-- A ratio divided by a power of two, as numerator and denominator. -/
def scaled (num den : Nat) (exponent : Int) : Nat × Nat :=
  let power := Nat.pow 2 exponent.natAbs
  if exponent < 0 then (num * power, den) else (num, den * power)

/-- The exponent with which a positive ratio has a mantissa of 53 bits, or the least
exponent if that is greater. -/
def exponentFor (num den : Nat) : Int :=
  -- The logarithms give the exponent up to one.
  let guess : Int := (num.log2 : Int) - (den.log2 : Int) - 53
  let (n, d) := scaled num den guess
  max (if n / d < 2 * leastMantissa then guess else guess + 1) (-1074)

/-- The nearest non-negative double to `num / den`, unless that is too large. -/
def ofRatio? (num den : Nat) : Option Binary64 :=
  if num = 0 then some (zero false)
  else
    let exponent := exponentFor num den
    let (n, d) := scaled num den exponent
    let mantissa := divideToEven n d
    -- Rounding up may carry into one more bit.
    let (mantissa, exponent) :=
      if mantissa = 2 * leastMantissa then (leastMantissa, exponent + 1) else (mantissa, exponent)
    if 971 < exponent then none else some ⟨false, mantissa, exponent⟩

/-- The magnitude of a double as numerator and denominator. -/
def ratio (x : Binary64) : Nat × Nat :=
  let power := Nat.pow 2 x.exponent.natAbs
  if x.exponent < 0 then (x.mantissa, power) else (x.mantissa * power, 1)

def mul? (x y : Binary64) : Option Binary64 :=
  let (n, d) := x.ratio
  let (m, e) := y.ratio
  ofRatio? (n * m) (d * e)

/-- The rounded quotient of two magnitudes, the second not zero. -/
def div? (x y : Binary64) : Option Binary64 :=
  let (n, d) := x.ratio
  let (m, e) := y.ratio
  ofRatio? (n * e) (d * m)

/-- The double nearest to a power of ten. -/
def powerOfTen? (n : Nat) : Option Binary64 :=
  ofRatio? (Nat.pow 10 n) 1

/-- Division by `10 ^ 308` a number of times, which ends once nothing is left. -/
def divideDown : Nat → Binary64 → Option Binary64
  | 0, x => some x
  | steps + 1, x =>
    if x.isZero then some x
    else do divideDown steps (← x.div? (← powerOfTen? 308))

/-- The double of `significand * 10 ^ exponent`, which is rounded once as a whole
number and once more by every power of ten, of at most 308, that it is multiplied
with or divided by. There is none if a result is too large. -/
def ofDecimal? (significand : Nat) (exponent : Int) : Option Binary64 := do
  let x ← ofRatio? significand 1
  if exponent < 0 then
    let steps := (exponent.natAbs - 1) / 308
    (← divideDown steps x).div? (← powerOfTen? (exponent.natAbs - 308 * steps))
  else if exponent.natAbs ≤ 308 then x.mul? (← powerOfTen? exponent.natAbs)
  else if x.isZero then some x
  else none

end Binary64

end TokenIntake
