import TokenIntake.Number.Binary64
import TokenIntake.Text.Numeral

/-!
# Shortest decimal digits

The digits with which a double is written: the fewest that read back as the same
double, and of those the nearest to it. A double half way between two of them goes by
a rule of the layout. Two layouts are used, one that turns to an exponent outside a
range and one that never does.
-/

namespace TokenIntake

/-- The positive decimal `digits * 10 ^ unit`. -/
structure DecimalDigits where
  digits : Nat
  unit : Int
  deriving DecidableEq, Repr

namespace DecimalDigits

/-- The digits as text without zeros at the end, and the number of them that stand
before the point. -/
def text (decimal : DecimalDigits) : List Char × Int :=
  let full := Numeral.ofNat decimal.digits
  ((full.reverse.dropWhile (· == '0')).reverse, full.length + decimal.unit)

end DecimalDigits

/-- Where a number half way between two neighbours goes. -/
inductive TieRule where
  | toEven
  | awayFromZero
  deriving DecidableEq, Repr

/-- The neighbour further from zero is taken of a tie above `below`. -/
def TieRule.goesUp (below : Nat) : TieRule → Bool
  | toEven => below % 2 == 1
  | awayFromZero => true

namespace Binary64

/-- Four times the mantissa, the two ends of the interval of numbers that round to the
double on the same scale, and that scale as numerator and denominator. The lower half
of the interval is shorter where the mantissa is the least of 53 bits. -/
structure Neighbourhood where
  low : Nat
  value : Nat
  high : Nat
  num : Nat
  den : Nat
  closed : Bool

def neighbourhood (x : Binary64) : Neighbourhood :=
  -- Below the least mantissa of 53 bits doubles lie twice as dense.
  let short := x.mantissa == leastMantissa && x.exponent != -1074
  let (num, den) :=
    if x.exponent < 0 then (1, 4 * Nat.pow 2 x.exponent.natAbs)
    else (Nat.pow 2 x.exponent.natAbs, 4)
  { low := 4 * x.mantissa - (if short then 1 else 2)
    value := 4 * x.mantissa
    high := 4 * x.mantissa + 2
    num, den
    closed := x.mantissa % 2 == 0 }

/-- The number of decimal places before the point of a positive ratio: the least `e`
with `num / den < 10 ^ e`, looked for from `start` upwards. -/
def placesFrom (num den : Nat) (start : Int) : Nat → Int
  | 0 => start
  | fuel + 1 =>
    let power := Nat.pow 10 start.natAbs
    let below := if start < 0 then num * power < den else num < den * power
    if below then start else placesFrom num den (start + 1) fuel

/-- The number of decimal places before the point, negative for small ratios. The
logarithms to base two give it up to three places. -/
def places (num den : Nat) : Int :=
  let bits : Int := (num.log2 : Int) - (den.log2 : Int)
  placesFrom num den (bits * 30103 / 100000 - 1) 4

/-- Compares `grid * 10 ^ unit` with `quarters * num / den`: both sides of the comparison. -/
def crossed (hood : Neighbourhood) (unit : Int) (grid quarters : Nat) : Nat × Nat :=
  let power := Nat.pow 10 unit.natAbs
  if unit < 0 then (grid * hood.den, quarters * hood.num * power)
  else (grid * hood.den * power, quarters * hood.num)

/-- The grid point reads back as the double. -/
def isInside (hood : Neighbourhood) (unit : Int) (grid : Nat) : Bool :=
  let (g, low) := crossed hood unit grid hood.low
  let (_, high) := crossed hood unit grid hood.high
  if hood.closed then low ≤ g && g ≤ high else low < g && g < high

/-- The nearest multiple of `10 ^ unit` that reads back as the double, if there is
one. -/
def onGrid? (tie : TieRule) (hood : Neighbourhood) (unit : Int) : Option Nat :=
  let (one, exact) := crossed hood unit 1 hood.value
  let below := exact / one
  let twice := 2 * (exact % one)
  -- The nearer of the two neighbours is tried first; at a tie the rule decides.
  let nearUp := one < twice || (twice == one && tie.goesUp below)
  let (first, second) := if nearUp then (below + 1, below) else (below, below + 1)
  if isInside hood unit first then some first
  else if isInside hood unit second then some second
  else none

/-- The first grid with a hit, from `count` digits upwards. -/
def shortestFrom (tie : TieRule) (hood : Neighbourhood) (point : Int) (count : Nat) :
    Nat → DecimalDigits
  | 0 => ⟨0, 0⟩
  | fuel + 1 =>
    match onGrid? tie hood (point - count) with
    | some digits => ⟨digits, point - count⟩
    | none => shortestFrom tie hood point (count + 1) fuel

/-- The shortest digits of a double that is not zero. Seventeen always suffice. -/
def shortest (tie : TieRule) (x : Binary64) : DecimalDigits :=
  let hood := x.neighbourhood
  shortestFrom tie hood (places (hood.value * hood.num) hood.den) 1 17

/-- Digits with the point at a place: zeros fill the gap, and a whole number ends in `.0`. -/
def positional (digits : List Char) (point : Int) : List Char :=
  let count : Int := digits.length
  if point ≤ 0 then '0' :: '.' :: (List.replicate point.natAbs '0' ++ digits)
  else if point < count then digits.take point.natAbs ++ '.' :: digits.drop point.natAbs
  else digits ++ List.replicate (point - count).natAbs '0' ++ ['.', '0']

/-- Digits with one of them before the point, and an exponent. -/
def scientific (digits : List Char) (point : Int) : List Char :=
  let mantissa := match digits with
    | [] => []
    | [d] => [d]
    | d :: rest => d :: '.' :: rest
  mantissa ++ 'e' :: Numeral.ofInt (point - 1)

def signed (x : Binary64) (text : List Char) : List Char :=
  if x.negative then '-' :: text else text

/-- A double without an exponent, however large or small it is. Of two nearest decimals
it shows the one further from zero. -/
def plain (x : Binary64) : List Char :=
  x.signed <|
    if x.isZero then ['0', '.', '0']
    else
      let (digits, point) := (x.shortest .awayFromZero).text
      positional digits point

/-- A double with an exponent if its first digit stands for less than `10 ^ (-5)` or
more than `10 ^ 15`. Of two nearest decimals it shows the one with the even last digit. -/
def compact (x : Binary64) : List Char :=
  x.signed <|
    if x.isZero then ['0', '.', '0']
    else
      let (digits, point) := (x.shortest .toEven).text
      if -4 ≤ point ∧ point ≤ 16 then positional digits point else scientific digits point

end Binary64

end TokenIntake
