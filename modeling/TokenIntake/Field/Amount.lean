import TokenIntake.Field.Rejection

/-!
# Amounts

Quantities, prices and fraction counts are positive and at most one billion.
-/

namespace TokenIntake

namespace Amount

def maximum : Int64 := 1000000000

/-- Accepts the values from one to `max`. -/
def checkAtMost (field : String) (value max : Int64) : Verdict := do
  Verdict.ensure (0 < value.toInt) (.notPositive field)
  Verdict.ensure (value.toInt ≤ max.toInt) (.exceedsMaximum field max)

/-- Accepts the values from one to the largest amount. -/
def check (field : String) (value : Int64) : Verdict :=
  checkAtMost field value maximum

end Amount

namespace Quantity

def check (field : String) (value : Int64) : Verdict :=
  Amount.check field value

end Quantity

namespace Price

def check (field : String) (value : Int64) : Verdict :=
  Amount.check field value

end Price

namespace FractionCount

def check (field : String) (value : Int64) : Verdict :=
  Amount.check field value

end FractionCount

end TokenIntake
