import DocSheet.Decimal.Binary64

/-!
# Shortest decimals

Among the decimals that round to a given value, the shortest one nearest to it stands
for it in print. The search walks grids of one, two, up to seventeen digits; on each
only the two neighbours of the value can be nearest, and the first grid on which one
of them still rounds to the value is the shortest.

Lengths are compared in exact natural numbers, in quarters of the least unit, so that
the ends of the rounding interval are integers too.
-/

namespace DocSheet

/-- `coefficient` times ten to the `exponent`. -/
structure Decimal where
  coefficient : Nat
  exponent : Int
  deriving DecidableEq, Repr

namespace Decimal

/-- The decimal digits, most significant first. -/
def digits (d : Decimal) : List Char :=
  Nat.toDigits 10 d.coefficient

/-- The same number without zeros at the end of its digits. -/
def normalize (d : Decimal) : Decimal :=
  if d.coefficient = 0 ∨ d.coefficient % 10 ≠ 0 then d
  else normalize ⟨d.coefficient / 10, d.exponent + 1⟩
termination_by d.coefficient
decreasing_by omega

/-- The exponent of the first digit. -/
def magnitude (d : Decimal) : Int :=
  d.exponent + (d.digits.length - 1 : Nat)

end Decimal

namespace Binary64

/-- The value in quarters of a unit. -/
def quarters (x : Binary64) : Nat :=
  4 * x.units

/-- The lower end of the interval that rounds to the value. Below a power of two the
neighbour is half as far away. -/
def lowerEnd (x : Binary64) : Nat :=
  if x.significand = Nat.pow 2 52 ∧ 0 < x.scale then x.quarters - Nat.pow 2 x.scale
  else x.quarters - 2 * Nat.pow 2 x.scale

def upperEnd (x : Binary64) : Nat :=
  x.quarters + 2 * Nat.pow 2 x.scale

/-- Whether `num / den` quarters round to the value: the ends of the interval do just
when the significand is even. -/
def roundsFrom (x : Binary64) (num den : Nat) : Bool :=
  if x.significand % 2 = 0 then
    decide (x.lowerEnd * den ≤ num ∧ num ≤ x.upperEnd * den)
  else
    decide (x.lowerEnd * den < num ∧ num < x.upperEnd * den)

/-- Of the two multiples of ten to the `exponent` around the value, the nearest that
rounds to it. Equally near ones give way to the one with an even last digit. -/
def onGrid? (x : Binary64) (exponent : Int) : Option Decimal :=
  let step := 4 * one * Nat.pow 10 exponent.toNat
  let den := Nat.pow 10 (-exponent).toNat
  let value := x.quarters * den
  let below := value / step
  let toBelow := value - below * step
  let toAbove := (below + 1) * step - value
  let belowFirst := toBelow < toAbove ∨ (toBelow = toAbove ∧ below % 2 = 0)
  let (first, second) := if belowFirst then (below, below + 1) else (below + 1, below)
  if x.roundsFrom (first * step) den then some ⟨first, exponent⟩
  else if x.roundsFrom (second * step) den then some ⟨second, exponent⟩
  else none

/-- The exponent of the first decimal digit. The least value is above 10^-324, so
counting in units of that power keeps all first digits. -/
def decimalExponent (x : Binary64) : Int :=
  ((Nat.toDigits 10 (x.units * Nat.pow 10 324 / one)).length : Int) - 325

/-- All decimal digits of the value. -/
def exactDecimal (x : Binary64) : Decimal :=
  ⟨x.units * Nat.pow 5 1074, -1074⟩

/-- Seventeen digits always suffice; the exact decimal closes the search. A value
just below a power of ten may have that power for its neighbour. -/
def shortest (x : Binary64) : Decimal :=
  (((List.range 17).findSome? fun more : Nat => x.onGrid? (x.decimalExponent - more)).getD
    x.exactDecimal).normalize

end Binary64

end DocSheet
