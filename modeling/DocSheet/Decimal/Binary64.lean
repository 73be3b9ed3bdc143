/-!
# Finite binary fractions of 53 bits

A value is a significand below 2^53 times a power of two, counted in units of
2^-1074, the least positive one. Every such value has exactly one representation, so
equality of values is equality of representations. A ratio of natural numbers rounds
to the nearest value, a half to the even neighbour; there is no value for a ratio
beyond the greatest one.
-/

namespace DocSheet

/-- One representation per value: outside the finest scale the significand has all
its 53 bits. -/
def Binary64.Canonical (significand scale : Nat) : Prop :=
  significand < Nat.pow 2 53 ∧ scale ≤ 2045 ∧ (scale = 0 ∨ Nat.pow 2 52 ≤ significand)

instance (significand scale : Nat) : Decidable (Binary64.Canonical significand scale) :=
  inferInstanceAs (Decidable (_ ∧ _ ∧ (_ ∨ _)))

/-- A finite value that is not negative. -/
structure Binary64 where
  significand : Nat
  scale : Nat
  canonical : Binary64.Canonical significand scale
  deriving DecidableEq, Repr

namespace Binary64

/-- The value in units of 2^-1074. -/
def units (x : Binary64) : Nat :=
  x.significand * Nat.pow 2 x.scale

/-- How many units make one. -/
def one : Nat := Nat.pow 2 1074

def zero : Binary64 := ⟨0, 0, by decide⟩

def ofParts? (significand scale : Nat) : Option Binary64 :=
  if h : Canonical significand scale then some ⟨significand, scale, h⟩ else none

/-! ## Rounding -/

/-- The integer nearest to a ratio; a half goes to the even one. -/
def roundRatio (num den : Nat) : Nat :=
  let quotient := num / den
  let rest := num % den
  if den < 2 * rest ∨ (2 * rest = den ∧ quotient % 2 = 1) then quotient + 1 else quotient

/-- The value nearest to `num / den` units. -/
def ofUnits? (num den : Nat) : Option Binary64 :=
  let scale := (num / den).log2 - 52
  let significand := roundRatio num (den * Nat.pow 2 scale)
  if significand = Nat.pow 2 53 then ofParts? (Nat.pow 2 52) (scale + 1)
  else ofParts? significand scale

def ofNat? (n : Nat) : Option Binary64 :=
  ofUnits? (n * one) 1

def mul? (x y : Binary64) : Option Binary64 :=
  ofUnits? (x.units * y.units) one

def div? (x y : Binary64) : Option Binary64 :=
  ofUnits? (x.units * one) y.units

/-! ## Scaling by powers of ten -/

/-- The exponent of the greatest power of ten that has a nearest value. -/
def greatestPower : Nat := 308

def tenTo? (k : Nat) : Option Binary64 :=
  ofNat? (Nat.pow 10 k)

/-- Divides by a power of ten, rounding after each division by the greatest one. -/
def shrink? (x : Binary64) (k : Nat) : Option Binary64 :=
  if k ≤ greatestPower then do x.div? (← tenTo? k)
  else if x = zero then some x
  else do (← x.div? (← tenTo? greatestPower)).shrink? (k - greatestPower)
termination_by k
decreasing_by simp only [greatestPower] at *; omega

/-- `n` times ten to the `exponent`, rounded first as an integer and then at the
scaling, which is how a number is read; two roundings can miss the nearest value. -/
def scaled? (n : Nat) (exponent : Int) : Option Binary64 := do
  let x ← ofNat? n
  match exponent with
  | .ofNat k =>
    if k ≤ greatestPower then x.mul? (← tenTo? k)
    else if x = zero then some x
    else none
  | .negSucc k => x.shrink? (k + 1)

end Binary64

end DocSheet
