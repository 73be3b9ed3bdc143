import DocSheet.Decimal.Shortest

/-!
# Decimals in print

A decimal is printed with a point among its digits while its first digit has an
exponent in a given range, and in scientific form outside. The positional form always
has a digit on either side of the point; the scientific form drops the point behind a
lone digit and writes the sign of the exponent.
-/

namespace DocSheet.Decimal

/-- The exponents of the first digit that are printed positionally. -/
structure Layout where
  least : Int
  greatest : Int
  deriving DecidableEq, Repr

def zeros (n : Nat) : List Char :=
  List.replicate n '0'

/-- The digits around a point, the first of them standing at 10^`magnitude`. -/
def positional (digits : List Char) (magnitude : Int) : List Char :=
  match magnitude with
  | .ofNat k =>
    if digits.length ≤ k + 1 then digits ++ zeros (k + 1 - digits.length) ++ ['.', '0']
    else digits.take (k + 1) ++ '.' :: digits.drop (k + 1)
  | .negSucc k => '0' :: '.' :: zeros k ++ digits

def scientific (digits : List Char) (magnitude : Int) : List Char :=
  let sign := if 0 ≤ magnitude then '+' else '-'
  let lead := match digits with
    | first :: second :: more => first :: '.' :: second :: more
    | _ => digits
  lead ++ 'e' :: sign :: Nat.toDigits 10 magnitude.natAbs

def print (layout : Layout) (d : Decimal) : List Char :=
  if layout.least ≤ d.magnitude ∧ d.magnitude ≤ layout.greatest then
    positional d.digits d.magnitude
  else scientific d.digits d.magnitude

end DocSheet.Decimal
