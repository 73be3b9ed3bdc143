import DocSheet.Decimal.Layout

/-!
# Numbers of a JSON text

A number without fraction and exponent is an integer while it fits in 64 bits, with or
without sign; every other number is a binary fraction. Integers print plainly. A
fraction prints its shortest digits, positionally from 10^-5 up to 10^15, and keeps
the sign of a zero.
-/

namespace DocSheet.Json

inductive Number
  | integer (value : Int)
  | fraction (negative : Bool) (magnitude : Binary64)
  deriving DecidableEq, Repr

namespace Number

def layout : Decimal.Layout := ⟨-5, 15⟩

def printMagnitude (magnitude : Binary64) : List Char :=
  if magnitude = Binary64.zero then ['0', '.', '0'] else magnitude.shortest.print layout

def print : Number → List Char
  | integer (.ofNat n) => Nat.toDigits 10 n
  | integer (.negSucc n) => '-' :: Nat.toDigits 10 (n + 1)
  | fraction true magnitude => '-' :: printMagnitude magnitude
  | fraction false magnitude => printMagnitude magnitude

def text (n : Number) : String :=
  String.ofList n.print

end Number

end DocSheet.Json
