/-!
# Code points in hexadecimal

A character that cannot stand for itself is spelled by its code point, in lower-case
hexadecimal between braces.
-/

namespace DocSheet.Text

/-- The digits of a number in lower-case hexadecimal. -/
def hexadecimal (n : Nat) : List Char :=
  Nat.toDigits 16 n

/-- A character spelled by its code point. -/
def byCodePoint (c : Char) : List Char :=
  ['\\', 'u', '\x7b'] ++ hexadecimal c.toNat ++ ['\x7d']

end DocSheet.Text
