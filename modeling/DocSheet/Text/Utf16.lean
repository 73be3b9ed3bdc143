/-!
# UTF-16 code units

A character below U+10000 is one 16-bit unit; any other is a pair of surrogates, the
high one first. `join` recombines a pair.
-/

namespace DocSheet.Text.Utf16

def isHigh (unit : Nat) : Bool :=
  decide (0xD800 ≤ unit ∧ unit < 0xDC00)

def isLow (unit : Nat) : Bool :=
  decide (0xDC00 ≤ unit ∧ unit < 0xE000)

def units (c : Char) : List Nat :=
  let n := c.toNat
  if n < 0x10000 then [n]
  else [0xD800 + (n - 0x10000) / 0x400, 0xDC00 + (n - 0x10000) % 0x400]

/-- The character that a high and a low surrogate stand for. -/
def join (high low : Nat) : Char :=
  Char.ofNat (0x10000 + (high - 0xD800) * 0x400 + (low - 0xDC00))

/-- Reads units back into characters; a surrogate outside a pair has no reading. -/
def decode : List Nat → Option (List Char)
  | [] => some []
  | [unit] => if isHigh unit || isLow unit then none else some [Char.ofNat unit]
  | unit :: next :: rest =>
    if isHigh unit then
      if isLow next then (decode rest).map (join unit next :: ·) else none
    else if isLow unit then none
    else (decode (next :: rest)).map (Char.ofNat unit :: ·)

end DocSheet.Text.Utf16
