/-!
# Ranges of code points

A class of characters is a list of closed ranges of code points.
-/

namespace DocSheet.Text

def inRanges (ranges : List (Nat × Nat)) (c : Char) : Bool :=
  ranges.any fun (low, high) => decide (low ≤ c.toNat ∧ c.toNat ≤ high)

end DocSheet.Text
