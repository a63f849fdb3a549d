/-!
# Ranges of characters

A class of characters is a list of closed ranges of code points.
-/

namespace Scheme.Text

/-- Closed ranges of code points, ascending. -/
abbrev CharRanges := List (Nat × Nat)

def CharRanges.holds (ranges : CharRanges) (c : Char) : Bool :=
  ranges.any fun r => r.1 ≤ c.toNat && c.toNat ≤ r.2

end Scheme.Text
