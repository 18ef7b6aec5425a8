/-!
# Character classes given by ranges

A class of characters is a list of ranges of code points, both ends included.
-/
namespace TypeRecovery.Text

def inRanges (ranges : List (Nat × Nat)) (c : Char) : Bool :=
  ranges.any fun r => r.1 ≤ c.toNat && c.toNat ≤ r.2

end TypeRecovery.Text
