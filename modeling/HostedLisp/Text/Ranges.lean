/-!
# Sets of characters given by ranges

A property of characters is tabulated as the ascending list of its code point ranges, ends
included. Main definition: `Text.inRanges`.
-/

namespace HostedLisp.Text

/-- Whether `code` lies in one of the ranges, which are listed in ascending order. -/
def inRanges (code : Nat) : List (Nat × Nat) → Bool
  | [] => false
  | (low, high) :: rest => low ≤ code && (code ≤ high || inRanges code rest)

end HostedLisp.Text
