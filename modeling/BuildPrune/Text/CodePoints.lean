/-!
# BuildPrune.Text.CodePoints

Sets of code points given by ranges, the form in which the Unicode properties are tabulated.
-/

namespace BuildPrune.Text

/-- A set of code points: closed ranges, in increasing order. -/
abbrev CodePoints := List (Nat × Nat)

/-- `c` lies in one of the ranges. -/
def CodePoints.has (table : CodePoints) (c : Char) : Bool :=
  table.any fun range => range.1 ≤ c.toNat && c.toNat ≤ range.2

end BuildPrune.Text
