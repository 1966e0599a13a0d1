/-!
Sets of characters as lists of ranges of their numbers.
-/

namespace SaveContainer.Text

/-- Every range has its first and its last number. -/
abbrev Ranges := List (Nat × Nat)

def Ranges.holds (ranges : Ranges) (c : Char) : Bool :=
  ranges.any fun range => range.1 ≤ c.toNat && c.toNat ≤ range.2

end SaveContainer.Text
