/-!
Sets of code points, given as a list of inclusive ranges.
-/

namespace EntitySchema.Text

abbrev CodeRange := Nat × Nat

def inRanges (ranges : List CodeRange) (code : Nat) : Bool :=
  ranges.any fun range => range.1 ≤ code && code ≤ range.2

end EntitySchema.Text
