/-! Sets of characters given by the code points where membership changes. -/

namespace CBindings.Text

def withinBoundaries (boundaries : List Nat) (c : Char) : Bool :=
  boundaries.countP (· ≤ c.toNat) % 2 == 1

end CBindings.Text
