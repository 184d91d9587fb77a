/-!
# Character properties as ranges

A property of characters is a list of closed ranges of code points.
-/

set_option autoImplicit false

namespace ClrNames.Text

abbrev Ranges := List (Nat × Nat)

namespace Ranges

def holds (ranges : Ranges) (c : Char) : Bool :=
  ranges.any fun range => range.1 ≤ c.toNat && c.toNat ≤ range.2

end Ranges

end ClrNames.Text
