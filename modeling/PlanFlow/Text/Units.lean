import PlanFlow.Text.Basic

/-!
The UTF-16 code units of a text, the order key of object members in canonical JSON. Code points above
U+FFFF take two units and so come before U+E000 to U+FFFF in this order.
-/

set_option autoImplicit false

namespace PlanFlow

namespace CodePoint

def units (c : CodePoint) : List Nat :=
  if c.val < 0x10000 then [c.val]
  else [0xD800 + (c.val - 0x10000) / 0x400, 0xDC00 + (c.val - 0x10000) % 0x400]

end CodePoint

namespace Text

def units (t : Text) : List Nat := t.flatMap CodePoint.units

end Text

end PlanFlow
