import PlanFlow.Text.Basic

/-!
Blank characters. Two sets are in use: the one that trimming of names, keys and prompts goes by, and the
smaller `White_Space` property of the Unicode character database, which numerals given as text go by.
-/

set_option autoImplicit false

namespace PlanFlow

namespace CodePoint

def isWhiteSpace (c : CodePoint) : Bool :=
  (0x09 ≤ c.val && c.val ≤ 0x0D) || c.val == 0x20 || c.val == 0x85 || c.val == 0xA0 ||
  c.val == 0x1680 || (0x2000 ≤ c.val && c.val ≤ 0x200A) || c.val == 0x2028 || c.val == 0x2029 ||
  c.val == 0x202F || c.val == 0x205F || c.val == 0x3000

/-- White space and the four ASCII information separators. -/
def isBlank (c : CodePoint) : Bool :=
  isWhiteSpace c || (0x1C ≤ c.val && c.val ≤ 0x1F)

theorem is_blank_of_white_space (c : CodePoint) (white : isWhiteSpace c = true) : isBlank c = true := by
  simp [isBlank, white]

end CodePoint

namespace Text

def trim (t : Text) : Text := trimWhile CodePoint.isBlank t

end Text

end PlanFlow
