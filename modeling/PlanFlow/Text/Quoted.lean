import PlanFlow.Number.Decimal
import PlanFlow.Text.Printable

/-!
Quoted texts, as log lines show them. Single quotes enclose the text unless it holds a single quote and
no double quote. What does not print is shown by its number.
-/

set_option autoImplicit false

namespace PlanFlow

namespace Text

def enclosingQuote (t : Text) : CodePoint :=
  if t.contains '\'' && !t.contains '"' then '"' else '\''

def quoteOne (quote c : CodePoint) : Text :=
  if c = quote || c = '\\' then ['\\', c]
  else if c = '\t' then "\\t"
  else if c = '\n' then "\\n"
  else if c = '\r' then "\\r"
  else if CodePoint.isPrintable c then [c]
  else if c.val < 0x100 then ("\\x" : Text) ++ Decimal.hex 2 c.val
  else if c.val < 0x10000 then ("\\u" : Text) ++ Decimal.hex 4 c.val
  else ("\\U" : Text) ++ Decimal.hex 8 c.val

def quoted (t : Text) : Text :=
  let quote := enclosingQuote t
  [quote] ++ t.flatMap (quoteOne quote) ++ [quote]

end Text

end PlanFlow
