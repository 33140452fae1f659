/-!
Texts are lists of Unicode code points. A text read from escapes can hold half of a surrogate pair on
its own, which `Char` cannot, so code points range over the whole code space.
-/

set_option autoImplicit false

namespace PlanFlow

abbrev CodePoint := Fin 0x110000

abbrev Text := List CodePoint

namespace CodePoint

def ofChar (c : Char) : CodePoint :=
  ⟨c.toNat, by
    have valid := c.valid
    simp only [UInt32.isValidChar, Nat.isValidChar] at valid
    have same : c.val.toNat = c.toNat := rfl
    omega⟩

def ofNat (n : Nat) : CodePoint :=
  if h : n < 0x110000 then ⟨n, h⟩ else ⟨0xFFFD, by decide⟩

instance : Coe Char CodePoint := ⟨ofChar⟩

def isHighSurrogate (c : CodePoint) : Bool := 0xD800 ≤ c.val && c.val ≤ 0xDBFF

def isLowSurrogate (c : CodePoint) : Bool := 0xDC00 ≤ c.val && c.val ≤ 0xDFFF

def isSurrogate (c : CodePoint) : Bool := 0xD800 ≤ c.val && c.val ≤ 0xDFFF

def joinSurrogates (high low : CodePoint) : CodePoint :=
  ofNat (0x10000 + (high.val - 0xD800) * 0x400 + (low.val - 0xDC00))

def isDigit (c : CodePoint) : Bool := 0x30 ≤ c.val && c.val ≤ 0x39

def isUpper (c : CodePoint) : Bool := 0x41 ≤ c.val && c.val ≤ 0x5A

def isLower (c : CodePoint) : Bool := 0x61 ≤ c.val && c.val ≤ 0x7A

def isAlphanumeric (c : CodePoint) : Bool := isDigit c || isUpper c || isLower c

def toLower (c : CodePoint) : CodePoint := if isUpper c then ofNat (c.val + 0x20) else c

def toUpper (c : CodePoint) : CodePoint := if isLower c then ofNat (c.val - 0x20) else c

end CodePoint

namespace Text

def ofString (s : String) : Text := s.toList.map CodePoint.ofChar

instance : Coe String Text := ⟨ofString⟩

def concat (parts : List Text) : Text := parts.flatten

def join (separator : Text) : List Text → Text
  | [] => []
  | [part] => part
  | part :: rest => part ++ separator ++ join separator rest

def hasSurrogate (t : Text) : Bool := t.any CodePoint.isSurrogate

/-- A lone surrogate gives way to three replacement characters, one for each octet it would take. -/
def replaceSurrogates (t : Text) : Text :=
  t.flatMap fun c => if CodePoint.isSurrogate c then List.replicate 3 (CodePoint.ofNat 0xFFFD) else [c]

def lower (t : Text) : Text := t.map CodePoint.toLower

def sameIgnoringCase (a b : Text) : Bool := lower a == lower b

def startsWith (t start : Text) : Bool := start.isPrefixOf t

def after? (start : Text) (t : Text) : Option Text :=
  if start.isPrefixOf t then some (t.drop start.length) else none

def trimWhile (test : CodePoint → Bool) (t : Text) : Text :=
  ((t.dropWhile test).reverse.dropWhile test).reverse

def orAbsent (t : Text) : Option Text := if t.isEmpty then none else some t

end Text

end PlanFlow
