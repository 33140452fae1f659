import PlanFlow.Text.Digit

/-!
Whole numbers in decimal digits: no leading zero, a minus sign in front of a negative one. Reading the
digits of a natural number back gives the number.
-/

set_option autoImplicit false

namespace PlanFlow

namespace Decimal

def ofNat (n : Nat) : Text := (Nat.toDigits 10 n).map CodePoint.ofChar

def ofInt : Int → Text
  | .ofNat n => ofNat n
  | .negSucc n => ("-" : Text) ++ ofNat (n + 1)

def value (digits : Text) : Nat := digits.foldl (fun v c => 10 * v + (c.val - 0x30)) 0

def valueOfAnyScript (digits : Text) : Nat :=
  digits.foldl (fun v c => 10 * v + (CodePoint.digitValue? c).getD 0) 0

def hex (width n : Nat) : Text :=
  let digits := (Nat.toDigits 16 n).map CodePoint.ofChar
  List.replicate (width - digits.length) ('0' : CodePoint) ++ digits

/-- No digit string longer than this is turned into a number, and no number into one. -/
def digitLimit : Nat := 4300

def printable (n : Int) : Bool := (ofNat n.natAbs).length ≤ digitLimit

end Decimal

end PlanFlow
