import PlanFlow.Number.Decimal
import PlanFlow.Number.Shortest

/-!
How a floating-point number is laid out. A layout fixes where positional notation ends, how a whole number
is marked, and how an exponent is written; the digits are always the shortest that read back.
-/

set_option autoImplicit false

namespace PlanFlow

namespace Binary64

structure Layout where
  /-- Smallest power of ten of the first digit that is written positionally. -/
  least : Int
  /-- First power of ten of the first digit that is no longer written positionally. -/
  bound : Int
  wholeMark : Text
  exponentWidth : Nat
  signedZero : Bool

def positional (layout : Layout) (digits : Text) (power : Int) : Text :=
  let point := power + 1
  if point ≤ 0 then
    ("0." : Text) ++ List.replicate (-point).toNat ('0' : CodePoint) ++ digits
  else if (digits.length : Int) ≤ point then
    digits ++ List.replicate (point.toNat - digits.length) ('0' : CodePoint) ++ layout.wholeMark
  else digits.take point.toNat ++ ("." : Text) ++ digits.drop point.toNat

def scientific (layout : Layout) (digits : Text) (power : Int) : Text :=
  let sign : Text := if power < 0 then "-" else "+"
  let size := Decimal.ofNat power.natAbs
  let tail := digits.drop 1
  digits.take 1 ++ (if tail.isEmpty then [] else ("." : Text) ++ tail) ++ ("e" : Text) ++ sign ++
    List.replicate (layout.exponentWidth - size.length) ('0' : CodePoint) ++ size

def render (layout : Layout) (x : Binary64) : Text :=
  if x.isZero then
    (if x.negative && layout.signedZero then ("-" : Text) else []) ++ ("0" : Text) ++ layout.wholeMark
  else
    let numeral := x.shortest
    let digits := Decimal.ofNat numeral.digits
    let power := numeral.exponent + digits.length - 1
    (if x.negative then ("-" : Text) else []) ++
      if layout.least ≤ power && power < layout.bound then positional layout digits power
      else scientific layout digits power

def freeForm : Layout := ⟨-4, 16, ".0", 2, true⟩

def specialName (x : Binary64) : Text :=
  if x.isNan then "nan" else if x.negative then "-inf" else "inf"

def toText (x : Binary64) : Text := if x.isFinite then render freeForm x else x.specialName

end Binary64

end PlanFlow
