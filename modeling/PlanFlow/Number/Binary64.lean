/-!
Binary floating-point numbers of 64 bits as data: sign, exponent field and fraction field. A decimal
numeral is rounded to the nearest of them in exact natural arithmetic, a tie going to the even neighbour.
-/

set_option autoImplicit false

namespace PlanFlow

abbrev fractionCount : Nat := 0x10000000000000

structure Binary64 where
  negative : Bool
  exponent : Fin 2048
  fraction : Fin fractionCount
deriving DecidableEq

namespace Binary64

def noExponent : Fin 2048 := ⟨0, by decide⟩

def fullExponent : Fin 2048 := ⟨2047, by decide⟩

def noFraction : Fin fractionCount := ⟨0, by decide⟩

def zero (negative : Bool) : Binary64 := ⟨negative, noExponent, noFraction⟩

def infinity (negative : Bool) : Binary64 := ⟨negative, fullExponent, noFraction⟩

def nan : Binary64 := ⟨false, fullExponent, ⟨0x8000000000000, by decide⟩⟩

def isFinite (x : Binary64) : Bool := x.exponent != fullExponent

def isNan (x : Binary64) : Bool := x.exponent == fullExponent && x.fraction != noFraction

def isZero (x : Binary64) : Bool := x.exponent == noExponent && x.fraction == noFraction

def significand (x : Binary64) : Nat :=
  if x.exponent.val = 0 then x.fraction.val else fractionCount + x.fraction.val

def scale (x : Binary64) : Int := (max x.exponent.val 1 : Nat) - 1075

def roundHalfEven (num den : Nat) : Nat :=
  let below := num / den
  let rest := num % den
  if 2 * rest < den then below
  else if den < 2 * rest then below + 1
  else if below % 2 = 0 then below
  else below + 1

/-- The number with magnitude `significand * 2 ^ (shift - 1074)`, for a significand of at most 53 bits
or the next power of two, which is infinite when the exponent field has no room. -/
def pack (negative : Bool) (significand shift : Nat) : Binary64 :=
  if h : significand < fractionCount then ⟨negative, noExponent, ⟨significand, h⟩⟩
  else
    let carried :=
      if significand < 2 * fractionCount then (shift + 1, significand) else (shift + 2, fractionCount)
    if h : carried.1 < 2047 then
      ⟨negative, ⟨carried.1, Nat.lt_succ_of_lt h⟩,
        ⟨(carried.2 - fractionCount) % fractionCount, Nat.mod_lt _ (by decide)⟩⟩
    else infinity negative

def ofRatio (negative : Bool) (num den : Nat) : Binary64 :=
  let units := num * Nat.pow 2 1074
  let shift := (units / den).log2 - 52
  pack negative (roundHalfEven units (den * Nat.pow 2 shift)) shift

/-- The nearest number to `digits * 10 ^ exponent`. Far beyond the range of exponents the answer is known
without the power of ten. -/
def ofDecimal (negative : Bool) (digits : Nat) (exponent : Int) : Binary64 :=
  let size : Int := (Nat.toDigits 10 digits).length + exponent
  if digits = 0 || size < -340 then zero negative
  else if 320 < size then infinity negative
  else if 0 ≤ exponent then ofRatio negative (digits * Nat.pow 10 exponent.toNat) 1
  else ofRatio negative digits (Nat.pow 10 (-exponent).toNat)

def toInt? (x : Binary64) : Option Int :=
  let magnitude : Option Nat :=
    if 0 ≤ x.scale then some (x.significand * Nat.pow 2 x.scale.toNat)
    else
      let den := Nat.pow 2 (-x.scale).toNat
      if x.significand % den = 0 then some (x.significand / den) else none
  if x.isFinite then magnitude.map fun n => if x.negative then -(n : Int) else n else none

end Binary64

end PlanFlow
