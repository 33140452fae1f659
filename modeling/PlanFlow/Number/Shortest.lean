import PlanFlow.Number.Binary64

/-!
The shortest decimal numeral that reads back as a given number. The reals that round to the number form an
interval, closed exactly when the significand is even. For one digit, two digits and so on up to
seventeen, the two neighbours of the number on that decimal grid are tried; the first grid with a
neighbour inside the interval gives the digits, and of two neighbours inside the nearer is taken.
-/

set_option autoImplicit false

namespace PlanFlow

namespace Binary64

structure Interval where
  low : Nat
  middle : Nat
  high : Nat
  unit : Nat
  closed : Bool

namespace Interval

/-- The interval of a positive number. Below a power of two the next number is half as far away. -/
def around (x : Binary64) : Interval :=
  let below := if x.fraction.val = 0 && 1 < x.exponent.val then 1 else 2
  let low := 4 * x.significand - below
  let middle := 4 * x.significand
  let high := 4 * x.significand + 2
  let closed := x.significand % 2 == 0
  let power := x.scale - 2
  if 0 ≤ power then
    let factor := Nat.pow 2 power.toNat
    ⟨low * factor, middle * factor, high * factor, 1, closed⟩
  else ⟨low, middle, high, Nat.pow 2 (-power).toNat, closed⟩

def onGrid (i : Interval) (position : Int) : Interval :=
  if 0 ≤ position then { i with unit := i.unit * Nat.pow 10 position.toNat }
  else
    let factor := Nat.pow 10 (-position).toNat
    { i with low := i.low * factor, middle := i.middle * factor, high := i.high * factor }

def contains (i : Interval) (n : Nat) : Bool :=
  if i.closed then i.low ≤ n * i.unit && n * i.unit ≤ i.high
  else i.low < n * i.unit && n * i.unit < i.high

/-- The whole number of units in the interval that is nearest to its middle, among the two neighbours of
the middle; of two equally near ones the even. -/
def nearest? (i : Interval) : Option Nat :=
  let below := i.middle / i.unit
  let above := below + 1
  if i.contains below && i.contains above then some (roundHalfEven i.middle i.unit)
  else if i.contains below then some below
  else if i.contains above then some above
  else none

end Interval

def leadingPlaces : Nat → Nat → Nat → Nat
  | 0, _, _ => 1
  | fuel + 1, num, den => if den ≤ num * 10 then 1 else 1 + leadingPlaces fuel (num * 10) den

def decimalExponent (num den : Nat) : Int :=
  if den ≤ num then (Nat.toDigits 10 (num / den)).length - 1
  else -(leadingPlaces 400 num den : Int)

def searchGrids (i : Interval) : Nat → Int → Nat × Int
  | 0, position => (i.onGrid position |> fun g => g.middle / g.unit, position)
  | more + 1, position =>
      match (i.onGrid position).nearest? with
      | some digits => (digits, position)
      | none => searchGrids i more (position - 1)

structure Numeral where
  digits : Nat
  exponent : Int
deriving DecidableEq

def Numeral.reduce : Nat → Numeral → Numeral
  | 0, n => n
  | fuel + 1, n =>
      if n.digits != 0 && n.digits % 10 == 0 then reduce fuel ⟨n.digits / 10, n.exponent + 1⟩ else n

def shortest (x : Binary64) : Numeral :=
  let i := Interval.around x
  let found := searchGrids i 17 (decimalExponent i.middle i.unit)
  Numeral.reduce 20 ⟨found.1, found.2⟩

end Binary64

end PlanFlow
