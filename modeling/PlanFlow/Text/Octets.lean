import PlanFlow.Number.Decimal
import PlanFlow.Text.Utf8

/-!
Octets that hold text in an encoding they do not name. A byte order mark at the start decides; without
one, the places of zero octets among the first four do, since JSON text starts with ASCII.
-/

set_option autoImplicit false

namespace PlanFlow

namespace Octets

inductive Encoding where
  | utf8
  | utf16 (bigEndian : Bool)
  | utf32 (bigEndian : Bool)
deriving DecidableEq

def Encoding.name : Encoding → Text
  | .utf8 => "utf-8"
  | .utf16 false => "utf-16-le"
  | .utf16 true => "utf-16-be"
  | .utf32 false => "utf-32-le"
  | .utf32 true => "utf-32-be"

def detect : List UInt8 → Encoding × Nat
  | 0x00 :: 0x00 :: 0xFE :: 0xFF :: _ => (.utf32 true, 4)
  | 0xFF :: 0xFE :: 0x00 :: 0x00 :: _ => (.utf32 false, 4)
  | 0xFE :: 0xFF :: _ => (.utf16 true, 2)
  | 0xFF :: 0xFE :: _ => (.utf16 false, 2)
  | 0xEF :: 0xBB :: 0xBF :: _ => (.utf8, 3)
  | a :: b :: c :: d :: _ =>
      if a = 0 then (if b = 0 then .utf32 true else .utf16 true, 0)
      else if b = 0 then (if c = 0 && d = 0 then .utf32 false else .utf16 false, 0)
      else (.utf8, 0)
  | [a, b] => (if a = 0 then .utf16 true else if b = 0 then .utf16 false else .utf8, 0)
  | _ => (.utf8, 0)

/-- Code points of UTF-16 units; a surrogate without its partner stands for itself. -/
def joinUnits : List Nat → Text
  | [] => []
  | [a] => [CodePoint.ofNat a]
  | a :: b :: rest =>
      let high := CodePoint.ofNat a
      let low := CodePoint.ofNat b
      if CodePoint.isHighSurrogate high && CodePoint.isLowSurrogate low then
        CodePoint.joinSurrogates high low :: joinUnits rest
      else high :: joinUnits (b :: rest)

def pairs (bigEndian : Bool) : List UInt8 → List Nat × Option UInt8
  | [] => ([], none)
  | [a] => ([], some a)
  | a :: b :: rest =>
      let (units, left) := pairs bigEndian rest
      ((if bigEndian then a.toNat * 0x100 + b.toNat else b.toNat * 0x100 + a.toNat) :: units, left)

def decode16 (bigEndian : Bool) (start : Nat) (octets : List UInt8) : Except OctetFault Text :=
  match pairs bigEndian octets with
  | (units, none) => .ok (joinUnits units)
  | (_, some left) => .error ⟨start + octets.length - 1, 1, left, "truncated data"⟩

def decode32 (bigEndian : Bool) (start : Nat) : List UInt8 → Except OctetFault Text
  | [] => .ok []
  | a :: b :: c :: d :: rest =>
      let n :=
        if bigEndian then ((a.toNat * 0x100 + b.toNat) * 0x100 + c.toNat) * 0x100 + d.toNat
        else ((d.toNat * 0x100 + c.toNat) * 0x100 + b.toNat) * 0x100 + a.toNat
      if n < 0x110000 then Utf8.push n (decode32 bigEndian (start + 4) rest)
      else .error ⟨start, 4, a, "code point not in range(0x110000)"⟩
  | a :: rest => .error ⟨start, rest.length + 1, a, "truncated data"⟩

/-- The text that the octets hold. Offsets of faults count from the first octet, in UTF-8 from behind the
byte order mark. -/
def decode (octets : List UInt8) : Except (Encoding × OctetFault) Text :=
  let (encoding, mark) := detect octets
  let body := octets.drop mark
  Except.mapError (encoding, ·) <|
    match encoding with
    | .utf8 => Utf8.decode body
    | .utf16 bigEndian => decode16 bigEndian mark body
    | .utf32 bigEndian => decode32 bigEndian mark body

def report (encoding : Encoding) (fault : OctetFault) : Text :=
  let codec := Text.concat ["'", encoding.name, "' codec can't decode "]
  let place :=
    if fault.count = 1 then
      Text.concat ["byte 0x", Decimal.hex 2 fault.first.toNat, " in position ", Decimal.ofNat fault.start]
    else
      Text.concat ["bytes in position ", Decimal.ofNat fault.start, "-",
        Decimal.ofNat (fault.start + fault.count - 1)]
  Text.concat [codec, place, ": ", fault.reason]

end Octets

end PlanFlow
