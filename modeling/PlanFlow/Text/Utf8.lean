import PlanFlow.Text.Basic

/-!
UTF-8. Encoding is generalized: a surrogate takes three octets like its neighbours. Decoding accepts that
form of a surrogate and otherwise only well-formed sequences; a fault names the octets that are wrong.
-/

set_option autoImplicit false

namespace PlanFlow

structure OctetFault where
  start : Nat
  count : Nat
  first : UInt8
  reason : Text
deriving DecidableEq

namespace Utf8

def encodeOne (c : CodePoint) : List UInt8 :=
  let n := c.val
  if n < 0x80 then [.ofNat n]
  else if n < 0x800 then [.ofNat (0xC0 + n / 0x40), .ofNat (0x80 + n % 0x40)]
  else if n < 0x10000 then
    [.ofNat (0xE0 + n / 0x1000), .ofNat (0x80 + n / 0x40 % 0x40), .ofNat (0x80 + n % 0x40)]
  else
    [.ofNat (0xF0 + n / 0x40000), .ofNat (0x80 + n / 0x1000 % 0x40), .ofNat (0x80 + n / 0x40 % 0x40),
      .ofNat (0x80 + n % 0x40)]

def encode (t : Text) : List UInt8 := t.flatMap encodeOne

def isContinuation (b : UInt8) : Bool := 0x80 ≤ b && b < 0xC0

/-- Whether the second octet of a longer sequence may follow its first: overlong forms and numbers above
U+10FFFF are excluded here. -/
def follows (first second : UInt8) : Bool :=
  isContinuation second &&
    !(first == 0xE0 && second < 0xA0) && !(first == 0xF0 && second < 0x90) &&
    !(first == 0xF4 && 0x90 ≤ second)

/-- A surrogate is only decoded when all of its three octets are there. -/
def opensSurrogate (first second : UInt8) : Bool := first == 0xED && 0xA0 ≤ second

def bits (b : UInt8) : Nat := b.toNat % 0x40

def push (n : Nat) : Except OctetFault Text → Except OctetFault Text
  | .ok t => .ok (CodePoint.ofNat n :: t)
  | .error fault => .error fault

def invalidStart (offset : Nat) (first : UInt8) : Except OctetFault Text :=
  .error ⟨offset, 1, first, "invalid start byte"⟩

def invalidContinuation (offset count : Nat) (first : UInt8) : Except OctetFault Text :=
  .error ⟨offset, count, first, "invalid continuation byte"⟩

def unexpectedEnd (offset count : Nat) (first : UInt8) : Except OctetFault Text :=
  .error ⟨offset, count, first, "unexpected end of data"⟩

def decodeFrom (start : Nat) : List UInt8 → Except OctetFault Text
  | [] => .ok []
  | a :: rest =>
      if a < 0x80 then push a.toNat (decodeFrom (start + 1) rest)
      else if a < 0xC2 || 0xF5 ≤ a then invalidStart start a
      else
        match rest with
        | [] => unexpectedEnd start 1 a
        | b :: rest =>
            if !follows a b then invalidContinuation start 1 a
            else if a < 0xE0 then
              push ((a.toNat - 0xC0) * 0x40 + bits b) (decodeFrom (start + 2) rest)
            else
              match rest with
              | [] =>
                  if opensSurrogate a b then invalidContinuation start 1 a else unexpectedEnd start 2 a
              | c :: rest =>
                  if !isContinuation c then
                    invalidContinuation start (if opensSurrogate a b then 1 else 2) a
                  else if a < 0xF0 then
                    push (((a.toNat - 0xE0) * 0x40 + bits b) * 0x40 + bits c)
                      (decodeFrom (start + 3) rest)
                  else
                    match rest with
                    | [] => unexpectedEnd start 3 a
                    | d :: rest =>
                        if !isContinuation d then invalidContinuation start 3 a
                        else
                          push ((((a.toNat - 0xF0) * 0x40 + bits b) * 0x40 + bits c) * 0x40 + bits d)
                            (decodeFrom (start + 4) rest)

def decode (octets : List UInt8) : Except OctetFault Text := decodeFrom 0 octets

end Utf8

end PlanFlow
