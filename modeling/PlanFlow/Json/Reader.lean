import PlanFlow.Json.Basic
import PlanFlow.Number.Decimal

/-!
Reading JSON text. A fault carries the part of the text it stands in front of, from which its line and
column follow. Numbers with a fraction or an exponent are floating-point numbers, others whole numbers;
`NaN` and the infinities are accepted by name. Whole numbers with too many digits are refused.
-/

set_option autoImplicit false

namespace PlanFlow

namespace Json

inductive Fault where
  | expectedValue
  | expectedKey
  | expectedColon
  | expectedComma
  | unterminatedText
  | controlCharacter
  | unknownEscape
  | malformedUnicodeEscape
  | extraData
  | byteOrderMark
deriving DecidableEq

def Fault.message : Fault → Text
  | .expectedValue => "Expecting value"
  | .expectedKey => "Expecting property name enclosed in double quotes"
  | .expectedColon => "Expecting ':' delimiter"
  | .expectedComma => "Expecting ',' delimiter"
  | .unterminatedText => "Unterminated string starting at"
  | .controlCharacter => "Invalid control character at"
  | .unknownEscape => "Invalid \\escape"
  | .malformedUnicodeEscape => "Invalid \\uXXXX escape"
  | .extraData => "Extra data"
  | .byteOrderMark => "Unexpected UTF-8 BOM (decode using utf-8-sig)"

inductive ReadError where
  | malformed (fault : Fault) (rest : Text)
  | tooManyDigits (count : Nat)
deriving DecidableEq

abbrev Read (α : Type) := Except ReadError (α × Text)

def isGap (c : CodePoint) : Bool := c = ' ' || c = '\t' || c = '\n' || c = '\r'

def skipGap (t : Text) : Text := t.dropWhile isGap

def hexDigit? (c : CodePoint) : Option Nat :=
  if CodePoint.isDigit c then some (c.val - 0x30)
  else if 0x61 ≤ c.val && c.val ≤ 0x66 then some (c.val - 0x57)
  else if 0x41 ≤ c.val && c.val ≤ 0x46 then some (c.val - 0x37)
  else none

def unit? (a b c d : CodePoint) : Option CodePoint := do
  let a ← hexDigit? a
  let b ← hexDigit? b
  let c ← hexDigit? c
  let d ← hexDigit? d
  return CodePoint.ofNat (((a * 16 + b) * 16 + c) * 16 + d)

def shortEscape? (c : CodePoint) : Option CodePoint :=
  if c = '"' || c = '\\' || c = '/' then some c
  else if c = 'b' then some (CodePoint.ofNat 0x08)
  else if c = 'f' then some (CodePoint.ofNat 0x0C)
  else if c = 'n' then some (CodePoint.ofNat 0x0A)
  else if c = 'r' then some (CodePoint.ofNat 0x0D)
  else if c = 't' then some (CodePoint.ofNat 0x09)
  else none

inductive Piece where
  | plain (c : CodePoint)
  | unit (c : CodePoint)
deriving DecidableEq

def assemble : List Piece → Text
  | [] => []
  | .plain c :: rest => c :: assemble rest
  | .unit c :: .unit d :: rest =>
      if CodePoint.isHighSurrogate c && CodePoint.isLowSurrogate d then
        CodePoint.joinSurrogates c d :: assemble rest
      else c :: assemble (.unit d :: rest)
  | .unit c :: rest => c :: assemble rest

def push (piece : Piece) : Read (List Piece) → Read (List Piece)
  | .ok (pieces, rest) => .ok (piece :: pieces, rest)
  | .error e => .error e

/-- Reads the inside of a text up to its closing quote; `opening` is the text from its opening quote on.
Nothing ends with a numeric escape, so at least one more code point has to follow it. -/
def readPieces (opening : Text) : Text → Read (List Piece)
  | [] => .error (.malformed .unterminatedText opening)
  | c :: rest =>
      if c = '"' then .ok ([], rest)
      else if c = '\\' then
        match rest with
        | [] => .error (.malformed .unterminatedText opening)
        | letter :: after =>
            if letter = 'u' then
              match after with
              | a :: b :: d :: e :: more =>
                  if more.isEmpty then .error (.malformed .malformedUnicodeEscape (letter :: after))
                  else
                    match unit? a b d e with
                    | none => .error (.malformed .malformedUnicodeEscape (letter :: after))
                    | some value => push (.unit value) (readPieces opening more)
              | _ => .error (.malformed .malformedUnicodeEscape (letter :: after))
            else
              match shortEscape? letter with
              | some value => push (.plain value) (readPieces opening after)
              | none => .error (.malformed .unknownEscape (c :: rest))
      else if c.val ≤ 0x1F then .error (.malformed .controlCharacter (c :: rest))
      else push (.plain c) (readPieces opening rest)

def readText (opening t : Text) : Read Text :=
  match readPieces opening t with
  | .ok (pieces, rest) => .ok (assemble pieces, rest)
  | .error e => .error e

def spanDigits (t : Text) : Text × Text := (t.takeWhile CodePoint.isDigit, t.dropWhile CodePoint.isDigit)

def readFraction (t : Text) : Option Text × Text :=
  match t with
  | point :: rest =>
      let (digits, rest) := spanDigits rest
      if point = '.' && !digits.isEmpty then (some digits, rest) else (none, t)
  | [] => (none, t)

def readExponent (t : Text) : Option Int × Text :=
  match t with
  | mark :: rest =>
      if mark = 'e' || mark = 'E' then
        let (negative, body) : Bool × Text :=
          match rest with
          | sign :: more => if sign = '-' then (true, more) else if sign = '+' then (false, more) else (false, rest)
          | [] => (false, rest)
        let (digits, after) := spanDigits body
        if digits.isEmpty then (none, t)
        else
          let size : Int := Decimal.value digits
          (some (if negative then -size else size), after)
      else (none, t)
  | [] => (none, t)

def readWhole (t : Text) : Option (Text × Text) :=
  match t with
  | c :: rest =>
      if c = '0' then some ([c], rest)
      else if CodePoint.isDigit c then some (spanDigits t)
      else none
  | [] => none

def signed (negative : Bool) (n : Nat) : Int := if negative then -(n : Int) else n

def readNumber (t : Text) : Read Json :=
  let (negative, body) : Bool × Text :=
    match t with
    | c :: rest => if c = '-' then (true, rest) else (false, t)
    | [] => (false, t)
  match readWhole body with
  | none => .error (.malformed .expectedValue t)
  | some (whole, rest) =>
      match readFraction rest with
      | (fraction, rest) =>
          match readExponent rest with
          | (exponent, rest) =>
              if fraction.isNone && exponent.isNone then
                if whole.length > Decimal.digitLimit then .error (.tooManyDigits whole.length)
                else .ok (.int (signed negative (Decimal.value whole)), rest)
              else
                let places := fraction.getD []
                let digits := Decimal.value (whole ++ places)
                .ok (.float (Binary64.ofDecimal negative digits (exponent.getD 0 - places.length)), rest)

def words : List (Text × Json) := [
  ("null", .null), ("true", .bool true), ("false", .bool false), ("NaN", .float Binary64.nan),
  ("Infinity", .float (Binary64.infinity false)), ("-Infinity", .float (Binary64.infinity true))]

def readWord (t : Text) : Option (Json × Text) :=
  words.findSome? fun entry => (Text.after? entry.1 t).map fun rest => (entry.2, rest)

mutual

/-- Reads one value. The fuel bounds nesting and length together. -/
def readValue : Nat → Text → Read Json
  | 0, t => .error (.malformed .expectedValue t)
  | _ + 1, [] => .error (.malformed .expectedValue [])
  | fuel + 1, c :: rest =>
      if c = '"' then
        match readText (c :: rest) rest with
        | .ok (value, rest) => .ok (.str value, rest)
        | .error e => .error e
      else if c = '[' then
        match skipGap rest with
        | [] => .error (.malformed .expectedValue [])
        | d :: after =>
            if d = ']' then .ok (.arr [], after)
            else
              match readItems fuel (d :: after) with
              | .ok (items, rest) => .ok (.arr items, rest)
              | .error e => .error e
      else if c = '{' then
        match skipGap rest with
        | [] => .error (.malformed .expectedKey [])
        | d :: after =>
            if d = '}' then .ok (.obj [], after)
            else
              match readMembers fuel (d :: after) with
              | .ok (members, rest) => .ok (.obj (Table.ofPairs members), rest)
              | .error e => .error e
      else
        match readWord (c :: rest) with
        | some found => .ok found
        | none => readNumber (c :: rest)

def readItems : Nat → Text → Read (List Json)
  | 0, t => .error (.malformed .expectedValue t)
  | fuel + 1, t =>
      match readValue fuel t with
      | .error e => .error e
      | .ok (item, rest) =>
          match skipGap rest with
          | [] => .error (.malformed .expectedComma [])
          | c :: after =>
              if c = ']' then .ok ([item], after)
              else if c = ',' then
                match readItems fuel (skipGap after) with
                | .error e => .error e
                | .ok (items, rest) => .ok (item :: items, rest)
              else .error (.malformed .expectedComma (c :: after))

def readMembers : Nat → Text → Read (List (Text × Json))
  | 0, t => .error (.malformed .expectedKey t)
  | _ + 1, [] => .error (.malformed .expectedKey [])
  | fuel + 1, quote :: t =>
      if quote = '"' then
        match readText (quote :: t) t with
        | .error e => .error e
        | .ok (key, rest) =>
            match skipGap rest with
            | [] => .error (.malformed .expectedColon [])
            | colon :: after =>
                if colon = ':' then
                  match readValue fuel (skipGap after) with
                  | .error e => .error e
                  | .ok (value, rest) =>
                      match skipGap rest with
                      | [] => .error (.malformed .expectedComma [])
                      | c :: after =>
                          if c = '}' then .ok ([(key, value)], after)
                          else if c = ',' then
                            match readMembers fuel (skipGap after) with
                            | .error e => .error e
                            | .ok (members, rest) => .ok ((key, value) :: members, rest)
                          else .error (.malformed .expectedComma (c :: after))
                else .error (.malformed .expectedColon (colon :: after))
      else .error (.malformed .expectedKey (quote :: t))

end

def read (t : Text) : Except ReadError Json :=
  match readValue (2 * t.length + 2) (skipGap t) with
  | .error e => .error e
  | .ok (value, rest) =>
      match skipGap rest with
      | [] => .ok value
      | c :: after => .error (.malformed .extraData (c :: after))

def readUnmarked (t : Text) : Except ReadError Json :=
  match t with
  | c :: _ => if c.val = 0xFEFF then .error (.malformed .byteOrderMark t) else read t
  | [] => read t

def place (whole rest : Text) : Text :=
  let offset := whole.length - rest.length
  let before := whole.take offset
  let line := before.count ('\n' : CodePoint) + 1
  let column := (before.reverse.takeWhile fun c : CodePoint => c ≠ '\n').length + 1
  Text.concat ["line ", Decimal.ofNat line, " column ", Decimal.ofNat column, " (char ",
    Decimal.ofNat offset, ")"]

def Fault.report (fault : Fault) (whole rest : Text) : Text :=
  Text.concat [fault.message, ": ", place whole rest]

end Json

end PlanFlow
