import PlanFlow.Number.Decimal
import PlanFlow.Text.Blank

/-!
The levels of log lines. Five have names; any other number is a level too.
-/

set_option autoImplicit false

namespace PlanFlow

inductive LogLevel where
  | debug
  | info
  | warning
  | error
  | critical
deriving DecidableEq

namespace LogLevel

def name : LogLevel → Text
  | .debug => "DEBUG"
  | .info => "INFO"
  | .warning => "WARNING"
  | .error => "ERROR"
  | .critical => "CRITICAL"

def number : LogLevel → Nat
  | .debug => 10
  | .info => 20
  | .warning => 30
  | .error => 40
  | .critical => 50

def all : List LogLevel := [.debug, .info, .warning, .error, .critical]

def colour : LogLevel → Nat
  | .debug => 36
  | .info => 32
  | .warning => 33
  | .error => 31
  | .critical => 35

/-- Capital letters; the dotless i has the capital of the letter i. -/
def capitals (t : Text) : Text :=
  t.map fun c => if c.val = 0x131 then 'I' else CodePoint.toUpper c

def ofText? (t : Text) : Option LogLevel := all.find? fun level => level.name == capitals t.trim

def ofNumber? (n : Int) : Option LogLevel := all.find? fun level => (level.number : Int) == n

def coloured (level : LogLevel) : Text :=
  Text.concat ["\x1b[", Decimal.ofNat level.colour, "m", level.name, "\x1b[0m"]

def display (n : Int) : Text :=
  match ofNumber? n with
  | some level => level.coloured
  | none => if n = 0 then "NOTSET" else ("Level " : Text) ++ Decimal.ofInt n

end LogLevel

end PlanFlow
