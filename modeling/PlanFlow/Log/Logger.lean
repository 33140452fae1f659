import PlanFlow.Log.Line
import PlanFlow.Table

/-!
Loggers by name, each with the least level that it writes. A logger is configured once: later
configurations of its name change nothing. Names form a tree by their dots, and a logger at level zero takes
its level from the nearest logger above it that has one.
-/

set_option autoImplicit false

namespace PlanFlow

abbrev Loggers := Table Int

namespace Loggers

def configure (name : Text) (level : Int) (loggers : Loggers) : Loggers :=
  if Table.hasKey name loggers then loggers else loggers ++ [(name, level)]

def rootLevel : Int := 30

def above : Text → List Text
  | [] => []
  | c :: rest =>
      let deeper := (above rest).map (c :: ·)
      if c = '.' then [] :: deeper else deeper

def levelOf? (loggers : Loggers) (name : Text) : Option Int :=
  (Table.get? name loggers).bind fun level => if level = 0 then none else some level

def levelOf (loggers : Loggers) (name : Text) : Int :=
  ((name :: (above name).reverse).findSome? (levelOf? loggers)).getD rootLevel

/-- Whether a logger writes a record. Levels from zero down are never written. -/
def writes (loggers : Loggers) (r : LogRecord) : Bool :=
  0 < r.level && loggers.levelOf r.logger ≤ r.level

def output (loggers : Loggers) (time : Text) (records : List LogRecord) : Text :=
  logText time (records.filter loggers.writes)

end Loggers

end PlanFlow
