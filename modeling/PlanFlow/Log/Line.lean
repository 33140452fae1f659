import PlanFlow.Log.Level

/-!
Log lines: when, by which logger, at which level and what, between bars.
-/

set_option autoImplicit false

namespace PlanFlow

structure LogRecord where
  logger : Text
  level : Int
  message : Text
deriving DecidableEq

namespace LogRecord

def line (time : Text) (r : LogRecord) : Text :=
  Text.join " | " [time, r.logger, LogLevel.display r.level, r.message]

end LogRecord

def logText (time : Text) (records : List LogRecord) : Text :=
  records.flatMap fun r => r.line time ++ ("\n" : Text)

end PlanFlow
