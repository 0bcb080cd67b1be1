import JinkAnalysis.Settings.Basic

/-!
# Log levels

A log level is a number that names stand for. A level is set by its name in any case; no name, and a
name that stands for nothing, leave it as it is.
-/

namespace JinkAnalysis

/-- A log level; what is less grave than it is not logged. -/
abbrev LogLevel := Nat

namespace LogLevel

/-- The level before any is set. -/
def initial : LogLevel := 30

/-- The level that a name in upper case stands for. -/
def ofName? (name : Text) : Option LogLevel :=
  let levels : List (String × LogLevel) := [("CRITICAL", 50), ("FATAL", 50), ("ERROR", 40),
    ("WARN", 30), ("WARNING", 30), ("INFO", 20), ("DEBUG", 10), ("NOTSET", 0)]
  (levels.find? fun level => decide (level.1.toList = name)).map (·.2)

/-- The level after one has been set by name. -/
def set (level : LogLevel) (name : Text) : LogLevel := (ofName? name.upper).getD level

/-- The level after it has been set by a value, which must be a text unless it counts as nothing. -/
def setBy? (level : LogLevel) (v : Value) : Option LogLevel :=
  if v.isNothing then some level else v.text?.map (set level)

end LogLevel

end JinkAnalysis
