import PluginHost.Failure

/-!
# Logging

Levels, entries and loggers.  What the library does is logged in full; a logger takes the
entries at or above its level.
-/

namespace PluginHost

/-- How severe an entry is.  A logger at `off` takes none. -/
inductive LogLevel where
  | trace | debug | info | warning | error | critical | off
  deriving DecidableEq, Repr

namespace LogLevel

/-- The place of a level among the levels. -/
def rank : LogLevel → Nat
  | trace => 0
  | debug => 1
  | info => 2
  | warning => 3
  | error => 4
  | critical => 5
  | off => 6

/-- The name of a level. -/
def name : LogLevel → String
  | trace => "trace"
  | debug => "debug"
  | info => "info"
  | warning => "warning"
  | error => "error"
  | critical => "critical"
  | off => "off"

/-- The level of a name; two levels have a short name too. -/
def ofName? : String → Option LogLevel
  | "trace" => some trace
  | "debug" => some debug
  | "info" => some info
  | "warning" => some warning
  | "warn" => some warning
  | "error" => some error
  | "err" => some error
  | "critical" => some critical
  | "off" => some off
  | _ => none

/-- The level of a name; any other text is an invalid argument. -/
def ofName (name : String) : Except Failure LogLevel :=
  match ofName? name with
  | some level => .ok level
  | none => .error (.invalidArgument s!"Unknown log level: {name}")

end LogLevel

/-- A message with its level. -/
structure LogEntry where
  level : LogLevel
  message : String
  deriving DecidableEq, Repr

/-- Where entries go, and from which level on. -/
structure Logger where
  name : String
  level : LogLevel
  /-- Whether entries are written to the standard error stream. -/
  toStandardError : Bool := false
  deriving DecidableEq, Repr

namespace Logger

/-- The logger in place until another one is installed. -/
def standard : Logger where
  name := "hostext"
  level := .info
  toStandardError := true

/-- Whether the logger takes entries of a level. -/
def takes (logger : Logger) (level : LogLevel) : Bool := logger.level.rank ≤ level.rank

/-- The entries that the logger takes. -/
def select (logger : Logger) (entries : List LogEntry) : List LogEntry :=
  entries.filter fun e => logger.takes e.level

/-- The logger at the level of a name. -/
def withLevel (logger : Logger) (level : String) : Except Failure Logger := do
  return { logger with level := ← LogLevel.ofName level }

end Logger

end PluginHost
