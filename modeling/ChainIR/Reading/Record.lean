/-! # Log records

Reading a source leaves records of what was read. A record has a level, and a reader of the log
chooses the gravest levels that it wants to see. -/

namespace ChainIR

/-- The levels of records, the gravest first. -/
inductive LogLevel
  | error | warn | info | debug | trace
  deriving DecidableEq

namespace LogLevel

/-- The name of a level. -/
def text : LogLevel → String
  | error => "ERROR"
  | warn => "WARN"
  | info => "INFO"
  | debug => "DEBUG"
  | trace => "TRACE"

/-- The place of a level among the levels, counted from one. -/
def rank : LogLevel → Nat
  | error => 1
  | warn => 2
  | info => 3
  | debug => 4
  | trace => 5

end LogLevel

/-- A record of what was read. -/
structure LogRecord where
  /-- The level. -/
  level : LogLevel
  /-- What is recorded. -/
  message : String
  deriving DecidableEq

end ChainIR
