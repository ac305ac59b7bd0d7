/-!
# Log records

A record is a level and a line of text. Records are computed from states on request and are no
part of any state.
-/

namespace I8086

/-- How important a record is. -/
inductive Level where
  | trace | debug | info | warn | error
deriving DecidableEq

/-- The level's name. -/
def Level.name : Level → String
  | trace => "TRACE"
  | debug => "DEBUG"
  | info => "INFO"
  | warn => "WARN"
  | error => "ERROR"

/-- A line of the log. -/
structure Record where
  level : Level
  text : String
deriving DecidableEq

end I8086
