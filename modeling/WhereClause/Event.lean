/-!
# Events

What is reported while settings are loaded and filters compiled.
-/

namespace WhereClause

/-- How much an event matters. -/
inductive Level where
  | debug | info | warn
  deriving DecidableEq, Repr

/-- The name of a level. -/
def Level.name : Level → String
  | .debug => "DEBUG"
  | .info => "INFO"
  | .warn => "WARN"

/-- A line of the log. -/
structure Event where
  level : Level
  message : String
  deriving DecidableEq, Repr

end WhereClause
