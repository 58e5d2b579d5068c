import WhereClause.Calendar.Moment
import WhereClause.Literal

/-!
# Coercion of literals

Two kinds of place do not take a literal as it is. Beside a point in time stands a number of seconds, which may be written as
a timestamp; and a search for a text takes a pattern that has a wildcard at either end. What the text itself holds is not
escaped, so a `%`, `_` or backslash in it keeps its meaning in a pattern.
-/

namespace WhereClause.Literal

/-- The seconds that a literal names; none for a truth value, which never names any. -/
def instant? : Literal → Except InvalidTimestamp (Option Int64)
  | .int n => .ok (some n)
  | .string s => (parseTimestamp s).map some
  | .bool _ => .ok none

/-- The text that is searched for. -/
def needle : Literal → String
  | .string s => s
  | l => l.render

/-- The pattern that matches the texts which contain a literal's text. -/
def likePattern (l : Literal) : String := "%" ++ l.needle ++ "%"

end WhereClause.Literal
