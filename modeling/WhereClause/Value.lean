/-!
# Bind values

The arguments that travel beside a SQL text. A filter produces 64-bit integers, strings and booleans only. Written out, a
value is a SQL literal: a string stands between single quotes, and a quote inside it is written twice.
-/

namespace WhereClause

/-- A value bound at a placeholder. -/
inductive Value where
  | int (n : Int64)
  | string (s : String)
  | boolean (b : Bool)
  deriving DecidableEq, Repr

namespace Value

/-- The characters of a string literal's inside: a single quote is doubled, all else stands for itself. -/
def doubleQuotes : List Char → List Char
  | [] => []
  | c :: cs => if c = '\'' then '\'' :: '\'' :: doubleQuotes cs else c :: doubleQuotes cs

/-- The value as a SQL literal. -/
def render : Value → String
  | .int n => toString n.toInt
  | .string s => .ofList ('\'' :: doubleQuotes s.toList ++ ['\''])
  | .boolean b => toString b

end Value

end WhereClause
