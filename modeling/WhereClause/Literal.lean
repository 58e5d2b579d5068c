import WhereClause.Value

/-!
# Literals

The constants that a filter can carry, their types, and the text in which a filter is shown to a reader.
-/

namespace WhereClause

/-- The type of a literal. -/
inductive LiteralType where
  | bool | int | string
  deriving DecidableEq, Repr

/-- The name of a literal's type. -/
def LiteralType.name : LiteralType → String
  | .bool => "bool"
  | .int => "int"
  | .string => "string"

/-- A constant of a filter. -/
inductive Literal where
  | bool (b : Bool)
  | int (n : Int64)
  | string (s : String)
  deriving DecidableEq, Repr

namespace Literal

/-- The type of a literal. -/
def type : Literal → LiteralType
  | .bool _ => .bool
  | .int _ => .int
  | .string _ => .string

/-- The literal as a reader sees it: a string stands between double quotes, as it is. -/
def render : Literal → String
  | .bool b => toString b
  | .int n => toString n.toInt
  | .string s => "\"" ++ s ++ "\""

/-- The value that is bound for a literal where nothing is coerced. -/
def toValue : Literal → Value
  | .bool b => .boolean b
  | .int n => .int n
  | .string s => .string s

end Literal

end WhereClause
