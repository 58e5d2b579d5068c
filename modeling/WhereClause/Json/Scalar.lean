import WhereClause.Json.Basic
import WhereClause.Json.Compact
import WhereClause.Literal

/-!
# Literals and values as JSON

A literal is the plain JSON value that it looks like. A bound value is written as plain JSON too, but is read from an object
with one member that names its kind, since it must not be guessed.
-/

namespace WhereClause

namespace Literal

/-- The literal that a document holds. -/
def ofJson? : Json → Option Literal
  | .bool b => some (.bool b)
  | .string text => text.map .string
  | v => v.int64?.map .int

/-- A literal as JSON text. -/
def encode : Literal → String
  | .bool b => toString b
  | .int n => toString n.toInt
  | .string s => Json.quote s

end Literal

namespace Value

/-- The value that a document holds. -/
def ofJson? : Json → Option Value
  | .object [(some "Int", v)] => v.int64?.map .int
  | .object [(some "String", v)] => v.text?.map .string
  | .object [(some "Boolean", v)] => v.bool?.map .boolean
  | _ => none

/-- The plain JSON value of a bound value. -/
def toJson : Value → Json
  | .int n => .int n.toInt
  | .string s => .string (some s)
  | .boolean b => .bool b

end Value

end WhereClause
