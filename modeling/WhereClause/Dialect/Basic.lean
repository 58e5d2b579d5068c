import WhereClause.Text.Blank
import WhereClause.Value

/-!
# SQL dialects

A filter can be written for MySQL or for PostgreSQL. MySQL binds its arguments in the order of their marks, so every
placeholder is a `?`; PostgreSQL numbers them.
-/

namespace WhereClause

/-- A dialect of SQL. -/
inductive Dialect where
  | mySql | postgres
  deriving DecidableEq, Repr

/-- A name that is no dialect's, as it is compared. -/
structure UnknownDialect where
  name : String
  deriving DecidableEq, Repr

/-- What is said of a name that is no dialect's. -/
def UnknownDialect.message (e : UnknownDialect) : String := "Unsupported SQL dialect: " ++ e.name

namespace Dialect

/-- The name shown to a reader. -/
def title : Dialect → String
  | .mySql => "MySQL"
  | .postgres => "PostgreSQL"

/-- The name used in settings. -/
def key : Dialect → String
  | .mySql => "mysql"
  | .postgres => "postgres"

/-- The dialect that a name stands for, whatever its case and the blanks around it. -/
def ofName (name : String) : Except UnknownDialect Dialect :=
  match foldName name with
  | "mysql" => .ok .mySql
  | "postgres" | "postgresql" | "pg" => .ok .postgres
  | folded => .error ⟨folded⟩

/-- The dialect with a key. -/
def ofKey? : String → Option Dialect
  | "mysql" => some .mySql
  | "postgres" => some .postgres
  | _ => none

/-- The token that stands for the argument with an index. -/
def placeholder (d : Dialect) (index : UInt64) : String :=
  match d with
  | .mySql => "?"
  | .postgres => "$" ++ toString index

/-- The value bound where a truth value is compared with one inside a JSON document. MySQL compares the JSON texts. -/
def boolParam (d : Dialect) (b : Bool) : Value :=
  match d with
  | .mySql => .string (toString b)
  | .postgres => .boolean b

end Dialect

end WhereClause
