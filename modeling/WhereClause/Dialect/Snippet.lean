import WhereClause.Column
import WhereClause.Dialect.Basic
import WhereClause.Symbol

/-!
# SQL snippets

The pieces of SQL that a filter is put together from, as templates. A template has at most one hole, written `?`, where the
placeholders of the bound values go. Names are written as they are.
-/

namespace WhereClause

/-- A piece of SQL about a table, a column or a JSON path. -/
inductive Snippet where
  | table (table : String)
  | column (c : Column)
  /-- A point in time, as seconds. -/
  | seconds (c : Column)
  /-- A text contains the bound one. -/
  | like (c : Column)
  /-- A column is one of the bound values. -/
  | oneOf (c : Column)
  /-- A column is true. -/
  | isTrue (c : Column)
  /-- A truth value in a document is true. -/
  | jsonIsTrue (p : JsonPath)
  /-- A truth value in a document compares with the bound one. -/
  | jsonCompare (p : JsonPath) (op : Comparison)
  /-- An array in a document holds the bound tag. -/
  | holdsTag (p : JsonPath)
  /-- An array in a document holds the bound element. -/
  | holdsElement (p : JsonPath)
  /-- The length of an array in a document; one that is missing is empty. -/
  | arrayLength (p : JsonPath)
  deriving DecidableEq, Repr

/-! ## PostgreSQL -/

namespace Postgres

/-- A column reference. -/
def column (c : Column) : String := c.table ++ "." ++ c.name

/-- One step into a document, which keeps its JSON type. -/
def arrow (key : String) : String := "->'" ++ key ++ "'"

/-- One step into a document, which gives the text found there. -/
def textArrow (key : String) : String := "->>'" ++ key ++ "'"

/-- The steps along a path, of which the last gives a text. -/
def textArrows : List String → String
  | [] => ""
  | [key] => textArrow key
  | key :: keys => arrow key ++ textArrows keys

/-- The JSON value at a path. -/
def json (p : JsonPath) : String := column p.column ++ String.join (p.keys.map arrow)

/-- The text of the JSON value at a path. -/
def jsonText (p : JsonPath) : String := column p.column ++ textArrows p.keys

/-- The template of a snippet. Points in time are stored as seconds already. -/
def template : Snippet → String
  | .table table => table
  | .column c | .seconds c => column c
  | .like c => column c ++ " ILIKE ?"
  | .oneOf c => column c ++ " IN (?)"
  | .isTrue c => column c ++ " IS TRUE"
  | .jsonIsTrue p => "(" ++ jsonText p ++ ")::boolean IS TRUE"
  | .jsonCompare p op => "(" ++ jsonText p ++ ")::boolean " ++ op.sql ++ " ?"
  | .holdsTag p | .holdsElement p => json p ++ " @> jsonb_build_array(?)"
  | .arrayLength p => "jsonb_array_length(COALESCE(" ++ json p ++ ", '[]'::jsonb))"

end Postgres

/-! ## MySQL -/

namespace MySql

/-- A name between back quotes. -/
def quoteName (name : String) : String := "`" ++ name ++ "`"

/-- A column reference. -/
def column (c : Column) : String := quoteName c.table ++ "." ++ quoteName c.name

/-- The JSON value at a path. -/
def jsonExtract (p : JsonPath) : String := "JSON_EXTRACT(" ++ column p.column ++ ", '" ++ p.dollar ++ "')"

/-- The template of a snippet. -/
def template : Snippet → String
  | .table table => quoteName table
  | .column c => column c
  | .seconds c => "UNIX_TIMESTAMP(" ++ column c ++ ")"
  | .like c => column c ++ " LIKE ?"
  | .oneOf c => column c ++ " IN (?)"
  | .isTrue c => column c ++ " IS TRUE"
  | .jsonIsTrue p => jsonExtract p ++ " = CAST('true' AS JSON)"
  | .jsonCompare p op => jsonExtract p ++ " " ++ op.sql ++ " CAST(? AS JSON)"
  | .holdsTag p | .holdsElement p => "JSON_CONTAINS(" ++ jsonExtract p ++ ", ?)"
  | .arrayLength p => "JSON_LENGTH(COALESCE(" ++ jsonExtract p ++ ", JSON_ARRAY()))"

end MySql

/-- The template of a snippet in a dialect. -/
def Dialect.template : Dialect → Snippet → String
  | .mySql => MySql.template
  | .postgres => Postgres.template

end WhereClause
