/-!
# Columns and JSON paths

Where the value of an identifier is stored: in a column of a table, or under a path of keys in a JSON document that a column
holds.
-/

namespace WhereClause

/-- A column of a table. -/
structure Column where
  table : String
  name : String
  deriving DecidableEq, Repr

/-- The column as a reader sees it. -/
def Column.render (c : Column) : String := c.table ++ "." ++ c.name

/-- A path of keys into the JSON document of a column. -/
structure JsonPath where
  column : Column
  keys : List String
  deriving DecidableEq, Repr

/-- The path with `$` for the document and a dot before each key. -/
def JsonPath.dollar (p : JsonPath) : String := "$." ++ ".".intercalate p.keys

end WhereClause
