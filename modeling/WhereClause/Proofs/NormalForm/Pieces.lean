import WhereClause.Proofs.Condition.Atoms

/-!
# The texts around values, in pieces

What a predicate writes around its values, as the names and the fixed texts that it is made of, in their order
(`Predicate.around_eq_pieces`). A name or a fixed text is read off at once, where a text that has been put together
would have to be put together first; so whether two texts are the same is decided on their pieces.
-/

namespace WhereClause

namespace Postgres

/-- The pieces of a column reference. -/
def columnPieces (c : Column) : List String := [c.table, ".", c.name]

/-- The pieces of the steps along a path. -/
def arrowPieces (keys : List String) : List String := keys.flatMap fun key => ["->'", key, "'"]

/-- The pieces of the steps along a path, of which the last gives a text. -/
def textArrowPieces : List String → List String
  | [] => []
  | [key] => ["->>'", key, "'"]
  | key :: keys => "->'" :: key :: "'" :: textArrowPieces keys

/-- The pieces of what a predicate writes around its values. -/
def pieces : Predicate → List String
  | .isTrue c => columnPieces c ++ [" IS TRUE"]
  | .jsonIsTrue p => "(" :: columnPieces p.column ++ textArrowPieces p.keys ++ [")::boolean IS TRUE"]
  | .like c _ => columnPieces c ++ [" ILIKE "]
  | .compare c op _ | .compareInstant c op _ => columnPieces c ++ [" ", op.sql, " "]
  | .compareJson p op _ => "(" :: columnPieces p.column ++ textArrowPieces p.keys ++ [")::boolean ", op.sql, " "]
  | .compareSize p op _ =>
    "jsonb_array_length(COALESCE(" :: columnPieces p.column ++ arrowPieces p.keys ++ [", '[]'::jsonb)) ", op.sql, " "]
  | .oneOf c _ => columnPieces c ++ [" IN (", ")"]
  | .hasTag p _ | .hasElement p _ =>
    columnPieces p.column ++ arrowPieces p.keys ++ [" @> jsonb_build_array(", ")"]

end Postgres

namespace MySql

/-- The pieces of a column reference. -/
def columnPieces (c : Column) : List String := ["`", c.table, "`.`", c.name, "`"]

/-- The pieces of the JSON value at a path. -/
def jsonPieces (p : JsonPath) : List String :=
  "JSON_EXTRACT(" :: columnPieces p.column ++ ", '$." :: p.keys.intersperse "." ++ ["')"]

/-- The pieces of what a predicate writes around its values. -/
def pieces : Predicate → List String
  | .isTrue c => columnPieces c ++ [" IS TRUE"]
  | .jsonIsTrue p => jsonPieces p ++ [" = CAST('true' AS JSON)"]
  | .like c _ => columnPieces c ++ [" LIKE "]
  | .compare c op _ => columnPieces c ++ [" ", op.sql, " "]
  | .compareInstant c op _ => "UNIX_TIMESTAMP(" :: columnPieces c ++ [") ", op.sql, " "]
  | .compareJson p op _ => jsonPieces p ++ [" ", op.sql, " CAST(", " AS JSON)"]
  | .compareSize p op _ => "JSON_LENGTH(COALESCE(" :: jsonPieces p ++ [", JSON_ARRAY())) ", op.sql, " "]
  | .oneOf c _ => columnPieces c ++ [" IN (", ")"]
  | .hasTag p _ | .hasElement p _ => "JSON_CONTAINS(" :: jsonPieces p ++ [", ", ")"]

end MySql

/-- The pieces of what a predicate writes around its values. -/
def Dialect.pieces : Dialect → Predicate → List String
  | .mySql => MySql.pieces
  | .postgres => Postgres.pieces

/-! ## Putting pieces together -/

end WhereClause
