import WhereClause.Proofs.Fragment.Inert
import WhereClause.Proofs.Fragment.Written

/-!
# Predicates written out

What a predicate writes before and after its placeholders, in either dialect, without templates and holes. Where the
names are plain, the holes of templates come to the same (`Predicate.sides_eq_around`).
-/

namespace WhereClause

/-- The texts around the placeholders of a predicate in PostgreSQL. -/
def Postgres.around : Predicate → String × String
  | .isTrue c => (column c ++ " IS TRUE", "")
  | .jsonIsTrue p => ("(" ++ jsonText p ++ ")::boolean IS TRUE", "")
  | .like c _ => (column c ++ " ILIKE ", "")
  | .compare c op _ | .compareInstant c op _ => (column c ++ " " ++ op.sql ++ " ", "")
  | .compareJson p op _ => ("(" ++ jsonText p ++ ")::boolean " ++ op.sql ++ " ", "")
  | .compareSize p op _ => ("jsonb_array_length(COALESCE(" ++ json p ++ ", '[]'::jsonb))" ++ " " ++ op.sql ++ " ", "")
  | .oneOf c _ => (column c ++ " IN (", ")")
  | .hasTag p _ | .hasElement p _ => (json p ++ " @> jsonb_build_array(", ")")

/-- The texts around the placeholders of a predicate in MySQL. -/
def MySql.around : Predicate → String × String
  | .isTrue c => (column c ++ " IS TRUE", "")
  | .jsonIsTrue p => (jsonExtract p ++ " = CAST('true' AS JSON)", "")
  | .like c _ => (column c ++ " LIKE ", "")
  | .compare c op _ => (column c ++ " " ++ op.sql ++ " ", "")
  | .compareInstant c op _ => ("UNIX_TIMESTAMP(" ++ column c ++ ")" ++ " " ++ op.sql ++ " ", "")
  | .compareJson p op _ => (jsonExtract p ++ " " ++ op.sql ++ " CAST(", " AS JSON)")
  | .compareSize p op _ => ("JSON_LENGTH(COALESCE(" ++ jsonExtract p ++ ", JSON_ARRAY()))" ++ " " ++ op.sql ++ " ", "")
  | .oneOf c _ => (column c ++ " IN (", ")")
  | .hasTag p _ | .hasElement p _ => ("JSON_CONTAINS(" ++ jsonExtract p ++ ", ", ")")

/-- The texts around the placeholders of a predicate. -/
def Dialect.around : Dialect → Predicate → String × String
  | .mySql => MySql.around
  | .postgres => Postgres.around

/-- A template whose hole is in its last part. -/
theorem Fragment.sides_append_of_eq {a b head tail : String} (ha : '?' ∉ a.toList) (hb : sides b = (head, tail)) :
    sides (a ++ b) = (a ++ head, tail) := by
  rw [sides_append_left ha, hb]

/-- A predicate on a plain field writes the texts that are written out for its dialect. -/
theorem Predicate.sides_eq_around (d : Dialect) {f : Field} {q : Predicate} (hf : f.Plain) (hq : q.ReadsFrom f) :
    q.sides d = d.around q := by
  have path {p : JsonPath} (hp : f.kind.path? = some p) : p.Plain := hf.2 p hp
  cases d with
  | mySql =>
    have column := (MySql.inert_column hf.1).1
    have extract {p : JsonPath} (hp : f.kind.path? = some p) := (MySql.inert_jsonExtract (path hp)).1
    cases q with
    | isTrue c | like c pattern | oneOf c values =>
      obtain rfl : c = f.column := hq
      exact Fragment.sides_append_of_eq column (by decide +kernel)
    -- The parts of a template are named before it is compared: it would be searched for its hole otherwise.
    | jsonIsTrue p =>
      have ht : Fragment.sides " = CAST('true' AS JSON)" = (" = CAST('true' AS JSON)", "") := by decide +kernel
      have := Fragment.sides_append_of_eq (extract hq) ht
      exact this
    | compareJson p op value =>
      have hj := not_mem_toList_append.mpr ⟨extract hq, (by decide : '?' ∉ " ".toList)⟩
      have hop := not_mem_toList_append.mpr ⟨hj, op.plain_sql.1.1⟩
      have ht : Fragment.sides " CAST(? AS JSON)" = (" CAST(", " AS JSON)") := by decide +kernel
      have := Fragment.sides_append_of_eq hop ht
      exact this
    | hasTag p tag | hasElement p tag =>
      have hj := not_mem_toList_append.mpr ⟨(by decide : '?' ∉ "JSON_CONTAINS(".toList), extract hq⟩
      have ht : Fragment.sides ", ?)" = (", ", ")") := by decide +kernel
      have := Fragment.sides_append_of_eq hj ht
      exact this
    | compare | compareInstant | compareSize => rfl
  | postgres =>
    have column := (Postgres.plain_column hf.1).1.1
    have flag {p : JsonPath} (hp : f.kind.path? = some p) :=
      not_mem_toList_append.mpr ⟨(by decide : '?' ∉ "(".toList), (Postgres.plain_jsonText (path hp)).1.1⟩
    cases q with
    | isTrue c | like c pattern | oneOf c values =>
      obtain rfl : c = f.column := hq
      exact Fragment.sides_append_of_eq column (by decide +kernel)
    | jsonIsTrue p =>
      have ht : Fragment.sides ")::boolean IS TRUE" = (")::boolean IS TRUE", "") := by decide +kernel
      have := Fragment.sides_append_of_eq (flag hq) ht
      exact this
    | compareJson p op value =>
      have hj := not_mem_toList_append.mpr ⟨flag hq, (by decide : '?' ∉ ")::boolean ".toList)⟩
      have hop := not_mem_toList_append.mpr ⟨hj, op.plain_sql.1.1⟩
      have ht : Fragment.sides " ?" = (" ", "") := by decide +kernel
      have := Fragment.sides_append_of_eq hop ht
      exact this
    | hasTag p tag | hasElement p tag =>
      have ht : Fragment.sides " @> jsonb_build_array(?)" = (" @> jsonb_build_array(", ")") := by decide +kernel
      have := Fragment.sides_append_of_eq (Postgres.plain_json (path hq)).1.1 ht
      exact this
    | compare | compareInstant | compareSize => rfl

end WhereClause
