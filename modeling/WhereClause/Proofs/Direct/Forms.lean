import WhereClause.Proofs.Fragment.Around

/-!
# The forms of predicates

How each dialect writes its predicates, with the placeholders in their places. A form is given the index of its first
value where the dialect numbers its values; there are no templates and no holes. On plain fields, predicates are
written in these forms (`Predicate.text_eq_form`).
-/

namespace WhereClause

/-- How a dialect writes each predicate, and the value it binds for a truth value beside one in a document. -/
structure Forms where
  isTrue (c : Column) : String
  flag (p : JsonPath) : String
  like (c : Column) (index : UInt64) : String
  compare (c : Column) (op : Comparison) (index : UInt64) : String
  compareInstant (c : Column) (op : Comparison) (index : UInt64) : String
  compareFlag (p : JsonPath) (op : Comparison) (index : UInt64) : String
  compareSize (p : JsonPath) (op : Comparison) (index : UInt64) : String
  oneOf (c : Column) (index : UInt64) (count : Nat) : String
  holds (p : JsonPath) (index : UInt64) : String
  flagValue (b : Bool) : Value

/-- The forms of PostgreSQL, which numbers its values. -/
def Postgres.forms : Forms where
  isTrue c := column c ++ " IS TRUE"
  flag p := "(" ++ jsonText p ++ ")::boolean IS TRUE"
  like c index := column c ++ " ILIKE $" ++ toString index
  compare c op index := column c ++ " " ++ op.sql ++ " $" ++ toString index
  compareInstant c op index := column c ++ " " ++ op.sql ++ " $" ++ toString index
  compareFlag p op index := "(" ++ jsonText p ++ ")::boolean " ++ op.sql ++ " $" ++ toString index
  compareSize p op index :=
    "jsonb_array_length(COALESCE(" ++ json p ++ ", '[]'::jsonb)) " ++ op.sql ++ " $" ++ toString index
  oneOf c index count :=
    column c ++ " IN (" ++ ",".intercalate ((indices index count).map fun i => "$" ++ toString i) ++ ")"
  holds p index := json p ++ " @> jsonb_build_array($" ++ toString index ++ ")"
  flagValue b := .boolean b

/-- The forms of MySQL, which binds its values in the order of their marks. -/
def MySql.forms : Forms where
  isTrue c := column c ++ " IS TRUE"
  flag p := jsonExtract p ++ " = CAST('true' AS JSON)"
  like c _ := column c ++ " LIKE ?"
  compare c op _ := column c ++ " " ++ op.sql ++ " ?"
  compareInstant c op _ := "UNIX_TIMESTAMP(" ++ column c ++ ") " ++ op.sql ++ " ?"
  compareFlag p op _ := jsonExtract p ++ " " ++ op.sql ++ " CAST(? AS JSON)"
  compareSize p op _ := "JSON_LENGTH(COALESCE(" ++ jsonExtract p ++ ", JSON_ARRAY())) " ++ op.sql ++ " ?"
  oneOf c _ count := column c ++ " IN (" ++ ",".intercalate (List.replicate count "?") ++ ")"
  holds p _ := "JSON_CONTAINS(" ++ jsonExtract p ++ ", ?)"
  flagValue b := .string (toString b)

/-- The forms of a dialect. -/
def Dialect.forms : Dialect → Forms
  | .mySql => MySql.forms
  | .postgres => Postgres.forms

/-- The form of a predicate. -/
def Predicate.form (w : Forms) (index : UInt64) : Predicate → String
  | .isTrue c => w.isTrue c
  | .jsonIsTrue p => w.flag p
  | .like c _ => w.like c index
  | .compare c op _ => w.compare c op index
  | .compareInstant c op _ => w.compareInstant c op index
  | .compareJson p op _ => w.compareFlag p op index
  | .compareSize p op _ => w.compareSize p op index
  | .oneOf c values => w.oneOf c index values.length
  | .hasTag p _ | .hasElement p _ => w.holds p index

example : Postgres.forms.oneOf ⟨"memo", "visibility"⟩ 9 2 = "memo.visibility IN ($9,$10)" := by decide +kernel

/-! ## Forms and sides -/

/-- The forms bind a boolean beside a flag as the dialect does. -/
theorem Dialect.forms_flagValue (d : Dialect) (b : Bool) : d.forms.flagValue b = d.boolParam b := by
  cases d <;> rfl

/-- The marks of MySQL are the same for every index. -/
theorem Dialect.placeholders_mySql (index : UInt64) (count : Nat) :
    mySql.placeholders index count = ",".intercalate (List.replicate count "?") := by
  have h : (indices index count).map mySql.placeholder = List.replicate count "?" := by
    refine List.eq_replicate_iff.mpr ⟨by simp, fun s hs => ?_⟩
    obtain ⟨i, -, rfl⟩ := List.mem_map.mp hs
    rfl
  rw [placeholders, h]

/-- The form of a predicate is its placeholders between its two texts. -/
theorem Predicate.form_eq_around (d : Dialect) (index : UInt64) (q : Predicate) :
    q.form d.forms index = (d.around q).1 ++ d.placeholders index (q.values d).length ++ (d.around q).2 := by
  -- The texts around are opened as a whole: one equation for each of their cases is slow to come by.
  cases q with
  | oneOf c values =>
    cases d with
    | mySql => rw [Dialect.placeholders_mySql]; rfl
    | postgres => rfl
  | compareJson p op value =>
    have hl : ((compareJson p op value).values d).length = 1 := by cases value <;> rfl
    rw [hl, Dialect.placeholders_one]
    apply String.ext
    cases d with
    | mySql =>
      delta Dialect.around MySql.around
      simp [form, Dialect.forms, MySql.forms, Dialect.placeholder]
    | postgres =>
      delta Dialect.around Postgres.around
      simp [form, Dialect.forms, Postgres.forms, Dialect.placeholder]
  | _ =>
    apply String.ext
    cases d with
    | mySql =>
      delta Dialect.around MySql.around
      simp [form, Dialect.forms, MySql.forms, values, Dialect.placeholder]
    | postgres =>
      delta Dialect.around Postgres.around
      simp [form, Dialect.forms, Postgres.forms, values, Dialect.placeholder]

/-- A predicate on a plain field is written in its form. -/
theorem Predicate.text_eq_form (d : Dialect) (index : UInt64) {f : Field} {q : Predicate} (hf : f.Plain)
    (hq : q.ReadsFrom f) : q.text d index = q.form d.forms index := by
  rw [text, q.sides_eq_around d hf hq, form_eq_around]

end WhereClause
