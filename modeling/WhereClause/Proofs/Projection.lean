import WhereClause.Proofs.Blame

/-!
# How fields are read

A field is stored in a column or under a path, and its kind says how it is read (`Field.source`): a point in time as
seconds, what is in a document by its path, all else as the column that it is. Comparisons, sizes, elements and
predicates that stand alone keep to this. A search in a list and a search in a text do not look at the whole kind: they
read some fields as bare columns (`Field.misreads`). Which of the two it is depends on the operation and the kind alone
(`fields_are_read_by_operation`); the catalogs of the entities never let it come to the second
(`Entity.fields_are_read_by_kind`).
-/

namespace WhereClause

/-- What stands for a field in a text. -/
inductive Source where
  /-- The column as it is. -/
  | column (c : Column)
  /-- The column as seconds. -/
  | seconds (c : Column)
  | path (p : JsonPath)
  deriving DecidableEq, Repr

/-- The texts that may stand for a field. The last step of a path may give a text rather than a JSON value. -/
def Dialect.references : Dialect → Source → List String
  | d, .column c => [d.template (.column c)]
  | d, .seconds c => [d.template (.seconds c)]
  | .mySql, .path p => [MySql.jsonExtract p]
  | .postgres, .path p => [Postgres.json p, Postgres.jsonText p]

/-- How the kind of a field says that it is read. -/
def Field.source (f : Field) : Source :=
  match f.kind with
  | .scalar | .text | .boolColumn => .column f.column
  | .timestamp => .seconds f.column
  | .jsonBool p | .jsonList p => .path p

/-- Whether an operation reads the bare column of a field whose kind says otherwise. -/
def Field.misreads (f : Field) (o : Operation) : Bool :=
  match o, f.kind with
  | .contains, .timestamp | .contains, .jsonBool _ | .contains, .jsonList _ => true
  | .isIn, .timestamp | .isIn, .jsonBool _ => true
  | _, _ => false

/-- How an operation reads a field. -/
def Field.readBy (f : Field) (o : Operation) : Source := if f.misreads o then .column f.column else f.source

/-! ## What a predicate reads -/

/-- The text of a predicate in PostgreSQL, with a given text for what it reads. Where the text has no `?` for them, the
values go behind it. -/
def Postgres.wording (reference : String) : Predicate → String
  | .isTrue _ => reference ++ " IS TRUE"
  | .jsonIsTrue _ => "(" ++ reference ++ ")::boolean IS TRUE"
  | .like _ _ => reference ++ " ILIKE ?"
  | .compare _ op _ | .compareInstant _ op _ => reference ++ " " ++ op.sql ++ " "
  | .compareJson _ op _ => "(" ++ reference ++ ")::boolean " ++ op.sql ++ " ?"
  | .compareSize _ op _ => "jsonb_array_length(COALESCE(" ++ reference ++ ", '[]'::jsonb))" ++ " " ++ op.sql ++ " "
  | .oneOf _ _ => reference ++ " IN (?)"
  | .hasTag _ _ | .hasElement _ _ => reference ++ " @> jsonb_build_array(?)"

/-- The text of a predicate in MySQL, with a given text for what it reads. -/
def MySql.wording (reference : String) : Predicate → String
  | .isTrue _ => reference ++ " IS TRUE"
  | .jsonIsTrue _ => reference ++ " = CAST('true' AS JSON)"
  | .like _ _ => reference ++ " LIKE ?"
  | .compare _ op _ | .compareInstant _ op _ => reference ++ " " ++ op.sql ++ " "
  | .compareJson _ op _ => reference ++ " " ++ op.sql ++ " CAST(? AS JSON)"
  | .compareSize _ op _ => "JSON_LENGTH(COALESCE(" ++ reference ++ ", JSON_ARRAY()))" ++ " " ++ op.sql ++ " "
  | .oneOf _ _ => reference ++ " IN (?)"
  | .hasTag _ _ | .hasElement _ _ => "JSON_CONTAINS(" ++ reference ++ ", ?)"

/-- The text of a predicate, with a given text for what it reads. -/
def Dialect.wording : Dialect → String → Predicate → String
  | .mySql => MySql.wording
  | .postgres => Postgres.wording

namespace Predicate

/-- What a predicate reads. -/
def source : Predicate → Source
  | .isTrue c | .like c _ | .compare c _ _ | .oneOf c _ => .column c
  | .compareInstant c _ _ => .seconds c
  | .jsonIsTrue p | .compareJson p _ _ | .compareSize p _ _ | .hasTag p _ | .hasElement p _ => .path p

/-- Appends a predicate to a fragment, with a given text for what it reads. -/
def writeWith (f : Fragment) (reference : String) (q : Predicate) : Fragment :=
  match q with
  | .compare _ _ _ | .compareInstant _ _ _ | .compareSize _ _ _ =>
    (f.text (f.dialect.wording reference q)).bindAll (q.values f.dialect)
  | _ => f.fill (f.dialect.wording reference q) (q.values f.dialect)

/-- The text that stands for what a predicate reads. -/
def reference : Dialect → Predicate → String
  | d, .isTrue c | d, .like c _ | d, .compare c _ _ | d, .oneOf c _ => d.template (.column c)
  | d, .compareInstant c _ _ => d.template (.seconds c)
  | .mySql, .jsonIsTrue p | .mySql, .compareJson p _ _ | .mySql, .compareSize p _ _ | .mySql, .hasTag p _ |
    .mySql, .hasElement p _ => MySql.jsonExtract p
  | .postgres, .jsonIsTrue p | .postgres, .compareJson p _ _ => Postgres.jsonText p
  | .postgres, .compareSize p _ _ | .postgres, .hasTag p _ | .postgres, .hasElement p _ => Postgres.json p

/-- What a predicate refers to is one of the renderings of its source. -/
theorem reference_mem (d : Dialect) (q : Predicate) : q.reference d ∈ d.references q.source := by
  cases d <;> cases q <;> simp [reference, Dialect.references, source]

/-- A predicate writes the text that stands for what it reads, and of what it reads nothing else. -/
theorem write_eq_writeWith (f : Fragment) (q : Predicate) : q.write f = q.writeWith f (q.reference f.dialect) := by
  -- With the dialect known, both sides are the same text around the same values.
  obtain ⟨d, start, sql, args, h⟩ := f
  cases d <;> cases q with
  | compareJson p op value => cases value <;> rfl
  | _ => rfl

end Predicate

/-! ## What an operation reads -/

/-- An operation reads the source of a field exactly if it does not misread it. -/
theorem Field.readBy_eq_source_iff {f : Field} {o : Operation} : f.readBy o = f.source ↔ f.misreads o = false := by
  cases h : f.misreads o with
  | false => simp [readBy, h]
  | true =>
    simp only [readBy, h, if_true, Bool.true_eq_false, iff_false]
    unfold misreads at h
    unfold source
    cases hk : f.kind with
    | timestamp | jsonBool path | jsonList path => exact nofun
    | scalar | text | boolColumn => cases o <;> simp [hk] at h

/-- A comparison reads the source of every field. -/
theorem Field.readBy_compare (f : Field) (op : Comparison) : f.readBy (.compare op) = f.source :=
  readBy_eq_source_iff.mpr rfl

/-- A search in a text reads the column, whatever the kind. -/
theorem Field.readBy_contains (f : Field) : f.readBy .contains = .column f.column := by
  unfold readBy misreads source
  cases f.kind <;> rfl

/-- So does a search in a list, unless the field is a list itself. -/
theorem Field.readBy_isIn {f : Field} (h : ∀ path, f.kind ≠ .jsonList path) : f.readBy .isIn = .column f.column := by
  unfold readBy misreads source
  cases hk : f.kind with
  | jsonList path => exact absurd hk (h path)
  | _ => rfl

/-- The source of a field with a path is this path. -/
theorem Field.source_of_path? {f : Field} {path : JsonPath} (h : f.kind.path? = some path) : f.source = .path path := by
  unfold source
  cases hk : f.kind <;> rw [hk] at h <;> cases h <;> rfl

/-- An operation that does not misread such a field reads at the path. -/
theorem Field.readBy_of_path? {f : Field} {o : Operation} {path : JsonPath} (hk : f.kind.path? = some path)
    (h : f.misreads o = false) : f.readBy o = .path path :=
  (readBy_eq_source_iff.mpr h).trans (source_of_path? hk)

/-- A comparison reads a field as its kind says. -/
theorem Field.Compares.source_eq {f : Field} {op : Comparison} {l : Literal} {p : Plan} (h : f.Compares op l p) :
    p.tests ≠ [] ∧ ∀ q ∈ p.tests, q.source = f.source := by
  cases h with
  | instant hk hn =>
    refine ⟨List.cons_ne_nil _ _, ?_⟩
    simp [Plan.tests, Predicate.source, Field.source, hk]
  | checked hk hl ha =>
    unfold Field.checkedComparison
    cases hf : f.kind with
    | timestamp => exact absurd hf hk
    | jsonList path => exact absurd hf (hl path)
    | text => cases op <;> simp [Plan.tests, Predicate.source, Field.source, hf]
    | jsonBool path => simp [Plan.tests, Predicate.source, Field.source, hf]
    | scalar => simp [Plan.tests, Predicate.source, Field.source, hf]
    | boolColumn => simp [Plan.tests, Predicate.source, Field.source, hf]

/-- A single predicate asks an operation of a field, and reads the field as the operation does. -/
theorem Catalog.Resolves.readBy {c : Catalog} {x : Expr} {p : Plan} (h : c.Resolves x p) :
    ∃ name f o ys, c.lookup? name = some f ∧ f.allows o = true ∧ x.Asks name o ys ∧ p.tests ≠ [] ∧
      ∀ q ∈ p.tests, q.source = f.readBy o := by
  have single {q : Predicate} {s : Source} (hq : q.source = s) :
      (Plan.test q).tests ≠ [] ∧ ∀ q' ∈ (Plan.test q).tests, q'.source = s :=
    ⟨List.cons_ne_nil _ _, fun q' hq' => List.mem_singleton.mp hq' ▸ hq⟩
  cases h with
  | @column name f hf ha hk =>
    have hs : f.source = .column f.column := by rw [Field.source, hk]
    exact ⟨name, f, .standalone, [], hf, ha, .standalone rfl,
      single ((Field.readBy_eq_source_iff.mpr rfl).trans hs).symm⟩
  | @flag name f path hf ha hk =>
    exact ⟨name, f, .standalone, [], hf, ha, .standalone rfl,
      single (Field.readBy_of_path? (congrArg FieldKind.path? hk) rfl).symm⟩
  | @comparison symbol receiver args op name f l p hs ho hf ha hc =>
    refine ⟨name, f, .compare op, [.const l], hf, ha, .compare ⟨symbol, receiver, args, rfl, hs, ho⟩, ?_⟩
    rw [Field.readBy_compare]
    exact hc.source_eq
  | @size symbol symbol' receiver receiver' args args' op name f path n hs ho hs' ho' hf ha hk =>
    exact ⟨name, f, .size, [.const (.int n)], hf, ha,
      .size ⟨symbol, receiver, args, rfl, hs, ho⟩ ⟨symbol', receiver', args', rfl, hs', ho'⟩,
      single (Field.readBy_of_path? (congrArg FieldKind.path? hk) rfl).symm⟩
  | @oneOf symbol receiver args name f ls hs ho hf ha _ _ hk =>
    exact ⟨name, f, .isIn, ls.map .const, hf, ha, .isIn ⟨symbol, receiver, args, rfl, hs, ho⟩,
      single (Field.readBy_isIn hk).symm⟩
  | @anyTag symbol receiver args name f ls path hs ho hf ha hne _ hk =>
    have hr : f.readBy .isIn = .path path :=
      Field.readBy_of_path? (congrArg FieldKind.path? hk) (by simp [Field.misreads, hk])
    refine ⟨name, f, .isIn, ls.map .const, hf, ha, .isIn ⟨symbol, receiver, args, rfl, hs, ho⟩, ?_, ?_⟩
    · simpa [Plan.tests] using hne
    · intro q hq
      obtain ⟨l, -, rfl⟩ := List.mem_map.mp hq
      exact hr.symm
  | @element symbol receiver args name f l path hs ho hf ha _ hk =>
    exact ⟨name, f, .elementIn, [.const l], hf, ha, .elementIn ⟨symbol, receiver, args, rfl, hs, ho⟩,
      single (Field.readBy_of_path? (congrArg FieldKind.path? hk) rfl).symm⟩
  | @contains symbol receiver args name f l hs ho hf ha _ =>
    exact ⟨name, f, .contains, [.const l], hf, ha, .contains ⟨symbol, receiver, args, rfl, hs, ho⟩,
      single f.readBy_contains.symm⟩

/-! ## Whole filters -/

/-- The tests of a plan are those of its single predicates. -/
theorem Catalog.tests_plan (c : Catalog) (e : Expr) :
    (c.plan e).tests = e.predicates.flatMap fun x => (c.plan x).tests := by
  induction e using Expr.shapeInduction with
  | joined e j l r h ihl ihr =>
    rw [c.plan_of_joined h, Expr.predicates_of_joined h, List.flatMap_append, ← ihl, ← ihr]
    cases j <;> rfl
  | negated e x h ih =>
    rw [c.plan_of_negated h, Expr.predicates_of_negated h, ← ih]
    rfl
  | single e h => rw [Expr.predicates_of_single h, List.flatMap_singleton]

/-- In a filter that is not refused, all single predicates resolve. -/
theorem Catalog.exists_resolves_of_mem_predicates {c : Catalog} {e : Expr} (h : (c.plan e).refusal? = none) :
    ∀ x ∈ e.predicates, ∃ p, c.Resolves x p := by
  induction e using Expr.shapeInduction with
  | joined e j l r he ihl ihr =>
    rw [c.plan_of_joined he, Plan.refusal?_plan, Option.or_eq_none_iff] at h
    intro x hx
    rw [Expr.predicates_of_joined he, List.mem_append] at hx
    exact hx.elim (ihl h.1 x) (ihr h.2 x)
  | negated e y he ih =>
    rw [c.plan_of_negated he] at h
    rw [Expr.predicates_of_negated he]
    exact ih h
  | single e he =>
    intro x hx
    rw [Expr.predicates_of_single he, List.mem_singleton] at hx
    subst hx
    exact (Catalog.refusal?_plan_of_single he).mp h

/-- What a filter compiles to is written test by test, and each single predicate of it asks an operation of a field. Its
tests read the field as the operation does: as the kind of the field says, but for searches in a text and, unless the
field is a list itself, searches in a list, which read the bare column. Of the field, their texts hold what stands for
that, and nothing else. -/
theorem fields_are_read_by_operation (c : Catalog) (d : Dialect) (start : UInt64) (e : Expr) (clause : Clause)
    (h : Compiler.compile ⟨c, d, start⟩ e = .ok clause) :
    clause = ((c.plan e).write (.empty d start)).1.clause ∧
      (c.plan e).tests = e.predicates.flatMap (fun x => (c.plan x).tests) ∧
      ∀ x ∈ e.predicates, ∃ name f o ys, c.lookup? name = some f ∧ f.allows o = true ∧ x.Asks name o ys ∧
        (c.plan x).tests ≠ [] ∧ ∀ q ∈ (c.plan x).tests, ∃ r ∈ d.references (f.readBy o),
          ∀ g : Fragment, g.dialect = d → q.write g = q.writeWith g r := by
  have hr : (c.plan e).refusal? = none := Compiler.compile_isOk_iff.mp ⟨clause, h⟩
  rw [Compiler.compile_eq, hr] at h
  refine ⟨(Except.ok.inj h).symm, c.tests_plan e, fun x hx => ?_⟩
  obtain ⟨p, hp⟩ := Catalog.exists_resolves_of_mem_predicates hr x hx
  obtain ⟨name, f, o, ys, hf, ha, hasks, hne, hread⟩ := hp.readBy
  rw [hp.plan_eq]
  refine ⟨name, f, o, ys, hf, ha, hasks, hne, fun q hq => ⟨q.reference d, ?_, ?_⟩⟩
  · rw [← hread q hq]
    exact q.reference_mem d
  · rintro g rfl
    exact q.write_eq_writeWith g

/-- A point in time that may be looked up in a list, with a flag beside it that may be searched. -/
def misreadCatalog : Catalog :=
  (Catalog.empty "memo").withField ⟨"ts", .int, .timestamp, ⟨"memo", "ts"⟩, [.isIn]⟩
    |>.withField ⟨"done", .bool, .jsonBool ⟨⟨"memo", "payload"⟩, ["done"]⟩, ⟨"memo", "payload"⟩, [.contains]⟩

theorem fields_are_read_by_operation_list :
    let e : Expr := .isIn (.ident "ts") (.list [.int 5, .int 6])
    Compiler.compile ⟨misreadCatalog, .postgres, 3⟩ e = .ok ⟨"memo.ts IN ($3,$4)", [.int 5, .int 6], 5⟩ ∧
      ∃ name f o ys, misreadCatalog.lookup? name = some f ∧ f.allows o = true ∧ e.Asks name o ys ∧
        (misreadCatalog.plan e).tests ≠ [] ∧ ∀ q ∈ (misreadCatalog.plan e).tests,
          ∃ r ∈ Dialect.postgres.references (f.readBy o), ∀ g : Fragment, g.dialect = .postgres →
            q.write g = q.writeWith g r := by
  intro e
  have h : Compiler.compile ⟨misreadCatalog, .postgres, 3⟩ e = .ok ⟨"memo.ts IN ($3,$4)", [.int 5, .int 6], 5⟩ := by
    decide +kernel
  have he : e ∈ e.predicates := by
    rw [Expr.predicates_of_single rfl]
    exact List.mem_singleton_self e
  exact ⟨h, (fields_are_read_by_operation misreadCatalog .postgres 3 e _ h).2.2 e he⟩

/-- In MySQL, a point in time that is looked up in a list is not read as seconds, and a flag that is searched is not
read by its path. -/
theorem kinds_are_misread :
    (∃ clause, Compiler.compile ⟨misreadCatalog, .mySql, 1⟩ (.isIn (.ident "ts") (.list [.int 5])) = .ok clause ∧
      clause.sql = "`memo`.`ts` IN (?)" ∧ ¬ "UNIX_TIMESTAMP(`memo`.`ts`)".toList <:+: clause.sql.toList) ∧
    ∃ clause, Compiler.compile ⟨misreadCatalog, .mySql, 1⟩ (.contains (.ident "done") (.bool true)) = .ok clause ∧
      clause.sql = "`memo`.`payload` LIKE ?" ∧
      ¬ "JSON_EXTRACT(`memo`.`payload`, '$.done')".toList <:+: clause.sql.toList :=
  ⟨⟨⟨"`memo`.`ts` IN (?)", [.int 5], 2⟩, by decide +kernel, rfl, by decide +kernel⟩,
    ⟨"`memo`.`payload` LIKE ?", [.string "%true%"], 2⟩, by decide +kernel, rfl, by decide +kernel⟩

/-- No field of an entity allows an operation that would misread it. -/
theorem Entity.fields_are_read_by_kind (e : Entity) {name : String} {f : Field} {o : Operation}
    (h : e.catalog.lookup? name = some f) (ho : f.allows o = true) : f.readBy o = f.source := by
  have hall : ∀ f ∈ e.catalog.fields, ∀ o ∈ f.operations, f.misreads o = false := by
    cases e <;> decide
  exact Field.readBy_eq_source_iff.mpr (hall f (Catalog.mem_fields_of_lookup? h) o (List.contains_iff_mem.mp ho))

end WhereClause
