import WhereClause.Proofs.Condition.Woven
import WhereClause.Proofs.Fragment.Around

/-!
# Predicates as atoms

In the text of a predicate, columns, paths, operators and placeholders are names between fixed texts. Where a field is
stored under bare names, the text of a predicate on it is therefore an atom that cannot be mistaken for anything else
(`Predicate.atomic_text`). The fields of the entities are stored under bare names.
-/

namespace WhereClause

/-- A text without blanks and parentheses. -/
def Bare (s : String) : Prop := ∀ c ∈ [' ', '(', ')'], c ∉ s.toList

/-- The names of a column are bare. -/
def Column.Bare (c : Column) : Prop := WhereClause.Bare c.table ∧ WhereClause.Bare c.name

/-- The names along a path are bare. -/
def JsonPath.Bare (p : JsonPath) : Prop := p.column.Bare ∧ ∀ key ∈ p.keys, WhereClause.Bare key

/-- A field is stored under bare names. -/
def Field.Bare (f : Field) : Prop := f.column.Bare ∧ ∀ p ∈ f.kind.path?, p.Bare

instance (s : String) : Decidable (Bare s) :=
  decidable_of_iff (' ' ∉ s.toList ∧ '(' ∉ s.toList ∧ ')' ∉ s.toList) (by simp [Bare])

instance (c : Column) : Decidable c.Bare := inferInstanceAs (Decidable (_ ∧ _))

instance (p : JsonPath) : Decidable p.Bare := inferInstanceAs (Decidable (_ ∧ _))

instance (f : Field) : Decidable f.Bare := inferInstanceAs (Decidable (_ ∧ _))

/-- The fields of the entities are stored under bare names. -/
theorem Entity.bare_of_lookup? (e : Entity) {name : String} {f : Field} (h : e.catalog.lookup? name = some f) :
    f.Bare := by
  have all : ∀ f ∈ e.catalog.fields, f.Bare := by cases e <;> decide +kernel
  exact all f (Catalog.mem_fields_of_lookup? h)

/-! ## Names -/

theorem Bare.append {a b : String} (ha : Bare a) (hb : Bare b) : Bare (a ++ b) :=
  fun c hc => not_mem_toList_append.mpr ⟨ha c hc, hb c hc⟩

theorem bare_intercalate {sep : String} {l : List String} (hs : Bare sep) (hl : ∀ s ∈ l, Bare s) :
    Bare (sep.intercalate l) :=
  fun c hc => not_mem_intercalate (hs c hc) fun s h => hl s h c hc

theorem mem_intercalate_cons {c : Char} {sep s : String} {l : List String} (h : c ∈ s.toList) :
    c ∈ (sep.intercalate (s :: l)).toList := by
  cases l with
  | nil => simpa using h
  | cons t l =>
    rw [String.intercalate_cons_cons, String.toList_append, String.toList_append]
    exact List.mem_append_left _ (List.mem_append_left _ h)

theorem bare_join {l : List String} (hl : ∀ s ∈ l, Bare s) : Bare (String.join l) := by
  induction l with
  | nil => decide
  | cons s l ih =>
    rw [String.join_cons]
    exact (hl s List.mem_cons_self).append (ih fun t ht => hl t (List.mem_cons_of_mem s ht))

/-- A bare text with a character that is no letter is a name. -/
theorem Bare.tight {s : String} (h : Bare s) {d : Char} (hd : d ∈ s.toList) (ha : d.isAlpha = false) :
    Tight s.toList :=
  ⟨h, d, hd, ha⟩

/-- The sign of a comparison is a name. -/
theorem Comparison.tight_sql (op : Comparison) : Tight op.sql.toList := by
  cases op <;> decide

namespace Postgres

/-- A column of bare names is bare. -/
theorem bare_column {c : Column} (h : c.Bare) : Bare (column c) := (h.1.append (by decide)).append h.2

/-- A step along a bare key is bare. -/
theorem bare_arrow {key : String} (h : Bare key) : Bare (arrow key) :=
  ((show Bare "->'" by decide).append h).append (by decide)

theorem bare_textArrow {key : String} (h : Bare key) : Bare (textArrow key) :=
  ((show Bare "->>'" by decide).append h).append (by decide)

theorem bare_textArrows {keys : List String} (h : ∀ key ∈ keys, Bare key) : Bare (textArrows keys) := by
  fun_induction textArrows keys with
  | case1 => decide
  | case2 key => exact bare_textArrow (h key List.mem_cons_self)
  | case3 key keys _ ih =>
    exact (bare_arrow (h key List.mem_cons_self)).append (ih fun k hk => h k (List.mem_cons_of_mem key hk))

/-- A column holds a point. -/
theorem dot_mem_column (c : Column) : '.' ∈ (column c).toList := by
  simp [column]

theorem tight_column {c : Column} (h : c.Bare) : Tight (column c).toList :=
  (bare_column h).tight (dot_mem_column c) (by decide)

/-- A value at a path of bare keys is a name. -/
theorem tight_json {p : JsonPath} (h : p.Bare) : Tight (json p).toList := by
  have hk : Bare (String.join (p.keys.map arrow)) := by
    refine bare_join fun s hs => ?_
    obtain ⟨key, hk, rfl⟩ := List.mem_map.mp hs
    exact bare_arrow (h.2 key hk)
  have hd : '.' ∈ (json p).toList := by
    rw [json, String.toList_append]
    exact List.mem_append_left _ (dot_mem_column p.column)
  exact ((bare_column h.1).append hk).tight hd (by decide)

theorem tight_jsonText {p : JsonPath} (h : p.Bare) : Tight (jsonText p).toList := by
  have hd : '.' ∈ (jsonText p).toList := by
    rw [jsonText, String.toList_append]
    exact List.mem_append_left _ (dot_mem_column p.column)
  exact ((bare_column h.1).append (bare_textArrows h.2)).tight hd (by decide)

end Postgres

namespace MySql

/-- A bare name is bare in back quotes. -/
theorem bare_quoteName {name : String} (h : Bare name) : Bare (quoteName name) :=
  ((show Bare "`" by decide).append h).append (by decide)

theorem tight_column {c : Column} (h : c.Bare) : Tight (column c).toList :=
  (((bare_quoteName h.1).append (by decide)).append (bare_quoteName h.2)).tight (d := '.') (by simp) (by decide)

/-- A path of bare keys is a name. -/
theorem tight_dollar {p : JsonPath} (h : p.Bare) : Tight p.dollar.toList :=
  ((show Bare "$." by decide).append (bare_intercalate (by decide) h.2)).tight (d := '$') (by simp) (by decide)

end MySql

/-! ## Placeholders -/

/-- A placeholder holds neither a blank nor a parenthesis. -/
theorem Dialect.bare_placeholder (d : Dialect) (index : UInt64) : Bare (d.placeholder index) := by
  cases d with
  | mySql => exact (by decide : Bare "?")
  | postgres =>
    refine (show Bare "$" by decide).append fun c hc h => ?_
    rw [show toString index = index.toNat.repr from rfl, Nat.toList_repr] at h
    have hd : c.isDigit = true := Nat.isDigit_of_mem_toDigits (by decide) (by decide) h
    simp only [List.mem_cons, List.not_mem_nil, or_false] at hc
    rcases hc with rfl | rfl | rfl <;> cases hd

/-- Placeholders make a name, if there are any. -/
theorem Dialect.tight_placeholders (d : Dialect) (index : UInt64) {count : Nat} (h : 0 < count) :
    Tight (d.placeholders index count).toList := by
  have hb : Bare (d.placeholders index count) := by
    refine bare_intercalate (by decide) fun s hs => ?_
    obtain ⟨i, -, rfl⟩ := List.mem_map.mp hs
    exact d.bare_placeholder i
  have hm : ∃ c ∈ (d.placeholder index).toList, c.isAlpha = false := by
    cases d with
    | mySql => exact ⟨'?', by simp [placeholder], by decide⟩
    | postgres => exact ⟨'$', by simp [placeholder], by decide⟩
  obtain ⟨c, hc, ha⟩ := hm
  refine hb.tight ?_ ha
  obtain ⟨count, rfl⟩ := Nat.exists_eq_succ_of_ne_zero (Nat.ne_of_gt h)
  rw [placeholders, indices_succ, List.map_cons]
  exact mem_intercalate_cons hc

/-- What stands for some values: nothing if there are none, and otherwise a name. -/
structure Marks (values : List Value) (marks : String) : Prop where
  empty : values = [] → marks = ""
  tight : values ≠ [] → Tight marks.toList

/-- The placeholders of some values stand for them. -/
theorem Dialect.marks_placeholders (d : Dialect) (index : UInt64) (values : List Value) :
    Marks values (d.placeholders index values.length) := by
  refine ⟨fun h => ?_, fun h => d.tight_placeholders index (List.length_pos_of_ne_nil h)⟩
  rw [h]
  rfl

/-! ## Predicates -/

theorem Atomic.of_eq {s t : List Char} (h : s = t) (ht : Atomic t) : Atomic s := h ▸ ht

section

-- Some texts are the same in both dialects, but for the names in them.
variable {x marks : String} (hx : Tight x.toList)

include hx

/-- A test for truth is an atom. -/
theorem atomic_isTrue : Atomic ((x ++ " IS TRUE") ++ "" ++ "").toList := by
  have ht : ((x ++ " IS TRUE") ++ "" ++ "").toList = weave [([], x.toList)] " IS TRUE".toList := by simp [weave]
  have hc : Calm [[], " IS TRUE".toList] := by decide +kernel
  exact .of_eq ht (atomic_weave hc trivial hx (by simp))

/-- A comparison is an atom. -/
theorem atomic_compare (op : Comparison) (hm : Tight marks.toList) :
    Atomic ((x ++ " " ++ op.sql ++ " ") ++ marks ++ "").toList := by
  have ht : ((x ++ " " ++ op.sql ++ " ") ++ marks ++ "").toList =
      weave [([], x.toList), ([' '], op.sql.toList), ([' '], marks.toList)] [] := by simp [weave]
  have hc : Calm [[], [' '], [' '], []] := by decide +kernel
  exact .of_eq ht (atomic_weave hc trivial hx (by simp [op.tight_sql, hm]))

/-- A test for one of some values is an atom. -/
theorem atomic_oneOf {values : List Value} (hm : Marks values marks) :
    Atomic ((x ++ " IN (") ++ marks ++ ")").toList := by
  by_cases hv : values = []
  · obtain rfl := hm.empty hv
    have ht : ((x ++ " IN (") ++ "" ++ ")").toList = weave [([], x.toList)] " IN ()".toList := by simp [weave]
    have hc : Calm [[], " IN ()".toList] := by decide +kernel
    exact .of_eq ht (atomic_weave hc trivial hx (by simp))
  · have hm := hm.tight hv
    have ht : ((x ++ " IN (") ++ marks ++ ")").toList =
        weave [([], x.toList), (" IN (".toList, marks.toList)] [')'] := by simp [weave]
    have hc : Calm [[], " IN (".toList, [')']] := by decide +kernel
    exact .of_eq ht (atomic_weave hc trivial hx (by simpa using hm))

end

/-- The text of a predicate in PostgreSQL. Only a truth value in a document begins with a parenthesis, and more stands
behind that. -/
theorem Postgres.atomic_predicate {f : Field} {q : Predicate} {marks : String} (hf : f.Bare) (hq : q.ReadsFrom f)
    (hm : Marks (q.values .postgres) marks) : Atomic ((around q).1 ++ marks ++ (around q).2).toList := by
  have hx := tight_column hf.1
  have path {p : JsonPath} (hp : f.kind.path? = some p) : p.Bare := hf.2 p hp
  cases q with
  | isTrue c =>
    obtain rfl : c = f.column := hq
    obtain rfl := hm.empty rfl
    exact atomic_isTrue hx
  | jsonIsTrue p =>
    obtain rfl := hm.empty rfl
    have ht : (("(" ++ jsonText p ++ ")::boolean IS TRUE") ++ "" ++ "").toList =
        weave [(['('], (jsonText p).toList)] ")::boolean IS TRUE".toList := by simp [weave]
    have hc : Calm [['('], ")::boolean IS TRUE".toList] := by decide +kernel
    exact .of_eq ht (atomic_weave_parens hc rfl (tight_jsonText (path hq)) (by simp) rfl (by simp))
  | like c pattern =>
    obtain rfl : c = f.column := hq
    have hm := hm.tight (List.cons_ne_nil _ _)
    have ht : ((column f.column ++ " ILIKE ") ++ marks ++ "").toList =
        weave [([], (column f.column).toList), (" ILIKE ".toList, marks.toList)] [] := by simp [weave]
    have hc : Calm [[], " ILIKE ".toList, []] := by decide +kernel
    exact .of_eq ht (atomic_weave hc trivial hx (by simpa using hm))
  | compare c op value | compareInstant c op value =>
    obtain rfl : c = f.column := hq
    exact atomic_compare hx op (hm.tight (List.cons_ne_nil _ _))
  | compareJson p op value =>
    have hm := hm.tight (by cases value <;> exact List.cons_ne_nil _ _)
    have ht : (("(" ++ jsonText p ++ ")::boolean " ++ op.sql ++ " ") ++ marks ++ "").toList =
        weave [(['('], (jsonText p).toList), (")::boolean ".toList, op.sql.toList), ([' '], marks.toList)] [] := by
      simp [weave]
    have hc : Calm [['('], ")::boolean ".toList, [' '], []] := by decide +kernel
    exact .of_eq ht
      (atomic_weave_parens hc rfl (tight_jsonText (path hq)) (by simp [op.tight_sql, hm]) rfl (by simp))
  | compareSize p op size =>
    have hm := hm.tight (List.cons_ne_nil _ _)
    have ht : (("jsonb_array_length(COALESCE(" ++ json p ++ ", '[]'::jsonb))" ++ " " ++ op.sql ++ " ") ++ marks ++
          "").toList =
        weave [("jsonb_array_length(COALESCE(".toList, (json p).toList),
          (", '[]'::jsonb)) ".toList, op.sql.toList), ([' '], marks.toList)] [] := by simp [weave]
    have hc : Calm ["jsonb_array_length(COALESCE(".toList, ", '[]'::jsonb)) ".toList, [' '], []] := by decide +kernel
    exact .of_eq ht (atomic_weave hc (by decide) (tight_json (path hq)) (by simp [op.tight_sql, hm]))
  | oneOf c values =>
    obtain rfl : c = f.column := hq
    exact atomic_oneOf hx hm
  | hasTag p element | hasElement p element =>
    have hm := hm.tight (List.cons_ne_nil _ _)
    have ht : ((json p ++ " @> jsonb_build_array(") ++ marks ++ ")").toList =
        weave [([], (json p).toList), (" @> jsonb_build_array(".toList, marks.toList)] [')'] := by simp [weave]
    have hc : Calm [[], " @> jsonb_build_array(".toList, [')']] := by decide +kernel
    exact .of_eq ht (atomic_weave hc trivial (tight_json (path hq)) (by simpa using hm))

/-- The characters of an extraction, part by part. -/
theorem MySql.toList_jsonExtract (p : JsonPath) :
    (jsonExtract p).toList =
      "JSON_EXTRACT(".toList ++ (column p.column).toList ++ ", '".toList ++ p.dollar.toList ++ "')".toList := by
  show ("JSON_EXTRACT(" ++ column p.column ++ ", '" ++ p.dollar ++ "')").toList = _
  simp only [String.toList_append]

/-- The text of a predicate in MySQL. -/
theorem MySql.atomic_predicate {f : Field} {q : Predicate} {marks : String} (hf : f.Bare) (hq : q.ReadsFrom f)
    (hm : Marks (q.values .mySql) marks) : Atomic ((around q).1 ++ marks ++ (around q).2).toList := by
  have hx := tight_column hf.1
  have path {p : JsonPath} (hp : f.kind.path? = some p) : Tight (column p.column).toList ∧ Tight p.dollar.toList :=
    ⟨tight_column (hf.2 p hp).1, tight_dollar (hf.2 p hp)⟩
  cases q with
  | isTrue c =>
    obtain rfl : c = f.column := hq
    obtain rfl := hm.empty rfl
    exact atomic_isTrue hx
  | jsonIsTrue p =>
    obtain ⟨hp, hd⟩ := path hq
    obtain rfl := hm.empty rfl
    have ht : ((jsonExtract p ++ " = CAST('true' AS JSON)") ++ "" ++ "").toList =
        weave [("JSON_EXTRACT(".toList, (column p.column).toList), (", '".toList, p.dollar.toList)]
          "') = CAST('true' AS JSON)".toList := by simp [weave, toList_jsonExtract]
    have hc : Calm ["JSON_EXTRACT(".toList, ", '".toList, "') = CAST('true' AS JSON)".toList] := by decide +kernel
    exact .of_eq ht (atomic_weave hc (by decide) hp (by simpa using hd))
  | like c pattern =>
    obtain rfl : c = f.column := hq
    have hm := hm.tight (List.cons_ne_nil _ _)
    have ht : ((column f.column ++ " LIKE ") ++ marks ++ "").toList =
        weave [([], (column f.column).toList), (" LIKE ".toList, marks.toList)] [] := by simp [weave]
    have hc : Calm [[], " LIKE ".toList, []] := by decide +kernel
    exact .of_eq ht (atomic_weave hc trivial hx (by simpa using hm))
  | compare c op value =>
    obtain rfl : c = f.column := hq
    exact atomic_compare hx op (hm.tight (List.cons_ne_nil _ _))
  | compareInstant c op seconds =>
    obtain rfl : c = f.column := hq
    have hm := hm.tight (List.cons_ne_nil _ _)
    have ht : (("UNIX_TIMESTAMP(" ++ column f.column ++ ")" ++ " " ++ op.sql ++ " ") ++ marks ++ "").toList =
        weave [("UNIX_TIMESTAMP(".toList, (column f.column).toList), (") ".toList, op.sql.toList),
          ([' '], marks.toList)] [] := by simp [weave]
    have hc : Calm ["UNIX_TIMESTAMP(".toList, ") ".toList, [' '], []] := by decide +kernel
    exact .of_eq ht (atomic_weave hc (by decide) hx (by simp [op.tight_sql, hm]))
  | compareJson p op value =>
    obtain ⟨hp, hd⟩ := path hq
    have hm := hm.tight (by cases value <;> exact List.cons_ne_nil _ _)
    have ht : ((jsonExtract p ++ " " ++ op.sql ++ " CAST(") ++ marks ++ " AS JSON)").toList =
        weave [("JSON_EXTRACT(".toList, (column p.column).toList), (", '".toList, p.dollar.toList),
          ("') ".toList, op.sql.toList), (" CAST(".toList, marks.toList)] " AS JSON)".toList := by
      simp [weave, toList_jsonExtract]
    have hc : Calm ["JSON_EXTRACT(".toList, ", '".toList, "') ".toList, " CAST(".toList, " AS JSON)".toList] := by
      decide +kernel
    exact .of_eq ht (atomic_weave hc (by decide) hp (by simp [hd, op.tight_sql, hm]))
  | compareSize p op size =>
    obtain ⟨hp, hd⟩ := path hq
    have hm := hm.tight (List.cons_ne_nil _ _)
    have ht : (("JSON_LENGTH(COALESCE(" ++ jsonExtract p ++ ", JSON_ARRAY()))" ++ " " ++ op.sql ++ " ") ++ marks ++
          "").toList =
        weave [("JSON_LENGTH(COALESCE(JSON_EXTRACT(".toList, (column p.column).toList), (", '".toList, p.dollar.toList),
          ("'), JSON_ARRAY())) ".toList, op.sql.toList), ([' '], marks.toList)] [] := by simp [weave, toList_jsonExtract]
    have hc : Calm ["JSON_LENGTH(COALESCE(JSON_EXTRACT(".toList, ", '".toList, "'), JSON_ARRAY())) ".toList, [' '],
        []] := by decide +kernel
    exact .of_eq ht (atomic_weave hc (by decide) hp (by simp [hd, op.tight_sql, hm]))
  | oneOf c values =>
    obtain rfl : c = f.column := hq
    exact atomic_oneOf hx hm
  | hasTag p element | hasElement p element =>
    obtain ⟨hp, hd⟩ := path hq
    have hm := hm.tight (List.cons_ne_nil _ _)
    have ht : (("JSON_CONTAINS(" ++ jsonExtract p ++ ", ") ++ marks ++ ")").toList =
        weave [("JSON_CONTAINS(JSON_EXTRACT(".toList, (column p.column).toList), (", '".toList, p.dollar.toList),
          ("'), ".toList, marks.toList)] [')'] := by simp [weave, toList_jsonExtract]
    have hc : Calm ["JSON_CONTAINS(JSON_EXTRACT(".toList, ", '".toList, "'), ".toList, [')']] := by decide +kernel
    exact .of_eq ht (atomic_weave hc (by decide) hp (by simp [hd, hm]))

/-- The text of a predicate on a field that is stored under plain and bare names is an atom. -/
theorem Predicate.atomic_text (d : Dialect) (index : UInt64) {f : Field} {q : Predicate} (hp : f.Plain) (hf : f.Bare)
    (hq : q.ReadsFrom f) : Atomic (q.text d index).toList := by
  have hm := d.marks_placeholders index (q.values d)
  rw [text, Predicate.sides_eq_around d hp hq]
  cases d with
  | mySql => exact MySql.atomic_predicate hf hq hm
  | postgres => exact Postgres.atomic_predicate hf hq hm

end WhereClause
