import WhereClause.Catalog.Entity
import WhereClause.Proofs.Catalog.Fields
import WhereClause.Proofs.Plan.Resolved
import WhereClause.Proofs.Plan.Sides

/-!
# Text without placeholders

A placeholder is a `?` in one dialect and a `$` with digits in the other. A text is inert in a dialect when writing it
makes no placeholder and does not add digits to one that stands before it. Where a catalog has plain names, all that
predicates write around their values is inert (`Predicate.inert_sides`).
-/

namespace WhereClause

/-- A text holds no character that begins a placeholder. -/
def Unmarked (s : String) : Prop := '?' ∉ s.toList ∧ '$' ∉ s.toList

/-- A text holds no character that begins a placeholder, and does not begin with a digit. -/
def Plain (s : String) : Prop := Unmarked s ∧ ∀ c ∈ s.toList.head?, c.isDigit = false

/-- Writing a text in a dialect makes no placeholder and lengthens none. -/
def Inert (d : Dialect) (s : String) : Prop := '?' ∉ s.toList ∧ (d = .postgres → Plain s)

instance (s : String) : Decidable (Unmarked s) := inferInstanceAs (Decidable (_ ∧ _))

-- Decided on the first character: the general instance would go through every character there is.
instance (s : String) : Decidable (Plain s) :=
  decidable_of_iff (Unmarked s ∧ (s.toList.head?.all fun c => !c.isDigit) = true)
    (and_congr_right fun _ => by cases s.toList.head? <;> simp)

instance (d : Dialect) (s : String) : Decidable (Inert d s) := inferInstanceAs (Decidable (_ ∧ _))

/-! ## Putting texts together -/

/-- A character that is in neither of two texts is not in both of them together. -/
theorem not_mem_toList_append {c : Char} {a b : String} : c ∉ (a ++ b).toList ↔ c ∉ a.toList ∧ c ∉ b.toList := by
  rw [String.toList_append, List.mem_append, not_or]

theorem Unmarked.append {a b : String} (ha : Unmarked a) (hb : Unmarked b) : Unmarked (a ++ b) :=
  ⟨not_mem_toList_append.mpr ⟨ha.1, hb.1⟩, not_mem_toList_append.mpr ⟨ha.2, hb.2⟩⟩

theorem Plain.append {a b : String} (ha : Plain a) (hb : Plain b) : Plain (a ++ b) := by
  refine ⟨ha.1.append hb.1, fun c hc => ?_⟩
  rw [String.toList_append, List.head?_append, Option.mem_def, Option.or_eq_some_iff] at hc
  rcases hc with hc | ⟨-, hc⟩
  · exact ha.2 c hc
  · exact hb.2 c hc

/-- Behind a plain text that is not empty, a name may begin with a digit. -/
theorem Plain.append_unmarked {a b : String} (ha : Plain a) (hne : a.toList ≠ []) (hb : Unmarked b) :
    Plain (a ++ b) := by
  refine ⟨ha.1.append hb, fun c hc => ha.2 c ?_⟩
  rw [String.toList_append, List.head?_append, Option.mem_def, Option.or_eq_some_iff] at hc
  rcases hc with hc | ⟨hn, -⟩
  · exact hc
  · exact absurd (List.head?_eq_none_iff.mp hn) hne

/-- Plain texts are plain together. -/
theorem plain_join {l : List String} (h : ∀ s ∈ l, Plain s) : Plain (String.join l) := by
  induction l with
  | nil => decide
  | cons s l ih =>
    rw [String.join_cons]
    exact (h s List.mem_cons_self).append (ih fun t ht => h t (List.mem_cons_of_mem s ht))

/-- A plain text is inert in either dialect. -/
theorem Plain.inert {s : String} (h : Plain s) (d : Dialect) : Inert d s := ⟨h.1.1, fun _ => h⟩

theorem Inert.append {d : Dialect} {a b : String} (ha : Inert d a) (hb : Inert d b) : Inert d (a ++ b) :=
  ⟨not_mem_toList_append.mpr ⟨ha.1, hb.1⟩, fun h => (ha.2 h).append (hb.2 h)⟩

/-- MySQL reads no mark but the one for a value. -/
theorem inert_mySql_iff {s : String} : Inert .mySql s ↔ '?' ∉ s.toList := by
  simp [Inert]

/-- A character that is in none of some texts and not in the word between them is not in all of this. -/
theorem not_mem_intercalate {c : Char} {sep : String} {l : List String} (hs : c ∉ sep.toList)
    (hl : ∀ s ∈ l, c ∉ s.toList) : c ∉ (sep.intercalate l).toList := by
  induction l with
  | nil => simp
  | cons s l ih =>
    cases l with
    | nil => simpa using hl s
    | cons t l =>
      rw [String.intercalate_cons_cons, not_mem_toList_append, not_mem_toList_append]
      exact ⟨⟨hl s List.mem_cons_self, hs⟩, ih fun u hu => hl u (List.mem_cons_of_mem s hu)⟩

/-! ## Plain catalogs -/

/-- The names of a column hold nothing that begins a placeholder, and the table's does not begin with a digit. -/
def Column.Plain (c : Column) : Prop := WhereClause.Plain c.table ∧ Unmarked c.name

/-- The names along a path hold nothing that begins a placeholder. -/
def JsonPath.Plain (p : JsonPath) : Prop := p.column.Plain ∧ ∀ key ∈ p.keys, Unmarked key

/-- A field is stored under plain names. -/
def Field.Plain (f : Field) : Prop := f.column.Plain ∧ ∀ p ∈ f.kind.path?, p.Plain

/-- What is registered is stored under plain names; an alias is not stored. -/
def CatalogEntry.Plain : CatalogEntry → Prop
  | .field f => f.Plain
  | .alias _ => True

/-- Every field of a catalog is stored under plain names. -/
def Catalog.Plain (c : Catalog) : Prop := ∀ name f, c.lookup? name = some f → f.Plain

instance (c : Column) : Decidable c.Plain := inferInstanceAs (Decidable (_ ∧ _))

instance (p : JsonPath) : Decidable p.Plain := inferInstanceAs (Decidable (_ ∧ _))

instance (f : Field) : Decidable f.Plain := inferInstanceAs (Decidable (_ ∧ _))

instance : (e : CatalogEntry) → Decidable e.Plain
  | .field f => inferInstanceAs (Decidable f.Plain)
  | .alias _ => inferInstanceAs (Decidable True)

/-- A catalog is plain if its entries are, which can be computed. -/
theorem Catalog.plain_of_entries {c : Catalog} (h : ∀ e ∈ c.entries.map (·.2), e.Plain) : c.Plain :=
  fun _ _ hf => h _ (Catalog.mem_entries_of_lookup? hf)

/-- The catalogs of the entities are plain. -/
theorem Entity.plain_catalog (e : Entity) : e.catalog.Plain := by
  cases e with
  | memo => exact Catalog.plain_of_entries (by decide +kernel)
  | attachment => exact Catalog.plain_of_entries (by decide +kernel)

/-! ## Templates -/

/-- What a snippet is about has plain names. -/
def Snippet.Plain : Snippet → Prop
  | .table name => WhereClause.Plain name
  | .column c | .seconds c | .like c | .oneOf c | .isTrue c => c.Plain
  | .jsonIsTrue p | .jsonCompare p _ | .holdsTag p | .holdsElement p | .arrayLength p => p.Plain

/-- The operators are plain. -/
theorem Comparison.plain_sql (op : Comparison) : Plain op.sql := by
  cases op <;> decide

namespace Postgres

/-- A plain column is written plainly. -/
theorem plain_column {c : Column} (h : c.Plain) : Plain (column c) :=
  (h.1.append (by decide)).append_unmarked (by simp) h.2

/-- An arrow to an unmarked key is plain. -/
theorem plain_arrow {key : String} (h : Unmarked key) : Plain (arrow key) :=
  ((show Plain "->'" by decide).append_unmarked (by decide) h).append (by decide)

theorem plain_textArrow {key : String} (h : Unmarked key) : Plain (textArrow key) :=
  ((show Plain "->>'" by decide).append_unmarked (by decide) h).append (by decide)

theorem plain_textArrows {keys : List String} (h : ∀ key ∈ keys, Unmarked key) : Plain (textArrows keys) := by
  fun_induction textArrows keys with
  | case1 => decide
  | case2 key => exact plain_textArrow (h key List.mem_cons_self)
  | case3 key keys _ ih =>
    exact (plain_arrow (h key List.mem_cons_self)).append (ih fun k hk => h k (List.mem_cons_of_mem key hk))

/-- A plain path is written plainly. -/
theorem plain_json {p : JsonPath} (h : p.Plain) : Plain (json p) := by
  refine (plain_column h.1).append (plain_join fun s hs => ?_)
  obtain ⟨key, hk, rfl⟩ := List.mem_map.mp hs
  exact plain_arrow (h.2 key hk)

theorem plain_jsonText {p : JsonPath} (h : p.Plain) : Plain (jsonText p) :=
  (plain_column h.1).append (plain_textArrows h.2)

end Postgres

namespace MySql

/-- An unmarked name is inert in backticks. -/
theorem inert_quoteName {name : String} (h : Unmarked name) : Inert .mySql (quoteName name) := by
  rw [inert_mySql_iff, quoteName, not_mem_toList_append, not_mem_toList_append]
  exact ⟨⟨by decide, h.1⟩, by decide⟩

/-- A plain column is inert in backticks. -/
theorem inert_column {c : Column} (h : c.Plain) : Inert .mySql (column c) :=
  ((inert_quoteName h.1.1).append (by decide)).append (inert_quoteName h.2)

/-- A plain path is inert inside its literal. -/
theorem inert_jsonExtract {p : JsonPath} (h : p.Plain) : Inert .mySql (jsonExtract p) := by
  have hd : Inert .mySql p.dollar :=
    inert_mySql_iff.mpr (not_mem_toList_append.mpr
      ⟨by decide, not_mem_intercalate (by decide) fun key hk => (h.2 key hk).1⟩)
  have ho : Inert .mySql "JSON_EXTRACT(" := by decide
  have hs : Inert .mySql ", '" := by decide
  exact ((((ho.append (inert_column h.1)).append hs).append hd).append (by decide))

end MySql

/-- The texts around the hole of a template that begins with an inert text. -/
theorem Fragment.inert_sides_append {d : Dialect} {a b : String} (ha : Inert d a)
    (hb : Inert d (sides b).1 ∧ Inert d (sides b).2) : Inert d (sides (a ++ b)).1 ∧ Inert d (sides (a ++ b)).2 := by
  rw [sides_append_left ha.1]
  exact ⟨ha.append hb.1, hb.2⟩

/-- A text without a hole has nothing after its hole. -/
theorem Fragment.inert_sides {d : Dialect} {s : String} (h : Inert d s) :
    Inert d (sides s).1 ∧ Inert d (sides s).2 := by
  rw [sides_eq_of_not_mem h.1]
  exact ⟨h, (show Plain "" by decide).inert d⟩

/-- A snippet without a hole is inert. -/
theorem Dialect.inert_template (d : Dialect) {s : Snippet} (h : s.Plain) (hs : s.hasHole = false) :
    Inert d (d.template s) := by
  cases d with
  | mySql =>
    cases s with
    | table => exact MySql.inert_quoteName h.1
    | column => exact MySql.inert_column h
    | seconds =>
      have ho : Inert .mySql "UNIX_TIMESTAMP(" := by decide
      exact (ho.append (MySql.inert_column h)).append (by decide)
    | isTrue => exact (MySql.inert_column h).append (by decide)
    | jsonIsTrue => exact (MySql.inert_jsonExtract h).append (by decide)
    | arrayLength =>
      have ho : Inert .mySql "JSON_LENGTH(COALESCE(" := by decide
      exact (ho.append (MySql.inert_jsonExtract h)).append (by decide)
    | _ => cases hs
  | postgres =>
    refine Plain.inert ?_ .postgres
    cases s with
    | table => exact h
    | column => exact Postgres.plain_column h
    | seconds => exact Postgres.plain_column h
    | isTrue => exact (Postgres.plain_column h).append (by decide)
    | jsonIsTrue => exact ((show Plain "(" by decide).append (Postgres.plain_jsonText h)).append (by decide)
    | arrayLength =>
      have ho : Plain "jsonb_array_length(COALESCE(" := by decide
      exact (ho.append (Postgres.plain_json h)).append (by decide)
    | _ => cases hs

/-- The texts around the hole of a snippet are inert. -/
theorem Dialect.inert_sides_template (d : Dialect) {s : Snippet} (h : s.Plain) :
    Inert d (Fragment.sides (d.template s)).1 ∧ Inert d (Fragment.sides (d.template s)).2 := by
  cases hs : s.hasHole with
  | false => exact Fragment.inert_sides (d.inert_template h hs)
  | true =>
    cases d with
    | mySql =>
      cases s with
      | like => exact Fragment.inert_sides_append (MySql.inert_column h) (by decide)
      | oneOf => exact Fragment.inert_sides_append (MySql.inert_column h) (by decide)
      | jsonCompare p op =>
        have hop : Inert .mySql (MySql.jsonExtract p ++ " " ++ op.sql) :=
          ((MySql.inert_jsonExtract h).append (by decide)).append (op.plain_sql.inert _)
        exact Fragment.inert_sides_append hop (by decide)
      | holdsTag | holdsElement =>
        have ho : Inert .mySql "JSON_CONTAINS(" := by decide
        exact Fragment.inert_sides_append (ho.append (MySql.inert_jsonExtract h)) (by decide)
      | _ => cases hs
    | postgres =>
      cases s with
      | like => exact Fragment.inert_sides_append ((Postgres.plain_column h).inert _) (by decide)
      | oneOf => exact Fragment.inert_sides_append ((Postgres.plain_column h).inert _) (by decide)
      | jsonCompare p op =>
        have hop : Plain ("(" ++ Postgres.jsonText p ++ ")::boolean " ++ op.sql) :=
          (((show Plain "(" by decide).append (Postgres.plain_jsonText h)).append (by decide)).append op.plain_sql
        exact Fragment.inert_sides_append (hop.inert _) (by decide)
      | holdsTag | holdsElement => exact Fragment.inert_sides_append ((Postgres.plain_json h).inert _) (by decide)
      | _ => cases hs

/-- What a predicate on a plain field writes around its values is inert. -/
theorem Predicate.inert_sides (d : Dialect) {f : Field} {q : Predicate} (hf : f.Plain) (hq : q.ReadsFrom f) :
    Inert d (q.sides d).1 ∧ Inert d (q.sides d).2 := by
  have operator {s : String} (hs : Inert d s) (op : Comparison) :
      Inert d (s ++ " " ++ op.sql ++ " ") ∧ Inert d "" := by
    have blank : Inert d " " := (show Plain " " by decide).inert d
    exact ⟨((hs.append blank).append (op.plain_sql.inert d)).append blank, (show Plain "" by decide).inert d⟩
  have path {p : JsonPath} (hp : f.kind.path? = some p) : p.Plain := hf.2 p hp
  cases q with
  | isTrue c =>
    obtain rfl : c = f.column := hq
    exact d.inert_sides_template (s := .isTrue f.column) hf.1
  | like c pattern =>
    obtain rfl : c = f.column := hq
    exact d.inert_sides_template (s := .like f.column) hf.1
  | oneOf c values =>
    obtain rfl : c = f.column := hq
    exact d.inert_sides_template (s := .oneOf f.column) hf.1
  | compare c op value =>
    obtain rfl : c = f.column := hq
    exact operator (d.inert_template (s := .column f.column) hf.1 rfl) op
  | compareInstant c op seconds =>
    obtain rfl : c = f.column := hq
    exact operator (d.inert_template (s := .seconds f.column) hf.1 rfl) op
  | jsonIsTrue p => exact d.inert_sides_template (s := .jsonIsTrue p) (path hq)
  | compareJson p op value => exact d.inert_sides_template (s := .jsonCompare p op) (path hq)
  | compareSize p op size => exact operator (d.inert_template (s := .arrayLength p) (path hq) rfl) op
  | hasTag p tag => exact d.inert_sides_template (s := .holdsTag p) (path hq)
  | hasElement p element => exact d.inert_sides_template (s := .holdsElement p) (path hq)

/-! ## Filters over plain catalogs -/

/-- A relation between fragments that inert texts and values keep is kept by whole filters over a plain catalog, and
these are refused alike on both sides. -/
theorem Catalog.Plain.convert_related {c : Catalog} (hc : c.Plain) {d : Dialect} {R : Fragment → Fragment → Prop}
    (dialect : ∀ {f g}, R f g → f.dialect = d ∧ g.dialect = d)
    (text : ∀ {s}, Inert d s → ∀ {f g}, R f g → R (f.text s) (g.text s))
    (bind : ∀ v {f g}, R f g → R (f.bind v) (g.bind v)) (e : Expr) {f g : Fragment} (hfg : R f g) :
    R (c.convert e f).1 (c.convert e g).1 ∧ (c.convert e f).2 = (c.convert e g).2 := by
  let S (q r : Predicate) : Prop := q = r ∧ Inert d (q.sides d).1 ∧ Inert d (q.sides d).2
  have comma : Inert d "," := (show WhereClause.Plain "," by decide).inert d
  have bindAll (vs : List Value) {f g : Fragment} (h : R f g) : R (f.bindAll vs) (g.bindAll vs) := by
    refine Fragment.bindAll_related (S := Eq) ?_ (text comma) (List.forall₂_refl vs) h
    rintro v _ rfl f g h
    exact bind v h
  have kept : Plan.Kept S R := by
    constructor
    · intro s hs f g h
      have hi : ∀ s ∈ Plan.words, WhereClause.Plain s := by decide
      exact text ((hi s hs).inert d) h
    · rintro q _ ⟨rfl, hq⟩ f g h
      obtain ⟨hf, hg⟩ := dialect h
      rw [Predicate.write_eq, Predicate.write_eq, hf, hg]
      exact text hq.2 (bindAll _ (text hq.1 h))
  have all : (c.plan e).All fun q => S q q :=
    (c.all_readsFrom e).imp fun q ⟨name, f, hf, hq⟩ => ⟨rfl, Predicate.inert_sides d (hc name f hf) hq⟩
  exact all.related.write kept hfg

end WhereClause
