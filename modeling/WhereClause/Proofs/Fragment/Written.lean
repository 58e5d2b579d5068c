import WhereClause.Proofs.Fragment.Indices
import WhereClause.Proofs.Plan.Related
import WhereClause.Proofs.Plan.Sides

/-!
# What is written

Binding values appends their placeholders, with commas between them, and the values (`Fragment.sql_bindAll`,
`Fragment.args_bindAll`); a predicate puts its two texts around them (`Predicate.sql_write`). So what a plan appends to
a fragment depends on the dialect and on the next index alone, whatever that index is: it is the clause of the plan at
that index (`Plan.clause`, `Plan.write_eq_splice`), with the values of its predicates from left to right.
-/

namespace WhereClause

/-- The placeholders of some values, numbered from an index, with commas between them. -/
def Dialect.placeholders (d : Dialect) (index : UInt64) (count : Nat) : String :=
  ",".intercalate ((indices index count).map d.placeholder)

example : Dialect.postgres.placeholders 9 3 = "$9,$10,$11" := by decide +kernel

@[simp] theorem Dialect.placeholders_zero (d : Dialect) (index : UInt64) : d.placeholders index 0 = "" := rfl

/-- A single value has a placeholder without a comma. -/
@[simp] theorem Dialect.placeholders_one (d : Dialect) (index : UInt64) :
    d.placeholders index 1 = d.placeholder index := by
  simp [placeholders, indices_succ]

/-- The first one of several placeholders stands before a comma. -/
theorem Dialect.placeholders_succ_succ (d : Dialect) (index : UInt64) (n : Nat) :
    d.placeholders index (n + 2) = d.placeholder index ++ "," ++ d.placeholders (index + 1) (n + 1) := by
  rw [placeholders, indices_succ, List.map_cons, indices_succ, List.map_cons, String.intercalate_cons_cons,
    ← List.map_cons, ← indices_succ, placeholders]

/-! ## Fragments -/

namespace Fragment

@[ext] theorem ext {f g : Fragment} (dialect : f.dialect = g.dialect) (start : f.start = g.start) (sql : f.sql = g.sql)
    (args : f.args = g.args) : f = g := by
  cases f
  cases g
  simp_all

@[simp] theorem dialect_empty (d : Dialect) (start : UInt64) : (empty d start).dialect = d := rfl

@[simp] theorem dialect_text (f : Fragment) (s : String) : (f.text s).dialect = f.dialect := rfl

@[simp] theorem dialect_bind (f : Fragment) (v : Value) : (f.bind v).dialect = f.dialect := rfl

@[simp] theorem dialect_bindAll (f : Fragment) (vs : List Value) : (f.bindAll vs).dialect = f.dialect := by
  fun_induction bindAll f vs with
  | case1 => rfl
  | case2 => rfl
  | case3 f v vs _ ih => rw [ih, dialect_text, dialect_bind]

@[simp] theorem start_text (f : Fragment) (s : String) : (f.text s).start = f.start := rfl

@[simp] theorem start_bind (f : Fragment) (v : Value) : (f.bind v).start = f.start := rfl

@[simp] theorem start_bindAll (f : Fragment) (vs : List Value) : (f.bindAll vs).start = f.start := by
  fun_induction bindAll f vs with
  | case1 => rfl
  | case2 => rfl
  | case3 f v vs _ ih => rw [ih, start_text, start_bind]

@[simp] theorem args_bindAll (f : Fragment) (vs : List Value) : (f.bindAll vs).args = f.args ++ vs := by
  fun_induction bindAll f vs with
  | case1 => simp
  | case2 => simp
  | case3 f v vs _ ih => rw [ih, args_text, args_bind, List.append_assoc, List.singleton_append]

/-- The first value of a fragment with nothing in it has the index that the fragment starts at. -/
@[simp] theorem next_empty (d : Dialect) (start : UInt64) : (empty d start).next = max start 1 :=
  UInt64.add_zero _

/-- Values are written as their placeholders. -/
theorem sql_bindAll (f : Fragment) (vs : List Value) :
    (f.bindAll vs).sql = f.sql ++ f.dialect.placeholders f.next vs.length := by
  fun_induction bindAll f vs with
  | case1 f => simp
  | case2 f v => simp
  | case3 f v vs hne ih =>
    obtain ⟨w, vs, rfl⟩ : ∃ w ws, vs = w :: ws := List.exists_cons_of_ne_nil (by rintro rfl; exact hne rfl)
    rw [ih]
    simp only [sql_text, sql_bind, dialect_text, dialect_bind, next_text, next_bind, List.length_cons,
      Dialect.placeholders_succ_succ, String.append_assoc]

/-- A fragment with a clause after it. -/
def splice (f : Fragment) (clause : Clause) : Fragment :=
  { f with sql := f.sql ++ clause.sql, args := f.args ++ clause.args }

@[simp] theorem dialect_splice (f : Fragment) (clause : Clause) : (f.splice clause).dialect = f.dialect := rfl

@[simp] theorem sql_splice (f : Fragment) (clause : Clause) : (f.splice clause).sql = f.sql ++ clause.sql := rfl

@[simp] theorem args_splice (f : Fragment) (clause : Clause) : (f.splice clause).args = f.args ++ clause.args := rfl

/-- Behind a clause the indices of its values have been used. -/
@[simp] theorem next_splice (f : Fragment) (clause : Clause) :
    (f.splice clause).next = f.next + .ofNat clause.args.length := by
  rw [next, next, splice, List.length_append, add_ofNat_add]

/-- A clause alone in a fragment keeps its text and its values, and they count on from where the fragment starts. -/
theorem clause_splice_empty (d : Dialect) (start : UInt64) (a : Clause) :
    ((empty d start).splice a).clause = ⟨a.sql, a.args, max start 1 + .ofNat a.args.length⟩ := by
  have hsql : ((empty d start).splice a).sql = a.sql := String.empty_append
  rw [clause, next_splice, next_empty, hsql]
  rfl

end Fragment

/-! ## Predicates -/

namespace Predicate

@[simp] theorem dialect_write (f : Fragment) (p : Predicate) : (p.write f).dialect = f.dialect := by
  rw [write_eq, Fragment.dialect_text, Fragment.dialect_bindAll, Fragment.dialect_text]

@[simp] theorem start_write (f : Fragment) (p : Predicate) : (p.write f).start = f.start := by
  rw [write_eq, Fragment.start_text, Fragment.start_bindAll, Fragment.start_text]

@[simp] theorem args_write (f : Fragment) (p : Predicate) : (p.write f).args = f.args ++ p.values f.dialect := by
  rw [write_eq, Fragment.args_text, Fragment.args_bindAll, Fragment.args_text]

/-- The text of a predicate whose values are numbered from an index. -/
def text (d : Dialect) (index : UInt64) (p : Predicate) : String :=
  (p.sides d).1 ++ d.placeholders index (p.values d).length ++ (p.sides d).2

/-- A predicate appends its text. -/
theorem sql_write (f : Fragment) (p : Predicate) : (p.write f).sql = f.sql ++ p.text f.dialect f.next := by
  rw [write_eq, Fragment.sql_text, Fragment.sql_bindAll, Fragment.sql_text, Fragment.next_text, Fragment.dialect_text]
  simp only [text, String.append_assoc]

/-- Behind a predicate the indices of its values have been used. -/
theorem next_write (f : Fragment) (p : Predicate) :
    (p.write f).next = f.next + .ofNat (p.values f.dialect).length := by
  rw [Fragment.next, start_write, args_write, List.length_append, add_ofNat_add, Fragment.next]

/-- The text of predicates with `OR` between two of them, whose values are numbered from an index. -/
def textAny (d : Dialect) (index : UInt64) : List Predicate → String
  | [] => ""
  | [p] => p.text d index
  | p :: ps => p.text d index ++ " OR " ++ textAny d (index + .ofNat (p.values d).length) ps

/-- Predicates append their text. -/
theorem sql_writeAny (f : Fragment) (ps : List Predicate) :
    (writeAny f ps).sql = f.sql ++ textAny f.dialect f.next ps := by
  fun_induction writeAny f ps with
  | case1 => simp [textAny]
  | case2 f p => simp [textAny, sql_write]
  | case3 f p ps hne ih =>
    rw [ih]
    simp only [textAny, Fragment.sql_text, sql_write, Fragment.dialect_text, dialect_write, Fragment.next_text,
      next_write, String.append_assoc]

/-- Predicates that bind one value each have consecutive indices. -/
theorem textAny_eq (d : Dialect) (index : UInt64) {ps : List Predicate} (h : ∀ p ∈ ps, (p.values d).length = 1) :
    textAny d index ps = " OR ".intercalate (ps.mapIdx fun i p => p.text d (index + .ofNat i)) := by
  fun_induction textAny d index ps with
  | case1 => simp
  | case2 index p => simp
  | case3 index p ps hne ih =>
    obtain ⟨hp, hps⟩ := List.forall_mem_cons.mp h
    obtain ⟨q, qs, rfl⟩ : ∃ q qs, ps = q :: qs := List.exists_cons_of_ne_nil (by rintro rfl; exact hne rfl)
    rw [ih hps, hp]
    simp [String.intercalate_cons_cons, String.append_assoc, Nat.add_comm _ 1, UInt64.add_assoc]

/-- Predicates with OR between them bind their values one after the other. -/
theorem args_writeAny (f : Fragment) (ps : List Predicate) :
    (writeAny f ps).args = f.args ++ ps.flatMap (values f.dialect) := by
  fun_induction writeAny f ps with
  | case1 => simp
  | case2 f p => simp
  | case3 f p ps _ ih =>
    rw [ih]
    simp

end Predicate

/-! ## Plans -/

namespace Plan

/-- The values that a plan binds, from left to right. -/
def args (d : Dialect) : Plan → List Value
  | .test p => p.values d
  | .anyOf ps => ps.flatMap (Predicate.values d)
  | .negation p => p.args d
  | .both l r | .either l r => l.args d ++ r.args d
  | .refused _ => []

/-- A joined plan binds the values of its left part and then those of its right part. -/
theorem args_plan (d : Dialect) (j : Junctor) (l r : Plan) : (j.plan l r).args d = l.args d ++ r.args d := by
  cases j <;> rfl

/-- Writing a plan keeps the dialect of a fragment and the index of its first value, also where it stops. -/
theorem frame_write (p : Plan) (f : Fragment) :
    (p.write f).1.dialect = f.dialect ∧ (p.write f).1.start = f.start := by
  let R (g _ : Fragment) : Prop := g.dialect = f.dialect ∧ g.start = f.start
  have kept : Kept Eq R := by
    constructor
    · intro s _ g _ h
      exact h
    · intro p _ _ g _ h
      exact ⟨(Predicate.dialect_write g p).trans h.1, (Predicate.start_write g p).trans h.2⟩
  exact ((Related.refl (fun _ => rfl) p).write kept (R := R) (g := f) ⟨rfl, rfl⟩).1

/-- The text of a plan whose values are numbered from an index. -/
def text (d : Dialect) (index : UInt64) : Plan → String
  | .test p => p.text d index
  | .anyOf ps =>
    if ps.length > 1 then "(" ++ Predicate.textAny d index ps ++ ")" else Predicate.textAny d index ps
  | .negation p => "NOT (" ++ p.text d index ++ ")"
  | .both l r => "(" ++ l.text d index ++ " AND " ++ r.text d (index + .ofNat (l.args d).length) ++ ")"
  | .either l r => "(" ++ l.text d index ++ " OR " ++ r.text d (index + .ofNat (l.args d).length) ++ ")"
  | .refused _ => ""

/-- The right part of a joined plan goes on with the index behind the values of the left part. -/
theorem text_plan (d : Dialect) (index : UInt64) (j : Junctor) (l r : Plan) :
    (j.plan l r).text d index =
      "(" ++ l.text d index ++ j.word ++ r.text d (index + .ofNat (l.args d).length) ++ ")" := by
  cases j <;> rfl

/-- The clause of a plan whose first value has an index. -/
def clause (d : Dialect) (index : UInt64) (p : Plan) : Clause :=
  ⟨p.text d index, p.args d, index + .ofNat (p.args d).length⟩

/-- A plan in which nothing is refused appends its clause, whatever index the next value has. -/
theorem write_eq_splice {p : Plan} (h : p.refusal? = none) (f : Fragment) :
    p.write f = (f.splice (p.clause f.dialect f.next), none) := by
  have joined (j : Junctor) (l r : Plan) (f : Fragment)
      (ihl : ∀ f, l.write f = (f.splice (l.clause f.dialect f.next), none))
      (ihr : ∀ f, r.write f = (f.splice (r.clause f.dialect f.next), none)) :
      (j.plan l r).write f = (f.splice ((j.plan l r).clause f.dialect f.next), none) := by
    rw [write_plan, ihl, andThen_none, ihr, andThen_none]
    refine Prod.ext (Fragment.ext rfl rfl ?_ ?_) rfl
    · simp [clause, text_plan, String.append_assoc]
    · simp [clause, args_plan]
  induction p generalizing f with
  | test p => exact Prod.ext (Fragment.ext (p.dialect_write f) (p.start_write f) (p.sql_write f) (p.args_write f)) rfl
  | anyOf ps =>
    have frame := (anyOf ps).frame_write f
    refine Prod.ext (Fragment.ext frame.1 frame.2 ?_ ?_) rfl
    · simp only [write, clause, text, Fragment.sql_splice]
      split
      · simp [Predicate.sql_writeAny, String.append_assoc]
      · exact Predicate.sql_writeAny f ps
    · simp only [write, clause, args, Fragment.args_splice]
      split
      · simp [Predicate.args_writeAny]
      · exact Predicate.args_writeAny f ps
  | negation p ih =>
    rw [refusal?] at h
    rw [write_negation, ih h, andThen_none]
    refine Prod.ext (Fragment.ext rfl rfl ?_ rfl) rfl
    simp [clause, text, String.append_assoc]
  | both l r ihl ihr =>
    obtain ⟨hl, hr⟩ := Option.or_eq_none_iff.mp h
    exact joined .and l r f (ihl hl) (ihr hr)
  | either l r ihl ihr =>
    obtain ⟨hl, hr⟩ := Option.or_eq_none_iff.mp h
    exact joined .or l r f (ihl hl) (ihr hr)
  | refused why => cases h

end Plan

/-! ## Filters -/

/-- The clause of a filter whose first value has an index, which may be any. -/
def Catalog.clauseAt (c : Catalog) (d : Dialect) (index : UInt64) (e : Expr) : Except Rejection Clause :=
  match (c.plan e).refusal? with
  | none => .ok ((c.plan e).clause d index)
  | some why => .error why

namespace Catalog

variable {c : Catalog} {d : Dialect} {index : UInt64} {e : Expr} {a : Clause}

/-- A filter has a clause unless something in its plan is refused, and then it is the clause of the plan. -/
theorem clauseAt_eq_ok_iff :
    c.clauseAt d index e = .ok a ↔ (c.plan e).refusal? = none ∧ a = (c.plan e).clause d index := by
  unfold clauseAt
  cases (c.plan e).refusal? with
  | none => simp [eq_comm]
  | some why => simp

/-- A filter has no clause exactly for the reason that refuses its plan. -/
theorem clauseAt_eq_error_iff {why : Rejection} :
    c.clauseAt d index e = .error why ↔ (c.plan e).refusal? = some why := by
  unfold clauseAt
  cases (c.plan e).refusal? with
  | none => simp
  | some why' => simp

end Catalog

/-- Compiling a filter gives its clause at the index where the fragment starts. -/
theorem Compiler.compile_eq_clauseAt (c : Catalog) (d : Dialect) (start : UInt64) (e : Expr) :
    compile ⟨c, d, start⟩ e = c.clauseAt d (max start 1) e := by
  rw [compile_eq, Catalog.clauseAt]
  dsimp only
  cases h : (c.plan e).refusal? with
  | none =>
    dsimp only
    rw [Plan.write_eq_splice h, Fragment.next_empty]
    rw [Fragment.clause_splice_empty]
    rfl
  | some why => rfl

end WhereClause
