import WhereClause.Catalog.Entity
import WhereClause.Expr.Build
import WhereClause.Proofs.Fragment.Written
import WhereClause.Proofs.Plan.Resolved

/-!
# Constants and bound values

The values that a filter binds are its constants: each of them once, from left to right, and coerced as the place
where it stands asks for (`arguments_are_constants`). The constants of an expression (`Expr.constants`) and their
places (`Catalog.placed`) are read off the tree, by a walk that knows nothing of plans or of refusals.
-/

namespace WhereClause

mutual

/-- The constants of an expression from left to right; a receiver comes before the arguments. -/
def Expr.constants : Expr → List Literal
  | .const l => [l]
  | .ident _ => []
  | .list items => Expr.constantsAll items
  | .call _ none args => Expr.constantsAll args
  | .call _ (some receiver) args => receiver.constants ++ Expr.constantsAll args

/-- The constants of several expressions. -/
def Expr.constantsAll : List Expr → List Literal
  | [] => []
  | e :: es => e.constants ++ Expr.constantsAll es

end

/-- What a constant stands beside, as far as that decides how it is bound. -/
inductive Place where
  /-- It is compared with a point in time. -/
  | instant
  /-- It is searched for in a text. -/
  | pattern
  /-- It is compared with a truth value in a document. -/
  | flag
  | plain
  deriving DecidableEq, Repr

/-- The place of a constant that a field is compared with. -/
def Field.place (f : Field) (op : Comparison) : Place :=
  match f.kind with
  | .timestamp => .instant
  | .text => if op.isEquality then .pattern else .plain
  | .jsonBool _ => .flag
  | _ => .plain

/-- The place of a constant among the operands of a call. -/
def Catalog.place (c : Catalog) (symbol : String) (operands : List Expr) : Place :=
  match Symbol.ofText? symbol, operands with
  | some (.compare op), .ident name :: _ =>
    match c.lookup? name with
    | some f => f.place op
    | none => .plain
  | some .contains, _ => .pattern
  | _, _ => .plain

mutual

/-- The constants of an expression from left to right, each with its place; `place` is that of the expression itself. -/
def Catalog.placed (c : Catalog) (place : Place) : Expr → List (Place × Literal)
  | .const l => [(place, l)]
  | .ident _ => []
  | .list items => c.placedAll .plain items
  | .call symbol none args => c.placedAll (c.place symbol args) args
  | .call symbol (some receiver) args =>
    c.placed (c.place symbol (receiver :: args)) receiver ++ c.placedAll (c.place symbol (receiver :: args)) args

/-- The constants of several expressions at one place. -/
def Catalog.placedAll (c : Catalog) (place : Place) : List Expr → List (Place × Literal)
  | [] => []
  | e :: es => c.placed place e ++ c.placedAll place es

end

/-- The value that a constant is bound as. Beside a point in time, a text is read as a timestamp; a text that is none
and a truth value are not bound there. -/
def Literal.boundAt (d : Dialect) : Place → Literal → Option Value
  | .instant, .int n => some (.int n)
  | .instant, .string s =>
    match parseTimestamp s with
    | .ok n => some (.int n)
    | .error _ => none
  | .instant, .bool _ => none
  | .pattern, l => some (.string ("%" ++ l.needle ++ "%"))
  | .flag, .bool b => some (d.boolParam b)
  | _, .int n => some (.int n)
  | _, .string s => some (.string s)
  | _, .bool b => some (.boolean b)

/-! ## Walking the tree -/

mutual

/-- The constants with their places are the constants. -/
theorem Catalog.map_snd_placed (c : Catalog) (place : Place) :
    (e : Expr) → (c.placed place e).map Prod.snd = e.constants
  | .const l => rfl
  | .ident _ => rfl
  | .list items => by rw [placed, Expr.constants, c.map_snd_placedAll]
  | .call symbol none args => by rw [placed, Expr.constants, c.map_snd_placedAll]
  | .call symbol (some receiver) args => by
    rw [placed, Expr.constants, List.map_append, c.map_snd_placed, c.map_snd_placedAll]

/-- The same for several expressions. -/
theorem Catalog.map_snd_placedAll (c : Catalog) (place : Place) :
    (es : List Expr) → (c.placedAll place es).map Prod.snd = Expr.constantsAll es
  | [] => rfl
  | e :: es => by rw [placedAll, Expr.constantsAll, List.map_append, c.map_snd_placed, c.map_snd_placedAll]

end

namespace Catalog

variable (c : Catalog)

theorem placedAll_eq_flatMap (place : Place) (es : List Expr) : c.placedAll place es = es.flatMap (c.placed place) := by
  induction es with
  | nil => rfl
  | cons e es ih => rw [placedAll, ih, List.flatMap_cons]

/-- The constants of a call are those of its operands, all of them at one place. -/
theorem placed_call (place : Place) (symbol : String) (receiver : Option Expr) (args : List Expr) :
    c.placed place (.call symbol receiver args) =
      (operands receiver args).flatMap (c.placed (c.place symbol (operands receiver args))) := by
  cases receiver with
  | none => rw [placed, placedAll_eq_flatMap]; rfl
  | some r => rw [placed, placedAll_eq_flatMap]; rfl

section

variable {symbol name : String} {receiver : Option Expr} {args : List Expr} {l : Literal}

/-- A constant that a field is compared with stands where the field puts it. -/
theorem placed_of_comparison {op : Comparison} {f : Field} (hs : Symbol.ofText? symbol = some (.compare op))
    (ho : operands receiver args = [.ident name, .const l]) (hf : c.lookup? name = some f) :
    c.placed .plain (.call symbol receiver args) = [(f.place op, l)] := by
  have hp : c.place symbol [.ident name, .const l] = f.place op := by simp only [Catalog.place, hs, hf]
  rw [placed_call, ho, hp]
  rfl

theorem placed_of_size {op : Comparison} {symbol' : String} {receiver' : Option Expr} {args' : List Expr}
    (hs : Symbol.ofText? symbol = some (.compare op))
    (ho : operands receiver args = [.call symbol' receiver' args', .const l])
    (ho' : operands receiver' args' = [.ident name]) :
    c.placed .plain (.call symbol receiver args) = [(.plain, l)] := by
  have hp : c.place symbol [.call symbol' receiver' args', .const l] = .plain := by simp only [Catalog.place, hs]
  rw [placed_call, ho, hp, List.flatMap_cons, placed_call, ho']
  rfl

theorem placed_of_list {ls : List Literal} (hs : Symbol.ofText? symbol = some .isIn)
    (ho : operands receiver args = [.ident name, .list (ls.map .const)]) :
    c.placed .plain (.call symbol receiver args) = ls.map fun l => (.plain, l) := by
  have hp : c.place symbol [.ident name, .list (ls.map .const)] = .plain := by simp only [Catalog.place, hs]
  have hl (place : Place) : c.placed place (.list (ls.map .const)) = ls.map fun l => (.plain, l) := by
    rw [placed, placedAll_eq_flatMap, List.flatMap_map]
    exact List.flatMap_pure_eq_map _ ls
  rw [placed_call, ho, hp, List.flatMap_cons, List.flatMap_cons, hl]
  exact List.append_nil _

theorem placed_of_element (hs : Symbol.ofText? symbol = some .isIn)
    (ho : operands receiver args = [.const l, .ident name]) :
    c.placed .plain (.call symbol receiver args) = [(.plain, l)] := by
  have hp : c.place symbol [.const l, .ident name] = .plain := by simp only [Catalog.place, hs]
  rw [placed_call, ho, hp]
  rfl

theorem placed_of_contains (hs : Symbol.ofText? symbol = some .contains)
    (ho : operands receiver args = [.ident name, .const l]) :
    c.placed .plain (.call symbol receiver args) = [(.pattern, l)] := by
  have hp : c.place symbol [.ident name, .const l] = .pattern := by simp only [Catalog.place, hs]
  rw [placed_call, ho, hp]
  rfl

end

theorem placed_of_joined (place : Place) {e l r : Expr} {j : Junctor} (h : e.shape = .joined j l r) :
    c.placed place e = c.placed .plain l ++ c.placed .plain r := by
  obtain ⟨symbol, receiver, args, rfl, hs, ho⟩ := Expr.shape_eq_joined_iff.mp h
  have hp : c.place symbol [l, r] = .plain := by
    unfold Catalog.place
    rw [hs]
    cases j <;> rfl
  rw [placed_call, ho, hp]
  simp

theorem placed_of_negated (place : Place) {e x : Expr} (h : e.shape = .negated x) :
    c.placed place e = c.placed .plain x := by
  obtain ⟨symbol, receiver, args, rfl, hs, ho⟩ := Expr.shape_eq_negated_iff.mp h
  have hp : c.place symbol [x] = .plain := by
    unfold Catalog.place
    rw [hs]
  rw [placed_call, ho, hp]
  simp

end Catalog

/-! ## Single predicates -/

/-- A constant is bound as it stands, as a pattern, or as the instant that it names. -/
theorem Literal.boundAt_plain (d : Dialect) (l : Literal) : l.boundAt d .plain = some l.toValue := by
  cases l <;> rfl

theorem Literal.boundAt_pattern (d : Dialect) (l : Literal) : l.boundAt d .pattern = some (.string l.likePattern) := by
  cases l <;> rfl

theorem Literal.boundAt_instant (d : Dialect) {l : Literal} {n : Int64} (h : l.instant? = .ok (some n)) :
    l.boundAt d .instant = some (.int n) := by
  cases l with
  | bool b => cases h
  | int m =>
    obtain rfl : m = n := Option.some.inj (Except.ok.inj h)
    rfl
  | string s =>
    simp only [instant?] at h
    cases hs : parseTimestamp s with
    | error why =>
      rw [hs] at h
      cases h
    | ok m =>
      rw [hs] at h
      obtain rfl : m = n := Option.some.inj (Except.ok.inj h)
      simp only [boundAt, hs]

/-- A comparison of a field binds the constant, as its place asks for. -/
theorem Field.Compares.args_eq {f : Field} {op : Comparison} {l : Literal} {p : Plan} (h : f.Compares op l p)
    (d : Dialect) : (p.args d).map some = [l.boundAt d (f.place op)] := by
  cases h with
  | instant hk hn =>
    have hp : f.place op = .instant := by simp only [Field.place, hk]
    rw [hp, Literal.boundAt_instant d hn]
    rfl
  | checked hk hl ha =>
    unfold Field.checkedComparison Field.place
    cases hf : f.kind with
    | timestamp => exact absurd hf hk
    | jsonList path => exact absurd hf (hl path)
    | text => cases op <;> simp [Plan.args, Predicate.values, Comparison.isEquality, Literal.boundAt_pattern,
        Literal.boundAt_plain]
    | jsonBool path => cases l <;> rfl
    | scalar => simp [Plan.args, Predicate.values, Literal.boundAt_plain]
    | boolColumn => simp [Plan.args, Predicate.values, Literal.boundAt_plain]

/-- A single predicate binds its constants, as their places ask for. -/
theorem Catalog.Resolves.args_eq {c : Catalog} {e : Expr} {p : Plan} (h : c.Resolves e p) (d : Dialect) :
    (p.args d).map some = (c.placed .plain e).map fun (place, l) => l.boundAt d place := by
  cases h with
  | column => rfl
  | flag => rfl
  | comparison hs ho hf _ hc => rw [c.placed_of_comparison hs ho hf, hc.args_eq, List.map_singleton]
  | size hs ho _ ho' =>
    rw [c.placed_of_size hs ho ho']
    rfl
  | @oneOf _ _ _ _ _ ls hs ho =>
    rw [c.placed_of_list hs ho]
    simp [Plan.args, Predicate.values, Literal.boundAt_plain]
  | @anyTag _ _ _ _ _ ls path hs ho =>
    have hv : (ls.map fun l => Predicate.hasTag path l.toValue).flatMap (Predicate.values d) = ls.map Literal.toValue := by
      rw [List.flatMap_map]
      exact List.flatMap_pure_eq_map _ ls
    rw [c.placed_of_list hs ho, Plan.args, hv]
    simp [Literal.boundAt_plain]
  | element hs ho =>
    rw [c.placed_of_element hs ho]
    simp only [List.map_singleton, Literal.boundAt_plain]
    rfl
  | contains hs ho =>
    rw [c.placed_of_contains hs ho]
    simp only [List.map_singleton, Literal.boundAt_pattern]
    rfl

/-! ## Filters -/

/-- The values of a plan in which nothing is refused are the constants of the filter. -/
theorem Catalog.args_plan_eq (c : Catalog) (d : Dialect) {e : Expr} (h : (c.plan e).refusal? = none) :
    ((c.plan e).args d).map some = (c.placed .plain e).map fun (place, l) => l.boundAt d place := by
  induction e using Expr.shapeInduction with
  | joined e j l r he ihl ihr =>
    rw [c.plan_of_joined he, Plan.refusal?_plan, Option.or_eq_none_iff] at h
    rw [c.plan_of_joined he, Plan.args_plan, c.placed_of_joined .plain he, List.map_append, List.map_append, ihl h.1,
      ihr h.2]
  | negated e x he ih =>
    rw [c.plan_of_negated he] at h
    rw [c.plan_of_negated he, c.placed_of_negated .plain he]
    exact ih h
  | single e he =>
    obtain ⟨p, hp⟩ := (Catalog.refusal?_plan_of_single he).mp h
    rw [hp.plan_eq]
    exact hp.args_eq d

/-- The values of a clause are those of the plan, and its next index counts on from the start by their number. -/
theorem Compiler.args_of_compile {c : Catalog} {d : Dialect} {start : UInt64} {e : Expr} {clause : Clause}
    (h : Compiler.compile ⟨c, d, start⟩ e = .ok clause) :
    (c.plan e).refusal? = none ∧ clause.args = (c.plan e).args d ∧
      clause.next = max start 1 + .ofNat clause.args.length := by
  rw [compile_eq_clauseAt] at h
  obtain ⟨hr, rfl⟩ := Catalog.clauseAt_eq_ok_iff.mp h
  exact ⟨hr, rfl, rfl⟩

/-- A filter that compiles binds its constants: all of them, each once, from left to right, and each as its place asks
for. Beside a point in time stands a number of seconds, which a text is read as; a text is searched for a pattern with
a wildcard at either end; a truth value beside one in a document is bound as the dialect compares it; and every other
constant is bound as it is. -/
theorem arguments_are_constants (c : Catalog) (d : Dialect) (start : UInt64) (e : Expr) (clause : Clause)
    (h : Compiler.compile ⟨c, d, start⟩ e = .ok clause) :
    (c.placed .plain e).map Prod.snd = e.constants ∧
      clause.args.map some = (c.placed .plain e).map fun (place, l) => l.boundAt d place := by
  obtain ⟨hr, ha, -⟩ := Compiler.args_of_compile h
  rw [ha]
  exact ⟨c.map_snd_placed .plain e, c.args_plan_eq d hr⟩

/-- A flag in a document, a search whose receiver is a field, and a timestamp with an offset. -/
theorem arguments_are_constants_memo :
    let e : Expr :=
      .and (.eq (.ident "has_link") (.bool true))
        (.or (.contains (.ident "content") (.string "100%"))
          (.compare (.ident "create_time") .lessThan (.string "2006-01-02T15:04:05+07:00")))
    let clause : Clause :=
      ⟨"(JSON_EXTRACT(`memo`.`payload`, '$.property.hasLink') = CAST(? AS JSON) AND (`memo`.`content` LIKE ? OR " ++
          "UNIX_TIMESTAMP(`memo`.`created_ts`) < ?))",
        [.string "true", .string "%100%%", .int 1136189045], 4⟩
    Compiler.compile ⟨memoCatalog, .mySql, 1⟩ e = .ok clause ∧
      (memoCatalog.placed .plain e).map Prod.snd = e.constants ∧
      clause.args.map some = (memoCatalog.placed .plain e).map fun (place, l) => l.boundAt .mySql place := by
  intro e clause
  have h : Compiler.compile ⟨memoCatalog, .mySql, 1⟩ e = .ok clause := by decide +kernel
  exact ⟨h, arguments_are_constants memoCatalog .mySql 1 e clause h⟩

end WhereClause
