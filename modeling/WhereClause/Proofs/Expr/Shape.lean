import WhereClause.Plan.Resolve

/-!
# The shape of a filter

Read as a filter, an expression is two filters with `&&` or `||` between them, a negated filter, or a single
predicate. A call of a connective with the wrong number of operands is single too: it is refused as a whole. The shape
knows nothing of catalogs, and the plan of a filter is put together along it (`Catalog.plan_eq`), so that statements
about plans are proved by induction on the shape (`Expr.shapeInduction`).
-/

namespace WhereClause

/-- What joins two filters. -/
inductive Junctor where
  | and | or
  deriving DecidableEq, Repr

namespace Junctor

/-- The symbol that a filter is joined with. -/
def symbol : Junctor → Symbol
  | .and => .and
  | .or => .or

/-- The word that SQL joins with. -/
def word : Junctor → String
  | .and => " AND "
  | .or => " OR "

/-- The plan of two joined plans. -/
def plan : Junctor → Plan → Plan → Plan
  | .and => .both
  | .or => .either

end Junctor

/-- How an expression is put together as a filter. -/
inductive Shape where
  | joined (j : Junctor) (l r : Expr)
  | negated (e : Expr)
  | single
  deriving DecidableEq

/-- The shape of an expression. -/
def Expr.shape : Expr → Shape
  | .call symbol receiver args =>
    match Symbol.ofText? symbol, operands receiver args with
    | some .and, [l, r] => .joined .and l r
    | some .or, [l, r] => .joined .or l r
    | some .not, [e] => .negated e
    | _, _ => .single
  | _ => .single

/-! ## Induction along the shape -/

/-- An operand is smaller than its call. -/
theorem sizeOf_lt_of_mem_operands {symbol : String} {receiver : Option Expr} {args : List Expr} {e : Expr}
    (h : e ∈ operands receiver args) : sizeOf e < sizeOf (Expr.call symbol receiver args) := by
  rcases List.mem_append.mp h with h | h
  · cases receiver with
    | none => simp at h
    | some r =>
      obtain rfl : e = r := by simpa using h
      simp only [Expr.call.sizeOf_spec, Option.some.sizeOf_spec]
      omega
  · have := List.sizeOf_lt_of_mem h
    simp only [Expr.call.sizeOf_spec]
    omega

/-- A joined filter is a call of the junctor's symbol with two operands. -/
theorem Expr.shape_eq_joined_iff {e l r : Expr} {j : Junctor} :
    e.shape = .joined j l r ↔ ∃ symbol receiver args, e = .call symbol receiver args ∧
      Symbol.ofText? symbol = some j.symbol ∧ operands receiver args = [l, r] := by
  constructor
  · intro h
    unfold Expr.shape at h
    split at h
    · split at h <;> simp only [Shape.joined.injEq, reduceCtorEq] at h
      all_goals
        obtain ⟨rfl, rfl, rfl⟩ := h
        exact ⟨_, _, _, rfl, ‹_›, ‹_›⟩
    · simp at h
  · rintro ⟨symbol, receiver, args, rfl, hs, ho⟩
    cases j <;> simp only [Junctor.symbol] at hs <;> simp only [Expr.shape, hs, ho]

/-- A negated filter is a call of `!` with one operand. -/
theorem Expr.shape_eq_negated_iff {e x : Expr} :
    e.shape = .negated x ↔ ∃ symbol receiver args, e = .call symbol receiver args ∧
      Symbol.ofText? symbol = some .not ∧ operands receiver args = [x] := by
  constructor
  · intro h
    unfold Expr.shape at h
    split at h
    · split at h <;> simp only [Shape.negated.injEq, reduceCtorEq] at h
      obtain rfl := h
      exact ⟨_, _, _, rfl, ‹_›, ‹_›⟩
    · simp at h
  · rintro ⟨symbol, receiver, args, rfl, hs, ho⟩
    simp only [Expr.shape, hs, ho]

/-- The parts of a joined filter are smaller. -/
theorem Expr.sizeOf_lt_of_joined {e l r : Expr} {j : Junctor} (h : e.shape = .joined j l r) :
    sizeOf l < sizeOf e ∧ sizeOf r < sizeOf e := by
  obtain ⟨_, _, _, rfl, -, ho⟩ := Expr.shape_eq_joined_iff.mp h
  exact ⟨sizeOf_lt_of_mem_operands (by simp [ho]), sizeOf_lt_of_mem_operands (by simp [ho])⟩

/-- The part of a negation is smaller than it. -/
theorem Expr.sizeOf_lt_of_negated {e x : Expr} (h : e.shape = .negated x) : sizeOf x < sizeOf e := by
  obtain ⟨_, _, _, rfl, -, ho⟩ := Expr.shape_eq_negated_iff.mp h
  exact sizeOf_lt_of_mem_operands (by simp [ho])

/-- What holds of a filter as soon as it holds of the filters it joins or negates holds of every expression. -/
theorem Expr.shapeInduction {P : Expr → Prop}
    (joined : ∀ e j l r, e.shape = .joined j l r → P l → P r → P e)
    (negated : ∀ e x, e.shape = .negated x → P x → P e) (single : ∀ e, e.shape = .single → P e) (e : Expr) : P e := by
  match h : e.shape with
  | .joined j l r =>
    have := Expr.sizeOf_lt_of_joined h
    exact joined e j l r h (Expr.shapeInduction joined negated single l) (Expr.shapeInduction joined negated single r)
  | .negated x =>
    have := Expr.sizeOf_lt_of_negated h
    exact negated e x h (Expr.shapeInduction joined negated single x)
  | .single => exact single e h
termination_by sizeOf e

/-! ## The plan along the shape -/

/-- The plan of an expression that is a single predicate. -/
def Catalog.singlePlan (c : Catalog) : Expr → Except Rejection Plan
  | .ident name => c.standalone name
  | .list _ | .const _ => .error (.invalidOperand none .predicate)
  | .call symbol receiver args =>
    match Symbol.ofText? symbol with
    | none => .error (.unsupportedFunction symbol)
    | some f =>
      match f, operands receiver args with
      | .compare op, [l, r] => c.comparison l op r
      | .isIn, [l, r] => c.membership l r
      | .contains, [l, r] => c.containment l r
      | .size, _ => .error (.invalidOperand (some .size) .sizeComparison)
      | f, _ => .error (wrongArity f receiver args)

/-- The plan of a call comes from the plans of its operands. -/
theorem Catalog.plan_call (c : Catalog) (symbol : String) (receiver : Option Expr) (args : List Expr) :
    c.plan (.call symbol receiver args) = c.callPlan symbol receiver args ((operands receiver args).map c.plan) := by
  cases receiver <;> simp [Catalog.plan, Catalog.plans_eq_map, operands]

/-- The plan of a filter is put together along its shape. -/
theorem Catalog.plan_eq (c : Catalog) (e : Expr) :
    c.plan e = match e.shape with
      | .joined j l r => j.plan (c.plan l) (c.plan r)
      | .negated x => .negation (c.plan x)
      | .single => .ofExcept (c.singlePlan e) := by
  cases e with
  | ident name => simp [Catalog.plan, Expr.shape, Catalog.singlePlan]
  | list items => simp [Catalog.plan, Expr.shape, Catalog.singlePlan, Plan.ofExcept]
  | const value => simp [Catalog.plan, Expr.shape, Catalog.singlePlan, Plan.ofExcept]
  | call symbol receiver args =>
    rw [Catalog.plan_call]
    simp only [Catalog.callPlan, Expr.shape, Catalog.singlePlan]
    cases hs : Symbol.ofText? symbol with
    | none => simp [Plan.ofExcept]
    | some f =>
      -- Only the number of operands matters: none, one, two, or more.
      rcases operands receiver args with _ | ⟨l, _ | ⟨r, _ | ⟨_, _⟩⟩⟩
      · cases f <;> simp [Plan.ofExcept]
      · cases f <;> simp [Plan.ofExcept]
      · cases f <;> simp [Plan.ofExcept, Junctor.plan]
      · cases f <;> simp [Plan.ofExcept]

theorem Catalog.plan_of_joined (c : Catalog) {e l r : Expr} {j : Junctor} (h : e.shape = .joined j l r) :
    c.plan e = j.plan (c.plan l) (c.plan r) := by
  rw [Catalog.plan_eq, h]

theorem Catalog.plan_of_negated (c : Catalog) {e x : Expr} (h : e.shape = .negated x) :
    c.plan e = .negation (c.plan x) := by
  rw [Catalog.plan_eq, h]

theorem Catalog.plan_of_single (c : Catalog) {e : Expr} (h : e.shape = .single) :
    c.plan e = .ofExcept (c.singlePlan e) := by
  rw [Catalog.plan_eq, h]

end WhereClause
