import WhereClause.Proofs.Expr.Shape

/-!
# Renaming the identifiers of a filter

`Expr.rename r` puts `r name` in the place of every identifier `name`. The tree stays the same otherwise: symbols,
constants and lists, and so the shape of a filter (`Expr.shape_rename`). Only the names that occur in an expression
matter (`Expr.rename_eq_self`).
-/

namespace WhereClause

mutual

/-- An expression with its identifiers renamed. -/
def Expr.rename (r : String → String) : Expr → Expr
  | .ident name => .ident (r name)
  | .const value => .const value
  | .list items => .list (Expr.renameAll r items)
  | .call symbol none args => .call symbol none (Expr.renameAll r args)
  | .call symbol (some receiver) args => .call symbol (some (receiver.rename r)) (Expr.renameAll r args)

/-- Several expressions with their identifiers renamed. -/
def Expr.renameAll (r : String → String) : List Expr → List Expr
  | [] => []
  | e :: es => e.rename r :: Expr.renameAll r es

end

mutual

/-- The identifiers of an expression from left to right; a receiver comes before the arguments. -/
def Expr.names : Expr → List String
  | .ident name => [name]
  | .const _ => []
  | .list items => Expr.namesAll items
  | .call _ none args => Expr.namesAll args
  | .call _ (some receiver) args => receiver.names ++ Expr.namesAll args

/-- The identifiers of several expressions. -/
def Expr.namesAll : List Expr → List String
  | [] => []
  | e :: es => e.names ++ Expr.namesAll es

end

/-- The shape of a renamed filter, from the shape of the filter. -/
def Shape.rename (r : String → String) : Shape → Shape
  | .joined j x y => .joined j (x.rename r) (y.rename r)
  | .negated x => .negated (x.rename r)
  | .single => .single

namespace Expr

/-! ## Lists of expressions -/

theorem renameAll_eq_map (r : String → String) (es : List Expr) : renameAll r es = es.map (rename r) := by
  induction es with
  | nil => rfl
  | cons e es ih => rw [renameAll, ih, List.map_cons]

theorem namesAll_eq_flatMap (es : List Expr) : namesAll es = es.flatMap names := by
  induction es with
  | nil => rfl
  | cons e es ih => rw [namesAll, ih, List.flatMap_cons]

/-! ## Calls -/

/-- A call is renamed in its receiver and its arguments; its symbol is no identifier. -/
theorem rename_call (r : String → String) (symbol : String) (receiver : Option Expr) (args : List Expr) :
    (call symbol receiver args).rename r = .call symbol (receiver.map (rename r)) (args.map (rename r)) := by
  cases receiver with
  | none => rw [rename, renameAll_eq_map, Option.map_none]
  | some e => rw [rename, renameAll_eq_map, Option.map_some]

/-- Renaming does not move the operands of a call. -/
theorem operands_rename (r : String → String) (receiver : Option Expr) (args : List Expr) :
    operands (receiver.map (rename r)) (args.map (rename r)) = (operands receiver args).map (rename r) := by
  cases receiver <;> rfl

/-- A call with the wrong number of operands is blamed without a name. -/
theorem wrongArity_rename (r : String → String) (f : Symbol) (receiver : Option Expr) (args : List Expr) :
    wrongArity f (receiver.map (rename r)) (args.map (rename r)) = wrongArity f receiver args := by
  cases receiver <;> simp [wrongArity]

/-- The identifiers of a call are those of its operands. -/
theorem names_call (symbol : String) (receiver : Option Expr) (args : List Expr) :
    (call symbol receiver args).names = (operands receiver args).flatMap names := by
  cases receiver with
  | none => rw [names, namesAll_eq_flatMap]; rfl
  | some e => rw [names, namesAll_eq_flatMap]; rfl

/-! ## Shapes -/

/-- A renamed filter has the same shape. -/
theorem shape_rename (r : String → String) (e : Expr) : (e.rename r).shape = e.shape.rename r := by
  cases e with
  | call symbol receiver args =>
    rw [rename_call]
    simp only [shape, operands_rename]
    cases Symbol.ofText? symbol with
    | none => rfl
    | some f =>
      -- Only the number of operands matters: none, one, two, or more.
      rcases operands receiver args with _ | ⟨x, _ | ⟨y, _ | ⟨_, _⟩⟩⟩ <;> cases f <;> rfl
  | _ => rfl

theorem names_of_joined {e x y : Expr} {j : Junctor} (h : e.shape = .joined j x y) : e.names = x.names ++ y.names := by
  obtain ⟨symbol, receiver, args, rfl, -, ho⟩ := shape_eq_joined_iff.mp h
  rw [names_call, ho]
  simp

theorem names_of_negated {e x : Expr} (h : e.shape = .negated x) : e.names = x.names := by
  obtain ⟨symbol, receiver, args, rfl, -, ho⟩ := shape_eq_negated_iff.mp h
  rw [names_call, ho]
  simp

/-! ## Names that occur -/

mutual

/-- A renaming that leaves the names of an expression alone leaves the expression alone. -/
theorem rename_eq_self {r : String → String} : (e : Expr) → (∀ n ∈ e.names, r n = n) → e.rename r = e
  | .ident name, h => congrArg ident (h name (by simp [names]))
  | .const _, _ => rfl
  | .list items, h => by
    rw [rename, renameAll_eq_self items h]
  | .call symbol none args, h => by
    rw [rename, renameAll_eq_self args h]
  | .call symbol (some receiver) args, h => by
    rw [names, List.forall_mem_append] at h
    rw [rename, rename_eq_self receiver h.1, renameAll_eq_self args h.2]

/-- The same for several expressions. -/
theorem renameAll_eq_self {r : String → String} : (es : List Expr) → (∀ n ∈ namesAll es, r n = n) → renameAll r es = es
  | [], _ => rfl
  | e :: es, h => by
    rw [namesAll, List.forall_mem_append] at h
    rw [renameAll, rename_eq_self e h.1, renameAll_eq_self es h.2]

end

end Expr

end WhereClause
