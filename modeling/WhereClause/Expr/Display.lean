import WhereClause.Expr.Basic

/-!
# The text of a filter as a reader sees it

A call of an operator with its usual number of arguments is shown infix, or as `!(…)`, in the plain spelling of its symbol.
Any other call is shown as it was written, with its receiver in front. The choice looks at the symbol and the number of
arguments alone; an infix call shows its two arguments and nothing else.
-/

namespace WhereClause.Expr

/-- A call that is shown as it was written. -/
def renderPlainCall (symbol : String) (receiver : Option String) (args : List String) : String :=
  (match receiver with
    | some r => r ++ "."
    | none => "") ++ symbol ++ "(" ++ ", ".intercalate args ++ ")"

/-- A call, from the texts of its parts. -/
def renderCall (symbol : String) (receiver : Option String) (args : List String) : String :=
  match Symbol.ofText? symbol, args with
  | some .not, [x] => "!(" ++ x ++ ")"
  | some .and, [l, r] => "(" ++ l ++ " && " ++ r ++ ")"
  | some .or, [l, r] => "(" ++ l ++ " || " ++ r ++ ")"
  | some (.compare op), [l, r] => "(" ++ l ++ " " ++ op.plain ++ " " ++ r ++ ")"
  | some .isIn, [l, r] => "(" ++ l ++ " in " ++ r ++ ")"
  | _, _ => renderPlainCall symbol receiver args

mutual

/-- The text of a filter. -/
def render : Expr → String
  | .ident name => name
  | .const value => value.render
  | .list items => "[" ++ ", ".intercalate (renderAll items) ++ "]"
  | .call symbol none args => renderCall symbol none (renderAll args)
  | .call symbol (some receiver) args => renderCall symbol (some receiver.render) (renderAll args)

/-- The texts of several filters. -/
def renderAll : List Expr → List String
  | [] => []
  | e :: es => e.render :: renderAll es

end

theorem renderAll_eq_map (es : List Expr) : renderAll es = es.map render := by
  induction es with
  | nil => rfl
  | cons e es ih => simp [renderAll, ih]

end WhereClause.Expr
