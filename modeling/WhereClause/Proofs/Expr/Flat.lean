import WhereClause.Proofs.Expr.Shape

/-!
# Flat calls

`Expr.flat spell` writes an expression without methods: every receiver stands in front of the arguments of its call,
and every symbol that the language knows is spelled as `spell` has it, at every call of the tree. A call keeps its
operands, so a filter keeps its shape (`Expr.shape_flat`).
-/

namespace WhereClause

/-- A symbol as `spell` has it. A text that spells no symbol stays as it is. -/
def respell (spell : Symbol → String) (symbol : String) : String := ((Symbol.ofText? symbol).map spell).getD symbol

mutual

/-- An expression with its receivers in front of the arguments and its symbols respelled. -/
def Expr.flat (spell : Symbol → String) : Expr → Expr
  | .ident name => .ident name
  | .const value => .const value
  | .list items => .list (Expr.flatAll spell items)
  | .call symbol none args => .call (respell spell symbol) none (Expr.flatAll spell args)
  | .call symbol (some receiver) args =>
    .call (respell spell symbol) none (receiver.flat spell :: Expr.flatAll spell args)

/-- Several expressions, each of them flat. -/
def Expr.flatAll (spell : Symbol → String) : List Expr → List Expr
  | [] => []
  | e :: es => e.flat spell :: Expr.flatAll spell es

end

/-- The shape of a flat filter, from the shape of the filter. -/
def Shape.flat (spell : Symbol → String) : Shape → Shape
  | .joined j x y => .joined j (x.flat spell) (y.flat spell)
  | .negated x => .negated (x.flat spell)
  | .single => .single

variable {spell : Symbol → String}

/-- Where every spelling is read as its symbol, a symbol is read as before. -/
theorem ofText?_respell (hs : ∀ f, Symbol.ofText? (spell f) = some f) (symbol : String) :
    Symbol.ofText? (respell spell symbol) = Symbol.ofText? symbol := by
  unfold respell
  cases h : Symbol.ofText? symbol with
  | none => exact h
  | some f => exact hs f

/-- A name that is no function of the language keeps its spelling. -/
theorem respell_of_unknown {symbol : String} (h : Symbol.ofText? symbol = none) : respell spell symbol = symbol := by
  unfold respell
  rw [h]
  rfl

namespace Expr

theorem flatAll_eq_map (es : List Expr) : flatAll spell es = es.map (flat spell) := by
  induction es with
  | nil => rfl
  | cons e es ih => rw [flatAll, ih, List.map_cons]

/-- The operands of a call become its arguments. -/
theorem flat_call (symbol : String) (receiver : Option Expr) (args : List Expr) :
    (call symbol receiver args).flat spell =
      .call (respell spell symbol) none ((operands receiver args).map (flat spell)) := by
  cases receiver with
  | none => rw [flat, flatAll_eq_map]; rfl
  | some r => rw [flat, flatAll_eq_map]; rfl

/-- A flat filter has the same shape. -/
theorem shape_flat (hs : ∀ f, Symbol.ofText? (spell f) = some f) (e : Expr) :
    (e.flat spell).shape = e.shape.flat spell := by
  cases e with
  | call symbol receiver args =>
    have ho : operands none ((operands receiver args).map (flat spell)) = (operands receiver args).map (flat spell) := rfl
    rw [flat_call]
    simp only [shape, ofText?_respell hs, ho]
    cases Symbol.ofText? symbol with
    | none => rfl
    | some f =>
      -- Only the number of operands matters: none, one, two, or more.
      rcases operands receiver args with _ | ⟨x, _ | ⟨y, _ | ⟨_, _⟩⟩⟩ <;> cases f <;> rfl
  | _ => rfl

end Expr

end WhereClause
