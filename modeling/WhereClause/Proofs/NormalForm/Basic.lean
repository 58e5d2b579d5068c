import WhereClause.Proofs.Arguments
import WhereClause.Proofs.Condition.Read

/-!
# Normal forms

What a filter asks, without how it is spelled. The normal form of a filter (`Catalog.normalForm?`) is read off its
tree: names are resolved, constants are as they are bound, `==` and `contains` on a text are the same search, a search
for several tags is the group of the searches for each of them, as `||` is a group of two, and a search for one tag is
that search by itself. It knows nothing of plans, of refusals or of SQL.
-/

namespace WhereClause

/-- What is asked of a row, without the values it is asked with. -/
inductive Question where
  | isTrue (f : Field)
  | like (c : Column)
  | compare (f : Field) (op : Comparison)
  | size (p : JsonPath) (op : Comparison)
  | has (p : JsonPath)
  | oneOf (c : Column)
  deriving DecidableEq, Repr

/-- The normal form of a filter. -/
inductive NormalForm where
  | test (k : Question) (values : List Value)
  | negation (x : NormalForm)
  | both (x y : NormalForm)
  | anyOf (xs : List NormalForm)

/-! ## The normal form of a filter -/

/-- The normal form of a comparison of a field with a value. A text is searched rather than compared for equality. -/
def Field.comparisonForm (f : Field) (op : Comparison) (v : Value) : NormalForm :=
  match f.kind, op with
  | .text, .equal => .test (.like f.column) [v]
  | .text, .notEqual => .negation (.test (.like f.column) [v])
  | _, _ => .test (.compare f op) [v]

/-- The normal form of a search for a field in some values. An array is searched for each of them. -/
def Field.membershipForm (f : Field) (values : List Value) : NormalForm :=
  match f.kind, values with
  | .jsonList p, [v] => .test (.has p) [v]
  | .jsonList p, vs => .anyOf (vs.map fun v => .test (.has p) [v])
  | _, vs => .test (.oneOf f.column) vs

namespace Catalog

variable (c : Catalog) (d : Dialect)

/-- The normal form of a comparison with a constant. -/
def comparisonForm? (left : Expr) (op : Comparison) (l : Literal) : Option NormalForm :=
  match left with
  | .ident name => do
    let f ← c.lookup? name
    let v ← l.boundAt d (f.place op)
    return f.comparisonForm op v
  | .call symbol receiver args =>
    match Symbol.ofText? symbol, operands receiver args with
    | some .size, [.ident name] => do
      let f ← c.lookup? name
      let p ← f.kind.path?
      return .test (.size p op) [l.toValue]
    | _, _ => none
  | _ => none

/-- The normal form of a membership test. -/
def membershipForm? : (element collection : Expr) → Option NormalForm
  | .const l, .ident name => do
    let f ← c.lookup? name
    let p ← f.kind.path?
    return .test (.has p) [l.toValue]
  | .ident name, .list items => do
    let f ← c.lookup? name
    let ls ← items.mapM Expr.const?
    return f.membershipForm (ls.map Literal.toValue)
  | _, _ => none

/-- The normal form of a call, from the normal forms of its operands. -/
def callForm? (symbol : String) (receiver : Option Expr) (args : List Expr) (parts : List (Option NormalForm)) :
    Option NormalForm :=
  match Symbol.ofText? symbol, operands receiver args, parts with
  | some .and, _, [x, y] => do return .both (← x) (← y)
  | some .or, _, [x, y] => do return .anyOf [← x, ← y]
  | some .not, _, [x] => x.map .negation
  | some (.compare op), [left, .const l], _ => c.comparisonForm? d left op l
  | some .isIn, [element, collection], _ => c.membershipForm? element collection
  | some .contains, [.ident name, .const l], _ => do
    let f ← c.lookup? name
    let v ← l.boundAt d .pattern
    return .test (.like f.column) [v]
  | _, _, _ => none

mutual

/-- The normal form of a filter, with its constants as a dialect binds them. -/
def normalForm? : Expr → Option NormalForm
  | .ident name => (c.lookup? name).map fun f => .test (.isTrue f) []
  | .list _ | .const _ => none
  | .call symbol none args => c.callForm? d symbol none args (normalForms? args)
  | .call symbol (some receiver) args =>
    c.callForm? d symbol (some receiver) args (normalForm? receiver :: normalForms? args)

/-- The normal forms of several filters. -/
def normalForms? : List Expr → List (Option NormalForm)
  | [] => []
  | e :: es => normalForm? e :: normalForms? es

end

/-! ## Normal forms along the shape -/

end Catalog

/-- The normal form of two joined filters. -/
def Junctor.normalForm : Junctor → NormalForm → NormalForm → NormalForm
  | .and, x, y => .both x y
  | .or, x, y => .anyOf [x, y]

namespace Catalog

variable {c : Catalog} {d : Dialect} {e : Expr}

end Catalog

/-! ## What a normal form binds and writes -/

/-- Every comparison. -/
def Comparison.all : List Comparison := [.equal, .notEqual, .lessThan, .greaterThan, .lessOrEqual, .greaterOrEqual]

/-- The predicate that a field is by itself. -/
def Field.flagSample (f : Field) : Predicate :=
  match f.kind with
  | .jsonBool p => .jsonIsTrue p
  | _ => .isTrue f.column

/-- A comparison of a field with some value. -/
def Field.compareSample (f : Field) (op : Comparison) : Predicate :=
  match f.kind with
  | .timestamp => .compareInstant f.column op 0
  | .jsonBool p => .compareJson p op (.int 0)
  | _ => .compare f.column op (.int 0)

namespace Question

/-- A predicate that asks a question. What it compares with does not matter to what it writes around its values. -/
def sample : Question → Predicate
  | .isTrue f => f.flagSample
  | .like c => .like c ""
  | .compare f op => f.compareSample op
  | .size p op => .compareSize p op 0
  | .has p => .hasTag p (.int 0)
  | .oneOf c => .oneOf c []

/-- The texts around the values of a question. -/
def sides (d : Dialect) (k : Question) : String × String := k.sample.sides d

/-- The text of a question with a number of values. -/
def text (d : Dialect) (index : UInt64) (count : Nat) (k : Question) : String :=
  (k.sides d).1 ++ d.placeholders index count ++ (k.sides d).2

end Question

/-- The questions that filters can ask of a field. -/
def Field.questions (f : Field) : List Question :=
  let comparisons := (Comparison.all.filter fun op => f.allows (.compare op)).map (Question.compare f)
  let lists := if f.allows .isIn then [Question.oneOf f.column] else []
  let searches := if f.allows .contains then [Question.like f.column] else []
  let flags := if f.allows .standalone then [Question.isTrue f] else []
  match f.kind with
  | .jsonList p => searches ++ .has p :: (if f.allows .size then Comparison.all.map (.size p) else [])
  | .text => .like f.column :: (lists ++ comparisons.filter fun k => k ∉ [.compare f .equal, .compare f .notEqual])
  | _ => searches ++ flags ++ lists ++ comparisons

namespace NormalForm

mutual

/-- The values of a normal form, from left to right. -/
def args : NormalForm → List Value
  | .test _ values => values
  | .negation x => x.args
  | .both x y => x.args ++ y.args
  | .anyOf xs => argsAll xs

/-- The values of several normal forms. -/
def argsAll : List NormalForm → List Value
  | [] => []
  | x :: xs => x.args ++ argsAll xs

end

mutual

/-- The condition that a normal form is written as, where its placeholders begin at an index. -/
def condition (d : Dialect) (index : UInt64) : NormalForm → Condition
  | .test k values => .atom (k.text d index values.length).toList
  | .negation x => .negation (x.condition d index)
  | .both x y => .joined .and [x.condition d index, y.condition d (index + .ofNat x.args.length)]
  | .anyOf xs => .joined .or (conditions d index xs)

/-- The conditions of several normal forms, each of which counts on from the one before it. -/
def conditions (d : Dialect) (index : UInt64) : List NormalForm → List Condition
  | [] => []
  | x :: xs => x.condition d index :: conditions d (index + .ofNat x.args.length) xs

end

/-- Every question of a normal form has a property. -/
inductive Over (P : Question → Prop) : NormalForm → Prop
  | test {k : Question} (values : List Value) : P k → Over P (.test k values)
  | negation {x : NormalForm} : Over P x → Over P (.negation x)
  | both {x y : NormalForm} : Over P x → Over P y → Over P (.both x y)
  | anyOf {xs : List NormalForm} : (∀ x ∈ xs, Over P x) → Over P (.anyOf xs)

end NormalForm

end WhereClause
