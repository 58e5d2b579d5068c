import WhereClause.Catalog.Basic
import WhereClause.Coercion
import WhereClause.Expr.Basic
import WhereClause.Plan.Basic

/-!
# Resolving a filter

The plan of a filter under a catalog. A call's operands are its receiver, if it has one, followed by its arguments. Of two
faults in one predicate the one that is found first is reported: the number of operands, then what the left operand is and
whether its field allows the operation, then what stands on the right and its type.

A predicate makes all of its checks before it writes anything. That is why a filter can be resolved to a plan first, with a
refused predicate as one leaf of it, and be written afterwards: of a refused predicate nothing is written, only of the
connectives around it and of the predicates before it.
-/

namespace WhereClause

/-! ## Checks -/

/-- The field of an identifier. -/
def Catalog.field (c : Catalog) (name : String) : Except Rejection Field :=
  match c.lookup? name with
  | some f => .ok f
  | none => .error (.unknownIdentifier name)

/-- The value of an operand that must be a constant. -/
def Expr.constant (site : Symbol) (e : Expr) : Except Rejection Literal :=
  match e with
  | .const l => .ok l
  | _ => .error (.invalidOperand (some site) .constant)

/-- Lets a constant pass whose type the field accepts. -/
def Field.check (f : Field) (name : String) (l : Literal) : Except Rejection Literal :=
  if f.type.accepts l then .ok l else .error (.typeMismatch (.field name) f.type l.type)

/-- The rejection of a call with the wrong number of operands. -/
def wrongArity (f : Symbol) (receiver : Option Expr) (args : List Expr) : Rejection :=
  .arityMismatch f (f.arity - receiver.toList.length) args.length

/-- The operands of a call. -/
def operands (receiver : Option Expr) (args : List Expr) : List Expr := receiver.toList ++ args

/-! ## Predicates -/

/-- The plan of a comparison of a field with a constant. A text is searched rather than compared for equality. -/
def Field.comparison (f : Field) (name : String) (op : Comparison) (l : Literal) : Except Rejection Plan :=
  match f.kind with
  | .timestamp =>
    match l.instant? with
    | .ok (some n) => .ok (.test (.compareInstant f.column op n))
    | .ok none => .error (.typeMismatch (.field name) f.type l.type)
    | .error reason => .error (.invalidTimestamp name reason)
  | kind => do
    let l ← f.check name l
    match kind, op with
    | .text, .equal => .ok (.test (.like f.column l.likePattern))
    | .text, .notEqual => .ok (.negation (.test (.like f.column l.likePattern)))
    | .jsonBool p, op => .ok (.test (.compareJson p op l))
    | .jsonList _, op => .error (.disallowedOperator name (.compare op))
    | _, op => .ok (.test (.compare f.column op l.toValue))

/-- The plan of a comparison of an identifier with an operand. -/
def Catalog.compareField (c : Catalog) (name : String) (op : Comparison) (right : Expr) : Except Rejection Plan := do
  let f ← c.field name
  if f.allows (.compare op) then do
    let l ← right.constant (.compare op)
    f.comparison name op l
  else .error (.disallowedOperator name (.compare op))

/-- The plan of a comparison of the size of a collection with an operand. -/
def Catalog.compareSize (c : Catalog) (collection : Expr) (op : Comparison) (right : Expr) : Except Rejection Plan :=
  match collection with
  | .ident name => do
    let f ← c.field name
    match f.kind, f.allows .size with
    | .jsonList p, true => do
      let l ← right.constant (.compare op)
      match l with
      | .int n => .ok (.test (.compareSize p op n))
      | l => .error (.typeMismatch (.sizeOf name) .int l.type)
    | _, _ => .error (.invalidCollection .size name)
  | _ => .error (.invalidOperand (some .size) .identifier)

/-- The plan of a comparison. -/
def Catalog.comparison (c : Catalog) (left : Expr) (op : Comparison) (right : Expr) : Except Rejection Plan :=
  match left with
  | .ident name => c.compareField name op right
  | .call symbol receiver args =>
    match Symbol.ofText? symbol with
    | none => .error (.unsupportedFunction symbol)
    | some .size =>
      match operands receiver args with
      | [collection] => c.compareSize collection op right
      | _ => .error (wrongArity .size receiver args)
    | some _ => .error (.invalidOperand (some (.compare op)) .identifierOrSize)
  | _ => .error (.invalidOperand (some (.compare op)) .identifierOrSize)

/-- The values of the elements of a list beside a field, each of which must be a constant of the field's type. -/
def Field.elements (f : Field) (name : String) : List Expr → Except Rejection (List Value)
  | [] => .ok []
  | e :: es => do
    let l ← e.constant .isIn
    let l ← f.check name l
    let vs ← f.elements name es
    .ok (l.toValue :: vs)

/-- The plan of a search for an identifier in a list. A field that is a list itself must hold one of the elements. -/
def Catalog.memberOfList (c : Catalog) (name : String) (items : List Expr) : Except Rejection Plan := do
  let f ← c.field name
  if f.allows .isIn then
    if items.isEmpty then .error (.invalidOperand (some .isIn) .nonEmptyList)
    else do
      let vs ← f.elements name items
      match f.kind with
      | .jsonList p => .ok (.anyOf (vs.map (.hasTag p)))
      | _ => .ok (.test (.oneOf f.column vs))
  else .error (.invalidCollection .isIn name)

/-- The plan of a search for a constant in an identifier. -/
def Catalog.elementOfField (c : Catalog) (l : Literal) (name : String) : Except Rejection Plan := do
  let f ← c.field name
  match f.kind, f.allows .elementIn with
  | .jsonList p, true => do
    let l ← f.check name l
    .ok (.test (.hasElement p l.toValue))
  | _, _ => .error (.invalidCollection .isIn name)

/-- The plan of a membership test. -/
def Catalog.membership (c : Catalog) : (element collection : Expr) → Except Rejection Plan
  | .ident name, .list items => c.memberOfList name items
  | .const l, .ident name => c.elementOfField l name
  | _, _ => .error (.invalidOperand (some .isIn) .membership)

/-- The plan of a search in a text. -/
def Catalog.containment (c : Catalog) (target needle : Expr) : Except Rejection Plan :=
  match target with
  | .ident name => do
    let f ← c.field name
    if f.allows .contains then do
      let l ← needle.constant .contains
      let l ← f.check name l
      .ok (.test (.like f.column l.likePattern))
    else .error (.disallowedOperator name .contains)
  | _ => .error (.invalidOperand (some .contains) .containsTarget)

/-- The plan of an identifier that is a predicate by itself. -/
def Catalog.standalone (c : Catalog) (name : String) : Except Rejection Plan := do
  let f ← c.field name
  match f.kind, f.allows .standalone with
  | .boolColumn, true => .ok (.test (.isTrue f.column))
  | .jsonBool p, true => .ok (.test (.jsonIsTrue p))
  | _, _ => .error (.disallowedOperator name .standalone)

/-! ## Filters -/

/-- The plan of a call, from the plans of its operands. -/
def Catalog.callPlan (c : Catalog) (symbol : String) (receiver : Option Expr) (args : List Expr) (plans : List Plan) :
    Plan :=
  match Symbol.ofText? symbol with
  | none => .refused (.unsupportedFunction symbol)
  | some f =>
    match f, operands receiver args, plans with
    | .and, _, [l, r] => .both l r
    | .or, _, [l, r] => .either l r
    | .not, _, [p] => .negation p
    | .compare op, [l, r], _ => .ofExcept (c.comparison l op r)
    | .isIn, [l, r], _ => .ofExcept (c.membership l r)
    | .contains, [l, r], _ => .ofExcept (c.containment l r)
    | .size, _, _ => .refused (.invalidOperand (some .size) .sizeComparison)
    | f, _, _ => .refused (wrongArity f receiver args)

mutual

/-- The plan of a filter. -/
def Catalog.plan (c : Catalog) : Expr → Plan
  | .ident name => .ofExcept (c.standalone name)
  | .list _ | .const _ => .refused (.invalidOperand none .predicate)
  | .call symbol none args => c.callPlan symbol none args (c.plans args)
  | .call symbol (some receiver) args => c.callPlan symbol (some receiver) args (c.plan receiver :: c.plans args)

/-- The plans of several filters. -/
def Catalog.plans (c : Catalog) : List Expr → List Plan
  | [] => []
  | e :: es => c.plan e :: c.plans es

end

theorem Catalog.plans_eq_map (c : Catalog) (es : List Expr) : c.plans es = es.map c.plan := by
  induction es with
  | nil => rfl
  | cons e es ih => simp [Catalog.plans, ih]

end WhereClause
