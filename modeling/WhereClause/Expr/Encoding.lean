import WhereClause.Expr.Basic
import WhereClause.Json.Reader
import WhereClause.Json.Scalar

/-!
# Filters as JSON

An expression is an object with one member that says what it is: `ident` with a name, `const` with a constant, `list` with an
array, or `call` with an object of the members `function`, `target` and `args`. A call may leave out its target, or give it as
null, and leave out its arguments; members with other names are passed over, whatever they hold. A call may also be an array
of one to three elements in that order.

Only so many arrays and objects may be open at once; the members that are passed over do not count.
-/

namespace WhereClause

/-- How many arrays and objects of a document may be open at once. -/
def nestingLimit : Nat := 127

namespace Expr

/-! ## Writing -/

mutual

/-- An expression as JSON text without blanks. -/
def encode : Expr → String
  | .ident name => Json.compactObject [("ident", Json.quote name)]
  | .const value => Json.compactObject [("const", value.encode)]
  | .list items => Json.compactObject [("list", Json.compactArray (encodeAll items))]
  | .call symbol none args =>
    Json.compactObject [("call", Json.compactObject
      [("function", Json.quote symbol), ("args", Json.compactArray (encodeAll args))])]
  | .call symbol (some receiver) args =>
    Json.compactObject [("call", Json.compactObject
      [("function", Json.quote symbol), ("target", receiver.encode), ("args", Json.compactArray (encodeAll args))])]

/-- Several expressions as JSON texts. -/
def encodeAll : List Expr → List String
  | [] => []
  | e :: es => e.encode :: encodeAll es

end

/-! ## Reading -/

/-- A member of a call that has a meaning. -/
inductive CallMember where
  | function (symbol : String)
  | target (receiver : Option Expr)
  | args (args : List Expr)

/-- The call that has the given members: one function, and at most one target and one list of arguments. -/
def ofMembers? (members : List CallMember) : Option Expr :=
  let functions := members.filterMap fun | .function f => some f | _ => none
  let targets := members.filterMap fun | .target t => some t | _ => none
  let lists := members.filterMap fun | .args as => some as | _ => none
  match functions, targets, lists with
  | [f], [], [] => some (.call f none [])
  | [f], [t], [] => some (.call f t [])
  | [f], [], [as] => some (.call f none as)
  | [f], [t], [as] => some (.call f t as)
  | _, _, _ => none

/-- The receiver that a document gives when it reads as `e?`: null stands for no receiver. -/
def receiver? (v : Json) (e? : Option Expr) : Option (Option Expr) :=
  match v with
  | .null => some none
  | _ => e?.map some

mutual

/-- The expression that a document holds, if `room` more arrays and objects may be opened. -/
def ofJsonWithin? (room : Nat) : Json → Option Expr
  | .object [(some key, v)] =>
    if room = 0 then none
    else match key, v with
      | "ident", .string text => text.map .ident
      | "const", v => (Literal.ofJson? v).map .const
      | "list", .array items => if room = 1 then none else (listWithin? (room - 2) items).map .list
      | "call", .object members => if room = 1 then none else (membersWithin? (room - 2) members).bind ofMembers?
      | "call", .array [.string (some f)] => if room = 1 then none else some (.call f none [])
      | "call", .array [.string (some f), t] =>
        if room = 1 then none else (receiver? t (ofJsonWithin? (room - 2) t)).map (.call f · [])
      | "call", .array [.string (some f), t, .array items] =>
        if room ≤ 2 then none
        else do
          let receiver ← receiver? t (ofJsonWithin? (room - 2) t)
          let args ← listWithin? (room - 3) items
          some (.call f receiver args)
      | _, _ => none
  | _ => none
termination_by structural v => v

/-- The expressions that several documents hold. -/
def listWithin? (room : Nat) : List Json → Option (List Expr)
  | [] => some []
  | v :: vs => do
    let e ← ofJsonWithin? room v
    let es ← listWithin? room vs
    some (e :: es)

/-- The members of a call that have a meaning. Every key must have a text, also where the member is passed over. -/
def membersWithin? (room : Nat) : List (Option String × Json) → Option (List CallMember)
  | [] => some []
  | (none, _) :: _ => none
  | (some key, v) :: rest => do
    let ms ← membersWithin? room rest
    match key, v with
    | "function", v => v.text?.map (.function · :: ms)
    | "target", v => (receiver? v (ofJsonWithin? room v)).map (.target · :: ms)
    | "args", .array items => if room = 0 then none else (listWithin? (room - 1) items).map (.args · :: ms)
    | "args", _ => none
    | _, _ => some ms

end

/-- The expression that a document holds. -/
def ofJson? (v : Json) : Option Expr := ofJsonWithin? nestingLimit v

/-- The expression that a JSON text spells. -/
def decode? (text : String) : Option Expr := (Json.ofText? text).bind ofJson?

end Expr

end WhereClause
