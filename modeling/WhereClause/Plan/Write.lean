import WhereClause.Dialect.Snippet
import WhereClause.Fragment
import WhereClause.Plan.Basic

/-!
# Writing a plan

A plan is appended to a fragment from left to right. Connectives put parentheses around all that they hold, so a fragment
means the same wherever it is spliced in. Writing stops at the first part that is refused, and what has been written up to
there stays. A predicate is written as a whole or, since all of its checks come before its first word, not at all; so
nothing below can fail inside a predicate.
-/

namespace WhereClause

namespace Predicate

/-- Appends a predicate to a fragment. -/
def write (f : Fragment) : Predicate → Fragment
  | .isTrue c => f.fill (f.dialect.template (.isTrue c)) []
  | .jsonIsTrue p => f.fill (f.dialect.template (.jsonIsTrue p)) []
  | .like c pattern => f.fill (f.dialect.template (.like c)) [.string pattern]
  | .compare c op value => (f.text (f.dialect.template (.column c) ++ " " ++ op.sql ++ " ")).bind value
  | .compareInstant c op seconds =>
    (f.text (f.dialect.template (.seconds c) ++ " " ++ op.sql ++ " ")).bind (.int seconds)
  | .compareJson p op value =>
    let bound := match value with
      | .bool b => f.dialect.boolParam b
      | l => l.toValue
    f.fill (f.dialect.template (.jsonCompare p op)) [bound]
  | .compareSize p op size =>
    (f.text (f.dialect.template (.arrayLength p) ++ " " ++ op.sql ++ " ")).bind (.int size)
  | .oneOf c values => f.fill (f.dialect.template (.oneOf c)) values
  | .hasTag p tag => f.fill (f.dialect.template (.holdsTag p)) [tag]
  | .hasElement p element => f.fill (f.dialect.template (.holdsElement p)) [element]

/-- Appends predicates with `OR` between two of them. -/
def writeAny (f : Fragment) : List Predicate → Fragment
  | [] => f
  | [p] => p.write f
  | p :: ps => writeAny ((p.write f).text " OR ") ps

end Predicate

namespace Plan

/-- Appends a plan to a fragment. Where a part is refused, gives the reason and what has been written before it. -/
def write (f : Fragment) : Plan → Fragment × Option Rejection
  | .test p => (p.write f, none)
  | .anyOf ps => (if ps.length > 1 then (Predicate.writeAny (f.text "(") ps).text ")" else Predicate.writeAny f ps, none)
  | .negation p =>
    match p.write (f.text "NOT (") with
    | (g, none) => (g.text ")", none)
    | stopped => stopped
  | .both l r =>
    match l.write (f.text "(") with
    | (g, none) =>
      match r.write (g.text " AND ") with
      | (h, none) => (h.text ")", none)
      | stopped => stopped
    | stopped => stopped
  | .either l r =>
    match l.write (f.text "(") with
    | (g, none) =>
      match r.write (g.text " OR ") with
      | (h, none) => (h.text ")", none)
      | stopped => stopped
    | stopped => stopped
  | .refused why => (f, some why)

end Plan

end WhereClause
