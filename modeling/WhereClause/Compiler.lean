import WhereClause.Event
import WhereClause.Expr.Display
import WhereClause.Plan.Resolve
import WhereClause.Plan.Write

/-!
# Compiling a filter

A compiler turns filters over one catalog into WHERE clauses of one dialect. A filter is compiled as a whole or refused. To
write one into a fragment that is already begun is `Catalog.convert`; where it is refused, what was written before stays.
-/

namespace WhereClause

/-- A compiled filter: a SQL text, the values bound in it, and the first index that is still free after it. -/
structure Clause where
  sql : String
  args : List Value
  next : UInt64
  deriving DecidableEq, Repr

/-- What is needed to compile filters. -/
structure Compiler where
  catalog : Catalog
  dialect : Dialect
  start : UInt64 := 1
  deriving DecidableEq, Repr

/-- Appends a filter to a fragment. Where the filter is refused, gives the reason and what has been written before. -/
def Catalog.convert (c : Catalog) (e : Expr) (f : Fragment) : Fragment × Option Rejection := (c.plan e).write f

namespace Compiler

/-- Compiles a filter. -/
def compile (c : Compiler) (e : Expr) : Except Rejection Clause :=
  match c.catalog.convert e (.empty c.dialect c.start) with
  | (f, none) => .ok ⟨f.sql, f.args, f.next⟩
  | (_, some why) => .error why

/-- The event that reports the outcome of compiling a filter. -/
def event (c : Compiler) (e : Expr) : Except Rejection Clause → Event
  | .ok clause =>
    ⟨.debug, "Compiled " ++ c.catalog.entity ++ " filter for " ++ c.dialect.title ++ ": " ++ clause.sql ++ " (" ++
      toString clause.args.length ++ " args)"⟩
  | .error why => ⟨.warn, "Rejected " ++ c.catalog.entity ++ " filter `" ++ e.render ++ "`: " ++ why.message⟩

end Compiler

end WhereClause
