import WhereClause.Expr.Basic

/-!
# Building filters

Shorthand for trees built by hand. Every call is written with the mangled spelling of its symbol, so a built tree looks like
one that was read.
-/

namespace WhereClause.Expr

/-- A constant string. -/
def string (s : String) : Expr := .const (.string s)

/-- A constant integer. -/
def int (n : Int64) : Expr := .const (.int n)

/-- A constant truth value. -/
def bool (b : Bool) : Expr := .const (.bool b)

/-- A call without a receiver. -/
def apply (f : Symbol) (args : List Expr) : Expr := .call f.mangled none args

/-- A call with a receiver. -/
def method (receiver : Expr) (f : Symbol) (args : List Expr) : Expr := .call f.mangled (some receiver) args

/-- Both filters hold. -/
def and (l r : Expr) : Expr := apply .and [l, r]

/-- One of two filters holds. -/
def or (l r : Expr) : Expr := apply .or [l, r]

/-- A filter does not hold. -/
def not (e : Expr) : Expr := apply .not [e]

/-- A comparison. -/
def compare (l : Expr) (op : Comparison) (r : Expr) : Expr := apply (.compare op) [l, r]

/-- An equality. -/
def eq (l r : Expr) : Expr := compare l .equal r

/-- An element is in a collection. -/
def isIn (element collection : Expr) : Expr := apply .isIn [element, collection]

/-- A text contains another. -/
def contains (target needle : Expr) : Expr := method target .contains [needle]

/-- The size of a collection. -/
def size (collection : Expr) : Expr := apply .size [collection]

end WhereClause.Expr
