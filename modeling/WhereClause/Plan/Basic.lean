import WhereClause.Column
import WhereClause.Rejection

/-!
# Plans

A plan is a filter after its identifiers have been looked up and its constants checked and coerced: connectives over
predicates, each of which says what is tested, where it is stored, and which values are bound. It does not depend on a
dialect. Where a part of the filter is refused, the plan holds the reason in its place.
-/

namespace WhereClause

/-- A single test of a row. -/
inductive Predicate where
  /-- A column is true. -/
  | isTrue (c : Column)
  /-- A truth value in a document is true. -/
  | jsonIsTrue (p : JsonPath)
  /-- A text matches a pattern. -/
  | like (c : Column) (pattern : String)
  /-- A column compares with a value. -/
  | compare (c : Column) (op : Comparison) (value : Value)
  /-- A point in time compares with another, in seconds. -/
  | compareInstant (c : Column) (op : Comparison) (seconds : Int64)
  /-- A truth value in a document compares with a constant. -/
  | compareJson (p : JsonPath) (op : Comparison) (value : Literal)
  /-- The length of an array in a document compares with a number. -/
  | compareSize (p : JsonPath) (op : Comparison) (size : Int64)
  /-- A column is one of some values. -/
  | oneOf (c : Column) (values : List Value)
  /-- An array in a document holds a tag. -/
  | hasTag (p : JsonPath) (tag : Value)
  /-- An array in a document holds an element. -/
  | hasElement (p : JsonPath) (element : Value)
  deriving DecidableEq, Repr

/-- A filter whose parts have been resolved. -/
inductive Plan where
  | test (p : Predicate)
  /-- One of some predicates holds. -/
  | anyOf (ps : List Predicate)
  | negation (p : Plan)
  | both (l r : Plan)
  | either (l r : Plan)
  /-- A part that is refused. -/
  | refused (why : Rejection)
  deriving DecidableEq, Repr

/-- The plan of a part that may have been refused. -/
def Plan.ofExcept : Except Rejection Plan → Plan
  | .ok p => p
  | .error why => .refused why

end WhereClause
