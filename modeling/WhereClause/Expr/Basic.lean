import WhereClause.Literal
import WhereClause.Symbol

/-!
# Filter expressions

A filter is a tree of calls over identifiers, constants and lists. Operators, membership tests and methods are all calls; a
method call has a receiver. The symbol of a call is kept as it was written, so that a refusal can show it, and need not be
one that the language knows.
-/

namespace WhereClause

/-- A filter expression. -/
inductive Expr where
  | call (symbol : String) (receiver : Option Expr) (args : List Expr)
  | ident (name : String)
  | list (items : List Expr)
  | const (value : Literal)

namespace Expr

/-- The name of an identifier. -/
def ident? : Expr → Option String
  | .ident name => some name
  | _ => none

/-- The value of a constant. -/
def const? : Expr → Option Literal
  | .const value => some value
  | _ => none

mutual

/-- Whether two expressions are the same tree. -/
def decEq : (a b : Expr) → Decidable (a = b)
  | .ident x, .ident y => decidable_of_iff (x = y) (by simp)
  | .const x, .const y => decidable_of_iff (x = y) (by simp)
  | .list xs, .list ys =>
    match decEqList xs ys with
    | isTrue h => isTrue (by rw [h])
    | isFalse h => isFalse (by simpa using h)
  | .call f none xs, .call g none ys =>
    match decEqList xs ys with
    | isTrue h => decidable_of_iff (f = g) (by simp [h])
    | isFalse h => isFalse (by simp [h])
  | .call f (some r) xs, .call g (some s) ys =>
    match decEq r s, decEqList xs ys with
    | isTrue hr, isTrue h => decidable_of_iff (f = g) (by simp [h, hr])
    | isFalse hr, _ => isFalse (by simp [hr])
    | _, isFalse h => isFalse (by simp [h])
  | .call _ none _, .call _ (some _) _ | .call _ (some _) _, .call _ none _ => isFalse (by simp)
  | .call .., .ident _ | .call .., .list _ | .call .., .const _ => isFalse (by simp)
  | .ident _, .call .. | .ident _, .list _ | .ident _, .const _ => isFalse (by simp)
  | .list _, .call .. | .list _, .ident _ | .list _, .const _ => isFalse (by simp)
  | .const _, .call .. | .const _, .ident _ | .const _, .list _ => isFalse (by simp)

/-- Whether two lists of expressions are the same. -/
def decEqList : (as bs : List Expr) → Decidable (as = bs)
  | [], [] => isTrue rfl
  | [], _ :: _ | _ :: _, [] => isFalse (by simp)
  | a :: as, b :: bs =>
    match decEq a b, decEqList as bs with
    | isTrue h, isTrue hs => isTrue (by rw [h, hs])
    | isFalse h, _ => isFalse (by simp [h])
    | _, isFalse h => isFalse (by simp [h])

end

instance : DecidableEq Expr := decEq

end Expr

end WhereClause
