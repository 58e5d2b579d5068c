/-!
# Call symbols

Every operator, membership test and method of the filter language is a call named by a symbol. A symbol has two spellings:
the mangled one, with `_` where the operands of an operator stand or `@` before a word, and the plain one. Both are read;
the mangled one is what filters are built with, and the plain one is what a reader is shown.
-/

namespace WhereClause

/-- The six comparisons. -/
inductive Comparison where
  | equal | notEqual | lessThan | greaterThan | lessOrEqual | greaterOrEqual
  deriving DecidableEq, Repr

namespace Comparison

/-- The comparison as SQL writes it. -/
def sql : Comparison → String
  | .equal => "="
  | .notEqual => "!="
  | .lessThan => "<"
  | .greaterThan => ">"
  | .lessOrEqual => "<="
  | .greaterOrEqual => ">="

/-- The comparison as a filter writes it. -/
def plain : Comparison → String
  | .equal => "=="
  | .notEqual => "!="
  | .lessThan => "<"
  | .greaterThan => ">"
  | .lessOrEqual => "<="
  | .greaterOrEqual => ">="

/-- The comparisons that ask for equality or its opposite. -/
def isEquality : Comparison → Bool
  | .equal | .notEqual => true
  | _ => false

end Comparison

/-- The symbols of the filter language. -/
inductive Symbol where
  | and | or | not
  | compare (op : Comparison)
  | isIn | contains | size
  deriving DecidableEq, Repr

namespace Symbol

/-- The mangled spelling. -/
def mangled : Symbol → String
  | .and => "_&&_"
  | .or => "_||_"
  | .not => "!_"
  | .compare .equal => "_==_"
  | .compare .notEqual => "_!=_"
  | .compare .lessThan => "_<_"
  | .compare .greaterThan => "_>_"
  | .compare .lessOrEqual => "_<=_"
  | .compare .greaterOrEqual => "_>=_"
  | .isIn => "@in"
  | .contains => "contains"
  | .size => "size"

/-- The plain spelling. -/
def plain : Symbol → String
  | .and => "&&"
  | .or => "||"
  | .not => "!"
  | .compare op => op.plain
  | .isIn => "in"
  | .contains => "contains"
  | .size => "size"

/-- The symbol that a text spells, in either way. -/
def ofText? : String → Option Symbol
  | "_&&_" | "&&" => some .and
  | "_||_" | "||" => some .or
  | "!_" | "!" => some .not
  | "_==_" | "==" => some (.compare .equal)
  | "_!=_" | "!=" => some (.compare .notEqual)
  | "_<_" | "<" => some (.compare .lessThan)
  | "_>_" | ">" => some (.compare .greaterThan)
  | "_<=_" | "<=" => some (.compare .lessOrEqual)
  | "_>=_" | ">=" => some (.compare .greaterOrEqual)
  | "@in" | "in" => some .isIn
  | "contains" => some .contains
  | "size" => some .size
  | _ => none

/-- How many operands a call of the symbol takes. -/
def arity : Symbol → Nat
  | .not | .size => 1
  | _ => 2

/-- What is said of a text that spells no symbol. -/
def unknownMessage (text : String) : String := "Unknown function symbol: " ++ text

/-- The mangled name of a function stands for it. -/
@[simp] theorem ofText?_mangled (f : Symbol) : ofText? f.mangled = some f := by
  rcases f with _ | _ | _ | (_ | _ | _ | _ | _ | _) | _ | _ | _ <;> rfl

/-- The plain name of a function stands for it. -/
@[simp] theorem ofText?_plain (f : Symbol) : ofText? f.plain = some f := by
  rcases f with _ | _ | _ | (_ | _ | _ | _ | _ | _) | _ | _ | _ <;> rfl

end Symbol

end WhereClause
