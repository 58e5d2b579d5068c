import WhereClause.Calendar.Moment
import WhereClause.Catalog.Field

/-!
# Rejections

Why a filter is refused. A rejection carries what it blames, under the name that the filter uses for it. Every one is the
fault of the filter and not of the service: the same filter is always refused in the same way.
-/

namespace WhereClause

/-- What a constant of the wrong type stands beside. -/
inductive Subject where
  | field (name : String)
  | sizeOf (name : String)
  deriving DecidableEq, Repr

/-- The subject as a reader sees it. -/
def Subject.render : Subject → String
  | .field name => name
  | .sizeOf name => "size(" ++ name ++ ")"

/-- What an operand should have been. -/
inductive Expectation where
  | predicate | constant | identifier | identifierOrSize | containsTarget | nonEmptyList | membership | sizeComparison
  deriving DecidableEq, Repr

/-- The wording of an expectation. -/
def Expectation.wording : Expectation → String
  | .predicate => "a predicate"
  | .constant => "a constant"
  | .identifier => "an identifier"
  | .identifierOrSize => "an identifier or size() on the left"
  | .containsTarget => "an identifier as target"
  | .nonEmptyList => "a non-empty list"
  | .membership => "`identifier in [list]` or `constant in identifier`"
  | .sizeComparison => "a comparison against an int"

/-- The wording of an operation that an identifier does not allow. -/
def Operation.wording : Operation → String
  | .compare op => op.plain
  | .isIn | .elementIn => Symbol.isIn.plain
  | .contains => Symbol.contains.plain
  | .size => Symbol.size.plain
  | .standalone => "standalone predicate"

/-- Why a filter is refused. -/
inductive Rejection where
  /-- The catalog has no field for the identifier. -/
  | unknownIdentifier (name : String)
  /-- The field may not take part in the operation. -/
  | disallowedOperator (name : String) (operation : Operation)
  /-- A call has the wrong number of arguments; a receiver is not counted. -/
  | arityMismatch (symbol : Symbol) (expected actual : Nat)
  /-- A constant has the wrong type. -/
  | typeMismatch (subject : Subject) (expected : FieldType) (actual : LiteralType)
  /-- A call's symbol is not known. -/
  | unsupportedFunction (symbol : String)
  /-- The identifier is no collection that the call may look into. -/
  | invalidCollection (symbol : Symbol) (name : String)
  /-- An operand has the wrong form; without a symbol, the filter as a whole has. -/
  | invalidOperand (symbol : Option Symbol) (expected : Expectation)
  /-- A string beside a point in time names none. -/
  | invalidTimestamp (name : String) (reason : InvalidTimestamp)
  deriving DecidableEq, Repr

/-- Whether the filter is to blame rather than the service. It always is. -/
def Rejection.blamesFilter (_ : Rejection) : Bool := true

/-- What is said of a filter that is refused. -/
def Rejection.message : Rejection → String
  | .unknownIdentifier name => "Unknown identifier: " ++ name
  | .disallowedOperator name operation => "Operator '" ++ operation.wording ++ "' is not allowed on '" ++ name ++ "'"
  | .arityMismatch symbol expected actual =>
    "Invalid number of arguments for " ++ symbol.plain ++ ": expected " ++ toString expected ++ ", got " ++ toString actual
  | .typeMismatch subject expected actual =>
    "Type mismatch for '" ++ subject.render ++ "': expected " ++ expected.name ++ ", got " ++ actual.name
  | .unsupportedFunction symbol => "Unsupported function: " ++ symbol
  | .invalidCollection symbol name => "Invalid collection identifier for " ++ symbol.plain ++ ": " ++ name
  | .invalidOperand symbol expected =>
    "Invalid operand for " ++ (symbol.map Symbol.plain).getD "filter" ++ ": expected " ++ expected.wording
  | .invalidTimestamp name reason => "Invalid timestamp for '" ++ name ++ "': " ++ reason.message

end WhereClause
