import WhereClause.Column
import WhereClause.Literal
import WhereClause.Symbol

/-!
# Fields

What a catalog knows of an identifier: the type its constants must have, how it is stored, and the operations that it may
take part in. The three are independent of one another.
-/

namespace WhereClause

/-- An operation that an identifier may take part in. -/
inductive Operation where
  | compare (op : Comparison)
  /-- The identifier is looked up in a list of constants. -/
  | isIn
  /-- A constant is looked up in the identifier. -/
  | elementIn
  | contains
  | size
  /-- The identifier is a predicate by itself. -/
  | standalone
  deriving DecidableEq, Repr

namespace Operation

/-- Every operation, in the order of their bits. -/
def all : List Operation :=
  [.compare .equal, .compare .notEqual, .compare .lessThan, .compare .greaterThan, .compare .lessOrEqual,
    .compare .greaterOrEqual, .isIn, .elementIn, .contains, .size, .standalone]

/-- The operations that ask for equality. -/
def equality : List Operation := [.compare .equal, .compare .notEqual]

/-- All comparisons. -/
def ordering : List Operation :=
  equality ++ [.compare .lessThan, .compare .greaterThan, .compare .lessOrEqual, .compare .greaterOrEqual]

/-- The bit of an operation in a mask. -/
def bit : Operation → Nat
  | .compare .equal => 1
  | .compare .notEqual => 2
  | .compare .lessThan => 4
  | .compare .greaterThan => 8
  | .compare .lessOrEqual => 16
  | .compare .greaterOrEqual => 32
  | .isIn => 64
  | .elementIn => 128
  | .contains => 256
  | .size => 512
  | .standalone => 1024

end Operation

/-- The type that the constants beside an identifier must have. -/
inductive FieldType where
  | int | string | bool
  /-- A key that may be given as an integer or as a string. -/
  | any
  deriving DecidableEq, Repr

namespace FieldType

/-- The name of a type. -/
def name : FieldType → String
  | .int => "int"
  | .string => "string"
  | .bool => "bool"
  | .any => "int or string"

/-- Whether a literal of a type may stand beside a field of a type. -/
def admits : FieldType → LiteralType → Bool
  | .int, .int | .string, .string | .bool, .bool | .any, .int | .any, .string => true
  | _, _ => false

/-- Whether a literal may stand beside a field of a type. -/
def accepts (t : FieldType) (l : Literal) : Bool := t.admits l.type

end FieldType

/-- How the value of an identifier is stored. -/
inductive FieldKind where
  /-- A column compared as it is. -/
  | scalar
  /-- A column that is read as seconds. -/
  | timestamp
  /-- A column of text that is searched. -/
  | text
  /-- A column of truth values. -/
  | boolColumn
  /-- A truth value in a document. -/
  | jsonBool (p : JsonPath)
  /-- An array of strings in a document. -/
  | jsonList (p : JsonPath)
  deriving DecidableEq, Repr

namespace FieldKind

/-- The name of a kind. -/
def name : FieldKind → String
  | .scalar => "scalar"
  | .timestamp => "timestamp"
  | .text => "text"
  | .boolColumn => "bool_column"
  | .jsonBool _ => "json_bool"
  | .jsonList _ => "json_list"

/-- The path of a kind that is stored in a document. -/
def path? : FieldKind → Option JsonPath
  | .jsonBool p | .jsonList p => some p
  | _ => none

end FieldKind

/-- What a catalog knows of an identifier. -/
structure Field where
  name : String
  type : FieldType
  kind : FieldKind
  column : Column
  operations : List Operation
  deriving DecidableEq, Repr

namespace Field

/-- Whether a field may take part in an operation. -/
def allows (f : Field) (o : Operation) : Bool := f.operations.contains o

/-- Whether a field may take part in each of some operations. -/
def allowsAll (f : Field) (os : List Operation) : Bool := os.all f.allows

/-- The operations a field may take part in, in the order of their bits. -/
def allowed (f : Field) : List Operation := Operation.all.filter f.allows

/-- The mask of the operations a field may take part in. -/
def mask (f : Field) : Nat := f.allowed.foldr (fun o m => o.bit + m) 0

end Field

end WhereClause
