/-!
# JSON documents

A document keeps what a reader of it can ask for: the members of an object in their order, repeated ones included, and
integers exactly. Two kinds of leaf are kept though nothing can be read from them, so that a member which nobody asks for may
hold them: a number written with a fraction, an exponent or as minus zero, and a string whose escapes leave a surrogate
unpaired.
-/

namespace WhereClause

/-- A JSON document. -/
inductive Json where
  | null
  | bool (b : Bool)
  /-- A number written as an integer, other than minus zero. -/
  | int (n : Int)
  /-- Any other number, as it is spelled. -/
  | real (spelling : List Char)
  /-- A string; none where its escapes leave a surrogate unpaired, which is no text. -/
  | string (text : Option String)
  | array (items : List Json)
  | object (members : List (Option String × Json))

namespace Json

/-- The text of a string. -/
def text? : Json → Option String
  | .string text => text
  | _ => none

/-- The integer that a document holds. -/
def int? : Json → Option Int
  | .int n => some n
  | _ => none

/-- The truth value that a document holds. -/
def bool? : Json → Option Bool
  | .bool b => some b
  | _ => none

/-- The integer that a document holds, if it fits 64 bits with a sign. -/
def int64? (v : Json) : Option Int64 := do
  let n ← v.int?
  if Int64.minValue.toInt ≤ n ∧ n ≤ Int64.maxValue.toInt then some (.ofInt n) else none

/-- The integer that a document holds, if it fits 64 bits without a sign. -/
def index? (v : Json) : Option UInt64 := do
  let n ← v.int?
  if 0 ≤ n ∧ n.toNat < UInt64.size then some (.ofNat n.toNat) else none

end Json

end WhereClause
