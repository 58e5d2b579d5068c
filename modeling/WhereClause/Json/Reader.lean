import WhereClause.Json.Token

/-!
# Reading a JSON text

The tokens of a text are put together by a builder that keeps the arrays and objects still open on a stack. It takes one
token at a time, so a text may nest as deep as it likes.
-/

namespace WhereClause.Json

/-- An array or object that is still open, with what it holds so far, latest first. -/
inductive Frame where
  | items (done : List Json)
  /-- An object whose member `key` waits for its value. -/
  | member (done : List (Option String × Json)) (key : Option String)

/-- What the builder waits for. -/
inductive Builder where
  | value (stack : List Frame)
  /-- After `[`: a first value or the end. -/
  | firstItem (stack : List Frame)
  /-- After an opening brace: a first key or the end. -/
  | firstKey (stack : List Frame)
  /-- After a comma in an object: a key. -/
  | key (stack : List Frame) (done : List (Option String × Json))
  | colon (stack : List Frame) (done : List (Option String × Json)) (key : Option String)
  /-- After a value: a comma, the end of what it stands in, or the end of the text. -/
  | after (stack : List Frame) (v : Json)

namespace Builder

/-- What a token does where a value is due. -/
def value? (stack : List Frame) : Token → Option Builder
  | .leaf v => some (.after stack v)
  | .string text => some (.after stack (.string text))
  | .openArray => some (.firstItem stack)
  | .openObject => some (.firstKey stack)
  | _ => none

/-- The builder after one more token. -/
def step? : Builder → Token → Option Builder
  | .value stack, t => value? stack t
  | .firstItem stack, .closeArray => some (.after stack (.array []))
  | .firstItem stack, t => value? (.items [] :: stack) t
  | .firstKey stack, .closeObject => some (.after stack (.object []))
  | .firstKey stack, .string k => some (.colon stack [] k)
  | .key stack done, .string k => some (.colon stack done k)
  | .colon stack done k, .colon => some (.value (.member done k :: stack))
  | .after (.items done :: stack) v, .comma => some (.value (.items (v :: done) :: stack))
  | .after (.items done :: stack) v, .closeArray => some (.after stack (.array (v :: done).reverse))
  | .after (.member done k :: stack) v, .comma => some (.key stack ((k, v) :: done))
  | .after (.member done k :: stack) v, .closeObject => some (.after stack (.object ((k, v) :: done).reverse))
  | _, _ => none

/-- The document that the rest of the tokens completes. -/
def read? : Builder → List Token → Option Json
  | .after [] v, [] => some v
  | _, [] => none
  | b, t :: ts => (b.step? t).bind (read? · ts)

end Builder

/-- The document that a text spells. -/
def ofText? (text : String) : Option Json := do
  let ts ← tokens? text.toList
  (Builder.value []).read? ts

end WhereClause.Json
