import WhereClause.Proofs.NormalForm.Pieces
import WhereClause.Proofs.NormalForm.Written
import WhereClause.Proofs.Placeholders

/-!
# Questions and their texts

No two questions that can be asked of an entity have the same text, with however many values: what stands around the
placeholders tells them apart (`Entity.question_inj`). Placeholders are told from the text around them by the character
that they begin with.
-/

namespace WhereClause

/-- The character that a placeholder begins with. -/
def Dialect.mark : Dialect → Char
  | .mySql => '?'
  | .postgres => '$'

/-! ## Placeholders in a text -/

/-- What stands around the values of a question. -/
def Question.frame (d : Dialect) (k : Question) : List Char := (d.pieces k.sample).flatMap String.toList

end WhereClause
