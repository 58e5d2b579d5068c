import WhereClause.Expr.Build
import WhereClause.Expr.Encoding
import WhereClause.Settings
import WhereClause.Proofs.Expr.Shape
import WhereClause.Proofs.Plan.Related
import WhereClause.Proofs.Composition
import WhereClause.Proofs.Plan.Resolved
import WhereClause.Proofs.Typing
import WhereClause.Proofs.Fragment.Inert
import WhereClause.Proofs.Placeholders
import WhereClause.Proofs.Constants
import WhereClause.Proofs.Arguments
import WhereClause.Proofs.Dialects
import WhereClause.Proofs.Residue
import WhereClause.Proofs.Skeleton
import WhereClause.Proofs.Fragment.Around
import WhereClause.Proofs.Condition.Woven
import WhereClause.Proofs.Condition.Atoms
import WhereClause.Proofs.Catalog.Registration
import WhereClause.Proofs.Expr.Rename
import WhereClause.Proofs.Renaming
import WhereClause.Proofs.Renumbering
import WhereClause.Proofs.Direct.Forms
import WhereClause.Proofs.Direct.Compiler
import WhereClause.Proofs.NormalForm.Basic
import WhereClause.Proofs.NormalForm.Pieces
import WhereClause.Proofs.NormalForm.Written
import WhereClause.Proofs.NormalForm.Frames
import WhereClause.Proofs.Synonyms
import WhereClause.Proofs.Blame
import WhereClause.Proofs.Flattening
import WhereClause.Proofs.Json.Grammar
import WhereClause.Proofs.Json.Scanned
import WhereClause.Proofs.Json.Scanning
import WhereClause.Proofs.Json.Reading
import WhereClause.Proofs.Json.Nesting
import WhereClause.Proofs.Json.Printed
import WhereClause.Proofs.Expr.Denoted
import WhereClause.Proofs.Decoding
import WhereClause.Proofs.Encoding
import WhereClause.Proofs.Storing
import WhereClause.Proofs.Catalog.History
import WhereClause.Proofs.Catalog.Listing
import WhereClause.Proofs.Display
import WhereClause.Proofs.SqlLiteral
import WhereClause.Proofs.Calendar.Days
import WhereClause.Proofs.Calendar.Stamp
import WhereClause.Proofs.Calendar.Timestamps
import WhereClause.Proofs.Pattern
import WhereClause.Proofs.Projection
import WhereClause.Proofs.Paths
import WhereClause.Proofs.Filling
