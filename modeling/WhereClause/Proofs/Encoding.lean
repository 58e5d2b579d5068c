import WhereClause.Proofs.Decoding
import WhereClause.Proofs.Json.Printed

/-!
# Decoding what was encoded

The encoded text of an expression is decoded as the expression, if it opens no more arrays and objects at once than
the limit allows, and is refused otherwise (`encoding_round_trips`). It is a text of a document, `Expr.document`, that
denotes this expression alone, as deep as the document is.
-/

namespace WhereClause

open Json

/-- The document that a literal is written as. -/
def Literal.document : Literal → Json
  | .bool b => .bool b
  | .int n => .int n.toInt
  | .string s => .string (some s)

mutual

/-- The document that an expression is written as. -/
def Expr.document : Expr → Json
  | .ident name => said "ident" (.string (some name))
  | .const value => said "const" value.document
  | .list items => said "list" (.array (Expr.documents items))
  | .call symbol none args =>
    said "call" (.object [(some "function", .string (some symbol)), (some "args", .array (Expr.documents args))])
  | .call symbol (some receiver) args =>
    said "call" (.object [(some "function", .string (some symbol)), (some "target", receiver.document),
      (some "args", .array (Expr.documents args))])

/-- The documents that several expressions are written as. -/
def Expr.documents : List Expr → List Json
  | [] => []
  | e :: es => e.document :: Expr.documents es

end

/-! ## The text -/

/-- A string in quotes is a text of the string. -/
theorem writtenAs_quote (s : String) : (Json.string (some s)).WrittenAs (quote s).toList := layout_of_text (text_quote s)

/-- An encoded constant is a text of its document. -/
theorem Literal.writtenAs_encode (l : Literal) : l.document.WrittenAs l.encode.toList := by
  cases l with
  | bool b =>
    cases b with
    | false => exact layout_of_text .false
    | true => exact layout_of_text .true
  | int n => exact layout_of_text (.number (number_toString n.toInt))
  | string s => exact writtenAs_quote s

namespace Expr

/-- A member around a text is a text of the member. -/
theorem writtenAs_said {key : String} {v : Json} {s : String} (h : v.WrittenAs s.toList) :
    (said key v).WrittenAs (compactObject [(key, s)]).toList :=
  .object (.cons ⟨rfl, h⟩ .nil)

mutual

/-- An expression is encoded as a text of its document. -/
theorem writtenAs_encode : (e : Expr) → e.document.WrittenAs e.encode.toList
  | .ident name => by
    rw [document, encode]
    exact writtenAs_said (writtenAs_quote name)
  | .const value => by
    rw [document, encode]
    exact writtenAs_said value.writtenAs_encode
  | .list items => by
    rw [document, encode]
    exact writtenAs_said (.array (writtenAs_encodeAll items))
  | .call symbol none args => by
    rw [document, encode]
    refine writtenAs_said (.object (.cons ⟨rfl, writtenAs_quote symbol⟩ (.cons ⟨rfl, ?_⟩ .nil)))
    exact .array (writtenAs_encodeAll args)
  | .call symbol (some receiver) args => by
    rw [document, encode]
    refine writtenAs_said (.object (.cons ⟨rfl, writtenAs_quote symbol⟩ (.cons ⟨rfl, ?_⟩ (.cons ⟨rfl, ?_⟩ .nil))))
    · exact writtenAs_encode receiver
    · exact .array (writtenAs_encodeAll args)

/-- Several encoded expressions are texts of their documents. -/
theorem writtenAs_encodeAll : (es : List Expr) →
    List.Forall₂ (fun (v : Json) (s : String) => v.WrittenAs s.toList) (documents es) (encodeAll es)
  | [] => .nil
  | e :: es => .cons (writtenAs_encode e) (writtenAs_encodeAll es)

end

/-! ## The document -/

/-- A constant is read back from its document. -/
theorem literal_ofJson?_document (l : Literal) : Literal.ofJson? l.document = some l := by
  cases l with
  | bool b => rfl
  | int n =>
    have hn := int64?_int.mpr ⟨n.le_toInt, n.toInt_lt, rfl⟩
    rw [Literal.document, Literal.ofJson?, hn, Option.map_some]
    · exact nofun
    · exact nofun
  | string s => rfl

theorem depth_literal (l : Literal) : l.document.depth = 0 := by
  cases l <;> rfl

/-- No expression is encoded as null. -/
theorem document_ne_null (e : Expr) : e.document ≠ .null := by
  cases e with
  | call symbol receiver args => cases receiver <;> exact nofun
  | _ => exact nofun

theorem valuesAt_nil (key : String) : valuesAt key [] = [] := rfl

/-- A call without a receiver, as it is written. -/
theorem denotes_function_iff {symbol : String} {items : List Json} {e : Expr} {d : Nat} :
    (said "call" (.object [(some "function", .string (some symbol)), (some "args", .array items)])).Denotes e d ↔
      ∃ es d', e = .call symbol none es ∧ DenotesAll items es d' ∧ d = d' + 3 := by
  rw [denotes_object_iff]
  simp (disch := decide) only [valuesAt_cons_of_ne, valuesAt_cons_self, valuesAt_nil]
  constructor
  · rintro ⟨_, receiver, es, d₁, d₂, -, hs, ht, ha, rfl, rfl⟩
    cases hs
    cases ht
    cases ha with
    | @given _ _ d' hes => exact ⟨es, d', rfl, hes, by omega⟩
  · rintro ⟨es, d', rfl, hes, rfl⟩
    exact ⟨symbol, none, es, 0, d' + 1, by simp, rfl, .absent, .given hes, rfl, by omega⟩

/-- A call with a receiver, as it is written. -/
theorem denotes_method_iff {symbol : String} {v : Json} {items : List Json} (hv : v ≠ .null) {e : Expr} {d : Nat} :
    (said "call" (.object [(some "function", .string (some symbol)), (some "target", v),
      (some "args", .array items)])).Denotes e d ↔
      ∃ r es d₁ d₂, e = .call symbol (some r) es ∧ v.Denotes r d₁ ∧ DenotesAll items es d₂ ∧
        d = max d₁ (d₂ + 1) + 2 := by
  rw [denotes_object_iff]
  simp (disch := decide) only [valuesAt_cons_of_ne, valuesAt_cons_self, valuesAt_nil]
  constructor
  · rintro ⟨_, receiver, es, d₁, d₂, -, hs, ht, ha, rfl, rfl⟩
    cases hs
    cases ha with
    | @given _ _ d' hes =>
      cases ht with
      | null => exact absurd rfl hv
      | given he => exact ⟨_, es, d₁, d', rfl, he, hes, rfl⟩
  · rintro ⟨r, es, d₁, d₂, rfl, he, hes, rfl⟩
    exact ⟨symbol, some r, es, d₁, d₂ + 1, by simp, rfl, .given he, .given hes, rfl, rfl⟩

mutual

/-- A document of an expression denotes this expression alone, and is as deep where it is read as it is at all. -/
theorem denotes_document_iff : (e : Expr) → ∀ e' d, e.document.Denotes e' d ↔ e' = e ∧ d = e.document.depth
  | .ident name => by
    intro e' d
    rw [document, denotes_ident_iff, depth_said]
    simp [depth]
  | .const value => by
    intro e' d
    rw [document, denotes_const_iff, literal_ofJson?_document, depth_said, depth_literal]
    simp
  | .list items => by
    intro e' d
    rw [document, denotes_list_iff, depth_said, depth]
    constructor
    · rintro ⟨items', es, d', hv, hes, rfl, rfl⟩
      obtain rfl := Json.array.inj hv
      obtain ⟨rfl, rfl⟩ := (denotesAll_documents_iff items es d').mp hes
      exact ⟨rfl, rfl⟩
    · rintro ⟨rfl, rfl⟩
      exact ⟨_, items, _, rfl, (denotesAll_documents_iff items _ _).mpr ⟨rfl, rfl⟩, rfl, rfl⟩
  | .call symbol none args => by
    intro e' d
    have hdepth : (call symbol none args).document.depth = depthOfItems (documents args) + 3 := by
      simp [document, depth, depthOfMembers]
    rw [hdepth, document, denotes_function_iff]
    constructor
    · rintro ⟨es, d', rfl, hes, rfl⟩
      obtain ⟨rfl, rfl⟩ := (denotesAll_documents_iff args es d').mp hes
      exact ⟨rfl, rfl⟩
    · rintro ⟨rfl, rfl⟩
      exact ⟨args, _, rfl, (denotesAll_documents_iff args _ _).mpr ⟨rfl, rfl⟩, rfl⟩
  | .call symbol (some receiver) args => by
    intro e' d
    have hdepth : (call symbol (some receiver) args).document.depth =
        max receiver.document.depth (depthOfItems (documents args) + 1) + 2 := by
      simp [document, depth, depthOfMembers]
    rw [hdepth, document, denotes_method_iff (document_ne_null receiver)]
    constructor
    · rintro ⟨r, es, d₁, d₂, rfl, he, hes, rfl⟩
      obtain ⟨rfl, rfl⟩ := (denotes_document_iff receiver r d₁).mp he
      obtain ⟨rfl, rfl⟩ := (denotesAll_documents_iff args es d₂).mp hes
      exact ⟨rfl, rfl⟩
    · rintro ⟨rfl, rfl⟩
      exact ⟨receiver, args, _, _, rfl, (denotes_document_iff receiver _ _).mpr ⟨rfl, rfl⟩,
        (denotesAll_documents_iff args _ _).mpr ⟨rfl, rfl⟩, rfl⟩

/-- The documents of several expressions stand for these only. -/
theorem denotesAll_documents_iff : (es : List Expr) →
    ∀ es' d, DenotesAll (documents es) es' d ↔ es' = es ∧ d = depthOfItems (documents es)
  | [] => by
    intro es' d
    constructor
    · rintro ⟨⟩
      exact ⟨rfl, rfl⟩
    · rintro ⟨rfl, rfl⟩
      exact .nil
  | e :: es => by
    intro es' d
    constructor
    · rintro (_ | ⟨he, hes⟩)
      obtain ⟨rfl, rfl⟩ := (denotes_document_iff e _ _).mp he
      obtain ⟨rfl, rfl⟩ := (denotesAll_documents_iff es _ _).mp hes
      exact ⟨rfl, rfl⟩
    · rintro ⟨rfl, rfl⟩
      exact .cons ((denotes_document_iff e _ _).mpr ⟨rfl, rfl⟩) ((denotesAll_documents_iff es _ _).mpr ⟨rfl, rfl⟩)

end

end Expr

/-- The encoded text of an expression is decoded as the expression if it opens no more arrays and objects at once than
the limit allows, and otherwise as none. -/
theorem encoding_round_trips (e : Expr) :
    Expr.decode? e.encode = if nesting e.encode.toList ≤ nestingLimit then some e else none := by
  have hwritten := Expr.writtenAs_encode e
  rw [Expr.decode?_of_writtenAs hwritten, nesting_eq_depth hwritten]
  have hread (e' : Expr) :
      Expr.ofJsonWithin? nestingLimit e.document = some e' ↔ e' = e ∧ e.document.depth ≤ nestingLimit := by
    rw [Expr.ofJsonWithin?_eq_some_iff]
    constructor
    · rintro ⟨d, hd, he⟩
      obtain ⟨rfl, rfl⟩ := (Expr.denotes_document_iff e e' d).mp he
      exact ⟨rfl, hd⟩
    · rintro ⟨rfl, hd⟩
      exact ⟨_, hd, (Expr.denotes_document_iff e' _ _).mpr ⟨rfl, rfl⟩⟩
  by_cases h : e.document.depth ≤ nestingLimit
  · rw [if_pos h, hread]
    exact ⟨rfl, h⟩
  · rw [if_neg h, Option.eq_none_iff_forall_ne_some]
    intro e' he
    exact h ((hread e').mp he).2

end WhereClause
