import WhereClause.Catalog.Entity
import WhereClause.Expr.Build
import WhereClause.Proofs.Composition
import WhereClause.Proofs.Direct.Forms

/-!
# A compiler without templates

`Forms.compile` goes through a filter once, with the index of the next value in its hand: each step is given the index
it starts from and returns a text, its values and the index that it leaves, which the right operand of a connective
starts from. It has no templates, no holes and no fragment that is written to, and predicates are written in the forms
of the dialect. On the catalogs of the entities it gives the same results as the compiler that fills templates
(`compiles_directly`).
-/

namespace WhereClause

namespace Forms

variable (w : Forms) (c : Catalog)

/-! ## The compiler -/

/-- The clause of a predicate with one value. -/
def single (text : UInt64 → String) (v : Value) (index : UInt64) : Clause := ⟨text index, [v], index + 1⟩

/-- The clause of a comparison of a field with a constant. -/
def compareConst (f : Field) (name : String) (op : Comparison) (l : Literal) (index : UInt64) : Except Rejection Clause :=
  match f.kind with
  | .timestamp =>
    match l.instant? with
    | .ok (some n) => .ok (single (w.compareInstant f.column op) (.int n) index)
    | .ok none => .error (.typeMismatch (.field name) f.type l.type)
    | .error reason => .error (.invalidTimestamp name reason)
  | .text => do
    let l ← f.check name l
    match op with
    | .equal => return single (w.like f.column) (.string l.likePattern) index
    | .notEqual => return single (fun i => "NOT (" ++ w.like f.column i ++ ")") (.string l.likePattern) index
    | op => return single (w.compare f.column op) l.toValue index
  | .jsonBool p => do
    let l ← f.check name l
    match l with
    | .bool b => return single (w.compareFlag p op) (w.flagValue b) index
    | l => return single (w.compareFlag p op) l.toValue index
  | .jsonList _ => do
    let _ ← f.check name l
    .error (.disallowedOperator name (.compare op))
  | .scalar | .boolColumn => do
    let l ← f.check name l
    return single (w.compare f.column op) l.toValue index

/-- The clause of a comparison of the size of a collection. -/
def sizeComparison (collection : Expr) (op : Comparison) (right : Expr) (index : UInt64) : Except Rejection Clause :=
  match collection with
  | .ident name => do
    let f ← c.field name
    match f.kind, f.allows .size with
    | .jsonList p, true => do
      let l ← right.constant (.compare op)
      match l with
      | .int n => return single (w.compareSize p op) (.int n) index
      | l => .error (.typeMismatch (.sizeOf name) .int l.type)
    | _, _ => .error (.invalidCollection .size name)
  | _ => .error (.invalidOperand (some .size) .identifier)

/-- The clause of a comparison. -/
def comparison (left : Expr) (op : Comparison) (right : Expr) (index : UInt64) : Except Rejection Clause :=
  match left with
  | .ident name => do
    let f ← c.field name
    if f.allows (.compare op) then do
      let l ← right.constant (.compare op)
      w.compareConst f name op l index
    else .error (.disallowedOperator name (.compare op))
  | .call symbol receiver args =>
    match Symbol.ofText? symbol with
    | none => .error (.unsupportedFunction symbol)
    | some .size =>
      match operands receiver args with
      | [collection] => w.sizeComparison c collection op right index
      | _ => .error (wrongArity .size receiver args)
    | some _ => .error (.invalidOperand (some (.compare op)) .identifierOrSize)
  | _ => .error (.invalidOperand (some (.compare op)) .identifierOrSize)

/-- The clause of a search for some tags: one form for each of them, in parentheses if there is more than one. -/
def anyTag (p : JsonPath) (tags : List Value) (index : UInt64) : Clause :=
  let text := " OR ".intercalate ((indices index tags.length).map (w.holds p))
  ⟨if tags.length > 1 then "(" ++ text ++ ")" else text, tags, index + .ofNat tags.length⟩

/-- The clause of a membership test. -/
def membership (element collection : Expr) (index : UInt64) : Except Rejection Clause :=
  match element, collection with
  | .ident name, .list items => do
    let f ← c.field name
    if f.allows .isIn then
      if items.isEmpty then .error (.invalidOperand (some .isIn) .nonEmptyList)
      else do
        let vs ← f.elements name items
        match f.kind with
        | .jsonList p => return w.anyTag p vs index
        | _ => return ⟨w.oneOf f.column index vs.length, vs, index + .ofNat vs.length⟩
    else .error (.invalidCollection .isIn name)
  | .const l, .ident name => do
    let f ← c.field name
    match f.kind, f.allows .elementIn with
    | .jsonList p, true => do
      let l ← f.check name l
      return single (w.holds p) l.toValue index
    | _, _ => .error (.invalidCollection .isIn name)
  | _, _ => .error (.invalidOperand (some .isIn) .membership)

/-- The clause of a search in a text. -/
def containment (target needle : Expr) (index : UInt64) : Except Rejection Clause :=
  match target with
  | .ident name => do
    let f ← c.field name
    if f.allows .contains then do
      let l ← needle.constant .contains
      let l ← f.check name l
      return single (w.like f.column) (.string l.likePattern) index
    else .error (.disallowedOperator name .contains)
  | _ => .error (.invalidOperand (some .contains) .containsTarget)

/-- The clause of an identifier that is a predicate by itself. -/
def standalone (name : String) (index : UInt64) : Except Rejection Clause := do
  let f ← c.field name
  match f.kind, f.allows .standalone with
  | .boolColumn, true => return ⟨w.isTrue f.column, [], index⟩
  | .jsonBool p, true => return ⟨w.flag p, [], index⟩
  | _, _ => .error (.disallowedOperator name .standalone)

/-- The clause of a call; `parts` compile its operands. -/
def call (symbol : String) (receiver : Option Expr) (args : List Expr) (parts : List (UInt64 → Except Rejection Clause))
    (index : UInt64) : Except Rejection Clause :=
  match Symbol.ofText? symbol with
  | none => .error (.unsupportedFunction symbol)
  | some f =>
    match f, operands receiver args, parts with
    | .and, _, [l, r] => do
      let a ← l index
      let b ← r a.next
      return ⟨"(" ++ a.sql ++ " AND " ++ b.sql ++ ")", a.args ++ b.args, b.next⟩
    | .or, _, [l, r] => do
      let a ← l index
      let b ← r a.next
      return ⟨"(" ++ a.sql ++ " OR " ++ b.sql ++ ")", a.args ++ b.args, b.next⟩
    | .not, _, [x] => do
      let a ← x index
      return ⟨"NOT (" ++ a.sql ++ ")", a.args, a.next⟩
    | .compare op, [l, r], _ => w.comparison c l op r index
    | .isIn, [l, r], _ => w.membership c l r index
    | .contains, [l, r], _ => w.containment c l r index
    | .size, _, _ => .error (.invalidOperand (some .size) .sizeComparison)
    | f, _, _ => .error (wrongArity f receiver args)

mutual

/-- The clause of a filter whose first value has an index. -/
def compile : Expr → UInt64 → Except Rejection Clause
  | .ident name => w.standalone c name
  | .list _ | .const _ => fun _ => .error (.invalidOperand none .predicate)
  | .call symbol none args => w.call c symbol none args (compileAll args)
  | .call symbol (some receiver) args => w.call c symbol (some receiver) args (compile receiver :: compileAll args)

/-- The clauses of several filters. -/
def compileAll : List Expr → List (UInt64 → Except Rejection Clause)
  | [] => []
  | e :: es => compile e :: compileAll es

end

end Forms

/-! ## The clauses of plans -/

section

variable {d : Dialect} {index : UInt64} {f : Field}

/-- A predicate on a plain field is written in its form. -/
theorem Plan.clause_test (hf : f.Plain) {q : Predicate} (hq : q.ReadsFrom f) :
    (test q).clause d index = ⟨q.form d.forms index, q.values d, index + .ofNat (q.values d).length⟩ := by
  rw [clause, text, args, q.text_eq_form d index hf hq]

/-- A predicate without values leaves the index as it is. -/
theorem Plan.clause_test_of_values_eq_nil (hf : f.Plain) {q : Predicate} (hq : q.ReadsFrom f) (hv : q.values d = []) :
    (test q).clause d index = ⟨q.form d.forms index, [], index⟩ := by
  have hn : index + .ofNat ([] : List Value).length = index := UInt64.add_zero index
  rw [clause_test hf hq, hv, hn]

/-- A negated predicate on a plain field is written in its form behind the word. -/
theorem Plan.clause_negation (hf : f.Plain) {q : Predicate} (hq : q.ReadsFrom f) :
    (negation (test q)).clause d index =
      ⟨"NOT (" ++ q.form d.forms index ++ ")", q.values d, index + .ofNat (q.values d).length⟩ := by
  rw [clause, text, text, args, args, q.text_eq_form d index hf hq]

/-- Tags are searched for one by one. -/
theorem Plan.clause_anyTag (hf : f.Plain) {p : JsonPath} (hp : f.kind.path? = some p) (tags : List Value) :
    (anyOf (tags.map (.hasTag p))).clause d index = d.forms.anyTag p tags index := by
  have one : ∀ q ∈ tags.map (Predicate.hasTag p), (q.values d).length = 1 := by
    intro q hq
    obtain ⟨v, -, rfl⟩ := List.mem_map.mp hq
    rfl
  have form (v : Value) (i : UInt64) : (Predicate.hasTag p v).text d i = d.forms.holds p i :=
    (Predicate.hasTag p v).text_eq_form d i hf hp
  have texts : (tags.map (Predicate.hasTag p)).mapIdx (fun i q => q.text d (index + .ofNat i)) =
      (indices index tags.length).map (d.forms.holds p) := by
    refine List.ext_getElem (by simp) fun i hl hr => ?_
    rw [List.getElem_mapIdx, List.getElem_map, List.getElem_map, getElem_indices, form]
  have hargs : (anyOf (tags.map (.hasTag p))).args d = tags := by
    rw [args, List.flatMap_map]
    exact List.flatMap_singleton' tags
  rw [clause, hargs, text, List.length_map, Predicate.textAny_eq d index one, texts, Forms.anyTag]

end

/-! ## Steps -/

section Steps

variable {c : Catalog} {d : Dialect} {index : UInt64}

/-- A step and what follows it give a mapped result when what follows does for every value that the step gives. -/
theorem bind_map {ε α β γ : Type} {φ : β → γ} {x : Except ε α} {k : α → Except ε β} {l : α → Except ε γ}
    (h : ∀ a, x = .ok a → l a = (k a).map φ) : (x >>= l) = (x >>= k).map φ := by
  cases x with
  | ok a => exact h a rfl
  | error why => rfl

/-- The field that is looked up in a plain catalog is plain. -/
theorem field_bind_map {α β : Type} {φ : α → β} {name : String} {k : Field → Except Rejection α}
    {l : Field → Except Rejection β} (hc : c.Plain) (h : ∀ f, f.Plain → l f = (k f).map φ) :
    (c.field name >>= l) = (c.field name >>= k).map φ :=
  bind_map fun f hf => h f (hc name f (Catalog.field_eq_ok_iff.mp hf))

namespace Forms

/-- A predicate with one value writes its form and binds the value. -/
theorem single_eq {f : Field} (hf : f.Plain) {q : Predicate} (hq : q.ReadsFrom f) {v : Value}
    (hv : q.values d = [v]) :
    Except.ok (single (fun i => q.form d.forms i) v index) =
      (Except.ok (.test q) : Except Rejection Plan).map (Plan.clause d index) := by
  rw [Except.map, Plan.clause_test hf hq, hv]
  rfl

/-- A comparison with a constant is compiled to the clause of its plan. -/
theorem compareConst_eq {f : Field} (hf : f.Plain) (name : String) (op : Comparison) (l : Literal) :
    d.forms.compareConst f name op l index = (f.comparison name op l).map (Plan.clause d index) := by
  unfold compareConst Field.comparison
  cases hk : f.kind with
  | timestamp =>
    cases l.instant? with
    | error reason => rfl
    | ok n =>
      cases n with
      | none => rfl
      | some n => exact single_eq hf (q := .compareInstant f.column op n) rfl rfl
  | text =>
    refine bind_map fun l _ => ?_
    have like : Predicate.ReadsFrom f (.like f.column l.likePattern) := rfl
    have compare : Predicate.ReadsFrom f (.compare f.column op l.toValue) := rfl
    cases op with
    | equal => exact single_eq hf like rfl
    | notEqual => exact congrArg Except.ok (Plan.clause_negation hf like).symm
    | _ => exact single_eq hf compare rfl
  | jsonBool p =>
    refine bind_map fun l _ => ?_
    have hp : f.kind.path? = some p := congrArg FieldKind.path? hk
    have flag : Predicate.ReadsFrom f (.compareJson p op l) := hp
    cases l with
    | bool b => exact single_eq hf flag (by rw [d.forms_flagValue]; rfl)
    | _ => exact single_eq hf flag rfl
  | jsonList p => exact bind_map fun l _ => rfl
  | scalar =>
    exact bind_map fun l _ => single_eq hf (q := .compare f.column op l.toValue) rfl rfl
  | boolColumn =>
    exact bind_map fun l _ => single_eq hf (q := .compare f.column op l.toValue) rfl rfl

/-- A comparison of a size is compiled to the clause of its plan. -/
theorem sizeComparison_eq (hc : c.Plain) (collection : Expr) (op : Comparison) (right : Expr) :
    d.forms.sizeComparison c collection op right index =
      (c.compareSize collection op right).map (Plan.clause d index) := by
  cases collection with
  | ident name =>
    refine field_bind_map hc fun f hf => ?_
    cases hk : f.kind with
    | jsonList p =>
      have hp : f.kind.path? = some p := congrArg FieldKind.path? hk
      cases f.allows .size with
      | false => rfl
      | true =>
        refine bind_map fun l _ => ?_
        cases l with
        | int n => exact single_eq hf (q := .compareSize p op n) hp rfl
        | _ => rfl
    | _ => rfl
  | _ => rfl

/-- A comparison is compiled to the clause of its plan. -/
theorem comparison_eq (hc : c.Plain) (left : Expr) (op : Comparison) (right : Expr) :
    d.forms.comparison c left op right index = (c.comparison left op right).map (Plan.clause d index) := by
  cases left with
  | ident name =>
    refine field_bind_map hc fun f hf => ?_
    cases f.allows (.compare op) with
    | false => rfl
    | true => exact bind_map fun l _ => compareConst_eq hf name op l
  | call symbol receiver args =>
    simp only [comparison, Catalog.comparison]
    cases Symbol.ofText? symbol with
    | none => rfl
    | some s =>
      cases s with
      | size =>
        rcases operands receiver args with _ | ⟨x, _ | ⟨y, es⟩⟩
        · rfl
        · exact sizeComparison_eq hc x op right
        · rfl
      | _ => rfl
  | _ => rfl

/-- A search for a field in a list is compiled to the clause of its plan. -/
theorem memberOfList_eq (hc : c.Plain) (name : String) (items : List Expr) :
    d.forms.membership c (.ident name) (.list items) index =
      (c.memberOfList name items).map (Plan.clause d index) := by
  refine field_bind_map hc fun f hf => ?_
  cases f.allows .isIn with
  | false => rfl
  | true =>
    cases items.isEmpty with
    | true => rfl
    | false =>
      refine bind_map fun vs _ => ?_
      have oneOf : Predicate.ReadsFrom f (.oneOf f.column vs) := rfl
      have column : Except.ok ⟨d.forms.oneOf f.column index vs.length, vs, index + .ofNat vs.length⟩ =
          (Except.ok (.test (.oneOf f.column vs)) : Except Rejection Plan).map (Plan.clause d index) :=
        congrArg Except.ok (Plan.clause_test hf oneOf).symm
      cases hk : f.kind with
      | jsonList p =>
        have hp : f.kind.path? = some p := congrArg FieldKind.path? hk
        exact congrArg Except.ok (Plan.clause_anyTag hf hp vs).symm
      | _ => exact column

/-- A membership test is compiled to the clause of its plan. -/
theorem membership_eq (hc : c.Plain) (element collection : Expr) :
    d.forms.membership c element collection index = (c.membership element collection).map (Plan.clause d index) := by
  cases element with
  | ident name =>
    cases collection with
    | list items => exact memberOfList_eq hc name items
    | _ => rfl
  | const l =>
    cases collection with
    | ident name =>
      refine field_bind_map hc fun f hf => ?_
      cases hk : f.kind with
      | jsonList p =>
        have hp : f.kind.path? = some p := congrArg FieldKind.path? hk
        cases f.allows .elementIn with
        | false => rfl
        | true => exact bind_map fun l _ => single_eq hf (q := .hasElement p l.toValue) hp rfl
      | _ => rfl
    | _ => rfl
  | _ => rfl

/-- A search in a text is compiled to the clause of its plan. -/
theorem containment_eq (hc : c.Plain) (target needle : Expr) :
    d.forms.containment c target needle index = (c.containment target needle).map (Plan.clause d index) := by
  cases target with
  | ident name =>
    refine field_bind_map hc fun f hf => ?_
    cases f.allows .contains with
    | false => rfl
    | true =>
      refine bind_map fun l _ => bind_map fun l _ => ?_
      exact single_eq hf (q := .like f.column l.likePattern) rfl rfl
  | _ => rfl

/-- An identifier by itself is compiled to the clause of its plan. -/
theorem standalone_eq (hc : c.Plain) (name : String) :
    d.forms.standalone c name index = (c.standalone name).map (Plan.clause d index) := by
  refine field_bind_map hc fun f hf => ?_
  have column : Predicate.ReadsFrom f (.isTrue f.column) := rfl
  cases hk : f.kind with
  | boolColumn =>
    cases f.allows .standalone with
    | false => rfl
    | true => exact congrArg Except.ok (Plan.clause_test_of_values_eq_nil hf column rfl).symm
  | jsonBool p =>
    have flag : Predicate.ReadsFrom f (.jsonIsTrue p) := congrArg FieldKind.path? hk
    cases f.allows .standalone with
    | false => rfl
    | true => exact congrArg Except.ok (Plan.clause_test_of_values_eq_nil hf flag rfl).symm
  | _ => rfl

end Forms

end Steps

/-! ## Filters -/

namespace Forms

variable (w : Forms) (c : Catalog)

theorem compileAll_eq_map (es : List Expr) : w.compileAll c es = es.map (w.compile c) := by
  induction es with
  | nil => rfl
  | cons e es ih => rw [compileAll, ih, List.map_cons]

/-- The clause of a call comes from the clauses of its operands. -/
theorem compile_call (symbol : String) (receiver : Option Expr) (args : List Expr) :
    w.compile c (.call symbol receiver args) =
      w.call c symbol receiver args ((operands receiver args).map (w.compile c)) := by
  cases receiver with
  | none => rw [compile, compileAll_eq_map]; rfl
  | some e => rw [compile, compileAll_eq_map]; rfl

/-- The right part of a joined filter is compiled at the index that the left part leaves. -/
theorem compile_of_joined {e l r : Expr} {j : Junctor} (h : e.shape = .joined j l r) (index : UInt64) :
    w.compile c e index = do
      let a ← w.compile c l index
      let b ← w.compile c r a.next
      return ⟨"(" ++ a.sql ++ j.word ++ b.sql ++ ")", a.args ++ b.args, b.next⟩ := by
  obtain ⟨symbol, receiver, args, rfl, hs, ho⟩ := Expr.shape_eq_joined_iff.mp h
  rw [compile_call, ho]
  unfold call
  rw [hs, ho]
  cases j <;> rfl

/-- A negated filter is its part inside the words of a negation. -/
theorem compile_of_negated {e x : Expr} (h : e.shape = .negated x) (index : UInt64) :
    w.compile c e index = do
      let a ← w.compile c x index
      return ⟨"NOT (" ++ a.sql ++ ")", a.args, a.next⟩ := by
  obtain ⟨symbol, receiver, args, rfl, hs, ho⟩ := Expr.shape_eq_negated_iff.mp h
  rw [compile_call, ho]
  unfold call
  rw [hs, ho]
  rfl

/-- A single predicate has the clause of its plan. -/
theorem compile_of_single {c : Catalog} (hc : c.Plain) (d : Dialect) {index : UInt64} {e : Expr}
    (h : e.shape = .single) : d.forms.compile c e index = (c.singlePlan e).map (Plan.clause d index) := by
  cases e with
  | ident name => exact standalone_eq hc name
  | list items => rfl
  | const l => rfl
  | call symbol receiver args =>
    rw [compile_call]
    simp only [call, Catalog.singlePlan]
    simp only [Expr.shape] at h
    cases hs : Symbol.ofText? symbol with
    | none => rfl
    | some f =>
      rw [hs] at h
      -- Only the number of operands matters: none, one, two, or more.
      generalize operands receiver args = es at h
      rcases es with _ | ⟨x, _ | ⟨y, _ | ⟨z, es⟩⟩⟩
      · cases f <;> rfl
      · cases f with
        | not => cases h
        | _ => rfl
      · cases f with
        | and | or => cases h
        | compare op => exact comparison_eq hc x op y
        | isIn => exact membership_eq hc x y
        | contains => exact containment_eq hc x y
        | _ => rfl
      · cases f <;> rfl

end Forms

/-- On the catalogs of the entities, filling templates gives the same clause or the same refusal as writing the forms
of the dialect directly, with the indices handed on from the left to the right. -/
theorem compiles_directly (entity : Entity) (d : Dialect) (start : UInt64) (e : Expr) :
    Compiler.compile ⟨entity.catalog, d, start⟩ e = d.forms.compile entity.catalog e (max start 1) := by
  have direct (index : UInt64) : entity.catalog.clauseAt d index e = d.forms.compile entity.catalog e index := by
    induction e using Expr.shapeInduction generalizing index with
    | joined e j l r h ihl ihr =>
      rw [Catalog.clauseAt_of_joined _ d index h, Forms.compile_of_joined _ _ h, ← ihl index]
      refine bind_congr_of_ok fun a ha => ?_
      rw [ihr a.next]
    | negated e x h ih =>
      rw [Catalog.clauseAt_of_negated _ d index h, Forms.compile_of_negated _ _ h, ih index]
    | single e h =>
      rw [Catalog.clauseAt_of_single _ d index h, Forms.compile_of_single entity.plain_catalog d h]
  rw [Compiler.compile_eq_clauseAt, direct (max start 1)]

example :
    Postgres.forms.compile memoCatalog
        (.or (.isIn (.ident "tag") (.list [.string "a", .string "b"])) (.eq (.ident "creator_id") (.int 1))) 9 =
      .ok ⟨"((memo.payload->'tags' @> jsonb_build_array($9) OR memo.payload->'tags' @> jsonb_build_array($10)) OR " ++
        "memo.creator_id = $11)", [.string "a", .string "b", .int 1], 12⟩ := by
  decide +kernel

end WhereClause
