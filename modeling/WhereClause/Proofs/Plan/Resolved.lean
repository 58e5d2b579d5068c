import WhereClause.Proofs.Fragment.Written

/-!
# The single predicates of a catalog

`Catalog.Resolves` says, without the order in which the checks are made, which expressions are single predicates of a
catalog and what their plans are; `Catalog.singlePlan_eq_ok_iff` says that these are the plans which resolving gives.
Each step of resolving has a lemma that says when it gives a result and which.
-/

namespace WhereClause

/-- What a comparison of a field with a constant of its type is resolved to. A text is searched for an equal one. -/
def Field.checkedComparison (f : Field) (op : Comparison) (l : Literal) : Plan :=
  match f.kind, op with
  | .text, .equal => .test (.like f.column l.likePattern)
  | .text, .notEqual => .negation (.test (.like f.column l.likePattern))
  | .jsonBool path, op => .test (.compareJson path op l)
  | _, op => .test (.compare f.column op l.toValue)

/-- What a comparison of a field with a constant is resolved to. Beside a point in time stands an instant, whatever
the type of the field; a list is not compared. -/
inductive Field.Compares (f : Field) (op : Comparison) (l : Literal) : Plan → Prop
  | instant {n : Int64} : f.kind = .timestamp → l.instant? = .ok (some n) →
      Compares f op l (.test (.compareInstant f.column op n))
  | checked : f.kind ≠ .timestamp → (∀ path, f.kind ≠ .jsonList path) → f.type.accepts l = true →
      Compares f op l (f.checkedComparison op l)

/-- What an expression that is a single predicate is resolved to. -/
inductive Catalog.Resolves (c : Catalog) : Expr → Plan → Prop
  | column {name : String} {f : Field} : c.lookup? name = some f → f.allows .standalone = true → f.kind = .boolColumn →
      Resolves c (.ident name) (.test (.isTrue f.column))
  | flag {name : String} {f : Field} {path : JsonPath} : c.lookup? name = some f → f.allows .standalone = true →
      f.kind = .jsonBool path → Resolves c (.ident name) (.test (.jsonIsTrue path))
  | comparison {symbol : String} {receiver : Option Expr} {args : List Expr} {op : Comparison} {name : String}
      {f : Field} {l : Literal} {p : Plan} : Symbol.ofText? symbol = some (.compare op) →
      operands receiver args = [.ident name, .const l] → c.lookup? name = some f → f.allows (.compare op) = true →
      f.Compares op l p → Resolves c (.call symbol receiver args) p
  | size {symbol symbol' : String} {receiver receiver' : Option Expr} {args args' : List Expr} {op : Comparison}
      {name : String} {f : Field} {path : JsonPath} {n : Int64} : Symbol.ofText? symbol = some (.compare op) →
      operands receiver args = [.call symbol' receiver' args', .const (.int n)] → Symbol.ofText? symbol' = some .size →
      operands receiver' args' = [.ident name] → c.lookup? name = some f → f.allows .size = true →
      f.kind = .jsonList path → Resolves c (.call symbol receiver args) (.test (.compareSize path op n))
  | oneOf {symbol : String} {receiver : Option Expr} {args : List Expr} {name : String} {f : Field}
      {ls : List Literal} : Symbol.ofText? symbol = some .isIn → operands receiver args = [.ident name, .list (ls.map .const)] →
      c.lookup? name = some f → f.allows .isIn = true → ls ≠ [] → (∀ l ∈ ls, f.type.accepts l = true) →
      (∀ path, f.kind ≠ .jsonList path) →
      Resolves c (.call symbol receiver args) (.test (.oneOf f.column (ls.map Literal.toValue)))
  | anyTag {symbol : String} {receiver : Option Expr} {args : List Expr} {name : String} {f : Field} {ls : List Literal}
      {path : JsonPath} : Symbol.ofText? symbol = some .isIn →
      operands receiver args = [.ident name, .list (ls.map .const)] → c.lookup? name = some f → f.allows .isIn = true →
      ls ≠ [] → (∀ l ∈ ls, f.type.accepts l = true) → f.kind = .jsonList path →
      Resolves c (.call symbol receiver args) (.anyOf (ls.map fun l => .hasTag path l.toValue))
  | element {symbol : String} {receiver : Option Expr} {args : List Expr} {name : String} {f : Field} {l : Literal}
      {path : JsonPath} : Symbol.ofText? symbol = some .isIn → operands receiver args = [.const l, .ident name] →
      c.lookup? name = some f → f.allows .elementIn = true → f.type.accepts l = true → f.kind = .jsonList path →
      Resolves c (.call symbol receiver args) (.test (.hasElement path l.toValue))
  | contains {symbol : String} {receiver : Option Expr} {args : List Expr} {name : String} {f : Field} {l : Literal} :
      Symbol.ofText? symbol = some .contains → operands receiver args = [.ident name, .const l] →
      c.lookup? name = some f → f.allows .contains = true → f.type.accepts l = true →
      Resolves c (.call symbol receiver args) (.test (.like f.column l.likePattern))

/-- A predicate reads the column of a field, or the path that the field is stored under. -/
def Predicate.ReadsFrom (f : Field) : Predicate → Prop
  | .isTrue c | .like c _ | .compare c _ _ | .compareInstant c _ _ | .oneOf c _ => c = f.column
  | .jsonIsTrue p | .compareJson p _ _ | .compareSize p _ _ | .hasTag p _ | .hasElement p _ => f.kind.path? = some p

/-! ## Plans of single predicates -/

/-- A checked comparison is not refused. -/
theorem Field.refusal?_checkedComparison (f : Field) (op : Comparison) (l : Literal) :
    (f.checkedComparison op l).refusal? = none := by
  unfold Field.checkedComparison
  split <;> rfl

/-- A checked comparison reads from its field only. -/
theorem Field.all_readsFrom_checkedComparison (f : Field) (op : Comparison) (l : Literal) :
    (f.checkedComparison op l).All (Predicate.ReadsFrom f) := by
  unfold Field.checkedComparison
  split
  · exact rfl
  · exact rfl
  next hk => exact congrArg FieldKind.path? hk
  · exact rfl

/-- A comparison that a field allows is not refused. -/
theorem Field.Compares.refusal?_eq_none {f : Field} {op : Comparison} {l : Literal} {p : Plan} (h : f.Compares op l p) :
    p.refusal? = none := by
  cases h with
  | instant => rfl
  | checked => exact f.refusal?_checkedComparison op l

/-- A comparison that a field allows reads from this field only. -/
theorem Field.Compares.all_readsFrom {f : Field} {op : Comparison} {l : Literal} {p : Plan} (h : f.Compares op l p) :
    p.All (Predicate.ReadsFrom f) := by
  cases h with
  | instant => exact rfl
  | checked => exact f.all_readsFrom_checkedComparison op l

/-- A plan that a filter resolves to is not refused. -/
theorem Catalog.Resolves.refusal?_eq_none {c : Catalog} {e : Expr} {p : Plan} (h : c.Resolves e p) :
    p.refusal? = none := by
  cases h with
  | comparison _ _ _ _ hc => exact hc.refusal?_eq_none
  | _ => rfl

/-- Its predicates read from fields of the catalog only. -/
theorem Catalog.Resolves.all_readsFrom {c : Catalog} {e : Expr} {p : Plan} (h : c.Resolves e p) :
    p.All fun q => ∃ name f, c.lookup? name = some f ∧ q.ReadsFrom f := by
  cases h with
  | column hf _ _ => exact ⟨_, _, hf, rfl⟩
  | flag hf _ hk => exact ⟨_, _, hf, congrArg FieldKind.path? hk⟩
  | comparison _ _ hf _ hc => exact hc.all_readsFrom.imp fun q hq => ⟨_, _, hf, hq⟩
  | size _ _ _ _ hf _ hk => exact ⟨_, _, hf, congrArg FieldKind.path? hk⟩
  | oneOf _ _ hf => exact ⟨_, _, hf, rfl⟩
  | anyTag _ _ hf _ _ _ hk =>
    intro q hq
    obtain ⟨l, -, rfl⟩ := List.mem_map.mp hq
    exact ⟨_, _, hf, congrArg FieldKind.path? hk⟩
  | element _ _ hf _ _ hk => exact ⟨_, _, hf, congrArg FieldKind.path? hk⟩
  | contains _ _ hf => exact ⟨_, _, hf, rfl⟩

/-! ## Checks -/

/-- A sequence of two checks succeeds when both do. -/
theorem bind_eq_ok_iff {ε α β : Type} {x : Except ε α} {k : α → Except ε β} {b : β} :
    (x >>= k) = .ok b ↔ ∃ a, x = .ok a ∧ k a = .ok b := by
  cases x <;> simp [bind, Except.bind]

/-- A guard that gives a result was passed. -/
theorem ite_error_eq_ok_iff {ε α : Type} {b : Bool} {x : Except ε α} {e : ε} {a : α} :
    (if b = true then x else .error e) = .ok a ↔ b = true ∧ x = .ok a := by
  cases b <;> simp

/-- A name is a field if the catalog has one for it. -/
theorem Catalog.field_eq_ok_iff {c : Catalog} {name : String} {f : Field} :
    c.field name = .ok f ↔ c.lookup? name = some f := by
  unfold Catalog.field
  cases c.lookup? name <;> simp

/-- An operand is taken as a constant if it is one. -/
theorem Expr.constant_eq_ok_iff {site : Symbol} {e : Expr} {l : Literal} : e.constant site = .ok l ↔ e = .const l := by
  cases e <;> simp [Expr.constant]

/-- A constant that the field accepts is passed on as it is. -/
theorem Field.check_eq_ok_iff {f : Field} {name : String} {l m : Literal} :
    f.check name l = .ok m ↔ f.type.accepts l = true ∧ l = m := by
  rw [Field.check, ite_error_eq_ok_iff, Except.ok.injEq]

/-- The elements of a list are values of the field when they all are constants of its type. -/
theorem Field.elements_eq_ok_iff {f : Field} {name : String} {es : List Expr} {vs : List Value} :
    f.elements name es = .ok vs ↔
      ∃ ls : List Literal, es = ls.map .const ∧ (∀ l ∈ ls, f.type.accepts l = true) ∧ vs = ls.map Literal.toValue := by
  induction es generalizing vs with
  | nil =>
    simp only [Field.elements, Except.ok.injEq]
    constructor
    · rintro rfl
      exact ⟨[], rfl, by simp, rfl⟩
    · rintro ⟨ls, hls, -, rfl⟩
      rw [List.map_eq_nil_iff.mp hls.symm]
      rfl
  | cons e es ih =>
    simp only [Field.elements, bind_eq_ok_iff, Expr.constant_eq_ok_iff, Field.check_eq_ok_iff, ih, Except.ok.injEq]
    constructor
    · rintro ⟨l, rfl, _, ⟨hl, rfl⟩, _, ⟨ls, rfl, hls, rfl⟩, rfl⟩
      exact ⟨l :: ls, rfl, List.forall_mem_cons.mpr ⟨hl, hls⟩, rfl⟩
    · rintro ⟨_ | ⟨l, ls⟩, he, hls, rfl⟩
      · cases he
      · obtain ⟨rfl, rfl⟩ := List.cons.inj he
        obtain ⟨hl, hls⟩ := List.forall_mem_cons.mp hls
        exact ⟨l, rfl, l, ⟨hl, rfl⟩, _, ⟨ls, rfl, hls, rfl⟩, rfl⟩

/-! ## Predicates -/

/-- A constant that is accepted is compared, with a field that is neither a timestamp nor a list. -/
theorem Field.comparison_of_accepts {f : Field} {name : String} {op : Comparison} {l : Literal}
    (hk : f.kind ≠ .timestamp) (hl : ∀ path, f.kind ≠ .jsonList path) (ha : f.type.accepts l = true) :
    f.comparison name op l = .ok (f.checkedComparison op l) := by
  have hc : f.check name l = .ok l := Field.check_eq_ok_iff.mpr ⟨ha, rfl⟩
  unfold Field.comparison Field.checkedComparison
  cases h : f.kind with
  | timestamp => exact absurd h hk
  | jsonList path => exact absurd h (hl path)
  | text => cases op <;> simp only [hc, bind, Except.bind]
  | _ => simp only [hc, bind, Except.bind]

/-- When a comparison of a field with a constant has a plan. -/
theorem Field.comparison_eq_ok_iff {f : Field} {name : String} {op : Comparison} {l : Literal} {p : Plan} :
    f.comparison name op l = .ok p ↔ f.Compares op l p := by
  constructor
  · intro h
    by_cases hk : f.kind = .timestamp
    · simp only [Field.comparison, hk] at h
      split at h
      next n hn => exact Except.ok.inj h ▸ .instant hk hn
      · cases h
      · cases h
    · have hx := h
      unfold Field.comparison at hx
      split at hx
      next hk' => exact absurd hk' hk
      next =>
        obtain ⟨m, hm, hx⟩ := bind_eq_ok_iff.mp hx
        obtain ⟨ha, rfl⟩ := Field.check_eq_ok_iff.mp hm
        have hl : ∀ path, f.kind ≠ .jsonList path := by
          intro path hf
          simp [hf] at hx
        exact Except.ok.inj ((Field.comparison_of_accepts hk hl ha).symm.trans h) ▸ .checked hk hl ha
  · intro h
    cases h with
    | instant hk hn => simp [Field.comparison, hk, hn]
    | checked hk hl ha => exact Field.comparison_of_accepts hk hl ha

namespace Catalog

variable {c : Catalog} {p : Plan}

/-- When a comparison of a field has a plan. -/
theorem compareField_eq_ok_iff {name : String} {op : Comparison} {right : Expr} :
    c.compareField name op right = .ok p ↔
      ∃ f, c.lookup? name = some f ∧ f.allows (.compare op) = true ∧ ∃ l, right = .const l ∧ f.Compares op l p := by
  simp only [compareField, bind_eq_ok_iff, field_eq_ok_iff, ite_error_eq_ok_iff, Expr.constant_eq_ok_iff,
    Field.comparison_eq_ok_iff]

/-- When a comparison of a size has a plan. -/
theorem compareSize_eq_ok_iff {collection right : Expr} {op : Comparison} :
    c.compareSize collection op right = .ok p ↔
      ∃ name f path n, collection = .ident name ∧ c.lookup? name = some f ∧ f.allows .size = true ∧
        f.kind = .jsonList path ∧ right = .const (.int n) ∧ p = .test (.compareSize path op n) := by
  constructor
  · intro h
    cases collection with
    | ident name =>
      obtain ⟨f, hf, h⟩ := bind_eq_ok_iff.mp h
      split at h
      next path hk ha =>
        obtain ⟨l, hl, h⟩ := bind_eq_ok_iff.mp h
        obtain rfl := Expr.constant_eq_ok_iff.mp hl
        cases l with
        | int n => exact ⟨name, f, path, n, rfl, field_eq_ok_iff.mp hf, ha, hk, rfl, (Except.ok.inj h).symm⟩
        | _ => cases h
      · cases h
    | _ => cases h
  · rintro ⟨name, f, path, n, rfl, hf, ha, hk, rfl, rfl⟩
    simp [compareSize, field, hf, hk, ha, Expr.constant, bind, Except.bind]

/-- When a search for a field in a list has a plan. -/
theorem memberOfList_eq_ok_iff {name : String} {items : List Expr} :
    c.memberOfList name items = .ok p ↔
      ∃ f ls, c.lookup? name = some f ∧ f.allows .isIn = true ∧ items = ls.map .const ∧ ls ≠ [] ∧
        (∀ l ∈ ls, f.type.accepts l = true) ∧
        p = match f.kind with
          | .jsonList path => .anyOf (ls.map fun l => .hasTag path l.toValue)
          | _ => .test (.oneOf f.column (ls.map Literal.toValue)) := by
  constructor
  · intro h
    obtain ⟨f, hf, h⟩ := bind_eq_ok_iff.mp h
    obtain ⟨ha, h⟩ := ite_error_eq_ok_iff.mp h
    split at h
    · cases h
    next hne =>
      obtain ⟨vs, hvs, h⟩ := bind_eq_ok_iff.mp h
      obtain ⟨ls, rfl, hls, rfl⟩ := Field.elements_eq_ok_iff.mp hvs
      refine ⟨f, ls, field_eq_ok_iff.mp hf, ha, rfl, ?_, hls, ?_⟩
      · rintro rfl
        exact hne rfl
      · cases hk : f.kind <;> rw [hk] at h <;> simp only [Except.ok.injEq, List.map_map] at h <;> exact h.symm
  · rintro ⟨f, ls, hf, ha, rfl, hne, hls, rfl⟩
    refine bind_eq_ok_iff.mpr ⟨f, field_eq_ok_iff.mpr hf, ite_error_eq_ok_iff.mpr ⟨ha, ?_⟩⟩
    have hi : (ls.map Expr.const).isEmpty = false := by simpa using hne
    have hv : f.elements name (ls.map .const) = .ok (ls.map Literal.toValue) :=
      Field.elements_eq_ok_iff.mpr ⟨ls, rfl, hls, rfl⟩
    simp only [hi, Bool.false_eq_true, if_false, hv, bind, Except.bind]
    cases f.kind <;> simp

/-- When a search for a constant in an array has a plan. -/
theorem elementOfField_eq_ok_iff {l : Literal} {name : String} :
    c.elementOfField l name = .ok p ↔
      ∃ f path, c.lookup? name = some f ∧ f.allows .elementIn = true ∧ f.kind = .jsonList path ∧
        f.type.accepts l = true ∧ p = .test (.hasElement path l.toValue) := by
  constructor
  · intro h
    obtain ⟨f, hf, h⟩ := bind_eq_ok_iff.mp h
    split at h
    next path hk ha =>
      obtain ⟨m, hm, h⟩ := bind_eq_ok_iff.mp h
      obtain ⟨hl, rfl⟩ := Field.check_eq_ok_iff.mp hm
      exact ⟨f, path, field_eq_ok_iff.mp hf, ha, hk, hl, (Except.ok.inj h).symm⟩
    · cases h
  · rintro ⟨f, path, hf, ha, hk, hl, rfl⟩
    simp [elementOfField, field, hf, hk, ha, Field.check, hl, bind, Except.bind]

/-- When a search in a text has a plan. -/
theorem containment_eq_ok_iff {target needle : Expr} :
    c.containment target needle = .ok p ↔
      ∃ name f l, target = .ident name ∧ needle = .const l ∧ c.lookup? name = some f ∧ f.allows .contains = true ∧
        f.type.accepts l = true ∧ p = .test (.like f.column l.likePattern) := by
  constructor
  · intro h
    cases target with
    | ident name =>
      obtain ⟨f, hf, h⟩ := bind_eq_ok_iff.mp h
      obtain ⟨ha, h⟩ := ite_error_eq_ok_iff.mp h
      obtain ⟨l, hl, h⟩ := bind_eq_ok_iff.mp h
      obtain ⟨m, hm, h⟩ := bind_eq_ok_iff.mp h
      obtain ⟨hl', rfl⟩ := Field.check_eq_ok_iff.mp hm
      exact ⟨name, f, l, rfl, Expr.constant_eq_ok_iff.mp hl, field_eq_ok_iff.mp hf, ha, hl', (Except.ok.inj h).symm⟩
    | _ => cases h
  · rintro ⟨name, f, l, rfl, rfl, hf, ha, hl, rfl⟩
    simp [containment, field, hf, ha, Expr.constant, Field.check, hl, bind, Except.bind]

/-- When an identifier by itself has a plan. -/
theorem standalone_eq_ok_iff {name : String} :
    c.standalone name = .ok p ↔
      ∃ f, c.lookup? name = some f ∧ f.allows .standalone = true ∧
        (f.kind = .boolColumn ∧ p = .test (.isTrue f.column) ∨
          ∃ path, f.kind = .jsonBool path ∧ p = .test (.jsonIsTrue path)) := by
  constructor
  · intro h
    obtain ⟨f, hf, h⟩ := bind_eq_ok_iff.mp h
    have hf := field_eq_ok_iff.mp hf
    split at h
    next hk ha => exact ⟨f, hf, ha, .inl ⟨hk, (Except.ok.inj h).symm⟩⟩
    next path hk ha => exact ⟨f, hf, ha, .inr ⟨path, hk, (Except.ok.inj h).symm⟩⟩
    · cases h
  · rintro ⟨f, hf, ha, ⟨hk, rfl⟩ | ⟨path, hk, rfl⟩⟩ <;> simp [standalone, field, hf, hk, ha, bind, Except.bind]

/-! ## Calls -/

/-- A comparison has an identifier or the size of one on its left. -/
theorem comparison_eq_ok_iff {left right : Expr} {op : Comparison} :
    c.comparison left op right = .ok p ↔
      (∃ name, left = .ident name ∧ c.compareField name op right = .ok p) ∨
        ∃ symbol receiver args collection, left = .call symbol receiver args ∧ Symbol.ofText? symbol = some .size ∧
          operands receiver args = [collection] ∧ c.compareSize collection op right = .ok p := by
  constructor
  · intro h
    cases left with
    | ident name => exact .inl ⟨name, rfl, h⟩
    | call symbol receiver args =>
      simp only [comparison] at h
      split at h
      · cases h
      next hs =>
        split at h
        next collection ho => exact .inr ⟨symbol, receiver, args, collection, rfl, hs, ho, h⟩
        · cases h
      · cases h
    | _ => cases h
  · rintro (⟨name, rfl, h⟩ | ⟨symbol, receiver, args, collection, rfl, hs, ho, h⟩)
    · exact h
    · simp only [comparison, hs, ho]
      exact h

/-- A membership test has an identifier and a list, or a constant and an identifier. -/
theorem membership_eq_ok_iff {element collection : Expr} :
    c.membership element collection = .ok p ↔
      (∃ name items, element = .ident name ∧ collection = .list items ∧ c.memberOfList name items = .ok p) ∨
        ∃ l name, element = .const l ∧ collection = .ident name ∧ c.elementOfField l name = .ok p := by
  constructor
  · intro h
    unfold membership at h
    split at h
    next name items => exact .inl ⟨name, items, rfl, rfl, h⟩
    next l name => exact .inr ⟨l, name, rfl, rfl, h⟩
    · cases h
  · rintro (⟨name, items, rfl, rfl, h⟩ | ⟨l, name, rfl, rfl, h⟩) <;> exact h

/-- A call that is a single predicate is a comparison, a membership test or a search in a text. -/
theorem singlePlan_call_eq_ok_iff {symbol : String} {receiver : Option Expr} {args : List Expr} :
    c.singlePlan (.call symbol receiver args) = .ok p ↔ ∃ l r, operands receiver args = [l, r] ∧
      ((∃ op, Symbol.ofText? symbol = some (.compare op) ∧ c.comparison l op r = .ok p) ∨
        (Symbol.ofText? symbol = some .isIn ∧ c.membership l r = .ok p) ∨
          Symbol.ofText? symbol = some .contains ∧ c.containment l r = .ok p) := by
  constructor
  · intro h
    simp only [singlePlan] at h
    split at h
    · cases h
    next s hs =>
      split at h
      next op l r ho => exact ⟨l, r, ho, .inl ⟨op, hs, h⟩⟩
      next l r ho => exact ⟨l, r, ho, .inr (.inl ⟨hs, h⟩)⟩
      next l r ho => exact ⟨l, r, ho, .inr (.inr ⟨hs, h⟩)⟩
      · cases h
      · cases h
  · rintro ⟨l, r, ho, ⟨op, hs, h⟩ | ⟨hs, h⟩ | ⟨hs, h⟩⟩ <;> simp only [singlePlan, hs, ho] <;> exact h

/-- The plans of single predicates are those that resolving gives. -/
theorem singlePlan_eq_ok_iff {e : Expr} : c.singlePlan e = .ok p ↔ c.Resolves e p := by
  constructor
  · intro h
    cases e with
    | ident name =>
      obtain ⟨f, hf, ha, ⟨hk, rfl⟩ | ⟨path, hk, rfl⟩⟩ := standalone_eq_ok_iff.mp h
      · exact .column hf ha hk
      · exact .flag hf ha hk
    | list items => cases h
    | const l => cases h
    | call symbol receiver args =>
      obtain ⟨l, r, ho, ⟨op, hs, h⟩ | ⟨hs, h⟩ | ⟨hs, h⟩⟩ := singlePlan_call_eq_ok_iff.mp h
      · obtain ⟨name, rfl, h⟩ | ⟨_, _, _, collection, rfl, hs', ho', h⟩ := comparison_eq_ok_iff.mp h
        · obtain ⟨f, hf, ha, l, rfl, hc⟩ := compareField_eq_ok_iff.mp h
          exact .comparison hs ho hf ha hc
        · obtain ⟨name, f, path, n, rfl, hf, ha, hk, rfl, rfl⟩ := compareSize_eq_ok_iff.mp h
          exact .size hs ho hs' ho' hf ha hk
      · obtain ⟨name, items, rfl, rfl, h⟩ | ⟨l, name, rfl, rfl, h⟩ := membership_eq_ok_iff.mp h
        · obtain ⟨f, ls, hf, ha, rfl, hne, hls, rfl⟩ := memberOfList_eq_ok_iff.mp h
          split
          next path hk => exact .anyTag hs ho hf ha hne hls hk
          next hk => exact .oneOf hs ho hf ha hne hls hk
        · obtain ⟨f, path, hf, ha, hk, hl, rfl⟩ := elementOfField_eq_ok_iff.mp h
          exact .element hs ho hf ha hl hk
      · obtain ⟨name, f, l, rfl, rfl, hf, ha, hl, rfl⟩ := containment_eq_ok_iff.mp h
        exact .contains hs ho hf ha hl
  · intro h
    cases h with
    | column hf ha hk => exact standalone_eq_ok_iff.mpr ⟨_, hf, ha, .inl ⟨hk, rfl⟩⟩
    | flag hf ha hk => exact standalone_eq_ok_iff.mpr ⟨_, hf, ha, .inr ⟨_, hk, rfl⟩⟩
    | comparison hs ho hf ha hc =>
      refine singlePlan_call_eq_ok_iff.mpr ⟨_, _, ho, .inl ⟨_, hs, comparison_eq_ok_iff.mpr (.inl ⟨_, rfl, ?_⟩)⟩⟩
      exact compareField_eq_ok_iff.mpr ⟨_, hf, ha, _, rfl, hc⟩
    | size hs ho hs' ho' hf ha hk =>
      refine singlePlan_call_eq_ok_iff.mpr
        ⟨_, _, ho, .inl ⟨_, hs, comparison_eq_ok_iff.mpr (.inr ⟨_, _, _, _, rfl, hs', ho', ?_⟩)⟩⟩
      exact compareSize_eq_ok_iff.mpr ⟨_, _, _, _, rfl, hf, ha, hk, rfl, rfl⟩
    | @oneOf _ _ _ _ f _ hs ho hf ha hne hls hk =>
      refine singlePlan_call_eq_ok_iff.mpr
        ⟨_, _, ho, .inr (.inl ⟨hs, membership_eq_ok_iff.mpr (.inl ⟨_, _, rfl, rfl, ?_⟩)⟩)⟩
      refine memberOfList_eq_ok_iff.mpr ⟨_, _, hf, ha, rfl, hne, hls, ?_⟩
      cases h : f.kind with
      | jsonList path => exact absurd h (hk path)
      | _ => rfl
    | anyTag hs ho hf ha hne hls hk =>
      refine singlePlan_call_eq_ok_iff.mpr
        ⟨_, _, ho, .inr (.inl ⟨hs, membership_eq_ok_iff.mpr (.inl ⟨_, _, rfl, rfl, ?_⟩)⟩)⟩
      exact memberOfList_eq_ok_iff.mpr ⟨_, _, hf, ha, rfl, hne, hls, by rw [hk]⟩
    | element hs ho hf ha hl hk =>
      refine singlePlan_call_eq_ok_iff.mpr
        ⟨_, _, ho, .inr (.inl ⟨hs, membership_eq_ok_iff.mpr (.inr ⟨_, _, rfl, rfl, ?_⟩)⟩)⟩
      exact elementOfField_eq_ok_iff.mpr ⟨_, _, hf, ha, hk, hl, rfl⟩
    | contains hs ho hf ha hl =>
      refine singlePlan_call_eq_ok_iff.mpr ⟨_, _, ho, .inr (.inr ⟨hs, ?_⟩)⟩
      exact containment_eq_ok_iff.mpr ⟨_, _, _, rfl, rfl, hf, ha, hl, rfl⟩

/-- A filter that resolves to one plan is neither joined nor negated. -/
theorem Resolves.shape_eq {e : Expr} (h : c.Resolves e p) : e.shape = .single := by
  cases h with
  | column => rfl
  | flag => rfl
  | comparison hs ho => simp only [Expr.shape, hs, ho]
  | size hs ho => simp only [Expr.shape, hs, ho]
  | oneOf hs ho => simp only [Expr.shape, hs, ho]
  | anyTag hs ho => simp only [Expr.shape, hs, ho]
  | element hs ho => simp only [Expr.shape, hs, ho]
  | contains hs ho => simp only [Expr.shape, hs, ho]

/-- What an expression resolves to is its plan. -/
theorem Resolves.plan_eq {e : Expr} (h : c.Resolves e p) : c.plan e = p := by
  rw [c.plan_of_single h.shape_eq, singlePlan_eq_ok_iff.mpr h]
  rfl

/-- A single predicate is refused unless it resolves. -/
theorem refusal?_plan_of_single {e : Expr} (h : e.shape = .single) :
    (c.plan e).refusal? = none ↔ ∃ p, c.Resolves e p := by
  rw [c.plan_of_single h]
  cases hp : c.singlePlan e with
  | ok p => exact ⟨fun _ => ⟨p, singlePlan_eq_ok_iff.mp hp⟩, fun _ => (singlePlan_eq_ok_iff.mp hp).refusal?_eq_none⟩
  | error why =>
    constructor
    · intro h
      cases h
    · rintro ⟨p, h⟩
      rw [singlePlan_eq_ok_iff.mpr h] at hp
      cases hp

/-! ## What a plan reads -/

/-- Every predicate of a plan reads from a field that is looked up. -/
theorem all_readsFrom (c : Catalog) (e : Expr) :
    (c.plan e).All fun q => ∃ name f, c.lookup? name = some f ∧ q.ReadsFrom f := by
  induction e using Expr.shapeInduction with
  | joined e j l r h ihl ihr =>
    rw [c.plan_of_joined h]
    exact (Plan.all_plan j _ _).mpr ⟨ihl, ihr⟩
  | negated e x h ih =>
    rw [c.plan_of_negated h]
    exact ih
  | single e h =>
    rw [c.plan_of_single h]
    cases hp : c.singlePlan e with
    | ok p => exact (singlePlan_eq_ok_iff.mp hp).all_readsFrom
    | error why => trivial

end Catalog

/-- The clause of a single predicate is that of its plan. -/
theorem Catalog.clauseAt_of_single (c : Catalog) (d : Dialect) (index : UInt64) {e : Expr} (h : e.shape = .single) :
    c.clauseAt d index e = (c.singlePlan e).map (Plan.clause d index) := by
  rw [clauseAt, c.plan_of_single h]
  cases hp : c.singlePlan e with
  | ok p =>
    have hn : p.refusal? = none := (singlePlan_eq_ok_iff.mp hp).refusal?_eq_none
    simp only [Plan.ofExcept, hn, Except.map]
  | error why => rfl

end WhereClause
