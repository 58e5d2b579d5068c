import WhereClause.Catalog.Entity
import WhereClause.Expr.Build
import WhereClause.Proofs.Catalog.Fields
import WhereClause.Proofs.Residue

/-!
# What a rejection blames

A filter is refused for a fault that it has. The fault lies in one of its single predicates, and all that the rejection
shows is read off that predicate and the catalog (`rejections_are_deserved`): names that are used but not known, calls
with too few or too many arguments, constants of a type that does not fit, operations that a field does not take.
`Catalog.Deserves` says what each rejection must be able to point at. Each step of resolving a predicate has a lemma
that finds the fault when the step fails; the run over a whole filter only passes the first of these on.
-/

namespace WhereClause

/-- An expression is the other itself, or part of an operand of the call or of an element of the list that it is. -/
inductive Expr.PartOf (x : Expr) : Expr → Prop
  | self : PartOf x x
  | operand {symbol : String} {receiver : Option Expr} {args : List Expr} {y : Expr} :
      y ∈ operands receiver args → PartOf x y → PartOf x (.call symbol receiver args)
  | element {items : List Expr} {y : Expr} : y ∈ items → PartOf x y → PartOf x (.list items)

/-- An expression is a call of a symbol, in either spelling, with the given operands. -/
def Expr.Calls (x : Expr) (f : Symbol) (xs : List Expr) : Prop :=
  ∃ symbol receiver args, x = .call symbol receiver args ∧ Symbol.ofText? symbol = some f ∧ operands receiver args = xs

/-- A single predicate asks an operation of an identifier, with some expressions beside it. -/
inductive Expr.Asks (x : Expr) (name : String) : Operation → List Expr → Prop
  | standalone : x = .ident name → Asks x name .standalone []
  | compare {op : Comparison} {right : Expr} : x.Calls (.compare op) [.ident name, right] →
      Asks x name (.compare op) [right]
  | size {op : Comparison} {left right : Expr} : x.Calls (.compare op) [left, right] →
      left.Calls .size [.ident name] → Asks x name .size [right]
  | isIn {items : List Expr} : x.Calls .isIn [.ident name, .list items] → Asks x name .isIn items
  | elementIn {l : Literal} : x.Calls .isIn [.const l, .ident name] → Asks x name .elementIn [.const l]
  | contains {needle : Expr} : x.Calls .contains [.ident name, needle] → Asks x name .contains [needle]

/-- A field takes an operation: it is allowed to, and it is stored in a way that the operation can be put to. -/
def Field.Takes (f : Field) (o : Operation) : Prop :=
  f.allows o = true ∧ match o with
    | .standalone => f.kind = .boolColumn ∨ ∃ path, f.kind = .jsonBool path
    | .compare _ => ∀ path, f.kind ≠ .jsonList path
    | .size | .elementIn => ∃ path, f.kind = .jsonList path
    | .isIn | .contains => True

/-- The symbol of an operation that looks into a collection. -/
def Operation.collection? : Operation → Option Symbol
  | .isIn | .elementIn => some .isIn
  | .size => some .size
  | .compare _ | .contains | .standalone => none

/-- An operand of a single predicate, or the predicate as a whole, does not have the form that is expected of it. -/
inductive Expr.Misshapen (x : Expr) : Option Symbol → Expectation → Prop
  | predicate : (∃ items, x = .list items) ∨ (∃ l, x = .const l) → Misshapen x none .predicate
  | sizeComparison {xs : List Expr} : x.Calls .size xs → Misshapen x (some .size) .sizeComparison
  | identifierOrSize {op : Comparison} {left right : Expr} : x.Calls (.compare op) [left, right] → left.ident? = none →
      (∀ xs, ¬ left.Calls .size xs) → Misshapen x (some (.compare op)) .identifierOrSize
  | identifier {op : Comparison} {left right collection : Expr} : x.Calls (.compare op) [left, right] →
      left.Calls .size [collection] → collection.ident? = none → Misshapen x (some .size) .identifier
  | constant {f : Symbol} {xs ys : List Expr} {name : String} {o : Operation} {y : Expr} : x.Calls f xs →
      x.Asks name o ys → y ∈ ys → y.const? = none → Misshapen x (some f) .constant
  | nonEmptyList {name : String} : x.Asks name .isIn [] → Misshapen x (some .isIn) .nonEmptyList
  | membership {element collection : Expr} : x.Calls .isIn [element, collection] → (∀ name o ys, ¬ x.Asks name o ys) →
      Misshapen x (some .isIn) .membership
  | containsTarget {target needle : Expr} : x.Calls .contains [target, needle] → target.ident? = none →
      Misshapen x (some .contains) .containsTarget

/-- What a rejection of a single predicate must be able to point at. Arguments are counted as they are written, without
the receiver; types are told apart by the names under which they are shown. -/
def Catalog.Deserves (c : Catalog) (x : Expr) : Rejection → Prop
  | .unknownIdentifier name => (Expr.ident name).PartOf x ∧ c.lookup? name = none
  | .unsupportedFunction symbol =>
    (∃ receiver args, (Expr.call symbol receiver args).PartOf x) ∧ Symbol.ofText? symbol = none
  | .arityMismatch f expected actual => ∃ symbol receiver args, (Expr.call symbol receiver args).PartOf x ∧
    Symbol.ofText? symbol = some f ∧ args.length = actual ∧ expected + receiver.toList.length = f.arity ∧
    expected ≠ actual
  | .typeMismatch (.field name) expected actual => ∃ f o ys l, c.lookup? name = some f ∧ x.Asks name o ys ∧ o ≠ .size ∧
    .const l ∈ ys ∧ expected = f.type ∧ actual = l.type ∧ f.type.accepts l = false ∧ expected.name ≠ actual.name
  | .typeMismatch (.sizeOf name) expected actual => ∃ f ys l, c.lookup? name = some f ∧ f.Takes .size ∧
    x.Asks name .size ys ∧ .const l ∈ ys ∧ expected = .int ∧ actual = l.type ∧ FieldType.int.accepts l = false ∧
    expected.name ≠ actual.name
  | .disallowedOperator name o => ∃ f ys, c.lookup? name = some f ∧ x.Asks name o ys ∧ o.collection? = none ∧ ¬ f.Takes o
  | .invalidCollection symbol name => ∃ f o ys, c.lookup? name = some f ∧ x.Asks name o ys ∧
    o.collection? = some symbol ∧ ¬ f.Takes o
  | .invalidOperand symbol expected => x.Misshapen symbol expected
  | .invalidTimestamp name reason => ∃ f op s, c.lookup? name = some f ∧ f.kind = .timestamp ∧
    x.Asks name (.compare op) [.const (.string s)] ∧ parseTimestamp s = .error reason

/-- The points in time of a catalog are integers. -/
def Catalog.CountsInstants (c : Catalog) : Prop :=
  ∀ name f, c.lookup? name = some f → f.kind = .timestamp → f.type = .int

/-- A rejection of the type of a constant. -/
def Rejection.BlamesType (why : Rejection) : Prop := ∃ subject expected actual, why = .typeMismatch subject expected actual

/-! ## Parts and operands -/

/-- An operand of a call is a part of it. -/
theorem Expr.Calls.partOf {x y : Expr} {f : Symbol} {xs : List Expr} (h : x.Calls f xs) (hy : y ∈ xs) : y.PartOf x := by
  obtain ⟨symbol, receiver, args, rfl, -, rfl⟩ := h
  exact .operand hy .self

/-- A part of a part is a part. -/
theorem Expr.PartOf.trans {x y z : Expr} (h : x.PartOf y) (hz : y.PartOf z) : x.PartOf z := by
  induction hz with
  | self => exact h
  | operand hm _ ih => exact .operand hm ih
  | element hm _ ih => exact .element hm ih

/-- The identifier that is asked is part of the predicate. -/
theorem Expr.Asks.partOf {x : Expr} {name : String} {o : Operation} {ys : List Expr} (h : x.Asks name o ys) :
    (Expr.ident name).PartOf x := by
  cases h with
  | standalone hx =>
    subst hx
    exact .self
  | size hc hs => exact (hs.partOf List.mem_cons_self).trans (hc.partOf List.mem_cons_self)
  | compare hc => exact hc.partOf List.mem_cons_self
  | isIn hc => exact hc.partOf List.mem_cons_self
  | contains hc => exact hc.partOf List.mem_cons_self
  | elementIn hc => exact hc.partOf (List.mem_cons_of_mem _ List.mem_cons_self)

/-- The predicates of a filter are parts of it. -/
theorem Expr.partOf_of_mem_predicates {e x : Expr} (h : x ∈ e.predicates) : x.PartOf e := by
  induction e using Expr.shapeInduction with
  | joined e j l r he ihl ihr =>
    obtain ⟨symbol, receiver, args, rfl, -, ho⟩ := Expr.shape_eq_joined_iff.mp he
    rw [Expr.predicates_of_joined he, List.mem_append] at h
    rcases h with h | h
    · exact .operand (by simp [ho]) (ihl h)
    · exact .operand (by simp [ho]) (ihr h)
  | negated e y he ih =>
    obtain ⟨symbol, receiver, args, rfl, -, ho⟩ := Expr.shape_eq_negated_iff.mp he
    rw [Expr.predicates_of_negated he] at h
    exact .operand (by simp [ho]) (ih h)
  | single e he =>
    rw [Expr.predicates_of_single he, List.mem_singleton] at h
    subst h
    exact .self

/-! ## Checks that fail -/

/-- A sequence of two steps fails where the first does, or the second behind it. -/
theorem bind_eq_error_iff {ε α β : Type} {x : Except ε α} {k : α → Except ε β} {why : ε} :
    (x >>= k) = .error why ↔ x = .error why ∨ ∃ a, x = .ok a ∧ k a = .error why := by
  cases x <;> simp [bind, Except.bind]

/-- A type that a field does not admit has another name than the type of the field. -/
theorem FieldType.name_ne_of_admits_eq_false {t : FieldType} {k : LiteralType} (h : t.admits k = false) :
    t.name ≠ k.name := by
  revert h
  cases t <;> cases k <;> decide

/-- An operand is refused as a constant exactly if it is none. -/
theorem Expr.constant_eq_error_iff {site : Symbol} {e : Expr} {why : Rejection} :
    e.constant site = .error why ↔ e.const? = none ∧ why = .invalidOperand (some site) .constant := by
  cases e <;> simp [Expr.constant, Expr.const?, eq_comm]

/-- A constant is refused for its type exactly if the field does not accept it. -/
theorem Field.check_eq_error_iff {f : Field} {name : String} {l : Literal} {why : Rejection} :
    f.check name l = .error why ↔ f.type.accepts l = false ∧ why = .typeMismatch (.field name) f.type l.type := by
  unfold Field.check
  cases f.type.accepts l <;> simp [eq_comm]

/-- The elements of a list fail at one that is no constant, or whose type the field does not accept. -/
theorem Field.elements_eq_error {f : Field} {name : String} {items : List Expr} {why : Rejection}
    (h : f.elements name items = .error why) :
    (∃ y ∈ items, y.const? = none ∧ why = .invalidOperand (some .isIn) .constant) ∨
      ∃ l, .const l ∈ items ∧ f.type.accepts l = false ∧ why = .typeMismatch (.field name) f.type l.type := by
  induction items with
  | nil => cases h
  | cons y items ih =>
    rcases bind_eq_error_iff.mp h with hy | ⟨l, hl, hr⟩
    · obtain ⟨hn, rfl⟩ := Expr.constant_eq_error_iff.mp hy
      exact .inl ⟨y, List.mem_cons_self, hn, rfl⟩
    obtain rfl := Expr.constant_eq_ok_iff.mp hl
    rcases bind_eq_error_iff.mp hr with hc | ⟨m, -, hr⟩
    · obtain ⟨ha, rfl⟩ := Field.check_eq_error_iff.mp hc
      exact .inr ⟨l, List.mem_cons_self, ha, rfl⟩
    rcases bind_eq_error_iff.mp hr with hi | ⟨vs, -, hr⟩
    · rcases ih hi with ⟨z, hz, hn, rfl⟩ | ⟨k, hk, ha, rfl⟩
      · exact .inl ⟨z, List.mem_cons_of_mem _ hz, hn, rfl⟩
      · exact .inr ⟨k, List.mem_cons_of_mem _ hk, ha, rfl⟩
    · cases hr

/-- Beside a point in time stands no truth value, and no text that names no instant. -/
theorem Literal.instant?_cases (l : Literal) :
    (∃ n, l.instant? = .ok (some n)) ∨ (l.type = .bool ∧ l.instant? = .ok none) ∨
      ∃ s reason, l = .string s ∧ parseTimestamp s = .error reason ∧ l.instant? = .error reason := by
  cases l with
  | bool b => exact .inr (.inl ⟨rfl, rfl⟩)
  | int n => exact .inl ⟨n, rfl⟩
  | string s =>
    cases h : parseTimestamp s with
    | ok n => exact .inl ⟨n, by simp [Literal.instant?, h, Except.map]⟩
    | error reason => exact .inr (.inr ⟨s, reason, rfl, h, by simp [Literal.instant?, h, Except.map]⟩)

/-! ## Predicates that fail -/

namespace Catalog

variable {c : Catalog} {x : Expr} {name : String} {f : Field} {o : Operation} {ys : List Expr} {why : Rejection}

/-- An identifier that is asked something is known, or refused as unknown. -/
theorem deserves_of_field (hx : x.Asks name o ys) (h : c.field name = .error why) : c.Deserves x why := by
  unfold field at h
  split at h
  · cases h
  next hn =>
    obtain rfl := Except.error.inj h
    exact ⟨hx.partOf, hn⟩

/-- A constant whose type does not fit is refused for it. -/
theorem deserves_typeMismatch {l : Literal} (hf : c.lookup? name = some f) (hx : x.Asks name o ys) (ho : o ≠ .size)
    (hl : .const l ∈ ys) (ha : f.type.accepts l = false) : c.Deserves x (.typeMismatch (.field name) f.type l.type) :=
  ⟨f, o, ys, l, hf, hx, ho, hl, rfl, rfl, ha, FieldType.name_ne_of_admits_eq_false ha⟩

/-- A call with the wrong number of operands is refused for it, and the two numbers that are shown differ. -/
theorem deserves_wrongArity {symbol : String} {receiver : Option Expr} {args : List Expr} {s : Symbol}
    (hx : (Expr.call symbol receiver args).PartOf x) (hs : Symbol.ofText? symbol = some s)
    (hn : (operands receiver args).length ≠ s.arity) : c.Deserves x (wrongArity s receiver args) := by
  have ha : 1 ≤ s.arity := by cases s <;> simp [Symbol.arity]
  have hr : receiver.toList.length ≤ 1 := by cases receiver <;> simp
  rw [operands, List.length_append] at hn
  refine ⟨symbol, receiver, args, hx, hs, rfl, ?_, ?_⟩
  · omega
  · omega

/-- A comparison of a field with a constant deserves the reason that it is refused for. -/
theorem deserves_of_fieldComparison (hc : why.BlamesType → c.CountsInstants) {op : Comparison} {l : Literal}
    (hf : c.lookup? name = some f) (hx : x.Asks name (.compare op) [.const l])
    (h : f.comparison name op l = .error why) : c.Deserves x why := by
  by_cases hk : f.kind = .timestamp
  · simp only [Field.comparison, hk] at h
    rcases l.instant?_cases with ⟨n, hn⟩ | ⟨hb, hn⟩ | ⟨s, reason, rfl, hs, hn⟩
    · rw [hn] at h
      cases h
    · rw [hn] at h
      obtain rfl := Except.error.inj h
      have ha : f.type.accepts l = false := by
        rw [FieldType.accepts, hc ⟨_, _, _, rfl⟩ name f hf hk, hb]
        rfl
      exact deserves_typeMismatch hf hx (by simp) (List.mem_singleton_self _) ha
    · rw [hn] at h
      obtain rfl := Except.error.inj h
      exact ⟨f, op, s, hf, hk, hx, hs⟩
  · unfold Field.comparison at h
    split at h
    next hk' => exact absurd hk' hk
    rcases bind_eq_error_iff.mp h with hc | ⟨m, -, hr⟩
    · obtain ⟨ha, rfl⟩ := Field.check_eq_error_iff.mp hc
      exact deserves_typeMismatch hf hx (by simp) (List.mem_singleton_self _) ha
    · -- Of the kinds that are left only a list is refused.
      cases hp : f.kind with
      | jsonList path =>
        rw [hp] at hr
        obtain rfl := Except.error.inj hr
        exact ⟨f, _, hf, hx, rfl, fun hd => hd.2 path hp⟩
      | timestamp => exact absurd hp hk
      | text => rw [hp] at hr; cases op <;> cases hr
      | _ => rw [hp] at hr; cases hr

/-- So does a comparison of a field with any operand. -/
theorem deserves_of_compareField (hc : why.BlamesType → c.CountsInstants) {op : Comparison} {right : Expr}
    (hx : x.Calls (.compare op) [.ident name, right]) (h : c.compareField name op right = .error why) :
    c.Deserves x why := by
  have ha : x.Asks name (.compare op) [right] := .compare hx
  rcases bind_eq_error_iff.mp h with hn | ⟨f, hf, h⟩
  · exact deserves_of_field ha hn
  rw [field_eq_ok_iff] at hf
  cases ho : f.allows (.compare op) with
  | false =>
    rw [ho] at h
    obtain rfl := Except.error.inj h
    exact ⟨f, _, hf, ha, rfl, fun hd => Bool.false_ne_true (ho.symm.trans hd.1)⟩
  | true =>
    rw [ho, if_pos rfl] at h
    rcases bind_eq_error_iff.mp h with hr | ⟨l, hl, h⟩
    · obtain ⟨hn, rfl⟩ := Expr.constant_eq_error_iff.mp hr
      exact .constant hx ha (List.mem_singleton_self _) hn
    · obtain rfl := Expr.constant_eq_ok_iff.mp hl
      exact deserves_of_fieldComparison hc hf ha h

/-- A comparison of a size deserves the reason that it is refused for. -/
theorem deserves_of_compareSize {op : Comparison} {left right collection : Expr}
    (hx : x.Calls (.compare op) [left, right]) (hl : left.Calls .size [collection])
    (h : c.compareSize collection op right = .error why) : c.Deserves x why := by
  cases collection with
  | ident name =>
    have ha : x.Asks name .size [right] := .size hx hl
    rcases bind_eq_error_iff.mp h with hn | ⟨f, hf, h⟩
    · exact deserves_of_field ha hn
    rw [field_eq_ok_iff] at hf
    split at h
    next path hp ho =>
      rcases bind_eq_error_iff.mp h with hr | ⟨l, hr, h⟩
      · obtain ⟨hn, rfl⟩ := Expr.constant_eq_error_iff.mp hr
        exact .constant hx ha (List.mem_singleton_self _) hn
      · obtain rfl := Expr.constant_eq_ok_iff.mp hr
        have refused (hl : FieldType.int.accepts l = false) :
            c.Deserves x (.typeMismatch (.sizeOf name) .int l.type) :=
          ⟨f, _, l, hf, ⟨ho, path, hp⟩, ha, List.mem_singleton_self _, rfl, rfl, hl,
            FieldType.name_ne_of_admits_eq_false hl⟩
        cases l with
        | int n => cases h
        | bool b => exact Except.error.inj h ▸ refused rfl
        | string s => exact Except.error.inj h ▸ refused rfl
    next hk =>
      obtain rfl := Except.error.inj h
      refine ⟨f, _, _, hf, ha, rfl, fun hd => ?_⟩
      obtain ⟨ho, path, hp⟩ := hd
      exact hk path hp ho
  | _ =>
    obtain rfl := Except.error.inj h
    exact .identifier hx hl rfl

/-- A comparison deserves the reason that it is refused for, whatever its left operand is. -/
theorem deserves_of_comparison (hc : why.BlamesType → c.CountsInstants) {op : Comparison} {left right : Expr}
    (hx : x.Calls (.compare op) [left, right]) (h : c.comparison left op right = .error why) : c.Deserves x why := by
  cases left with
  | ident name => exact deserves_of_compareField hc hx h
  | call symbol receiver args =>
    have hp : (Expr.call symbol receiver args).PartOf x := hx.partOf List.mem_cons_self
    simp only [comparison] at h
    split at h
    next hs =>
      obtain rfl := Except.error.inj h
      exact ⟨⟨receiver, args, hp⟩, hs⟩
    next hs =>
      split at h
      next collection ho => exact deserves_of_compareSize hx ⟨symbol, receiver, args, rfl, hs, ho⟩ h
      next ho =>
        obtain rfl := Except.error.inj h
        exact deserves_wrongArity hp hs fun hl => by
          obtain ⟨y, hy⟩ := List.length_eq_one_iff.mp hl
          exact ho y hy
    next s hn hs =>
      obtain rfl := Except.error.inj h
      refine .identifierOrSize hx rfl ?_
      rintro xs ⟨_, _, _, he, hs', -⟩
      cases he
      exact hn (Option.some.inj (hs.symm.trans hs'))
  | list items =>
    obtain rfl := Except.error.inj h
    refine .identifierOrSize hx rfl ?_
    rintro xs ⟨_, _, _, he, -⟩
    cases he
  | const l =>
    obtain rfl := Except.error.inj h
    refine .identifierOrSize hx rfl ?_
    rintro xs ⟨_, _, _, he, -⟩
    cases he

/-- A search for a field in a list deserves the reason that it is refused for. -/
theorem deserves_of_memberOfList {items : List Expr} (hx : x.Calls .isIn [.ident name, .list items])
    (h : c.memberOfList name items = .error why) : c.Deserves x why := by
  have ha : x.Asks name .isIn items := .isIn hx
  rcases bind_eq_error_iff.mp h with hn | ⟨f, hf, h⟩
  · exact deserves_of_field ha hn
  rw [field_eq_ok_iff] at hf
  cases ho : f.allows .isIn with
  | false =>
    rw [ho] at h
    obtain rfl := Except.error.inj h
    exact ⟨f, _, _, hf, ha, rfl, fun hd => Bool.false_ne_true (ho.symm.trans hd.1)⟩
  | true =>
    rw [ho, if_pos rfl] at h
    cases items with
    | nil =>
      obtain rfl := Except.error.inj h
      exact .nonEmptyList ha
    | cons y items =>
      rcases bind_eq_error_iff.mp h with he | ⟨vs, -, h⟩
      · rcases Field.elements_eq_error he with ⟨z, hz, hn, rfl⟩ | ⟨l, hl, hn, rfl⟩
        · exact .constant hx ha hz hn
        · exact deserves_typeMismatch hf ha (by simp) hl hn
      · split at h <;> cases h

/-- So does a search for a constant in an array. -/
theorem deserves_of_elementOfField {l : Literal} (hx : x.Calls .isIn [.const l, .ident name])
    (h : c.elementOfField l name = .error why) : c.Deserves x why := by
  have ha : x.Asks name .elementIn [.const l] := .elementIn hx
  rcases bind_eq_error_iff.mp h with hn | ⟨f, hf, h⟩
  · exact deserves_of_field ha hn
  rw [field_eq_ok_iff] at hf
  split at h
  · rcases bind_eq_error_iff.mp h with hl | ⟨m, -, h⟩
    · obtain ⟨hn, rfl⟩ := Field.check_eq_error_iff.mp hl
      exact deserves_typeMismatch hf ha (by simp) (List.mem_singleton_self _) hn
    · cases h
  next hk =>
    obtain rfl := Except.error.inj h
    refine ⟨f, _, _, hf, ha, rfl, fun hd => ?_⟩
    obtain ⟨ho, path, hp⟩ := hd
    exact hk path hp ho

/-- A membership test deserves the reason that it is refused for, whatever its operands are. -/
theorem deserves_of_membership {element collection : Expr} (hx : x.Calls .isIn [element, collection])
    (h : c.membership element collection = .error why) : c.Deserves x why := by
  unfold membership at h
  split at h
  · exact deserves_of_memberOfList hx h
  · exact deserves_of_elementOfField hx h
  next hl he =>
    obtain rfl := Except.error.inj h
    refine .membership hx fun name o ys ha => ?_
    obtain ⟨symbol, receiver, args, rfl, hs, ho⟩ := hx
    cases ha with
    | standalone hi => cases hi
    | compare hc | size hc | contains hc =>
      obtain ⟨_, _, _, hi, hs', -⟩ := hc
      cases hi
      cases hs.symm.trans hs'
    | isIn hc =>
      obtain ⟨_, _, _, hi, -, ho'⟩ := hc
      cases hi
      cases ho.symm.trans ho'
      exact hl _ _ rfl rfl
    | elementIn hc =>
      obtain ⟨_, _, _, hi, -, ho'⟩ := hc
      cases hi
      cases ho.symm.trans ho'
      exact he _ _ rfl rfl

/-- A search in a text deserves the reason that it is refused for. -/
theorem deserves_of_containment {target needle : Expr} (hx : x.Calls .contains [target, needle])
    (h : c.containment target needle = .error why) : c.Deserves x why := by
  cases target with
  | ident name =>
    have ha : x.Asks name .contains [needle] := .contains hx
    rcases bind_eq_error_iff.mp h with hn | ⟨f, hf, h⟩
    · exact deserves_of_field ha hn
    rw [field_eq_ok_iff] at hf
    cases ho : f.allows .contains with
    | false =>
      rw [ho] at h
      obtain rfl := Except.error.inj h
      exact ⟨f, _, hf, ha, rfl, fun hd => Bool.false_ne_true (ho.symm.trans hd.1)⟩
    | true =>
      rw [ho, if_pos rfl] at h
      rcases bind_eq_error_iff.mp h with hr | ⟨l, hl, hr⟩
      · obtain ⟨hn, rfl⟩ := Expr.constant_eq_error_iff.mp hr
        exact .constant hx ha (List.mem_singleton_self _) hn
      obtain rfl := Expr.constant_eq_ok_iff.mp hl
      rcases bind_eq_error_iff.mp hr with hl | ⟨m, -, hr⟩
      · obtain ⟨hn, rfl⟩ := Field.check_eq_error_iff.mp hl
        exact deserves_typeMismatch hf ha (by simp) (List.mem_singleton_self _) hn
      · cases hr
  | _ =>
    obtain rfl := Except.error.inj h
    exact .containsTarget hx rfl

/-- An identifier by itself deserves the reason that it is refused for. -/
theorem deserves_of_standalone (h : c.standalone name = .error why) : c.Deserves (.ident name) why := by
  have ha : (Expr.ident name).Asks name .standalone [] := .standalone rfl
  rcases bind_eq_error_iff.mp h with hn | ⟨f, hf, h⟩
  · exact deserves_of_field ha hn
  rw [field_eq_ok_iff] at hf
  split at h
  · cases h
  · cases h
  next hb hj =>
    obtain rfl := Except.error.inj h
    refine ⟨f, _, hf, ha, rfl, fun hd => ?_⟩
    obtain ⟨ho, hk | ⟨path, hk⟩⟩ := hd
    · exact hb hk ho
    · exact hj path hk ho

/-- A single predicate that does not resolve deserves its rejection. -/
theorem deserves_of_singlePlan (hc : why.BlamesType → c.CountsInstants) (hx : x.shape = .single)
    (h : c.singlePlan x = .error why) : c.Deserves x why := by
  cases x with
  | ident name => exact deserves_of_standalone h
  | list items =>
    obtain rfl := Except.error.inj h
    exact .predicate (.inl ⟨items, rfl⟩)
  | const l =>
    obtain rfl := Except.error.inj h
    exact .predicate (.inr ⟨l, rfl⟩)
  | call symbol receiver args =>
    simp only [singlePlan] at h
    split at h
    next hs =>
      obtain rfl := Except.error.inj h
      exact ⟨⟨receiver, args, .self⟩, hs⟩
    next s hs =>
      have calls {xs : List Expr} (ho : operands receiver args = xs) : (Expr.call symbol receiver args).Calls s xs :=
        ⟨symbol, receiver, args, rfl, hs, ho⟩
      split at h
      next op l r ho => exact deserves_of_comparison hc (calls ho) h
      next l r ho => exact deserves_of_membership (calls ho) h
      next l r ho => exact deserves_of_containment (calls ho) h
      next =>
        obtain rfl := Except.error.inj h
        exact .sizeComparison (calls rfl)
      next s _ _ hsize hcompare hin hcontains =>
        obtain rfl := Except.error.inj h
        refine deserves_wrongArity .self hs fun hn => ?_
        simp only [Expr.shape, hs] at hx
        -- With the right number of operands a connective is not single, and any other call has been resolved above.
        cases s with
        | size => exact hsize rfl
        | not =>
          obtain ⟨y, hy⟩ := List.length_eq_one_iff.mp hn
          rw [hy] at hx
          cases hx
        | and | or =>
          obtain ⟨y, z, hy⟩ := List.length_eq_two.mp hn
          rw [hy] at hx
          cases hx
        | compare op =>
          obtain ⟨y, z, hy⟩ := List.length_eq_two.mp hn
          exact hcompare op y z rfl hy
        | isIn =>
          obtain ⟨y, z, hy⟩ := List.length_eq_two.mp hn
          exact hin y z rfl hy
        | contains =>
          obtain ⟨y, z, hy⟩ := List.length_eq_two.mp hn
          exact hcontains y z rfl hy

/-- A filter is refused for the fault of one of its single predicates. -/
theorem exists_singlePlan_eq_error (c : Catalog) {e : Expr} {why : Rejection}
    (h : (c.plan e).refusal? = some why) :
    ∃ x ∈ e.predicates, x.shape = .single ∧ c.singlePlan x = .error why := by
  induction e using Expr.shapeInduction with
  | joined e j l r he ihl ihr =>
    rw [c.plan_of_joined he, Plan.refusal?_plan, Option.or_eq_some_iff] at h
    rw [Expr.predicates_of_joined he]
    rcases h with hl | ⟨-, hr⟩
    · obtain ⟨x, hx, hw⟩ := ihl hl
      exact ⟨x, List.mem_append_left _ hx, hw⟩
    · obtain ⟨x, hx, hw⟩ := ihr hr
      exact ⟨x, List.mem_append_right _ hx, hw⟩
  | negated e x he ih =>
    rw [c.plan_of_negated he] at h
    rw [Expr.predicates_of_negated he]
    exact ih h
  | single e he =>
    rw [c.plan_of_single he] at h
    rw [Expr.predicates_of_single he]
    refine ⟨e, List.mem_singleton_self _, he, ?_⟩
    cases hp : c.singlePlan e with
    | ok p =>
      rw [hp] at h
      exact absurd (h.symm.trans (singlePlan_eq_ok_iff.mp hp).refusal?_eq_none) (by simp)
    | error why' =>
      rw [hp] at h
      exact congrArg Except.error (Option.some.inj h)

/-- A single predicate of a filter that is refused deserves the rejection. Only where a type is blamed does it matter
how the points in time are counted. -/
theorem exists_deserves {d : Dialect} {s : UInt64} {e : Expr} (hc : why.BlamesType → c.CountsInstants)
    (h : Compiler.compile ⟨c, d, s⟩ e = .error why) : ∃ x ∈ e.predicates, x.PartOf e ∧ c.Deserves x why := by
  obtain ⟨x, hx, hs, hp⟩ := c.exists_singlePlan_eq_error (Compiler.compile_error_iff.mp h)
  exact ⟨x, hx, Expr.partOf_of_mem_predicates hx, deserves_of_singlePlan hc hs hp⟩

end Catalog

/-- The points in time of both entities are integers. -/
theorem Entity.countsInstants_catalog (e : Entity) : e.catalog.CountsInstants := by
  intro name f hf hk
  have all : ∀ f ∈ e.catalog.fields, f.kind = .timestamp → f.type = .int := by cases e <;> decide +kernel
  exact all f (Catalog.mem_fields_of_lookup? hf) hk

/-- Every rejection blames something real. Over a catalog whose points in time are integers, a filter that is refused
has a single predicate which is as the rejection says: an identifier is unknown if the predicate uses it and the catalog
does not have it, a number of arguments is wrong if a call in it has that many and another number is due, and so on for
each kind of rejection (`Catalog.Deserves`). -/
theorem rejections_are_deserved (c : Catalog) (hc : c.CountsInstants) (d : Dialect) (s : UInt64) (e : Expr)
    (why : Rejection) (h : Compiler.compile ⟨c, d, s⟩ e = .error why) :
    ∃ x ∈ e.predicates, x.PartOf e ∧ c.Deserves x why :=
  Catalog.exists_deserves (fun _ => hc) h

/-- `pinned && !(tags.size(1) > 0)`: written behind its receiver, `size` takes no arguments. -/
theorem rejections_are_deserved_memo :
    let e : Expr := .and (.ident "pinned")
      (.not (.compare (.method (.ident "tags") .size [.int 1]) .greaterThan (.int 0)))
    memoCatalog.CountsInstants ∧
      Compiler.compile ⟨memoCatalog, .mySql, 1⟩ e = .error (.arityMismatch .size 0 1) ∧
      ∃ x ∈ e.predicates, x.PartOf e ∧ memoCatalog.Deserves x (.arityMismatch .size 0 1) := by
  intro e
  have hc : memoCatalog.CountsInstants := Entity.countsInstants_catalog .memo
  have h : Compiler.compile ⟨memoCatalog, .mySql, 1⟩ e = .error (.arityMismatch .size 0 1) := by decide +kernel
  exact ⟨hc, h, rejections_are_deserved memoCatalog hc .mySql 1 e _ h⟩

end WhereClause
