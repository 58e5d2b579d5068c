import WhereClause.Catalog.Entity
import WhereClause.Expr.Build
import WhereClause.Proofs.Plan.Resolved
import WhereClause.Proofs.Plan.Sides

/-!
# Constants stay out of the text

Two filters that differ in their constants alone are compiled side by side. What a filter is written with depends on
its constants only through the values that are bound, and whether and why it is refused depends on their types and on
the texts that are compared, which may stand beside a point in time (`constants_stay_out`). Each step of resolving
takes filters that are alike to results that agree (`Agrees`).
-/

namespace WhereClause

/-- Two expressions are the same tree but for the values of their constants. If `strict`, constants at the same place
have the same type, and a string that is the right operand of a comparison is the same in both. -/
inductive Expr.Alike (strict : Prop) : Expr → Expr → Prop
  | ident (name : String) : Alike strict (.ident name) (.ident name)
  | const {l m : Literal} : (strict → l.type = m.type) → Alike strict (.const l) (.const m)
  | list {xs ys : List Expr} : List.Forall₂ (Alike strict) xs ys → Alike strict (.list xs) (.list ys)
  | call (symbol : String) {receiver receiver' : Option Expr} {args args' : List Expr} :
      receiver.isSome = receiver'.isSome →
      List.Forall₂ (Alike strict) (operands receiver args) (operands receiver' args') →
      (strict → ∀ op, Symbol.ofText? symbol = some (.compare op) → ∀ x y l m, operands receiver args = [x, .const l] →
        operands receiver' args' = [y, .const m] → ∀ s, l = .string s → m = .string s) →
      Alike strict (.call symbol receiver args) (.call symbol receiver' args')

/-- Two results agree: if both steps give something it is related, and if both are refused `strict`ly it is for one
reason; one alone is refused only if not `strict`. -/
def Agrees {α β : Type} (strict : Prop) (R : α → β → Prop) : Except Rejection α → Except Rejection β → Prop
  | .ok a, .ok b => R a b
  | .error why, .error why' => strict → why = why'
  | _, _ => ¬strict

/-- Two predicates are written alike and bind as many values. -/
def Predicate.SameForm (p q : Predicate) : Prop :=
  ∀ d, p.sides d = q.sides d ∧ (p.values d).length = (q.values d).length

/-- Two fragments hold the same text and as many values. -/
structure Fragment.SameText (f g : Fragment) : Prop where
  dialect : f.dialect = g.dialect
  start : f.start = g.start
  sql : f.sql = g.sql
  args : f.args.length = g.args.length

/-! ## Writing -/

namespace Fragment.SameText

variable {f g : Fragment}

/-- Two fragments with the same text give out the same index next. -/
theorem next_eq (h : SameText f g) : f.next = g.next := by
  rw [next, next, h.start, h.args]

/-- The same text behind both. -/
theorem text (h : SameText f g) (s : String) : SameText (f.text s) (g.text s) := by
  refine ⟨h.dialect, h.start, ?_, h.args⟩
  rw [sql_text, sql_text, h.sql]

/-- A value behind either one, whatever it is. -/
theorem bind (h : SameText f g) (v w : Value) : SameText (f.bind v) (g.bind w) := by
  refine ⟨h.dialect, h.start, ?_, ?_⟩
  · rw [sql_bind, sql_bind, h.sql, h.dialect, h.next_eq]
  · rw [args_bind, args_bind, List.length_append, List.length_append, h.args]
    rfl

/-- As many values behind either one. -/
theorem bindAll (h : SameText f g) {vs ws : List Value} (hl : vs.length = ws.length) :
    SameText (f.bindAll vs) (g.bindAll ws) := by
  have hvw : List.Forall₂ (fun _ _ => True) vs ws := List.forall₂_iff_zip.mpr ⟨hl, fun _ => trivial⟩
  exact bindAll_related (fun {v w} _ _ _ h => h.bind v w) (fun h => h.text ",") hvw h

/-- Predicates of the same form behind both. -/
theorem write (h : SameText f g) {p q : Predicate} (hpq : p.SameForm q) : SameText (p.write f) (q.write g) := by
  obtain ⟨hs, hl⟩ := hpq g.dialect
  rw [Predicate.write_eq, Predicate.write_eq, h.dialect, hs]
  exact ((h.text _).bindAll hl).text _

/-- Every step of the writer keeps two fragments at the same text. -/
theorem kept : Plan.Kept Predicate.SameForm SameText where
  text s _ _ _ h := h.text s
  write hpq _ _ h := h.write hpq

end Fragment.SameText

theorem Predicate.SameForm.refl (p : Predicate) : p.SameForm p := fun _ => ⟨rfl, rfl⟩

/-! ## Results that agree -/

namespace Agrees

variable {α β γ δ : Type} {strict : Prop} {R : α → β → Prop} {Q : γ → δ → Prop}

/-- The same rejection on both sides. -/
theorem error (why : Rejection) : Agrees strict R (.error why) (.error why) := fun _ => rfl

/-- Results agree if they are related where both are given, and given alike if `strict`. -/
theorem intro {x : Except Rejection α} {y : Except Rejection β} (ok : ∀ a b, x = .ok a → y = .ok b → R a b)
    (same : strict → x.map (fun _ => ()) = y.map (fun _ => ())) : Agrees strict R x y := by
  cases x with
  | ok a =>
    cases y with
    | ok b => exact ok a b rfl rfl
    | error why => exact fun h => by cases same h
  | error why =>
    cases y with
    | ok b => exact fun h => by cases same h
    | error why' => exact fun h => Except.error.inj (same h)

/-- Steps that agree, followed by steps that agree on related values. -/
theorem bind {x : Except Rejection α} {y : Except Rejection β} {k : α → Except Rejection γ} {l : β → Except Rejection δ}
    (h : Agrees strict R x y) (hkl : ∀ a b, R a b → Agrees strict Q (k a) (l b)) :
    Agrees strict Q (x >>= k) (y >>= l) := by
  cases x with
  | ok a =>
    cases y with
    | ok b => exact hkl a b h
    | error why =>
      show Agrees strict Q (k a) (.error why)
      cases k a with
      | ok c => exact h
      | error why' => exact fun hs => absurd hs h
  | error why =>
    cases y with
    | ok b =>
      show Agrees strict Q (.error why) (l b)
      cases l b with
      | ok c => exact h
      | error why' => exact fun hs => absurd hs h
    | error why' => exact h

/-- One step, followed by steps that agree. -/
theorem bind_same (x : Except Rejection α) {k : α → Except Rejection γ} {l : α → Except Rejection δ}
    (h : ∀ a, Agrees strict Q (k a) (l a)) : Agrees strict Q (x >>= k) (x >>= l) := by
  cases x with
  | ok a => exact h a
  | error why => exact error why

end Agrees

/-! ## Constants beside a field -/

section

variable {strict : Prop} {γ : Type} {Q : γ → γ → Prop}

/-- Where the types are not to change, a constant has the type of the one in its place. -/
theorem Expr.Alike.type_eq {l m : Literal} (h : (Expr.const l).Alike strict (.const m)) (hs : strict) :
    l.type = m.type := by
  cases h with
  | const ht => exact ht hs

/-- Where a constant must stand, both expressions are constants, or both are refused. -/
theorem Expr.constant_agrees {x y : Expr} (h : x.Alike strict y) (site : Symbol) {k l : Literal → Except Rejection γ}
    (hkl : ∀ m n, x = .const m → y = .const n → Agrees strict Q (k m) (l n)) :
    Agrees strict Q (x.constant site >>= k) (y.constant site >>= l) := by
  cases h with
  | @const m n => exact hkl m n rfl rfl
  | _ => exact .error _

/-- Constants of one type pass the same check. -/
theorem Field.check_agrees (f : Field) (name : String) {m n : Literal} (ht : strict → m.type = n.type)
    {k l : Literal → Except Rejection γ} (hkl : Agrees strict Q (k m) (l n)) :
    Agrees strict Q (f.check name m >>= k) (f.check name n >>= l) := by
  have hc : Agrees strict (fun m' n' => m' = m ∧ n' = n) (f.check name m) (f.check name n) := by
    refine .intro (fun m' n' hm hn => ?_) fun hs => ?_
    · exact ⟨(Field.check_eq_ok_iff.mp hm).2.symm, (Field.check_eq_ok_iff.mp hn).2.symm⟩
    · have ha : f.type.accepts m = f.type.accepts n := congrArg f.type.admits (ht hs)
      simp only [Field.check, ha, ht hs]
      cases f.type.accepts n <;> rfl
  refine hc.bind fun m' n' h => ?_
  rw [h.1, h.2]
  exact hkl

/-- The values of two lists of constants, as many of each. -/
theorem Field.elements_agrees (f : Field) (name : String) {xs ys : List Expr}
    (h : List.Forall₂ (Expr.Alike strict) xs ys) :
    Agrees strict (List.Forall₂ fun _ _ => True) (f.elements name xs) (f.elements name ys) := by
  induction h with
  | nil => exact .nil
  | cons hxy _ ih =>
    refine Expr.constant_agrees hxy .isIn ?_
    rintro l m rfl rfl
    exact f.check_agrees name hxy.type_eq (ih.bind fun vs ws hvw => .cons trivial hvw)

/-- A comparison at a path has one form for all constants. -/
theorem Predicate.sameForm_compareJson (path : JsonPath) (op : Comparison) (l m : Literal) :
    (Predicate.compareJson path op l).SameForm (.compareJson path op m) := by
  refine fun d => ⟨rfl, ?_⟩
  cases l <;> cases m <;> rfl

/-- Constants of one type name the same instant, or instants both. -/
theorem Literal.instant?_of_type_eq {l m : Literal} (ht : l.type = m.type) (hs : ∀ s, l = .string s → m = .string s) :
    l.instant? = m.instant? ∨ ∃ n k, l.instant? = .ok (some n) ∧ m.instant? = .ok (some k) := by
  cases l with
  | string s =>
    rw [hs s rfl]
    exact .inl rfl
  | bool b =>
    cases m with
    | bool b' => exact .inl rfl
    | _ => cases ht
  | int n =>
    cases m with
    | int k => exact .inr ⟨n, k, rfl, rfl⟩
    | _ => cases ht

/-- A comparison looks into a text only where it may name an instant. -/
theorem Field.comparison_agrees (f : Field) (name : String) (op : Comparison) {l m : Literal}
    (ht : strict → l.type = m.type) (hs : strict → ∀ s, l = .string s → m = .string s) :
    Agrees strict (Plan.Related Predicate.SameForm) (f.comparison name op l) (f.comparison name op m) := by
  unfold Field.comparison
  cases f.kind with
  | timestamp =>
    dsimp only
    refine .intro (fun p q hp hq => ?_) fun h => ?_
    · split at hp <;> cases hp
      split at hq <;> cases hq
      exact .test fun _ => ⟨rfl, rfl⟩
    · rcases Literal.instant?_of_type_eq (ht h) (hs h) with he | ⟨n, k, hl, hm⟩
      · rw [he, ht h]
      · rw [hl, hm]
        rfl
  | text =>
    refine f.check_agrees name ht ?_
    cases op with
    | notEqual => exact .negation (.test fun _ => ⟨rfl, rfl⟩)
    | _ => exact .test fun _ => ⟨rfl, rfl⟩
  | jsonBool path => exact f.check_agrees name ht (.test (Predicate.sameForm_compareJson path op l m))
  | jsonList path => exact f.check_agrees name ht (.error _)
  | _ => exact f.check_agrees name ht (.test fun _ => ⟨rfl, rfl⟩)

/-! ## Single predicates -/

/-- Calls with as many operands, and both with a receiver or none, are blamed alike for their number. -/
theorem wrongArity_of_alike {receiver receiver' : Option Expr} {args args' : List Expr} (f : Symbol)
    (hr : receiver.isSome = receiver'.isSome)
    (hl : (operands receiver args).length = (operands receiver' args').length) :
    wrongArity f receiver args = wrongArity f receiver' args' := by
  cases receiver <;> cases receiver' <;> cases hr <;> simp_all [operands, wrongArity]

namespace Catalog

variable (c : Catalog)

/-- A comparison of a field agrees if the operands beside it are alike. -/
theorem compareField_agrees (name : String) (op : Comparison) {x y : Expr} (h : x.Alike strict y)
    (hs : strict → ∀ l m, x = .const l → y = .const m → ∀ s, l = .string s → m = .string s) :
    Agrees strict (Plan.Related Predicate.SameForm) (c.compareField name op x) (c.compareField name op y) := by
  refine .bind_same (c.field name) fun f => ?_
  split
  · refine Expr.constant_agrees h _ ?_
    rintro l m rfl rfl
    exact f.comparison_agrees name op h.type_eq fun h => hs h l m rfl rfl
  · exact .error _

/-- A comparison of a size agrees if its operands are alike. -/
theorem compareSize_agrees (op : Comparison) {collection collection' x y : Expr}
    (hc : collection.Alike strict collection') (h : x.Alike strict y) :
    Agrees strict (Plan.Related Predicate.SameForm) (c.compareSize collection op x)
      (c.compareSize collection' op y) := by
  cases hc with
  | ident name =>
    refine .bind_same (c.field name) fun f => ?_
    split
    next path _ _ =>
      refine Expr.constant_agrees h _ ?_
      rintro l m rfl rfl
      refine .intro (fun p q hp hq => ?_) fun hs => ?_
      · split at hp <;> cases hp
        split at hq <;> cases hq
        exact .test fun _ => ⟨rfl, rfl⟩
      · have ht := h.type_eq hs
        cases l <;> cases m <;> first | rfl | cases ht
    · exact .error _
  | _ => exact .error _

/-- A comparison agrees if its operands are alike. -/
theorem comparison_agrees (op : Comparison) {left left' x y : Expr} (hl : left.Alike strict left')
    (h : x.Alike strict y)
    (hs : strict → ∀ l m, x = .const l → y = .const m → ∀ s, l = .string s → m = .string s) :
    Agrees strict (Plan.Related Predicate.SameForm) (c.comparison left op x) (c.comparison left' op y) := by
  cases hl with
  | ident name => exact c.compareField_agrees name op h hs
  | const => exact .error _
  | list => exact .error _
  | @call symbol receiver receiver' args args' hr ho =>
    have hw := wrongArity_of_alike .size hr ho.length_eq
    simp only [comparison]
    cases Symbol.ofText? symbol with
    | none => exact .error _
    | some f =>
      cases f with
      | size =>
        dsimp only
        rw [hw]
        generalize operands receiver args = es, operands receiver' args' = es' at ho
        cases ho with
        | nil => exact .error _
        | cons hx ho =>
          cases ho with
          | nil => exact c.compareSize_agrees op hx h
          | cons => exact .error _
      | _ => exact .error _

/-- A search for a field in a list agrees if the lists are alike. -/
theorem memberOfList_agrees (name : String) {xs ys : List Expr} (h : List.Forall₂ (Expr.Alike strict) xs ys) :
    Agrees strict (Plan.Related Predicate.SameForm) (c.memberOfList name xs) (c.memberOfList name ys) := by
  refine .bind_same (c.field name) fun f => ?_
  have he : xs.isEmpty = ys.isEmpty := by cases h <;> rfl
  rw [he]
  split
  · split
    · exact .error _
    · refine (f.elements_agrees name h).bind fun vs ws hvw => ?_
      cases f.kind with
      | jsonList path =>
        refine .anyOf (List.forall₂_map_left_iff.mpr (List.forall₂_map_right_iff.mpr (hvw.imp ?_)))
        exact fun _ _ _ _ => ⟨rfl, rfl⟩
      | _ => exact .test fun _ => ⟨rfl, hvw.length_eq⟩
  · exact .error _

/-- A search for a constant in an array agrees, with constants of one type where the types are not to change. -/
theorem elementOfField_agrees (name : String) {l m : Literal} (ht : strict → l.type = m.type) :
    Agrees strict (Plan.Related Predicate.SameForm) (c.elementOfField l name) (c.elementOfField m name) := by
  refine .bind_same (c.field name) fun f => ?_
  split
  · exact f.check_agrees name ht (.test fun _ => ⟨rfl, rfl⟩)
  · exact .error _

/-- A membership test agrees if its operands are alike. -/
theorem membership_agrees {x y x' y' : Expr} (hx : x.Alike strict x') (hy : y.Alike strict y') :
    Agrees strict (Plan.Related Predicate.SameForm) (c.membership x y) (c.membership x' y') := by
  cases hx with
  | ident name =>
    cases hy with
    | list h => exact c.memberOfList_agrees name h
    | _ => exact .error _
  | const ht =>
    cases hy with
    | ident name => exact c.elementOfField_agrees name ht
    | _ => exact .error _
  | _ => exact .error _

/-- A search in a text agrees if its operands are alike. -/
theorem containment_agrees {x y x' y' : Expr} (hx : x.Alike strict x') (hy : y.Alike strict y') :
    Agrees strict (Plan.Related Predicate.SameForm) (c.containment x y) (c.containment x' y') := by
  cases hx with
  | ident name =>
    refine .bind_same (c.field name) fun f => ?_
    split
    · refine Expr.constant_agrees hy _ ?_
      rintro l m rfl rfl
      exact f.check_agrees name hy.type_eq (.test fun _ => ⟨rfl, rfl⟩)
    · exact .error _
  | _ => exact .error _

/-- Single predicates that are alike are resolved to plans that are written alike, or refused alike. -/
theorem singlePlan_agrees {a b : Expr} (h : a.Alike strict b) :
    Agrees strict (Plan.Related Predicate.SameForm) (c.singlePlan a) (c.singlePlan b) := by
  cases h with
  | ident name =>
    refine .intro (fun p q hp hq => ?_) fun _ => rfl
    obtain rfl : p = q := Except.ok.inj (hp.symm.trans hq)
    exact .refl .refl p
  | const => exact .error _
  | list => exact .error _
  | @call symbol receiver receiver' args args' hr ho hs =>
    have hw f := wrongArity_of_alike f hr ho.length_eq
    simp only [singlePlan]
    cases hf : Symbol.ofText? symbol with
    | none => exact .error _
    | some f =>
      dsimp only
      simp only [hw]
      generalize operands receiver args = es, operands receiver' args' = es' at ho hs
      -- Only the number of operands matters: none, one, two, or more.
      cases ho with
      | nil => cases f <;> exact .error _
      | cons hx ho =>
        cases ho with
        | nil => cases f <;> exact .error _
        | cons hy ho =>
          cases ho with
          | nil =>
            cases f with
            | compare op =>
              refine c.comparison_agrees op hx hy ?_
              rintro h l m rfl rfl
              exact hs h op hf _ _ l m rfl rfl
            | isIn => exact c.membership_agrees hx hy
            | contains => exact c.containment_agrees hx hy
            | _ => exact .error _
          | cons => cases f <;> exact .error _

end Catalog

/-! ## Filters -/

/-- Two shapes are put together alike, from parts that are alike. -/
def Shape.Alike (strict : Prop) : Shape → Shape → Prop
  | .joined j l r, s => ∃ l' r', s = .joined j l' r' ∧ l.Alike strict l' ∧ r.Alike strict r'
  | .negated x, s => ∃ y, s = .negated y ∧ x.Alike strict y
  | .single, s => s = .single

/-- Alike filters are joined, negated or single alike. -/
theorem Expr.Alike.shape_alike {a b : Expr} (h : a.Alike strict b) : a.shape.Alike strict b.shape := by
  cases h with
  | ident => exact rfl
  | const => exact rfl
  | list => exact rfl
  | @call symbol receiver receiver' args args' _ ho =>
    simp only [Expr.shape]
    cases Symbol.ofText? symbol with
    | none => exact rfl
    | some f =>
      generalize operands receiver args = es, operands receiver' args' = es' at ho
      cases ho with
      | nil => cases f <;> exact rfl
      | cons hx ho =>
        cases ho with
        | nil =>
          cases f with
          | not => exact ⟨_, rfl, hx⟩
          | _ => exact rfl
        | cons hy ho =>
          cases ho with
          | nil =>
            cases f with
            | and => exact ⟨_, _, rfl, hx, hy⟩
            | or => exact ⟨_, _, rfl, hx, hy⟩
            | _ => exact rfl
          | cons => cases f <;> exact rfl

/-- The plans of filters that are alike are built alike where neither is refused, and refused alike if `strict`. -/
theorem Catalog.plan_agrees (c : Catalog) {a b : Expr} (h : a.Alike strict b) :
    ((c.plan a).refusal? = none → (c.plan b).refusal? = none →
        (c.plan a).Related Predicate.SameForm (c.plan b)) ∧
      (strict → (c.plan a).refusal? = (c.plan b).refusal?) := by
  induction a using Expr.shapeInduction generalizing b with
  | joined a j l r ha ihl ihr =>
    have hs := h.shape_alike
    rw [ha] at hs
    obtain ⟨l', r', hb, hl, hr⟩ := hs
    have hl := ihl hl
    have hr := ihr hr
    rw [c.plan_of_joined ha, c.plan_of_joined hb]
    simp only [Plan.refusal?_plan, Option.or_eq_none_iff]
    refine ⟨fun na nb => ?_, fun hs => ?_⟩
    · exact .joined j (hl.1 na.1 nb.1) (hr.1 na.2 nb.2)
    · rw [hl.2 hs, hr.2 hs]
  | negated a x ha ih =>
    have hs := h.shape_alike
    rw [ha] at hs
    obtain ⟨y, hb, hx⟩ := hs
    have hx := ih hx
    rw [c.plan_of_negated ha, c.plan_of_negated hb]
    exact ⟨fun na nb => .negation (hx.1 na nb), hx.2⟩
  | single a ha =>
    have hb := h.shape_alike
    rw [ha] at hb
    have hp := c.singlePlan_agrees h
    rw [c.plan_of_single ha, c.plan_of_single hb]
    cases hx : c.singlePlan a with
    | ok p =>
      cases hy : c.singlePlan b with
      | ok q =>
        rw [hx, hy] at hp
        exact ⟨fun _ _ => hp, fun _ => Plan.Related.refusal?_eq hp⟩
      | error why =>
        rw [hx, hy] at hp
        exact ⟨fun _ hn => (by cases hn), fun hs => absurd hs hp⟩
    | error why =>
      refine ⟨fun hn _ => (by cases hn), fun hs => ?_⟩
      cases hy : c.singlePlan b with
      | ok q =>
        rw [hx, hy] at hp
        exact absurd hs hp
      | error why' =>
        rw [hx, hy] at hp
        exact congrArg some (hp hs)

end

/-- Two expressions are the same tree but for the values, and perhaps the types, of their constants. -/
def Expr.SameTree (a b : Expr) : Prop := a.Alike False b

/-- Two expressions are the same tree but for the values of their constants, which have the same types; the strings that
something is compared with are the same. -/
def Expr.SameTypes (a b : Expr) : Prop := a.Alike True b

/-- The constants of a filter stay out of its text. Two filters that differ in their constants alone have, if both
compile, the same text, the same next index and as many values. If the constants have the same types, and the strings
on the right of comparisons are the same, both compile or both are refused for the same reason. -/
theorem constants_stay_out (c : Catalog) (d : Dialect) (start : UInt64) (a b : Expr) :
    (a.SameTree b → ∀ x y, Compiler.compile ⟨c, d, start⟩ a = .ok x → Compiler.compile ⟨c, d, start⟩ b = .ok y →
      x.sql = y.sql ∧ x.next = y.next ∧ x.args.length = y.args.length) ∧
    (a.SameTypes b →
      (∃ x y, Compiler.compile ⟨c, d, start⟩ a = .ok x ∧ Compiler.compile ⟨c, d, start⟩ b = .ok y) ∨
        ∃ why, Compiler.compile ⟨c, d, start⟩ a = .error why ∧ Compiler.compile ⟨c, d, start⟩ b = .error why) := by
  constructor
  · intro h x y hx hy
    have ha : (c.plan a).refusal? = none := Compiler.compile_isOk_iff.mp ⟨x, hx⟩
    have hb : (c.plan b).refusal? = none := Compiler.compile_isOk_iff.mp ⟨y, hy⟩
    have hw := (((c.plan_agrees h).1 ha hb).write Fragment.SameText.kept
      (f := .empty d start) (g := .empty d start) ⟨rfl, rfl, rfl, rfl⟩).1
    rw [Compiler.compile_eq, ha] at hx
    rw [Compiler.compile_eq, hb] at hy
    obtain rfl := Except.ok.inj hx
    obtain rfl := Except.ok.inj hy
    exact ⟨hw.sql, hw.next_eq, hw.args⟩
  · intro h
    have hr := (c.plan_agrees h).2 trivial
    rw [Compiler.compile_eq, Compiler.compile_eq]
    dsimp only
    rw [hr]
    cases (c.plan b).refusal? with
    | none => exact .inl ⟨_, _, rfl, rfl⟩
    | some why => exact .inr ⟨why, rfl, rfl⟩

/-- A string in the place of a number is written alike, and a constant of a truth value is refused for its type
whatever it is. -/
theorem constants_stay_out_attachment :
    let a : Expr := .isIn (.ident "memo_id") (.list [.int 1, .string "x"])
    let b : Expr := .isIn (.ident "memo_id") (.list [.string "?) OR (1 = 1", .int 2])
    let a' : Expr := .eq (.ident "memo_id") (.bool true)
    let b' : Expr := .eq (.ident "memo_id") (.bool false)
    a.SameTree b ∧
      (∃ x y, Compiler.compile ⟨attachmentCatalog, .postgres, 1⟩ a = .ok x ∧
        Compiler.compile ⟨attachmentCatalog, .postgres, 1⟩ b = .ok y ∧
        x.sql = y.sql ∧ x.next = y.next ∧ x.args.length = y.args.length) ∧
      a'.SameTypes b' ∧
      ((∃ x y, Compiler.compile ⟨attachmentCatalog, .postgres, 1⟩ a' = .ok x ∧
          Compiler.compile ⟨attachmentCatalog, .postgres, 1⟩ b' = .ok y) ∨
        ∃ why, Compiler.compile ⟨attachmentCatalog, .postgres, 1⟩ a' = .error why ∧
          Compiler.compile ⟨attachmentCatalog, .postgres, 1⟩ b' = .error why) := by
  intro a b a' b'
  have hab : a.SameTree b :=
    .call _ rfl (.cons (.ident _) (.cons (.list (.cons (.const nofun) (.cons (.const nofun) .nil))) .nil)) nofun
  have hab' : a'.SameTypes b' := by
    refine .call _ rfl (.cons (.ident _) (.cons (.const fun _ => rfl) .nil)) ?_
    rintro - op - x y l m ho - s rfl
    cases ho
  have ha : Compiler.compile ⟨attachmentCatalog, .postgres, 1⟩ a =
      .ok ⟨"attachment.memo_id IN ($1,$2)", [.int 1, .string "x"], 3⟩ := by decide +kernel
  have hb : Compiler.compile ⟨attachmentCatalog, .postgres, 1⟩ b =
      .ok ⟨"attachment.memo_id IN ($1,$2)", [.string "?) OR (1 = 1", .int 2], 3⟩ := by decide +kernel
  exact ⟨hab, ⟨_, _, ha, hb, (constants_stay_out attachmentCatalog .postgres 1 a b).1 hab _ _ ha hb⟩, hab',
    (constants_stay_out attachmentCatalog .postgres 1 a' b').2 hab'⟩

end WhereClause
