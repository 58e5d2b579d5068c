import Mathlib.Data.Option.Defs
import WhereClause.Catalog.Entity
import WhereClause.Expr.Build
import WhereClause.Proofs.Catalog.Registration
import WhereClause.Proofs.Composition
import WhereClause.Proofs.Expr.Rename
import WhereClause.Proofs.Plan.Resolved

/-!
# Names

The names of a filter matter only through what they stand for. When each of them stands for a field in one catalog
that filters cannot tell from the field its new name stands for in another, or both stand for nothing, the renamed
filter compiles in the other catalog to the same clause, or is refused for the same reason under the new name
(`names_are_only_looked_up`). Each step of resolving a predicate commutes with the renaming, and the clauses of
connectives are made of those of their parts.
-/

namespace WhereClause

/-- Two fields that filters cannot tell apart. Their names may differ. -/
structure Field.SameUse (f g : Field) : Prop where
  type : f.type = g.type
  kind : f.kind = g.kind
  column : f.column = g.column
  allows : ∀ o, f.allows o = g.allows o

/-- Every name of an expression stands for nothing in a catalog, and its new name for nothing in another, or the two
stand for fields that cannot be told apart. -/
def Catalog.RenamesTo (c₁ c₂ : Catalog) (r : String → String) (e : Expr) : Prop :=
  ∀ n ∈ e.names, Option.Rel Field.SameUse (c₁.lookup? n) (c₂.lookup? (r n))

/-- A subject under another name. -/
def Subject.rename (r : String → String) : Subject → Subject
  | .field name => .field (r name)
  | .sizeOf name => .sizeOf (r name)

/-- The name that a subject shows. -/
def Subject.name : Subject → String
  | .field name | .sizeOf name => name

namespace Rejection

/-- A rejection that blames the same identifier under another name. -/
def rename (r : String → String) : Rejection → Rejection
  | .unknownIdentifier name => .unknownIdentifier (r name)
  | .disallowedOperator name operation => .disallowedOperator (r name) operation
  | .typeMismatch subject expected actual => .typeMismatch (subject.rename r) expected actual
  | .invalidCollection symbol name => .invalidCollection symbol (r name)
  | .invalidTimestamp name reason => .invalidTimestamp (r name) reason
  | .arityMismatch symbol expected actual => .arityMismatch symbol expected actual
  | .unsupportedFunction symbol => .unsupportedFunction symbol
  | .invalidOperand symbol expected => .invalidOperand symbol expected

/-- The identifier that a rejection shows. -/
def name? : Rejection → Option String
  | .unknownIdentifier name | .disallowedOperator name _ => some name
  | .invalidCollection _ name | .invalidTimestamp name _ => some name
  | .typeMismatch subject _ _ => some subject.name
  | .arityMismatch .. | .unsupportedFunction _ | .invalidOperand .. => none

/-- A renamed error names the renamed identifier. -/
theorem name?_rename (r : String → String) (why : Rejection) : (why.rename r).name? = why.name?.map r := by
  cases why with
  | typeMismatch subject expected actual => cases subject <;> rfl
  | _ => rfl

end Rejection

/-! ## Fields -/

namespace Field.SameUse

/-- A field is of the same use as itself. -/
theorem refl (f : Field) : f.SameUse f := ⟨rfl, rfl, rfl, fun _ => rfl⟩

/-- What is looked up is the same as itself. -/
theorem rel_refl (found : Option Field) : Option.Rel SameUse found found := by
  cases found with
  | none => exact .none
  | some f => exact .some (refl f)

end Field.SameUse

/-- Catalogs that rename all names of a filter rename those of a smaller one. -/
theorem Catalog.RenamesTo.mono {c₁ c₂ : Catalog} {r : String → String} {e x : Expr} (h : c₁.RenamesTo c₂ r e)
    (hx : x.names ⊆ e.names) : c₁.RenamesTo c₂ r x :=
  fun n hn => h n (hx hn)

/-- Catalogs that rename the names of a call rename those of its operands. -/
theorem Catalog.RenamesTo.of_mem_operands {c₁ c₂ : Catalog} {r : String → String} {symbol : String}
    {receiver : Option Expr} {args : List Expr} {x : Expr} (h : c₁.RenamesTo c₂ r (.call symbol receiver args))
    (hx : x ∈ operands receiver args) : c₁.RenamesTo c₂ r x := by
  refine h.mono fun n hn => ?_
  rw [Expr.names_call]
  exact List.mem_flatMap.mpr ⟨x, hx, hn⟩

/-! ## Steps -/

section Steps

variable {c₁ c₂ : Catalog} {r : String → String} {f g : Field} {name : String}

/-- A step and what follows it are renamed when both are. -/
theorem bind_mapError {ε ε' α β : Type} {φ : ε → ε'} {x : Except ε α} {y : Except ε' α} {k : α → Except ε β}
    {l : α → Except ε' β} (hx : y = x.mapError φ) (hk : ∀ a, l a = (k a).mapError φ) :
    (y >>= l) = (x >>= k).mapError φ := by
  subst hx
  cases x with
  | ok a => exact hk a
  | error why => rfl

/-- What follows the lookup of a name is renamed when it is for fields that cannot be told apart. -/
theorem field_bind_rename {α : Type} {k l : Field → Except Rejection α}
    (hn : Option.Rel Field.SameUse (c₁.lookup? name) (c₂.lookup? (r name)))
    (hk : ∀ f g, f.SameUse g → l g = (k f).mapError (Rejection.rename r)) :
    (c₂.field (r name) >>= l) = (c₁.field name >>= k).mapError (Rejection.rename r) := by
  unfold Catalog.field
  generalize c₁.lookup? name = x at hn
  generalize c₂.lookup? (r name) = y at hn
  cases hn with
  | none => rfl
  | some hfg => exact hk _ _ hfg

/-- An operand is a constant or is none under either name. -/
theorem constant_rename (site : Symbol) (e : Expr) :
    (e.rename r).constant site = (e.constant site).mapError (Rejection.rename r) := by
  cases e with
  | call symbol receiver args => rw [Expr.rename_call]; rfl
  | _ => rfl

/-- A constant is checked alike under either name. -/
theorem check_rename (h : f.SameUse g) (l : Literal) :
    g.check (r name) l = (f.check name l).mapError (Rejection.rename r) := by
  unfold Field.check
  rw [← h.type]
  cases f.type.accepts l <;> rfl

/-- A field is compared with a constant alike under either name. -/
theorem fieldComparison_rename (h : f.SameUse g) (op : Comparison) (l : Literal) :
    g.comparison (r name) op l = (f.comparison name op l).mapError (Rejection.rename r) := by
  have hc : g.check (r name) l = (f.check name l).mapError (Rejection.rename r) := check_rename h l
  unfold Field.comparison
  rw [← h.kind, ← h.column]
  cases f.kind with
  | timestamp =>
    cases l.instant? with
    | error reason => rfl
    | ok n =>
      cases n with
      | none => exact congrArg (fun t => Except.error (Rejection.typeMismatch (.field (r name)) t l.type)) h.type.symm
      | some n => rfl
  | text => exact bind_mapError hc fun l => by cases op <;> rfl
  | _ => exact bind_mapError hc fun l => rfl

/-- The items of a list are checked alike under either name. -/
theorem elements_rename (h : f.SameUse g) (es : List Expr) :
    g.elements (r name) (es.map (Expr.rename r)) = (f.elements name es).mapError (Rejection.rename r) := by
  induction es with
  | nil => rfl
  | cons e es ih =>
    rw [List.map_cons]
    unfold Field.elements
    refine bind_mapError (constant_rename .isIn e) fun l => bind_mapError (check_rename h l) fun l => ?_
    exact bind_mapError ih fun vs => rfl

end Steps

/-! ## Predicates -/

namespace Catalog

variable {c₁ c₂ : Catalog} {r : String → String}

/-- A comparison of a field has one plan under either name, or one error up to the name. -/
theorem compareField_rename {name : String} (h : Option.Rel Field.SameUse (c₁.lookup? name) (c₂.lookup? (r name)))
    (op : Comparison) (right : Expr) :
    c₂.compareField (r name) op (right.rename r) = (c₁.compareField name op right).mapError (Rejection.rename r) := by
  unfold compareField
  refine field_bind_rename h fun f g hfg => ?_
  rw [← hfg.allows]
  cases f.allows (.compare op) with
  | false => rfl
  | true => exact bind_mapError (constant_rename _ right) fun l => fieldComparison_rename hfg op l

/-- So has a comparison of a size. -/
theorem compareSize_rename {collection : Expr} (h : c₁.RenamesTo c₂ r collection) (op : Comparison) (right : Expr) :
    c₂.compareSize (collection.rename r) op (right.rename r) =
      (c₁.compareSize collection op right).mapError (Rejection.rename r) := by
  cases collection with
  | ident name =>
    refine field_bind_rename (h name (by simp [Expr.names])) fun f g hfg => ?_
    rw [← hfg.kind, ← hfg.allows]
    cases f.kind with
    | jsonList path =>
      cases f.allows .size with
      | false => rfl
      | true => exact bind_mapError (constant_rename _ right) fun l => by cases l <;> rfl
    | _ => rfl
  | call symbol receiver args => rw [Expr.rename_call]; rfl
  | list items => rfl
  | const l => rfl

/-- So has a comparison, whatever its left operand is. -/
theorem comparison_rename {left : Expr} (h : c₁.RenamesTo c₂ r left) (op : Comparison) (right : Expr) :
    c₂.comparison (left.rename r) op (right.rename r) =
      (c₁.comparison left op right).mapError (Rejection.rename r) := by
  cases left with
  | ident name => exact compareField_rename (h name (by simp [Expr.names])) op right
  | list items => rfl
  | const l => rfl
  | call symbol receiver args =>
    have hm {x : Expr} (hx : x ∈ operands receiver args) := h.of_mem_operands hx
    rw [Expr.rename_call]
    simp only [comparison, Expr.operands_rename, Expr.wrongArity_rename]
    cases Symbol.ofText? symbol with
    | none => rfl
    | some s =>
      cases s with
      | size =>
        generalize operands receiver args = es at hm
        rcases es with _ | ⟨x, _ | ⟨y, es⟩⟩
        · rfl
        · exact compareSize_rename (hm List.mem_cons_self) op right
        · rfl
      | _ => rfl

/-- A search for a field in a list has one plan under either name, or one error up to the name. -/
theorem memberOfList_rename {name : String} (h : Option.Rel Field.SameUse (c₁.lookup? name) (c₂.lookup? (r name)))
    (items : List Expr) :
    c₂.memberOfList (r name) (items.map (Expr.rename r)) =
      (c₁.memberOfList name items).mapError (Rejection.rename r) := by
  unfold memberOfList
  refine field_bind_rename h fun f g hfg => ?_
  rw [← hfg.allows, ← hfg.kind, ← hfg.column, List.isEmpty_map]
  cases f.allows .isIn with
  | false => rfl
  | true =>
    cases items.isEmpty with
    | true => rfl
    | false => exact bind_mapError (elements_rename hfg items) fun vs => by cases f.kind <;> rfl

/-- So has a search for a constant in an array. -/
theorem elementOfField_rename {name : String} (h : Option.Rel Field.SameUse (c₁.lookup? name) (c₂.lookup? (r name)))
    (l : Literal) :
    c₂.elementOfField l (r name) = (c₁.elementOfField l name).mapError (Rejection.rename r) := by
  unfold elementOfField
  refine field_bind_rename h fun f g hfg => ?_
  rw [← hfg.kind, ← hfg.allows]
  cases f.kind with
  | jsonList path =>
    cases f.allows .elementIn with
    | false => rfl
    | true => exact bind_mapError (check_rename hfg l) fun l => rfl
  | _ => rfl

/-- So has a membership test, whatever its operands are. -/
theorem membership_rename {element collection : Expr} (he : c₁.RenamesTo c₂ r element)
    (hc : c₁.RenamesTo c₂ r collection) :
    c₂.membership (element.rename r) (collection.rename r) =
      (c₁.membership element collection).mapError (Rejection.rename r) := by
  cases element with
  | ident name =>
    cases collection with
    | list items =>
      rw [Expr.rename, Expr.rename, Expr.renameAll_eq_map]
      exact memberOfList_rename (he name (by simp [Expr.names])) items
    | call symbol receiver args => rw [Expr.rename_call]; rfl
    | _ => rfl
  | const l =>
    cases collection with
    | ident name => exact elementOfField_rename (hc name (by simp [Expr.names])) l
    | call symbol receiver args => rw [Expr.rename_call]; rfl
    | _ => rfl
  | call symbol receiver args => rw [Expr.rename_call]; rfl
  | list items => rfl

/-- A search in a text has one plan under either name, or one error up to the name. -/
theorem containment_rename {target : Expr} (h : c₁.RenamesTo c₂ r target) (needle : Expr) :
    c₂.containment (target.rename r) (needle.rename r) =
      (c₁.containment target needle).mapError (Rejection.rename r) := by
  cases target with
  | ident name =>
    refine field_bind_rename (h name (by simp [Expr.names])) fun f g hfg => ?_
    rw [← hfg.allows, ← hfg.column]
    cases f.allows .contains with
    | false => rfl
    | true =>
      refine bind_mapError (constant_rename _ needle) fun l => ?_
      exact bind_mapError (check_rename hfg l) fun l => rfl
  | call symbol receiver args => rw [Expr.rename_call]; rfl
  | _ => rfl

/-- So has an identifier by itself. -/
theorem standalone_rename {name : String} (h : Option.Rel Field.SameUse (c₁.lookup? name) (c₂.lookup? (r name))) :
    c₂.standalone (r name) = (c₁.standalone name).mapError (Rejection.rename r) := by
  unfold standalone
  refine field_bind_rename h fun f g hfg => ?_
  rw [← hfg.kind, ← hfg.allows, ← hfg.column]
  cases f.kind <;> cases f.allows .standalone <;> rfl

/-- A single predicate resolves to the same plan under new names, or is refused under them. -/
theorem singlePlan_rename {e : Expr} (h : c₁.RenamesTo c₂ r e) :
    c₂.singlePlan (e.rename r) = (c₁.singlePlan e).mapError (Rejection.rename r) := by
  cases e with
  | ident name => exact standalone_rename (h name (by simp [Expr.names]))
  | list items => rfl
  | const l => rfl
  | call symbol receiver args =>
    have hm {x : Expr} (hx : x ∈ operands receiver args) := h.of_mem_operands hx
    rw [Expr.rename_call]
    simp only [singlePlan, Expr.operands_rename, Expr.wrongArity_rename]
    cases Symbol.ofText? symbol with
    | none => rfl
    | some s =>
      generalize operands receiver args = es at hm
      -- Only calls with two operands look names up.
      rcases es with _ | ⟨x, _ | ⟨y, _ | ⟨z, es⟩⟩⟩
      · cases s <;> rfl
      · cases s <;> rfl
      · have hx := hm (x := x) (by simp)
        have hy := hm (x := y) (by simp)
        cases s with
        | compare op => exact comparison_rename hx op y
        | isIn => exact membership_rename hx hy
        | contains => exact containment_rename hx y
        | _ => rfl
      · cases s <;> rfl

end Catalog

/-! ## Filters -/

/-- A filter and the renamed one have the same clause at every index, or are refused for the same reason. -/
theorem Catalog.clauseAt_rename {c₁ c₂ : Catalog} {r : String → String} {e : Expr} (h : c₁.RenamesTo c₂ r e)
    (d : Dialect) (index : UInt64) :
    c₂.clauseAt d index (e.rename r) = (c₁.clauseAt d index e).mapError (Rejection.rename r) := by
  induction e using Expr.shapeInduction generalizing index with
  | joined e j x y he ihx ihy =>
    have hr : (e.rename r).shape = .joined j (x.rename r) (y.rename r) := by rw [Expr.shape_rename, he]; rfl
    have hn : e.names = x.names ++ y.names := Expr.names_of_joined he
    rw [c₂.clauseAt_of_joined d index hr, c₁.clauseAt_of_joined d index he]
    refine bind_mapError (ihx (h.mono (hn ▸ List.subset_append_left _ _)) index) fun a => ?_
    exact bind_mapError (ihy (h.mono (hn ▸ List.subset_append_right _ _)) a.next) fun b => rfl
  | negated e x he ih =>
    have hr : (e.rename r).shape = .negated (x.rename r) := by rw [Expr.shape_rename, he]; rfl
    rw [c₂.clauseAt_of_negated d index hr, c₁.clauseAt_of_negated d index he]
    exact bind_mapError (ih (h.mono (Expr.names_of_negated he ▸ List.Subset.refl _)) index) fun a => rfl
  | single e he =>
    have hr : (e.rename r).shape = .single := by rw [Expr.shape_rename, he]; rfl
    rw [c₂.clauseAt_of_single d index hr, c₁.clauseAt_of_single d index he, singlePlan_rename h]
    cases c₁.singlePlan e <;> rfl

namespace Compiler

/-- A filter and the renamed one compile to the same clause, or are refused for the same reason. -/
theorem compile_rename {c₁ c₂ : Catalog} {r : String → String} {e : Expr} (h : c₁.RenamesTo c₂ r e) (d : Dialect)
    (s : UInt64) : compile ⟨c₂, d, s⟩ (e.rename r) = (compile ⟨c₁, d, s⟩ e).mapError (Rejection.rename r) := by
  rw [compile_eq_clauseAt, compile_eq_clauseAt, Catalog.clauseAt_rename h]

/-- A refusal shows a name that the filter uses. -/
theorem mem_names_of_error {c : Catalog} {d : Dialect} {s : UInt64} {e : Expr} {why : Rejection} {n : String}
    (h : compile ⟨c, d, s⟩ e = .error why) (hn : why.name? = some n) : n ∈ e.names := by
  -- A renaming that leaves exactly the names of the filter alone leaves the refusal alone.
  let r (m : String) : String := if m ∈ e.names then m else m ++ "'"
  have fixed : ∀ m ∈ e.names, r m = m := fun m hm => if_pos hm
  have same : c.RenamesTo c r e := by
    intro m hm
    rw [fixed m hm]
    exact Field.SameUse.rel_refl _
  have hr := compile_rename same d s
  rw [Expr.rename_eq_self e fixed, h] at hr
  have hw : why.name? = why.name?.map r := by
    rw [← Rejection.name?_rename]
    exact congrArg Rejection.name? (Except.error.inj hr)
  rw [hn, Option.map_some, Option.some.injEq] at hw
  by_contra hm
  have hq : n = n ++ "'" := hw.trans (if_neg hm)
  have hl := congrArg String.length hq
  rw [String.length_append] at hl
  have : "'".length = 1 := rfl
  omega

end Compiler

/-- An operand that is a constant holds no name. -/
theorem Expr.flatMap_names_const (ls : List Literal) : (ls.map Expr.const).flatMap Expr.names = [] := by
  induction ls with
  | nil => rfl
  | cons l ls ih => rw [List.map_cons, List.flatMap_cons, ih]; rfl

/-- Every name of a predicate that resolves stands for a field. -/
theorem Catalog.Resolves.lookup?_of_mem_names {c : Catalog} {e : Expr} {p : Plan} (h : c.Resolves e p) {n : String}
    (hn : n ∈ e.names) : ∃ f, c.lookup? n = some f := by
  cases h with
  | column hf | flag hf =>
    obtain rfl := List.mem_singleton.mp hn
    exact ⟨_, hf⟩
  | comparison _ ho hf | contains _ ho hf | element _ ho hf =>
    rw [Expr.names_call, ho] at hn
    obtain rfl : n = _ := by simpa [Expr.names] using hn
    exact ⟨_, hf⟩
  | oneOf _ ho hf | anyTag _ ho hf =>
    rw [Expr.names_call, ho] at hn
    obtain rfl : n = _ := by
      simpa [Expr.names, Expr.namesAll_eq_flatMap, Expr.flatMap_names_const] using hn
    exact ⟨_, hf⟩
  | size _ ho _ ho' hf =>
    rw [Expr.names_call, ho, List.flatMap_cons, Expr.names_call, ho'] at hn
    obtain rfl : n = _ := by simpa [Expr.names] using hn
    exact ⟨_, hf⟩

/-- Every name of a filter in which nothing is refused stands for a field. -/
theorem Catalog.lookup?_of_mem_names {c : Catalog} {e : Expr} (h : (c.plan e).refusal? = none) {n : String}
    (hn : n ∈ e.names) : ∃ f, c.lookup? n = some f := by
  induction e using Expr.shapeInduction with
  | joined e j x y he ihx ihy =>
    rw [c.plan_of_joined he, Plan.refusal?_plan, Option.or_eq_none_iff] at h
    rw [Expr.names_of_joined he, List.mem_append] at hn
    rcases hn with hn | hn
    · exact ihx h.1 hn
    · exact ihy h.2 hn
  | negated e x he ih =>
    rw [c.plan_of_negated he] at h
    exact ih h (Expr.names_of_negated he ▸ hn)
  | single e he =>
    obtain ⟨p, hp⟩ := (refusal?_plan_of_single he).mp h
    exact hp.lookup?_of_mem_names hn

/-- Names matter only through what they stand for: a filter whose names stand in one catalog for what their new names
stand for in another, or for nothing like them, compiles to the same clause as the renamed filter does there, or both
are refused for the same reason, which shows the new name. So an alias whose target is not an alias compiles as its
target does, while an alias of an alias stands for nothing (`alias_of_alias_is_unknown`); a refusal shows a name as the
filter has it; and a filter that compiles is not changed by names that are registered afterwards and have not been
registered before. -/
theorem names_are_only_looked_up (d : Dialect) (s : UInt64) (e : Expr) :
    (∀ (c₁ c₂ : Catalog) (r : String → String),
      (∀ n ∈ e.names, Option.Rel Field.SameUse (c₁.lookup? n) (c₂.lookup? (r n))) →
        Compiler.compile ⟨c₂, d, s⟩ (e.rename r) = (Compiler.compile ⟨c₁, d, s⟩ e).mapError (Rejection.rename r)) ∧
    (∀ (c : Catalog) (name target : String), c.entry? name = some (.alias target) →
      (∀ target', c.entry? target ≠ some (.alias target')) →
        let r := fun n => if n = name then target else n
        Compiler.compile ⟨c, d, s⟩ (e.rename r) = (Compiler.compile ⟨c, d, s⟩ e).mapError (Rejection.rename r)) ∧
    (∀ (c : Catalog) (name target target' : String), c.entry? name = some (.alias target) →
      c.entry? target = some (.alias target') → c.lookup? name = none) ∧
    (∀ (c : Catalog) (why : Rejection) (n : String), Compiler.compile ⟨c, d, s⟩ e = .error why →
      why.name? = some n → n ∈ e.names) ∧
    (∀ (c : Catalog) (rs : List Registration) (clause : Clause), (∀ reg ∈ rs, c.entry? reg.name = none) →
      Compiler.compile ⟨c, d, s⟩ e = .ok clause → Compiler.compile ⟨c.registerAll rs, d, s⟩ e = .ok clause) := by
  refine ⟨?_, ?_, ?_, ?_, ?_⟩
  · intro c₁ c₂ r h
    exact Compiler.compile_rename h d s
  · intro c name target ha ht r
    refine Compiler.compile_rename (fun n _ => ?_) d s
    have hl : c.lookup? (r n) = c.lookup? n := by
      by_cases hn : n = name
      · have hr : r n = target := if_pos hn
        rw [hr, hn, Catalog.lookup?_of_alias ha ht]
      · have hr : r n = n := if_neg hn
        rw [hr]
    rw [hl]
    exact Field.SameUse.rel_refl _
  · intro c name target target' h ht
    exact Catalog.lookup?_of_alias_of_alias h ht
  · intro c why n h hn
    exact Compiler.mem_names_of_error h hn
  · intro c rs clause hrs h
    have same : c.RenamesTo (c.registerAll rs) id e := by
      intro n hn
      obtain ⟨f, hf⟩ := Catalog.lookup?_of_mem_names (Compiler.compile_isOk_iff.mp ⟨clause, h⟩) hn
      rw [hf, id, Catalog.lookup?_registerAll hrs hf]
      exact .some (.refl f)
    have hc := Compiler.compile_rename same d s
    rw [Expr.rename_eq_self (r := id) e fun _ _ => rfl, h] at hc
    exact hc

/-- A filter with an alias and the size of a collection, refused at the size: in a catalog with other names, with the
alias replaced by what it stands for, and under its own names. The part that compiles does so in the catalog that has
grown by a field and by an alias of the alias, which stands for nothing. -/
theorem names_are_only_looked_up_size :
    let items : JsonPath := ⟨⟨"item", "data"⟩, ["items"]⟩
    let c₁ := Catalog.empty "item"
      |>.withField ⟨"n", .int, .scalar, ⟨"item", "n"⟩, Operation.ordering⟩
      |>.withField ⟨"tags", .string, .jsonList items, items.column, [.size, .elementIn]⟩
      |>.withAlias "m" "n"
      |>.withAlias "lost" "found"
    let c₂ := Catalog.empty "item"
      |>.withField ⟨"number", .int, .scalar, ⟨"item", "n"⟩, Operation.ordering⟩
      |>.withField ⟨"labels", .string, .jsonList items, items.column, [.elementIn, .size]⟩
    let r : String → String := fun n => if n = "m" then "number" else "labels"
    let a : String → String := fun n => if n = "m" then "n" else n
    let more : Expr := .compare (.ident "m") .greaterThan (.int 3)
    let e : Expr := .and more (.eq (.size (.ident "tags")) (.string "x"))
    let rs : List Registration :=
      [.field ⟨"found", .bool, .boolColumn, ⟨"item", "found"⟩, [.standalone]⟩, .alias "o" "m"]
    (∀ n ∈ e.names, Option.Rel Field.SameUse (c₁.lookup? n) (c₂.lookup? (r n))) ∧
      Compiler.compile ⟨c₂, .postgres, 4⟩ (e.rename r) = .error (.typeMismatch (.sizeOf "labels") .int .string) ∧
      c₁.entry? "m" = some (.alias "n") ∧ (∀ target, c₁.entry? "n" ≠ some (.alias target)) ∧
      Compiler.compile ⟨c₁, .postgres, 4⟩ (e.rename a) = .error (.typeMismatch (.sizeOf "tags") .int .string) ∧
      Compiler.compile ⟨c₁, .postgres, 4⟩ e = .error (.typeMismatch (.sizeOf "tags") .int .string) ∧ "tags" ∈ e.names ∧
      (∀ reg ∈ rs, c₁.entry? reg.name = none) ∧
      Catalog.entry? (c₁.registerAll rs) "o" = some (.alias "m") ∧
      Catalog.entry? (c₁.registerAll rs) "m" = some (.alias "n") ∧
      (c₁.registerAll rs).lookup? "o" = none ∧
      Compiler.compile ⟨c₁, .postgres, 4⟩ more = .ok ⟨"item.n > $4", [.int 3], 5⟩ ∧
      Compiler.compile ⟨c₁.registerAll rs, .postgres, 4⟩ more = .ok ⟨"item.n > $4", [.int 3], 5⟩ := by
  intro items c₁ c₂ r a more e rs
  obtain ⟨renamed, aliased, lost, shown, -⟩ := names_are_only_looked_up .postgres 4 e
  obtain ⟨-, -, -, -, grown⟩ := names_are_only_looked_up .postgres 4 more
  have refused : Compiler.compile ⟨c₁, .postgres, 4⟩ e = .error (.typeMismatch (.sizeOf "tags") .int .string) := by
    decide +kernel
  have compiled : Compiler.compile ⟨c₁, .postgres, 4⟩ more = .ok ⟨"item.n > $4", [.int 3], 5⟩ := by decide +kernel
  have names : ∀ n ∈ e.names, Option.Rel Field.SameUse (c₁.lookup? n) (c₂.lookup? (r n)) := by
    intro n hn
    have he : e.names = ["m", "tags"] := by decide +kernel
    rw [he, List.mem_cons, List.mem_singleton] at hn
    rcases hn with rfl | rfl
    · exact .some ⟨rfl, rfl, rfl, fun _ => rfl⟩
    · exact .some ⟨rfl, rfl, rfl, fun o => by
        simp only [Field.allows]
        exact (List.Perm.swap _ _ _).contains_eq⟩
  have isAlias : c₁.entry? "m" = some (.alias "n") := by decide +kernel
  have isField : ∀ target, c₁.entry? "n" ≠ some (.alias target) := by
    intro target h
    cases h
  have new : ∀ reg ∈ rs, c₁.entry? reg.name = none := by decide +kernel
  have again : Catalog.entry? (c₁.registerAll rs) "o" = some (.alias "m") := by decide +kernel
  have first : Catalog.entry? (c₁.registerAll rs) "m" = some (.alias "n") := by decide +kernel
  exact ⟨names, (renamed c₁ c₂ r names).trans (by rw [refused]; rfl), isAlias, isField,
    (aliased c₁ "m" "n" isAlias isField).trans (by rw [refused]; rfl), refused, shown c₁ _ "tags" refused rfl, new,
    again, first, lost _ "o" "m" "n" again first, compiled, grown c₁ rs _ new compiled⟩

/-- An alias of an alias does not compile as its target does: `b == 1` compiles, where `b` is an alias of a field, and
`a == 1` is refused, where `a` is an alias of `b`. -/
theorem alias_of_alias_is_unknown :
    let c := Catalog.empty "memo"
      |>.withField ⟨"n", .int, .scalar, ⟨"memo", "n"⟩, [.compare .equal]⟩
      |>.withAlias "b" "n"
      |>.withAlias "a" "b"
    let e (name : String) : Expr := .eq (.ident name) (.int 1)
    let r : String → String := fun n => if n = "a" then "b" else n
    c.entry? "a" = some (.alias "b") ∧ (e "a").rename r = e "b" ∧
      Compiler.compile ⟨c, .mySql, 1⟩ (e "b") = .ok ⟨"`memo`.`n` = ?", [.int 1], 2⟩ ∧
      Compiler.compile ⟨c, .mySql, 1⟩ (e "a") = .error (.unknownIdentifier "a") ∧
      Compiler.compile ⟨c, .mySql, 1⟩ ((e "a").rename r) ≠
        (Compiler.compile ⟨c, .mySql, 1⟩ (e "a")).mapError (Rejection.rename r) := by
  decide +kernel

end WhereClause
