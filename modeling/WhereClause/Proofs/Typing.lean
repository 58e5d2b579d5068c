import WhereClause.Proofs.Plan.Resolved

/-!
# The filters that a catalog accepts

`Catalog.Accepts` is the filter language of a catalog, given by one rule for each form of filter and without the order
in which a compiler looks for faults. A filter compiles if and only if it belongs to that language
(`Compiler.compiles_iff`), whatever the dialect and the index it starts at.
-/

namespace WhereClause

/-- A field may be compared with a constant: a point in time with an integer or a text that names an instant, a list
with nothing, and every other field with the constants of its type. -/
def Field.Comparable (f : Field) (l : Literal) : Prop :=
  match f.kind, l with
  | .jsonList _, _ => False
  | .timestamp, .bool _ => False
  | .timestamp, .int _ => True
  | .timestamp, .string s => ∃ n, parseTimestamp s = .ok n
  | _, l => f.type.accepts l = true

/-- An expression is a filter over a catalog. The operands of a call are its receiver, if it has one, and its
arguments. -/
inductive Catalog.Accepts (c : Catalog) : Expr → Prop
  /-- A truth value by itself. -/
  | standalone {name : String} {f : Field} : c.lookup? name = some f → f.allows .standalone = true →
      (f.kind = .boolColumn ∨ ∃ path, f.kind = .jsonBool path) → Accepts c (.ident name)
  /-- `l && r` and `l || r`. -/
  | joined {symbol : String} {receiver : Option Expr} {args : List Expr} (j : Junctor) {l r : Expr} :
      Symbol.ofText? symbol = some j.symbol → operands receiver args = [l, r] → Accepts c l → Accepts c r →
      Accepts c (.call symbol receiver args)
  /-- `!e`. -/
  | negated {symbol : String} {receiver : Option Expr} {args : List Expr} {e : Expr} :
      Symbol.ofText? symbol = some .not → operands receiver args = [e] → Accepts c e →
      Accepts c (.call symbol receiver args)
  /-- A comparison of a field with a constant. -/
  | comparison {symbol : String} {receiver : Option Expr} {args : List Expr} {op : Comparison} {name : String}
      {f : Field} {l : Literal} : Symbol.ofText? symbol = some (.compare op) → operands receiver args = [.ident name, .const l] →
      c.lookup? name = some f → f.allows (.compare op) = true → f.Comparable l → Accepts c (.call symbol receiver args)
  /-- A comparison of the size of a list with an integer. -/
  | size {symbol symbol' : String} {receiver receiver' : Option Expr} {args args' : List Expr} {op : Comparison}
      {name : String} {f : Field} {path : JsonPath} {n : Int64} : Symbol.ofText? symbol = some (.compare op) →
      operands receiver args = [.call symbol' receiver' args', .const (.int n)] → Symbol.ofText? symbol' = some .size →
      operands receiver' args' = [.ident name] → c.lookup? name = some f → f.kind = .jsonList path →
      f.allows .size = true → Accepts c (.call symbol receiver args)
  /-- A field among constants. -/
  | listed {symbol : String} {receiver : Option Expr} {args : List Expr} {name : String} {f : Field}
      {ls : List Literal} : Symbol.ofText? symbol = some .isIn → operands receiver args = [.ident name, .list (ls.map .const)] → ls ≠ [] →
      c.lookup? name = some f → f.allows .isIn = true → (∀ l ∈ ls, f.type.accepts l = true) →
      Accepts c (.call symbol receiver args)
  /-- A constant in a list. -/
  | element {symbol : String} {receiver : Option Expr} {args : List Expr} {name : String} {f : Field} {l : Literal}
      {path : JsonPath} : Symbol.ofText? symbol = some .isIn → operands receiver args = [.const l, .ident name] →
      c.lookup? name = some f → f.kind = .jsonList path → f.allows .elementIn = true → f.type.accepts l = true →
      Accepts c (.call symbol receiver args)
  /-- A constant in a text. -/
  | contains {symbol : String} {receiver : Option Expr} {args : List Expr} {name : String} {f : Field} {l : Literal} :
      Symbol.ofText? symbol = some .contains → operands receiver args = [.ident name, .const l] →
      c.lookup? name = some f → f.allows .contains = true → f.type.accepts l = true →
      Accepts c (.call symbol receiver args)

/-! ## Single predicates -/

/-- A constant names an instant if it is a number or a text that parses as one. -/
theorem Literal.instant?_eq_ok_some_iff {l : Literal} :
    (∃ n, l.instant? = .ok (some n)) ↔ (∃ n, l = .int n) ∨ ∃ s n, l = .string s ∧ parseTimestamp s = .ok n := by
  cases l with
  | bool b => simp [Literal.instant?]
  | int n => simp [Literal.instant?]
  | string s => cases h : parseTimestamp s <;> simp [Literal.instant?, Except.map, h]

/-- A field that is neither a timestamp nor a list is compared with what it accepts. -/
theorem Field.comparable_of_checked {f : Field} {l : Literal} (hk : f.kind ≠ .timestamp)
    (hl : ∀ path, f.kind ≠ .jsonList path) : f.Comparable l ↔ f.type.accepts l = true := by
  unfold Field.Comparable
  split
  next path h => exact absurd h (hl path)
  next h => exact absurd h hk
  next h => exact absurd h hk
  next h => exact absurd h hk
  · rfl

/-- The comparisons of a field that are resolved are those with a constant it may be compared with. -/
theorem Field.exists_compares_iff {f : Field} {op : Comparison} {l : Literal} :
    (∃ p, f.Compares op l p) ↔ f.Comparable l := by
  constructor
  · rintro ⟨p, h⟩
    cases h with
    | instant hk hn =>
      obtain ⟨n, rfl⟩ | ⟨s, n, rfl, hs⟩ := Literal.instant?_eq_ok_some_iff.mp ⟨_, hn⟩
      · simp only [Field.Comparable, hk]
      · simp only [Field.Comparable, hk]
        exact ⟨n, hs⟩
    | checked hk hl ha => exact (Field.comparable_of_checked hk hl).mpr ha
  · intro h
    by_cases hk : f.kind = .timestamp
    · have hn : ∃ n, l.instant? = .ok (some n) := by
        rw [Literal.instant?_eq_ok_some_iff]
        cases l with
        | bool b => simp only [Field.Comparable, hk] at h
        | int n => exact .inl ⟨n, rfl⟩
        | string s =>
          simp only [Field.Comparable, hk] at h
          obtain ⟨n, hn⟩ := h
          exact .inr ⟨s, n, rfl, hn⟩
      obtain ⟨n, hn⟩ := hn
      exact ⟨_, .instant hk hn⟩
    · have hl : ∀ path, f.kind ≠ .jsonList path := by
        intro path hf
        simp only [Field.Comparable, hf] at h
      exact ⟨_, .checked hk hl ((Field.comparable_of_checked hk hl).mp h)⟩

/-- What resolves is a filter. -/
theorem Catalog.Resolves.accepts {c : Catalog} {e : Expr} {p : Plan} (h : c.Resolves e p) : c.Accepts e := by
  cases h with
  | column hf ha hk => exact .standalone hf ha (.inl hk)
  | flag hf ha hk => exact .standalone hf ha (.inr ⟨_, hk⟩)
  | comparison hs ho hf ha hc => exact .comparison hs ho hf ha (Field.exists_compares_iff.mp ⟨_, hc⟩)
  | size hs ho hs' ho' hf ha hk => exact .size hs ho hs' ho' hf hk ha
  | oneOf hs ho hf ha hne hls hk => exact .listed hs ho hne hf ha hls
  | anyTag hs ho hf ha hne hls hk => exact .listed hs ho hne hf ha hls
  | element hs ho hf ha hl hk => exact .element hs ho hf hk ha hl
  | contains hs ho hf ha hl => exact .contains hs ho hf ha hl

/-! ## Filters -/

/-- Nothing in the plan of a filter is refused. -/
theorem Catalog.Accepts.refusal?_eq_none {c : Catalog} {e : Expr} (h : c.Accepts e) : (c.plan e).refusal? = none := by
  have resolved {e : Expr} {p : Plan} (h : c.Resolves e p) : (c.plan e).refusal? = none := by
    rw [h.plan_eq]
    exact h.refusal?_eq_none
  induction h with
  | standalone hf ha hk =>
    obtain hk | ⟨path, hk⟩ := hk
    · exact resolved (.column hf ha hk)
    · exact resolved (.flag hf ha hk)
  | joined j hs ho _ _ ihl ihr =>
    rw [c.plan_of_joined (Expr.shape_eq_joined_iff.mpr ⟨_, _, _, rfl, hs, ho⟩), Plan.refusal?_plan, ihl, ihr]
    rfl
  | negated hs ho _ ih =>
    rw [c.plan_of_negated (Expr.shape_eq_negated_iff.mpr ⟨_, _, _, rfl, hs, ho⟩)]
    exact ih
  | comparison hs ho hf ha hc =>
    obtain ⟨p, hp⟩ := Field.exists_compares_iff.mpr hc
    exact resolved (.comparison hs ho hf ha hp)
  | size hs ho hs' ho' hf hk ha => exact resolved (.size hs ho hs' ho' hf ha hk)
  | @listed _ _ _ _ f _ hs ho hne hf ha hls =>
    by_cases hk : ∃ path, f.kind = .jsonList path
    · obtain ⟨path, hk⟩ := hk
      exact resolved (.anyTag hs ho hf ha hne hls hk)
    · exact resolved (.oneOf hs ho hf ha hne hls fun path h => hk ⟨path, h⟩)
  | element hs ho hf hk ha hl => exact resolved (.element hs ho hf ha hl hk)
  | contains hs ho hf ha hl => exact resolved (.contains hs ho hf ha hl)

/-- An expression in whose plan nothing is refused is a filter. -/
theorem Catalog.accepts_of_refusal?_eq_none {c : Catalog} {e : Expr} (h : (c.plan e).refusal? = none) :
    c.Accepts e := by
  induction e using Expr.shapeInduction with
  | joined e j l r he ihl ihr =>
    rw [c.plan_of_joined he, Plan.refusal?_plan, Option.or_eq_none_iff] at h
    obtain ⟨symbol, receiver, args, rfl, hs, ho⟩ := Expr.shape_eq_joined_iff.mp he
    exact .joined j hs ho (ihl h.1) (ihr h.2)
  | negated e x he ih =>
    rw [c.plan_of_negated he] at h
    obtain ⟨symbol, receiver, args, rfl, hs, ho⟩ := Expr.shape_eq_negated_iff.mp he
    exact .negated hs ho (ih h)
  | single e he =>
    obtain ⟨p, hp⟩ := (Catalog.refusal?_plan_of_single he).mp h
    exact hp.accepts

/-- An expression compiles, for any dialect and from any index, if and only if it is a filter over the catalog. -/
theorem Compiler.compiles_iff (c : Catalog) (d : Dialect) (start : UInt64) (e : Expr) :
    (∃ clause, Compiler.compile ⟨c, d, start⟩ e = .ok clause) ↔ c.Accepts e :=
  Compiler.compile_isOk_iff.trans ⟨Catalog.accepts_of_refusal?_eq_none, Catalog.Accepts.refusal?_eq_none⟩

end WhereClause
