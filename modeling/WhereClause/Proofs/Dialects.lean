import WhereClause.Proofs.Arguments
import WhereClause.Proofs.Fragment.Inert

/-!
# The two dialects side by side

A filter is accepted or refused whatever the dialect, and the two clauses of a filter bind the same values, but for a
truth value that is compared with one in a document: where PostgreSQL binds it as it is, MySQL binds its text
(`dialects_agree`). Over the catalogs of the entities no truth value is bound elsewhere, so there the values of MySQL
are those of PostgreSQL with every truth value spelled out.
-/

namespace WhereClause

/-- A value with a truth value spelled out as a text. -/
def Value.spelled : Value → Value
  | .boolean b => .string (toString b)
  | v => v

/-! ## One constant in both dialects -/

/-- A constant is bound alike in both dialects, a boolean beside a flag apart. -/
theorem Literal.boundAt_dialect {place : Place} {l : Literal} (h : ∀ b, ¬(place = .flag ∧ l = .bool b)) :
    l.boundAt .mySql place = l.boundAt .postgres place := by
  cases place with
  | flag =>
    cases l with
    | bool b => exact absurd ⟨rfl, rfl⟩ (h b)
    | int n => rfl
    | string s => rfl
  | instant => cases l <;> rfl
  | pattern => cases l <;> rfl
  | plain => cases l <;> rfl

/-- Unless a truth value is bound as it is, MySQL binds what PostgreSQL does, spelled out. -/
theorem Literal.boundAt_mySql_eq_spelled {place : Place} {l : Literal} (h : ∀ b, ¬(place = .plain ∧ l = .bool b)) :
    l.boundAt .mySql place = (l.boundAt .postgres place).map Value.spelled := by
  cases place with
  | plain =>
    cases l with
    | bool b => exact absurd ⟨rfl, rfl⟩ (h b)
    | int n => rfl
    | string s => rfl
  | instant =>
    cases l with
    | bool b => rfl
    | int n => rfl
    | string s =>
      simp only [boundAt]
      cases parseTimestamp s <;> rfl
  | pattern => cases l <;> rfl
  | flag => cases l <;> rfl

/-! ## Truth values in the catalogs of the entities -/

/-- A field of truth values is not looked up in a list, and is compared only if it is stored in a document. -/
def Field.keepsBooleans (f : Field) : Bool :=
  match f.type, f.kind with
  | .bool, .jsonBool _ => !f.allows .isIn
  | .bool, _ => f.operations.all fun o => decide (o = .standalone)
  | _, _ => true

/-- A field that keeps booleans to its flag takes none in any other operation. -/
theorem Field.type_ne_bool {f : Field} {o : Operation} (h : f.keepsBooleans = true) (ho : f.allows o = true)
    (hn : o ≠ .standalone) (hj : ∀ path, f.kind = .jsonBool path → o = .isIn) : f.type ≠ .bool := by
  intro ht
  have hk : ∀ path, f.kind ≠ .jsonBool path := by
    intro path hk
    simp [keepsBooleans, ht, hk, hj path hk ▸ ho] at h
  have hall : (f.operations.all fun o => decide (o = .standalone)) = true := by
    unfold keepsBooleans at h
    split at h
    next path _ hp => exact absurd hp (hk path)
    · exact h
    next hb _ => exact absurd ht hb
  have hm : o ∈ f.operations := List.contains_iff_mem.mp ho
  exact hn (of_decide_eq_true (List.all_eq_true.mp hall o hm))

/-- Only fields of type bool accept booleans. -/
theorem FieldType.eq_bool_of_accepts {t : FieldType} {b : Bool} (h : t.accepts (.bool b) = true) : t = .bool := by
  cases t <;> first | rfl | cases h

/-- The fields of an entity keep booleans to their flags. -/
theorem Entity.keepsBooleans_catalog (e : Entity) {name : String} {f : Field} (h : e.catalog.lookup? name = some f) :
    f.keepsBooleans = true := by
  have all : e.catalog.fields.all Field.keepsBooleans = true := by
    cases e <;> decide +kernel
  exact List.all_eq_true.mp all f (Catalog.mem_fields_of_lookup? h)

/-- Where fields keep truth values, a single predicate binds none as it is. -/
theorem Catalog.Resolves.plain_bool_not_mem {c : Catalog} {e : Expr} {p : Plan}
    (hc : ∀ name f, c.lookup? name = some f → f.keepsBooleans = true) (h : c.Resolves e p) (b : Bool) :
    (Place.plain, Literal.bool b) ∉ c.placed .plain e := by
  intro hm
  cases h with
  | column => cases hm
  | flag => cases hm
  | @comparison _ _ _ op name f l _ hs ho hf ha hl =>
    rw [c.placed_of_comparison hs ho hf, List.mem_singleton] at hm
    obtain ⟨hp, rfl⟩ := Prod.mk.inj hm
    cases hl with
    | instant hk => simp [Field.place, hk] at hp
    | checked _ _ hb =>
      refine Field.type_ne_bool (hc name f hf) ha (by simp) ?_ (FieldType.eq_bool_of_accepts hb)
      intro path hk
      simp [Field.place, hk] at hp
  | size hs ho _ ho' =>
    rw [c.placed_of_size hs ho ho', List.mem_singleton] at hm
    cases hm
  | @oneOf _ _ _ name f ls hs ho hf ha _ hls =>
    rw [c.placed_of_list hs ho] at hm
    obtain ⟨l, hl, he⟩ := List.mem_map.mp hm
    obtain ⟨-, rfl⟩ := Prod.mk.inj he
    exact Field.type_ne_bool (hc name f hf) ha (by simp) (fun _ _ => rfl) (FieldType.eq_bool_of_accepts (hls _ hl))
  | @anyTag _ _ _ name f ls _ hs ho hf ha _ hls =>
    rw [c.placed_of_list hs ho] at hm
    obtain ⟨l, hl, he⟩ := List.mem_map.mp hm
    obtain ⟨-, rfl⟩ := Prod.mk.inj he
    exact Field.type_ne_bool (hc name f hf) ha (by simp) (fun _ _ => rfl) (FieldType.eq_bool_of_accepts (hls _ hl))
  | @element _ _ _ name f l _ hs ho hf ha hb hk =>
    rw [c.placed_of_element hs ho, List.mem_singleton] at hm
    obtain ⟨-, rfl⟩ := Prod.mk.inj hm
    refine Field.type_ne_bool (hc name f hf) ha (by simp) ?_ (FieldType.eq_bool_of_accepts hb)
    intro path hj
    rw [hk] at hj
    cases hj
  | contains hs ho =>
    rw [c.placed_of_contains hs ho, List.mem_singleton] at hm
    cases hm

/-- A filter that compiles holds no boolean that is bound as it stands. -/
theorem Catalog.plain_bool_not_mem {c : Catalog} {e : Expr}
    (hc : ∀ name f, c.lookup? name = some f → f.keepsBooleans = true) (h : (c.plan e).refusal? = none) (b : Bool) :
    (Place.plain, Literal.bool b) ∉ c.placed .plain e := by
  induction e using Expr.shapeInduction with
  | joined e j l r he ihl ihr =>
    rw [c.plan_of_joined he, Plan.refusal?_plan, Option.or_eq_none_iff] at h
    rw [c.placed_of_joined .plain he, List.mem_append, not_or]
    exact ⟨ihl h.1, ihr h.2⟩
  | negated e x he ih =>
    rw [c.plan_of_negated he] at h
    rw [c.placed_of_negated .plain he]
    exact ih h
  | single e he =>
    obtain ⟨p, hp⟩ := (Catalog.refusal?_plan_of_single he).mp h
    exact hp.plain_bool_not_mem hc b

/-! ## Clauses -/

/-- The value at a position is the constant at that position, bound as its place asks for. -/
theorem getElem?_of_map_eq {d : Dialect} {vs : List Value} {placed : List (Place × Literal)}
    (h : vs.map some = placed.map fun (place, l) => l.boundAt d place) (i : Nat) :
    vs[i]? = placed[i]?.bind fun (place, l) => l.boundAt d place := by
  have hi : vs[i]?.map some = placed[i]?.map fun (place, l) => l.boundAt d place := by
    rw [← List.getElem?_map, h, List.getElem?_map]
  cases hv : vs[i]? with
  | none =>
    cases hp : placed[i]? with
    | none => rfl
    | some site => simp [hv, hp] at hi
  | some v =>
    cases hp : placed[i]? with
    | none => simp [hv, hp] at hi
    | some site => simpa [hv, hp] using hi

/-- The two dialects agree on all but the text. They accept the same filters and refuse the others for the same
reasons. Both clauses of a filter have as many values and the same next index; the values at a position are the same,
unless the constant there is a truth value compared with one in a document, which MySQL binds as a text. Over the
catalog of an entity, the values of MySQL are those of PostgreSQL with every truth value as a text. -/
theorem dialects_agree (c : Catalog) (start : UInt64) (e : Expr) :
    ((∃ x, Compiler.compile ⟨c, .mySql, start⟩ e = .ok x) ↔ ∃ y, Compiler.compile ⟨c, .postgres, start⟩ e = .ok y) ∧
      (∀ why, Compiler.compile ⟨c, .mySql, start⟩ e = .error why ↔
        Compiler.compile ⟨c, .postgres, start⟩ e = .error why) ∧
      ∀ x y, Compiler.compile ⟨c, .mySql, start⟩ e = .ok x → Compiler.compile ⟨c, .postgres, start⟩ e = .ok y →
        x.args.length = y.args.length ∧ x.next = y.next ∧
          (∀ (i : Nat) (b : Bool), (c.placed .plain e)[i]? = some (.flag, .bool b) →
            x.args[i]? = some (.string (toString b)) ∧ y.args[i]? = some (.boolean b)) ∧
          (∀ i : Nat, (∀ b : Bool, (c.placed .plain e)[i]? ≠ some (.flag, .bool b)) → x.args[i]? = y.args[i]?) ∧
          ∀ entity : Entity, c = entity.catalog → x.args = y.args.map Value.spelled := by
  refine ⟨?_, fun why => ?_, fun x y hx hy => ?_⟩
  · rw [Compiler.compile_isOk_iff, Compiler.compile_isOk_iff]
  · rw [Compiler.compile_error_iff, Compiler.compile_error_iff]
  obtain ⟨hr, hxa, hxn⟩ := Compiler.args_of_compile hx
  obtain ⟨-, hya, hyn⟩ := Compiler.args_of_compile hy
  have hxp := c.args_plan_eq .mySql hr
  have hyp := c.args_plan_eq .postgres hr
  rw [← hxa] at hxp
  rw [← hya] at hyp
  have hl : x.args.length = y.args.length := by
    have hxl := congrArg List.length hxp
    have hyl := congrArg List.length hyp
    simp only [List.length_map] at hxl hyl
    rw [hxl, hyl]
  refine ⟨hl, by rw [hxn, hyn, hl], fun i b hi => ?_, fun i hi => ?_, ?_⟩
  · rw [getElem?_of_map_eq hxp, getElem?_of_map_eq hyp, hi]
    exact ⟨rfl, rfl⟩
  · rw [getElem?_of_map_eq hxp, getElem?_of_map_eq hyp]
    cases hp : (c.placed .plain e)[i]? with
    | none => rfl
    | some site =>
      refine Literal.boundAt_dialect fun b hb => hi b ?_
      rw [hp, ← hb.1, ← hb.2]
  · rintro entity rfl
    refine List.ext_getElem? fun i => ?_
    rw [List.getElem?_map, getElem?_of_map_eq hxp, getElem?_of_map_eq hyp]
    cases hp : (entity.catalog.placed .plain e)[i]? with
    | none => rfl
    | some site =>
      refine Literal.boundAt_mySql_eq_spelled fun b hb => ?_
      have hm := List.mem_of_getElem? hp
      rw [← Prod.eta site, hb.1, hb.2] at hm
      exact Catalog.plain_bool_not_mem (fun _ _ => entity.keepsBooleans_catalog) hr b hm

/-- A flag in a document and a tag, with the flag before the tag. -/
theorem dialects_agree_memo :
    let e : Expr := .and (.eq (.ident "has_code") (.bool false)) (.isIn (.string "a") (.ident "tags"))
    let x : Clause :=
      ⟨"(JSON_EXTRACT(`memo`.`payload`, '$.property.hasCode') = CAST(? AS JSON) AND " ++
          "JSON_CONTAINS(JSON_EXTRACT(`memo`.`payload`, '$.tags'), ?))",
        [.string "false", .string "a"], 7⟩
    let y : Clause :=
      ⟨"((memo.payload->'property'->>'hasCode')::boolean = $5 AND memo.payload->'tags' @> jsonb_build_array($6))",
        [.boolean false, .string "a"], 7⟩
    Compiler.compile ⟨memoCatalog, .mySql, 5⟩ e = .ok x ∧ Compiler.compile ⟨memoCatalog, .postgres, 5⟩ e = .ok y ∧
      (memoCatalog.placed .plain e)[0]? = some (.flag, .bool false) ∧
      (∀ b : Bool, (memoCatalog.placed .plain e)[1]? ≠ some (.flag, .bool b)) ∧
      x.args[0]? = some (.string "false") ∧ y.args[0]? = some (.boolean false) ∧ x.args[1]? = y.args[1]? ∧
      x.args = y.args.map Value.spelled := by
  intro e x y
  have hx : Compiler.compile ⟨memoCatalog, .mySql, 5⟩ e = .ok x := by decide +kernel
  have hy : Compiler.compile ⟨memoCatalog, .postgres, 5⟩ e = .ok y := by decide +kernel
  have h0 : (memoCatalog.placed .plain e)[0]? = some (.flag, .bool false) := by decide +kernel
  have h1 : ∀ b : Bool, (memoCatalog.placed .plain e)[1]? ≠ some (.flag, .bool b) := by decide +kernel
  obtain ⟨-, -, flag, other, entity⟩ := (dialects_agree memoCatalog 5 e).2.2 x y hx hy
  exact ⟨hx, hy, h0, h1, (flag 0 false h0).1, (flag 0 false h0).2, other 1 h1, entity .memo rfl⟩

end WhereClause
